import Mathlib.Data.List.Perm.Basic
import Mathlib.Logic.Function.Basic

/-!
# Reference counts

Objects `V` are shared through references, and each of them carries the number
of references to it. The references themselves are a list; who holds which one
does not matter to the count, so the list is good up to the order.

The moves are those of a reference count: a reference is taken, one is dropped,
and one changes hands. An object whose count is one and that has a reference
in the list is in nobody else's hands.
-/

namespace Os161.Lib

open Function

variable {V : Type} [DecidableEq V]

/-- The counts are those of the references. -/
def Counted (count : V → Nat) (refs : List V) : Prop := ∀ v, count v = refs.count v

namespace Counted

variable {count count' : V → Nat} {refs refs' : List V} {v : V}

/-- A reference that changes hands is not counted anew. -/
theorem perm (h : Counted count refs) (hp : refs.Perm refs') : Counted count refs' :=
  fun v => (h v).trans (hp.count_eq v)

/-- The references determine the counts. -/
theorem unique (h : Counted count refs) (h' : Counted count' refs) : count' = count :=
  funext fun v => (h' v).trans (h v).symm

theorem pos (h : Counted count refs) (hv : v ∈ refs) : 0 < count v := by
  rw [h v]
  exact List.count_pos_iff.2 hv

theorem take (h : Counted count refs) (v : V) :
    Counted (update count v (count v + 1)) (v :: refs) := by
  intro w
  by_cases hw : w = v
  · subst hw
    rw [update_self, List.count_cons_self, h w]
  · rw [update_of_ne hw, List.count_cons_of_ne (Ne.symm hw), h w]

theorem drop (h : Counted count (v :: refs)) : Counted (update count v (count v - 1)) refs := by
  intro w
  by_cases hw : w = v
  · subst hw
    rw [update_self, h w, List.count_cons_self, Nat.add_sub_cancel]
  · rw [update_of_ne hw, h w, List.count_cons_of_ne (Ne.symm hw)]

/-- The last reference. -/
theorem last (h : Counted count (v :: refs)) (h1 : count v ≤ 1) : v ∉ refs := by
  rw [h v, List.count_cons_self] at h1
  exact List.count_eq_zero.1 (by omega)

end Counted

/-! ## References in places that hold at most one -/

/-- What was in place `i` has come out, and `x` has gone in. -/
theorem perm_reduceOption_set {l : List (Option V)} {i : Nat} (hi : i < l.length) (x : Option V) :
    ((l.set i x).reduceOption ++ l[i].toList).Perm (l.reduceOption ++ x.toList) := by
  have hone : ∀ (y : Option V) (l : List (Option V)),
      (y :: l).reduceOption = y.toList ++ l.reduceOption := by
    intro y l
    cases y <;> rfl
  have hset : (l.set i x).reduceOption.Perm (x.toList ++ (l.eraseIdx i).reduceOption) := by
    rw [← hone]
    exact (List.set_perm_cons_eraseIdx hi x).filterMap id
  have hget : l.reduceOption.Perm (l[i].toList ++ (l.eraseIdx i).reduceOption) := by
    rw [← hone]
    exact (List.getElem_cons_eraseIdx_perm hi).symm.filterMap id
  refine List.perm_iff_count.2 fun v => ?_
  have h1 := hset.count_eq v
  have h2 := hget.count_eq v
  simp only [List.count_append] at h1 h2 ⊢
  omega

end Os161.Lib
