import Mathlib.Data.List.Basic
import Mathlib.Logic.Function.Basic

/-!
# Tables of slots

A table is a list of slots, each of which is free or holds a key and a value. A
new entry goes into a free slot or behind the last one; nothing ever moves. As
long as the keys are distinct, a table means a finite map.
-/

namespace Os161.Lib

variable {K V : Type}

abbrev Slots (K V : Type) := List (Option (K × V))

namespace Slots

/-- Slot `i` holds `k` and `v`. -/
def At (es : Slots K V) (i : Nat) (k : K) (v : V) : Prop := es[i]? = some (some (k, v))

/-- No key occurs twice. -/
def Distinct (es : Slots K V) : Prop :=
  ∀ {i j k v v'}, At es i k v → At es j k v' → i = j

def Absent (es : Slots K V) (k : K) : Prop := ∀ i v, ¬ At es i k v

/-- A place for a new entry. -/
def Free (es : Slots K V) (i : Nat) : Prop := es[i]? = some none ∨ i = es.length

/-- Slot `i` becomes `s`; the slot behind the last one is a new one. -/
def fill (es : Slots K V) (i : Nat) (s : Option (K × V)) : Slots K V :=
  if i < es.length then es.set i s else es ++ [s]

def put (es : Slots K V) (i : Nat) (k : K) (v : V) : Slots K V := fill es i (some (k, v))

/-! ## What the operations do to a slot -/

section
variable {es : Slots K V} {i j : Nat} {k k' : K} {v v' : V}

theorem At.lt (h : At es i k v) : i < es.length := (List.getElem?_eq_some_iff.1 h).1

theorem Free.le (h : Free es i) : i ≤ es.length := by
  rcases h with h | h
  · exact Nat.le_of_lt (List.getElem?_eq_some_iff.1 h).1
  · exact Nat.le_of_eq h

theorem length_fill {s : Option (K × V)} :
    (fill es i s).length = if i < es.length then es.length else es.length + 1 := by
  unfold fill
  split <;> simp

theorem getElem?_fill {s : Option (K × V)} (hi : i ≤ es.length) :
    (fill es i s)[j]? = if j = i then some s else es[j]? := by
  unfold fill
  by_cases hlt : i < es.length
  · rw [if_pos hlt, List.getElem?_set]
    by_cases hj : j = i
    · rw [if_pos hj.symm, if_pos hj, if_pos hlt]
    · rw [if_neg (Ne.symm hj), if_neg hj]
  · rw [if_neg hlt]
    obtain rfl : i = es.length := by omega
    by_cases hj : j = es.length
    · rw [if_pos hj, hj, List.getElem?_concat_length]
    · rw [if_neg hj]
      rcases Nat.lt_or_gt_of_ne hj with h | h
      · rw [List.getElem?_append_left h]
      · rw [List.getElem?_eq_none (by simp; omega), List.getElem?_eq_none (by omega)]

theorem at_put (hi : i ≤ es.length) :
    At (put es i k v) j k' v' ↔ (j = i ∧ k' = k ∧ v' = v) ∨ (j ≠ i ∧ At es j k' v') := by
  unfold At put
  rw [getElem?_fill hi]
  by_cases hj : j = i
  · simp [hj, eq_comm]
  · simp [hj]

theorem exists_at_put (hi : Free es i) (hk : k' ≠ k) :
    (∃ j, At (put es i k v) j k' v') ↔ ∃ j, At es j k' v' := by
  refine exists_congr fun j => (at_put hi.le).trans ⟨?_, fun h => .inr ⟨?_, h⟩⟩
  · rintro (⟨-, he, -⟩ | ⟨-, h⟩)
    · exact absurd he hk
    · exact h
  · rintro rfl
    rcases hi with hi | hi
    · cases hi.symm.trans h
    · exact Nat.ne_of_lt h.lt hi

/-! ## Distinct keys -/

theorem Distinct.put (h : Distinct es) (ha : Absent es k) (hi : i ≤ es.length) :
    Distinct (put es i k v) := by
  intro a b x y z hx hy
  rw [at_put hi] at hx hy
  rcases hx with ⟨rfl, rfl, -⟩ | ⟨-, hx⟩
  · rcases hy with ⟨rfl, -⟩ | ⟨-, hy⟩
    · rfl
    · exact absurd hy (ha _ _)
  · rcases hy with ⟨-, rfl, -⟩ | ⟨-, hy⟩
    · exact absurd hx (ha _ _)
    · exact h hx hy

end

end Slots

end Os161.Lib
