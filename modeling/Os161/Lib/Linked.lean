import Mathlib.Data.List.Basic
import Mathlib.Logic.Function.Basic

/-!
# Linked lists

A singly linked list is a function from nodes to their successors and a first
node. `Linked next head l` says that from `head` on one meets the nodes of `l`,
in this order, and then the end; so the chain is finite, and the list is
determined by it.

Two changes are needed, a new node in front (`Linked.push`) and taking one out
(`Linked.unlink`), and a third that leaves the list alone (`Linked.congr`).
-/

namespace Os161.Lib

open Function

variable {ι : Type} {next next' : ι → Option ι} {head : Option ι} {l : List ι} {a : ι}

def Linked (next : ι → Option ι) : Option ι → List ι → Prop
  | head, [] => head = none
  | head, a :: l => head = some a ∧ Linked next (next a) l

namespace Linked

theorem head_eq (h : Linked next head l) : head = l.head? := by
  cases l with
  | nil => exact h
  | cons a l => exact h.1

theorem congr (h : Linked next head l) (hn : ∀ a ∈ l, next' a = next a) : Linked next' head l := by
  induction l generalizing head with
  | nil => exact h
  | cons a l ih =>
    refine ⟨h.1, ?_⟩
    rw [hn a List.mem_cons_self]
    exact ih h.2 fun b hb => hn b (List.mem_cons_of_mem _ hb)

theorem push [DecidableEq ι] (h : Linked next head l) (ha : a ∉ l) :
    Linked (update next a head) (some a) (a :: l) := by
  refine ⟨rfl, ?_⟩
  rw [update_self]
  apply h.congr
  intro b hb
  apply update_of_ne
  intro hba
  exact ha (hba ▸ hb)

/-- Behind the nodes of `pre` the rest of the list goes on. -/
theorem drop {pre : List ι} (h : Linked next head (pre ++ l)) :
    Linked next ((pre.getLast?.map next).getD head) l := by
  induction pre generalizing head with
  | nil => exact h
  | cons b pre ih =>
    have hrest := ih h.2
    cases pre with
    | nil => exact hrest
    | cons c pre =>
      have hlast := List.getLast?_eq_some_getLast (List.cons_ne_nil c pre)
      rw [List.getLast?_cons_cons]
      rw [hlast] at hrest ⊢
      exact hrest

/-- A node is taken out: whoever pointed to it points behind it. -/
theorem unlink [DecidableEq ι] {pre post : List ι} (h : Linked next head (pre ++ a :: post))
    (hnodup : (pre ++ a :: post).Nodup) : (pre = [] → Linked next (next a) post) ∧
      ∀ b, pre.getLast? = some b → Linked (update next b (next a)) head (pre ++ post) := by
  induction pre generalizing head with
  | nil =>
    refine ⟨fun _ => h.2, ?_⟩
    intro b hb
    cases hb
  | cons c pre ih =>
    refine ⟨fun hnil => absurd hnil (List.cons_ne_nil c pre), ?_⟩
    intro b hb
    rw [List.cons_append, List.nodup_cons] at hnodup
    obtain ⟨hfirst, hlater⟩ := ih h.2 hnodup.2
    refine ⟨h.1, ?_⟩
    cases pre with
    | nil =>
      obtain rfl : c = b := Option.some.inj hb
      rw [update_self]
      apply (hfirst rfl).congr
      intro d hd
      apply update_of_ne
      intro hdc
      subst hdc
      exact hnodup.1 (by simp [hd])
    | cons d pre =>
      rw [List.getLast?_cons_cons] at hb
      have hbmem : b ∈ d :: pre := List.mem_of_getLast? hb
      have hcb : c ≠ b := by
        intro hcb
        subst hcb
        exact hnodup.1 (List.mem_append_left _ hbmem)
      rw [update_of_ne hcb]
      exact hlater b hb

end Linked

end Os161.Lib
