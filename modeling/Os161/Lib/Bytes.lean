import Mathlib.Data.List.Basic
import Mathlib.Logic.Function.Basic

/-!
# Bytes at addresses

A memory with holes in it: an address has a byte or has none. `Holds` says what
stands from an address on, `Mapped` that there is something, and `write` puts a
list of bytes there.
-/

namespace Os161.Lib

open Function

abbrev ByteMap := Nat → Option UInt8

namespace ByteMap

variable {u : ByteMap} {a b n k : Nat} {l r : List UInt8}

/-- The bytes `l` stand from `a` on. -/
def Holds (u : ByteMap) (a : Nat) (l : List UInt8) : Prop :=
  ∀ i, i < l.length → u (a + i) = l[i]?

/-- There are bytes at `n` addresses from `a` on. -/
def Mapped (u : ByteMap) (a n : Nat) : Prop :=
  ∀ x, a ≤ x → x < a + n → (u x).isSome

/-- The bytes `l` are put there, from `a` on. -/
def write (u : ByteMap) (a : Nat) (l : List UInt8) : ByteMap :=
  fun x => if a ≤ x ∧ x < a + l.length then l[x - a]? else u x

theorem holds_nil : u.Holds a [] := by
  intro i hi
  simp at hi

theorem holds_cons {c : UInt8} : u.Holds a (c :: l) ↔ u a = some c ∧ u.Holds (a + 1) l := by
  constructor
  · intro h
    refine ⟨by simpa using h 0 (by simp), ?_⟩
    intro i hi
    have hnext := h (i + 1) (by simpa using hi)
    rwa [List.getElem?_cons_succ, ← Nat.add_assoc, Nat.add_right_comm] at hnext
  · intro ⟨hc, hl⟩ i hi
    cases i with
    | zero => simpa using hc
    | succ i =>
      have hnext := hl i (by simpa using hi)
      rwa [Nat.add_right_comm, Nat.add_assoc] at hnext

theorem holds_append : u.Holds a (l ++ r) ↔ u.Holds a l ∧ u.Holds (a + l.length) r := by
  induction l generalizing a with
  | nil => simp [holds_nil]
  | cons c l ih =>
    rw [List.cons_append, holds_cons, holds_cons, ih, List.length_cons, and_assoc,
      Nat.add_assoc, Nat.add_comm 1]

theorem Mapped.mono {m : Nat} (h : u.Mapped a n) (hb : a ≤ b) (hm : b + m ≤ a + n) :
    u.Mapped b m := by
  intro x hx hx'
  exact h x (by omega) (by omega)

theorem write_of_not (h : ¬ (a ≤ n ∧ n < a + l.length)) : u.write a l n = u n := if_neg h

theorem write_nil : u.write a [] = u := by
  funext x
  apply write_of_not
  simp only [List.length_nil]
  omega

/-- One byte, and then the others. -/
theorem write_cons {c : UInt8} : u.write a (c :: l) = write (update u a (some c)) (a + 1) l := by
  funext x
  unfold write
  rw [List.length_cons]
  by_cases hx : a + 1 ≤ x ∧ x < a + 1 + l.length
  · obtain ⟨i, rfl⟩ : ∃ i, x = a + 1 + i := ⟨x - (a + 1), by omega⟩
    rw [if_pos hx, if_pos (by omega), show a + 1 + i - a = i + 1 by omega,
      show a + 1 + i - (a + 1) = i by omega, List.getElem?_cons_succ]
  · rw [if_neg hx]
    by_cases hxa : x = a
    · subst hxa
      rw [if_pos (by omega), Nat.sub_self, update_self, List.getElem?_cons_zero]
    · rw [if_neg (by omega), update_of_ne hxa]

theorem write_append : u.write a (l ++ r) = (u.write a l).write (a + l.length) r := by
  induction l generalizing u a with
  | nil => rw [List.nil_append, write_nil, List.length_nil, Nat.add_zero]
  | cons c l ih =>
    rw [List.cons_append, write_cons, write_cons, ih, List.length_cons, Nat.add_assoc,
      Nat.add_comm 1]

theorem holds_write : (u.write a l).Holds a l := by
  intro i hi
  unfold write
  rw [if_pos (by omega), Nat.add_sub_cancel_left]

/-- What stands elsewhere is left alone. -/
theorem Holds.write (h : u.Holds b r) (hapart : a + l.length ≤ b ∨ b + r.length ≤ a) :
    (u.write a l).Holds b r := by
  intro i hi
  rw [write_of_not (by omega)]
  exact h i hi

/-- Nothing is unmapped. -/
theorem Mapped.write (h : u.Mapped b n) : (u.write a l).Mapped b n := by
  intro x hx hx'
  unfold ByteMap.write
  split
  · rw [List.getElem?_eq_getElem (by omega)]
    rfl
  · exact h x hx hx'

end ByteMap

end Os161.Lib
