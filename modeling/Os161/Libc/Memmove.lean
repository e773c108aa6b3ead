import Mathlib.Tactic.Common

/-!
# Moving bytes

`memcpy.c` and `memmove.c`. An address is a number, and a range of them does not wrap around.
A loop goes over units of `u` bytes, one or `sizeof(long)`; a unit is loaded as a whole
before it is stored.
-/

namespace Os161.Libc

abbrev Mem := Nat → UInt8

/-- `d[i] = s[i]`, for units of `u` bytes. -/
def copyUnit (u dst src i : Nat) (m : Mem) : Mem := fun a =>
  if dst + u * i ≤ a ∧ a < dst + u * (i + 1) then m (src + (a - dst)) else m a

/-- `for (i=0; i<n; i++) d[i] = s[i]`. -/
def copyUp (u dst src : Nat) : Nat → Mem → Mem
  | 0, m => m
  | i + 1, m => copyUnit u dst src i (copyUp u dst src i m)

/-- `for (i=n; i>0; i--) d[i-1] = s[i-1]`. -/
def copyDown (u dst src : Nat) : Nat → Mem → Mem
  | 0, m => m
  | i + 1, m => copyDown u dst src i (copyUnit u dst src i m)

def sizeofLong : Nat := 4

def memcpy (dst src len : Nat) (m : Mem) : Mem :=
  if dst % sizeofLong = 0 ∧ src % sizeofLong = 0 ∧ len % sizeofLong = 0 then
    copyUp sizeofLong dst src (len / sizeofLong) m
  else copyUp 1 dst src len m

def memmove (dst src len : Nat) (m : Mem) : Mem :=
  if dst < src then memcpy dst src len m
  else if dst % sizeofLong = 0 ∧ src % sizeofLong = 0 ∧ len % sizeofLong = 0 then
    copyDown sizeofLong dst src (len / sizeofLong) m
  else copyDown 1 dst src len m

/-- The bytes are where they should be, and all others where they were. -/
def moved {β : Type} (dst src len : Nat) (m : Nat → β) : Nat → β := fun a =>
  if dst ≤ a ∧ a < dst + len then m (src + (a - dst)) else m a

variable {u dst src n : Nat} {m : Mem}

/-- Going up, what has been overwritten is below what is still to be read. -/
theorem copyUp_eq (h : dst ≤ src) : copyUp u dst src n m = moved dst src (u * n) m := by
  induction n with
  | zero =>
    funext a
    exact (if_neg (by omega)).symm
  | succ n ih =>
    funext a
    rw [copyUp, ih, copyUnit, Nat.mul_succ]
    unfold moved
    by_cases ha : dst + u * n ≤ a ∧ a < dst + (u * n + u)
    · rw [if_pos ha, if_neg (by omega), if_pos (by omega)]
    · rw [if_neg ha]
      exact if_congr (by omega) rfl rfl

/-- Going down, it is above. -/
theorem copyDown_eq (h : src ≤ dst) : copyDown u dst src n m = moved dst src (u * n) m := by
  induction n generalizing m with
  | zero =>
    funext a
    exact (if_neg (by omega)).symm
  | succ n ih =>
    funext a
    rw [copyDown, ih, Nat.mul_succ]
    unfold moved copyUnit
    rw [Nat.mul_succ]
    by_cases ha : dst ≤ a ∧ a < dst + u * n
    · rw [if_pos ha, if_neg (by omega), if_pos (by omega)]
    · rw [if_neg ha]
      exact if_congr (by omega) rfl rfl

theorem mul_div_sizeofLong (h : n % sizeofLong = 0) : sizeofLong * (n / sizeofLong) = n :=
  Nat.mul_div_cancel' (Nat.dvd_of_mod_eq_zero h)

/-- However the ranges overlap, the destination gets the bytes of the source and nothing else
changes; going by words or by bytes is the same, in both directions. -/
theorem memmove_moves (dst src len : Nat) (m : Mem) :
    (∀ i < len, memmove dst src len m (dst + i) = m (src + i)) ∧
    (∀ a, a < dst ∨ dst + len ≤ a → memmove dst src len m a = m a) ∧
    (dst ≤ src → ∀ n, copyUp sizeofLong dst src n m = copyUp 1 dst src (sizeofLong * n) m) ∧
    (src ≤ dst → ∀ n, copyDown sizeofLong dst src n m = copyDown 1 dst src (sizeofLong * n) m) := by
  have hmoved : memmove dst src len m = moved dst src len m := by
    unfold memmove memcpy
    split
    · next hlt =>
      split
      · next hw => rw [copyUp_eq (Nat.le_of_lt hlt), mul_div_sizeofLong hw.2.2]
      · rw [copyUp_eq (Nat.le_of_lt hlt), Nat.one_mul]
    · next hge =>
      split
      · next hw => rw [copyDown_eq (Nat.not_lt.1 hge), mul_div_sizeofLong hw.2.2]
      · rw [copyDown_eq (Nat.not_lt.1 hge), Nat.one_mul]
  rw [hmoved]
  refine ⟨fun i hi => ?_, fun a ha => if_neg (by omega), fun h n => ?_, fun h n => ?_⟩
  · rw [moved, if_pos (by omega), Nat.add_sub_cancel_left]
  · rw [copyUp_eq h, copyUp_eq h, Nat.one_mul]
  · rw [copyDown_eq h, copyDown_eq h, Nat.one_mul]

end Os161.Libc
