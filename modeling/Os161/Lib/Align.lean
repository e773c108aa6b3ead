import Mathlib.Data.Nat.Bitwise

/-!
# Page numbers and offsets

An address of `w` bits, cut into a page number and the `k` bits below it. The
mask for the page number clears the low bits; in numbers that is rounding down
to a multiple of `2 ^ k`. Sums and differences of aligned addresses are aligned,
also when they go around.
-/

namespace Os161.Lib

variable {w : Nat} {x y : BitVec w} {k : Nat}

/-- The mask of the bits above the lowest `k`. -/
def pageMask (w k : Nat) : BitVec w := BitVec.allOnes w <<< k

def Aligned (k : Nat) (x : BitVec w) : Prop := x.toNat % 2 ^ k = 0

theorem toNat_and_pageMask (x : BitVec w) (k : Nat) :
    (x &&& pageMask w k).toNat = x.toNat / 2 ^ k * 2 ^ k := by
  have hshift : x &&& pageMask w k = x >>> k <<< k := by
    ext i hi
    simp only [pageMask, BitVec.getElem_and, BitVec.getElem_shiftLeft, BitVec.getElem_allOnes]
    by_cases hik : i < k
    · simp [hik]
    · simp [hik, show k + (i - k) = i by omega, BitVec.getLsbD_eq_getElem hi]
  rw [hshift, BitVec.toNat_shiftLeft, BitVec.toNat_ushiftRight, Nat.shiftRight_eq_div_pow,
    Nat.shiftLeft_eq]
  exact Nat.mod_eq_of_lt (Nat.lt_of_le_of_lt (Nat.div_mul_le_self _ _) x.isLt)

theorem and_pageMask_eq_iff : x &&& pageMask w k = x ↔ Aligned k x := by
  rw [← BitVec.toNat_inj, toNat_and_pageMask, Aligned]
  have h := Nat.div_add_mod x.toNat (2 ^ k)
  rw [Nat.mul_comm] at h
  omega

theorem aligned_and_pageMask (x : BitVec w) (k : Nat) : Aligned k (x &&& pageMask w k) := by
  rw [Aligned, toNat_and_pageMask]
  exact Nat.mul_mod_left _ _

/-- Low bits do not get through the mask. -/
theorem or_and_pageMask (hx : Aligned k x) (hy : y.toNat < 2 ^ k) :
    (x ||| y) &&& pageMask w k = x := by
  have hlow : y &&& pageMask w k = 0#w := by
    rw [← BitVec.toNat_inj, toNat_and_pageMask, Nat.div_eq_of_lt hy, Nat.zero_mul]
    rfl
  rw [BitVec.and_comm, BitVec.and_or_distrib_left, BitVec.and_comm _ x, BitVec.and_comm _ y,
    and_pageMask_eq_iff.2 hx, hlow, BitVec.or_zero]

/-- Putting low bits under an aligned address adds them. -/
theorem or_eq_add (hx : Aligned k x) (hy : y.toNat < 2 ^ k) : x ||| y = x + y := by
  symm
  apply BitVec.add_eq_or_of_and_eq_zero
  ext i hi
  have hmask := and_pageMask_eq_iff.2 hx
  by_cases hik : i < k
  · have hbit := congrArg (fun z => z.getLsbD i) hmask
    simp only [pageMask, BitVec.getLsbD_and, BitVec.getLsbD_shiftLeft] at hbit
    simp [hik, BitVec.getLsbD_eq_getElem hi] at hbit
    simp [hbit]
  · have hbit : y.toNat.testBit i = false :=
      Nat.testBit_lt_two_pow (Nat.lt_of_lt_of_le hy (Nat.pow_le_pow_right (by decide) (by omega)))
    simp [BitVec.getElem_eq_testBit_toNat, hbit]

theorem aligned_zero : Aligned k (0 : BitVec w) := by
  simp [Aligned]

/-- Going around takes away a multiple of `2 ^ w`. -/
theorem Aligned.of_dvd_mod {n : Nat} (hk : k ≤ w) (h : n % 2 ^ k = 0) : n % 2 ^ w % 2 ^ k = 0 := by
  rw [Nat.mod_mod_of_dvd _ (Nat.pow_dvd_pow 2 hk)]
  exact h

theorem Aligned.add (hk : k ≤ w) (hx : Aligned k x) (hy : Aligned k y) : Aligned k (x + y) := by
  rw [Aligned, BitVec.toNat_add]
  apply Aligned.of_dvd_mod hk
  rw [Nat.add_mod, hx, hy]
  simp

theorem Aligned.sub (hk : k ≤ w) (hx : Aligned k x) (hy : Aligned k y) : Aligned k (x - y) := by
  rw [Aligned, BitVec.toNat_sub]
  apply Aligned.of_dvd_mod hk
  have hpow : 2 ^ k ∣ 2 ^ w := Nat.pow_dvd_pow 2 hk
  have hdvd : 2 ^ k ∣ 2 ^ w - y.toNat + x.toNat :=
    Nat.dvd_add (Nat.dvd_sub hpow (Nat.dvd_of_mod_eq_zero hy)) (Nat.dvd_of_mod_eq_zero hx)
  exact Nat.mod_eq_zero_of_dvd hdvd

/-- A whole number of pages. -/
theorem Aligned.mul_pow (hk : k ≤ w) (x : BitVec w) : Aligned k (x * BitVec.ofNat w (2 ^ k)) := by
  rw [Aligned, BitVec.toNat_mul, BitVec.toNat_ofNat]
  apply Aligned.of_dvd_mod hk
  have hdvd : 2 ^ k ∣ 2 ^ k % 2 ^ w :=
    (Nat.dvd_mod_iff (Nat.pow_dvd_pow 2 hk)).2 (Nat.dvd_refl _)
  exact Nat.mod_eq_zero_of_dvd (Nat.dvd_mul_left_of_dvd hdvd _)

end Os161.Lib
