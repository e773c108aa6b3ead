import Os161.Dev.Pseudorand

/-!
# The generator does not overflow

With `seed = K1 * hi + lo` and `MODULUS = MULTIPLIER * K1 + K2`, the difference
`MULTIPLIER * lo - K2 * hi` is `MULTIPLIER * seed - MODULUS * hi`. It is above `-MODULUS` and
at most `MULTIPLIER * (K1 - 1)`, both of which an `int32_t` holds, and it is not zero,
because `MODULUS` is a prime that divides neither factor.
-/

namespace Os161.Dev.Pseudorand

variable {ps : Softc}

/-- The seed is one of those that the generator goes through. -/
def Softc.Ok (ps : Softc) : Prop := 1 ≤ ps.psSeed.toNat ∧ ps.psSeed.toNat ≤ 2147483646

/-- The values that the step computes, as integers. -/
def exact (seed : Int) : List Int :=
  let d := 16807 * (seed % 127773) - 2836 * (seed / 127773)
  [seed / 127773, seed % 127773, 16807 * (seed % 127773), 2836 * (seed / 127773), d,
    if d ≤ 0 then d + 2147483647 else d]

def Fits (x : Int) : Prop := -2147483648 ≤ x ∧ x < 2147483648

/-- The difference, and how far it is from zero. -/
theorem difference_bounds {n : Nat} (h1 : 1 ≤ n) (h2 : n ≤ 2147483646) :
    16807 * (n % 127773) ≤ 2147464004 ∧ 2836 * (n / 127773) ≤ 47665652 ∧
      16807 * (n % 127773) ≠ 2836 * (n / 127773) := by
  refine ⟨by omega, by omega, fun heq => ?_⟩
  -- equality would make the modulus divide `16807 * n`
  have hdvd : 2147483647 ∣ 16807 * n := ⟨n / 127773, by omega⟩
  have hco : Nat.Coprime 2147483647 16807 := by decide
  have hn := Nat.le_of_dvd h1 (hco.dvd_of_dvd_mul_left hdvd)
  exact absurd (Nat.le_trans hn h2) (by decide)

theorem exact_fits {n : Nat} (h1 : 1 ≤ n) (h2 : n ≤ 2147483646) : ∀ x ∈ exact n, Fits x := by
  obtain ⟨hlo, hhi, -⟩ := difference_bounds h1 h2
  intro x hx
  simp only [exact, List.mem_cons, List.not_mem_nil, or_false] at hx
  unfold Fits
  rcases hx with rfl | rfl | rfl | rfl | rfl | rfl
  · omega
  · omega
  · omega
  · omega
  · omega
  · split <;> omega

/-- The two products give the remainder, after one more `MODULUS` where it is needed. -/
theorem product_mod {n : Nat} (h1 : 1 ≤ n) (h2 : n ≤ 2147483646) :
    16807 * n % 2147483647 = if 16807 * (n % 127773) < 2836 * (n / 127773) then
      16807 * (n % 127773) + 2147483647 - 2836 * (n / 127773)
      else 16807 * (n % 127773) - 2836 * (n / 127773) := by
  obtain ⟨hlo, hhi, hne⟩ := difference_bounds h1 h2
  have hn : 16807 * n + 2836 * (n / 127773) = 2147483647 * (n / 127773) + 16807 * (n % 127773) := by
    have := Nat.div_add_mod n 127773
    omega
  generalize 16807 * (n % 127773) = l at *
  generalize hq : n / 127773 = q at *
  have key : ∀ c v, 16807 * n = 2147483647 * c + v → v < 2147483647 →
      16807 * n % 2147483647 = v := by
    intro c v h hv
    rw [h, Nat.mul_add_mod, Nat.mod_eq_of_lt hv]
  clear h1 h2 hq
  split
  · obtain ⟨c, rfl⟩ : ∃ c, q = c + 1 := ⟨q - 1, by omega⟩
    rw [Nat.mul_succ 2147483647] at hn
    generalize 2836 * (c + 1) = k at *
    exact key c _ (by omega) (by omega)
  · generalize 2836 * q = k at *
    exact key q _ (by omega) (by omega)

/-- `tmp`, for the two products. -/
def reduce (l k : BitVec 32) : BitVec 32 := if (l - k).sle 0 then l - k + MODULUS else l - k

theorem toNat_reduce {l k : BitVec 32} (hl : l.toNat < 2147483648) (hk : k.toNat < 2147483647)
    (hne : l.toNat ≠ k.toNat) : (reduce l k).toNat =
      if l.toNat < k.toNat then l.toNat + 2147483647 - k.toNat else l.toNat - k.toNat := by
  have hzero : (0 : BitVec 32).toInt = 0 := rfl
  have hM : MODULUS.toNat = 2147483647 := rfl
  have hsub : (l - k).toNat = if l.toNat < k.toNat then 4294967296 - k.toNat + l.toNat
      else l.toNat - k.toNat := by
    rw [BitVec.toNat_sub]
    split <;> omega
  have hsign : (l - k).sle 0 = true ↔ l.toNat < k.toNat := by
    rw [BitVec.sle_iff_toInt_le, BitVec.toInt_eq_toNat_cond, hsub, hzero]
    split <;> split <;> omega
  unfold reduce
  by_cases hs : l.toNat < k.toNat
  · rw [if_pos (hsign.2 hs), if_pos hs, BitVec.toNat_add, hsub, if_pos hs, hM]
    omega
  · rw [if_neg fun hc => hs (hsign.1 hc), if_neg hs, hsub, if_neg hs]

/-- The step, on numbers. -/
theorem toNat_random (h : ps.Ok) :
    (pseudorandRandom ps).2.psSeed.toNat = 16807 * ps.psSeed.toNat % 2147483647 ∧
      (pseudorandRandom ps).2.Ok ∧
      (pseudorandRandom ps).1.toNat + 1 = (pseudorandRandom ps).2.psSeed.toNat := by
  obtain ⟨h1, h2⟩ := h
  obtain ⟨hlo, hhi, hne⟩ := difference_bounds h1 h2
  have hstep : pseudorandRandom ps =
      (reduce (MULTIPLIER * ps.psSeed.umod K1) (K2 * ps.psSeed.udiv K1) - 1,
        ⟨reduce (MULTIPLIER * ps.psSeed.umod K1) (K2 * ps.psSeed.udiv K1)⟩) := rfl
  have hl : (MULTIPLIER * ps.psSeed.umod K1).toNat = 16807 * (ps.psSeed.toNat % 127773) := by
    exact Nat.mod_eq_of_lt (Nat.lt_of_le_of_lt hlo (by decide))
  have hk : (K2 * ps.psSeed.udiv K1).toNat = 2836 * (ps.psSeed.toNat / 127773) := by
    exact Nat.mod_eq_of_lt (Nat.lt_of_le_of_lt hhi (by decide))
  have hv := toNat_reduce (l := MULTIPLIER * ps.psSeed.umod K1) (k := K2 * ps.psSeed.udiv K1)
    (hl.trans_lt (Nat.lt_of_le_of_lt hlo (by decide)))
    (hk.trans_lt (Nat.lt_of_le_of_lt hhi (by decide))) (by rw [hl, hk]; exact hne)
  rw [hl, hk] at hv
  clear hl hk
  rw [hstep]
  generalize reduce _ _ = v at hv
  have hone : (1 : BitVec 32).toNat = 1 := rfl
  have hrange : 1 ≤ v.toNat ∧ v.toNat ≤ 2147483646 := by
    clear h1 h2
    generalize 16807 * (ps.psSeed.toNat % 127773) = l at hlo hne hv
    generalize 2836 * (ps.psSeed.toNat / 127773) = k at hhi hne hv
    split at hv <;> omega
  refine ⟨hv.trans (product_mod h1 h2).symm, hrange, ?_⟩
  show (v - 1).toNat + 1 = v.toNat
  rw [BitVec.toNat_sub_of_le (BitVec.le_def.2 (hone.symm ▸ hrange.1)), hone]
  exact Nat.sub_add_cancel hrange.1

/-- Whatever has been called so far, the next value is in range and the seed is not
stuck. -/
theorem calls_ok (h : ps.Ok) (n : Nat) :
    (calls n ps).2.Ok ∧ ∀ x ∈ (calls n ps).1, x.toNat ≤ pseudorandRandmax.toNat := by
  have hmax : pseudorandRandmax.toNat = 2147483645 := rfl
  induction n generalizing ps with
  | zero => exact ⟨h, nofun⟩
  | succ n ih =>
    obtain ⟨-, hok, hval⟩ := toNat_random h
    obtain ⟨hrest, hvals⟩ := ih hok
    refine ⟨hrest, fun x hx => ?_⟩
    rcases List.mem_cons.1 hx with rfl | hx
    · have := hok.2
      omega
    · exact hvals x hx

/-- A step from a seed in range: every intermediate value fits, the new seed is the
product modulo `MODULUS` and in range again; and so on for any number of calls. -/
theorem pseudorand_exact (ps : Softc) (h1 : 1 ≤ ps.psSeed.toNat)
    (h2 : ps.psSeed.toNat ≤ 2 ^ 31 - 2) :
    (∀ x ∈ exact ps.psSeed.toNat, Fits x) ∧
    (pseudorandRandom ps).2.psSeed.toNat = 16807 * ps.psSeed.toNat % (2 ^ 31 - 1) ∧
    (pseudorandRandom ps).2.Ok ∧
    ∀ n, (calls n ps).2.Ok ∧ (calls n ps).2.psSeed ≠ 0 ∧
      ∀ x ∈ (calls n ps).1, x.toNat ≤ pseudorandRandmax.toNat := by
  have hok : ps.Ok := ⟨h1, h2⟩
  obtain ⟨hmod, hnext, -⟩ := toNat_random hok
  refine ⟨exact_fits h1 h2, hmod, hnext, fun n => ?_⟩
  obtain ⟨hn, hvals⟩ := calls_ok hok n
  refine ⟨hn, fun hzero => ?_, hvals⟩
  have := hn.1
  rw [hzero] at this
  exact absurd this (by decide)

/-- The seed that the driver starts from. -/
theorem pseudorand_exact_attach : (calls 3 ⟨305824⟩).1 = [845016673, 885882306, 519809097] ∧
    (calls 3 ⟨305824⟩).2.Ok :=
  ⟨by decide, ((pseudorand_exact ⟨305824⟩ (by decide) (by decide)).2.2.2 3).1⟩

end Os161.Dev.Pseudorand
