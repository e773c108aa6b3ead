import Mathlib.Data.Nat.Digits.Lemmas
import Os161.Libc.Printf

/-!
# Numbers fit their buffer

The loop stores the digits of the number from the last one on, so the buffer holds the
number from left to right when it ends. There are at most as many digits as in base 8,
one for three bits.
-/

namespace Os161.Libc

open Function

/-- The digits of a number, the last one first; zero has one. -/
def shown (base n : Nat) : List Nat := if n = 0 then [0] else Nat.digits base n

variable {base n w : Nat} {s : Numbuf}

theorem shown_step (hb : 1 < base) :
    shown base n = n % base :: if 0 < n / base then shown base (n / base) else [] := by
  by_cases hn : n = 0
  · subst hn
    rw [Nat.zero_mod, Nat.zero_div]
    rfl
  · rw [shown, if_neg hn, Nat.digits_def' hb (by omega)]
    congr 1
    split
    · rw [shown, if_neg (by omega)]
    · next h => rw [Nat.eq_zero_of_not_pos h, Nat.digits_zero]

theorem shown_lt (hb : 1 < base) {d : Nat} (h : d ∈ shown base n) : d < base := by
  rw [shown] at h
  split at h
  · rw [List.mem_singleton.1 h]
    omega
  · exact Nat.digits_lt_base hb h

theorem ofDigits_shown : Nat.ofDigits base (shown base n) = n := by
  rw [shown]
  split
  · next hn =>
    rw [hn]
    rfl
  · exact Nat.ofDigits_digits base n

theorem length_shown (hb : 1 < base) {k : Nat} (h : n < base ^ (k + 1)) :
    (shown base n).length ≤ k + 1 := by
  rw [shown]
  split
  · exact Nat.succ_le_succ (Nat.zero_le k)
  · exact (Nat.digits_length_le_iff hb n).2 h

/-- The loop stores the digits. -/
theorem loop_eq (hb : 1 < base) (hw : base < 2 ^ w) (k : Nat) {xnum : BitVec w}
    (h : xnum.toNat < base ^ (k + 1)) (s : Numbuf) :
    printnum.loop (BitVec.ofNat w base) (k + 1) xnum s =
      some (((shown base xnum.toNat).map digit).foldl Numbuf.put s) := by
  have hbase : (BitVec.ofNat w base).toNat = base := by
    rw [BitVec.toNat_ofNat, Nat.mod_eq_of_lt hw]
  have hq : ∀ x : BitVec w, (x / BitVec.ofNat w base).toNat = x.toNat / base := by
    intro x
    rw [BitVec.toNat_udiv, hbase]
  induction k generalizing xnum s with
  | zero =>
    have hzero : xnum.toNat / base = 0 := Nat.div_eq_of_lt (by rwa [Nat.pow_one] at h)
    rw [printnum.loop, shown_step hb, BitVec.toNat_umod, hbase, hzero, if_neg]
    · rfl
    · rw [BitVec.lt_def, hq, hzero]
      exact Nat.lt_irrefl 0
  | succ k ih =>
    have hlt : xnum.toNat / base < base ^ (k + 1) :=
      Nat.div_lt_of_lt_mul (by rwa [Nat.pow_succ, Nat.mul_comm] at h)
    rw [printnum.loop, shown_step hb, BitVec.toNat_umod, hbase]
    by_cases hpos : 0 < xnum.toNat / base
    · rw [if_pos (by rw [BitVec.lt_def, hq]; exact hpos), if_pos hpos, ih ((hq _).symm ▸ hlt), hq]
      rfl
    · rw [if_neg (by rw [BitVec.lt_def, hq]; exact hpos), if_neg hpos]
      rfl

/-- What storing a list from right to left does. -/
theorem foldl_put (l : List UInt8) : (l.foldl Numbuf.put s).x = s.x - l.length ∧
    (∀ i ∈ (l.foldl Numbuf.put s).stored, i ∈ s.stored ∨ s.x - l.length < i ∧ i ≤ s.x) ∧
    (∀ i < l.length, (l.foldl Numbuf.put s).buf (s.x - i) = l.getD i 0) ∧
    ∀ i, s.x < i → (l.foldl Numbuf.put s).buf i = s.buf i := by
  induction l generalizing s with
  | nil => exact ⟨by simp, fun i hi => .inl hi, fun i hi => absurd hi (Nat.not_lt_zero i),
      fun _ _ => rfl⟩
  | cons c l ih =>
    obtain ⟨hx, hstored, hbuf, hrest⟩ := ih (s := s.put c)
    have hput : (s.put c).x = s.x - 1 := rfl
    rw [hput] at hx hstored hbuf hrest
    rw [List.foldl_cons, List.length_cons]
    refine ⟨by omega, fun i hi => ?_, fun i hi => ?_, fun i hi => ?_⟩
    · rcases hstored i hi with hold | hnew
      · rcases List.mem_cons.1 hold with rfl | hold
        · exact .inr (by omega)
        · exact .inl hold
      · exact .inr (by omega)
    · cases i with
      | zero =>
        rw [hrest _ (by omega)]
        show update s.buf s.x c (s.x - (0 : Nat)) = c
        rw [show s.x - (0 : Nat) = s.x by omega, update_self]
      | succ i =>
        rw [show s.x - (i + 1 : Nat) = s.x - 1 - i by omega]
        exact hbuf i (by omega)
    · rw [hrest i (by omega)]
      exact update_of_ne (by omega) ..

/-- The bytes from `x` on are the string `l`. -/
def IsString (buf : Int → UInt8) (x : Int) (l : List UInt8) : Prop :=
  (∀ i < l.length, buf (x + i) = l.getD i 0) ∧ 0 ∉ l ∧ buf (x + l.length) = 0

theorem digit_ne_zero {d : Nat} (h : d < 16) : digit d ≠ 0 := by
  revert d
  decide

/-- The loop ends, it stores inside the buffer only, and what it leaves there is the number: its
digits give its value, and the first of them is zero only in `0`. -/
theorem printnum_fits (hw : 32 ≤ w) (hb : base = 8 ∨ base = 10 ∨ base = 16) (num : BitVec w)
    (buf : Int → UInt8) : ∃ (s : Numbuf) (ds : List Nat),
      (∀ fuel, w / 3 < fuel → printnum base num buf fuel = some s) ∧
      (∀ i ∈ s.stored, 0 ≤ i ∧ i < numberBufSize w) ∧
      0 ≤ s.x ∧ s.x + ds.length < numberBufSize w ∧ IsString s.buf s.x (ds.map digit) ∧
      (∀ d ∈ ds, d < base) ∧ Nat.ofDigits base ds.reverse = num.toNat ∧
      if num.toNat = 0 then ds = [0] else ds.head? ≠ some 0 := by
  have h1 : 1 < base ∧ base ≤ 16 ∧ 8 ≤ base := by omega
  have hbw : base < 2 ^ w :=
    Nat.lt_of_lt_of_le (by omega : base < 2 ^ 32) (Nat.pow_le_pow_right (by decide) hw)
  have hlt : ∀ k, w / 3 ≤ k → num.toNat < base ^ (k + 1) := by
    intro k hk
    calc num.toNat < 2 ^ w := num.isLt
      _ ≤ 2 ^ (3 * (k + 1)) := Nat.pow_le_pow_right (by decide) (by omega)
      _ = 8 ^ (k + 1) := Nat.pow_mul 2 3 (k + 1)
      _ ≤ base ^ (k + 1) := Nat.pow_le_pow_left h1.2.2 _
  have hlen := length_shown h1.1 (hlt _ le_rfl)
  have hds : ∀ d ∈ shown base num.toNat, d < base := fun d hd => shown_lt h1.1 hd
  have hput : ((⟨buf, (numberBufSize w : Int) - 1, []⟩ : Numbuf).put 0).x = w / 3 := by
    show (numberBufSize w : Int) - 1 - 1 = w / 3
    unfold numberBufSize
    omega
  have hsize : (numberBufSize w : Int) = w / 3 + 2 := rfl
  obtain ⟨s, hs⟩ : ∃ s, s = ((shown base num.toNat).map digit).foldl Numbuf.put
    ((⟨buf, (numberBufSize w : Int) - 1, []⟩ : Numbuf).put 0) := ⟨_, rfl⟩
  have hrun : ∀ fuel, w / 3 < fuel → printnum base num buf fuel = some { s with x := s.x + 1 } := by
    intro fuel hfuel
    obtain ⟨k, rfl⟩ : ∃ k, fuel = k + 1 := ⟨fuel - 1, by omega⟩
    rw [printnum, loop_eq h1.1 hbw k (hlt k (by omega)), hs]
    rfl
  obtain ⟨hx, hstored, hbuf, hrest⟩ := foldl_put
    (s := (⟨buf, (numberBufSize w : Int) - 1, []⟩ : Numbuf).put 0)
    ((shown base num.toNat).map digit)
  rw [← hs, hput, List.length_map] at hx hstored hbuf
  rw [← hs, hput] at hrest
  refine ⟨_, (shown base num.toNat).reverse, hrun, fun i hi => ?_, ?_, ?_, ⟨fun i hi => ?_, ?_, ?_⟩,
    fun d hd => hds d (List.mem_reverse.1 hd), ?_, ?_⟩
  · rcases hstored i hi with hold | hnew
    · rw [List.mem_singleton.1 hold]
      dsimp only
      omega
    · omega
  · dsimp only
    omega
  · dsimp only
    rw [List.length_reverse]
    omega
  · rw [List.length_map, List.length_reverse] at hi
    rw [List.map_reverse, List.getD_eq_getElem?_getD, List.getElem?_reverse
      (by rwa [List.length_map]), ← List.getD_eq_getElem?_getD, List.length_map]
    dsimp only
    rw [hx, ← hbuf _ (by omega)]
    congr 1
    omega
  · intro hzero
    obtain ⟨d, hd, hz⟩ := List.mem_map.1 hzero
    have := hds d (List.mem_reverse.1 hd)
    exact digit_ne_zero (by omega) hz
  · dsimp only
    rw [hx, List.length_map, List.length_reverse, hrest _ (by omega)]
    show update buf _ 0 _ = 0
    rw [show (w / 3 : Int) - (shown base num.toNat).length + 1 + (shown base num.toNat).length =
      (numberBufSize w : Int) - 1 by omega, update_self]
  · rw [List.reverse_reverse]
    exact ofDigits_shown
  · split
    · next hz =>
      rw [hz]
      rfl
    · next hz =>
      rw [List.head?_reverse, shown, if_neg hz, List.getLast?_eq_some_getLast
        (Nat.digits_ne_nil_iff_ne_zero.2 hz)]
      intro he
      exact Nat.getLast_digit_ne_zero base hz (Option.some.inj he)

/-- The largest value of 32 bits, in base 8. -/
theorem printnum_fits_largest : ∃ (s : Numbuf) (ds : List Nat),
    printnum 8 (BitVec.allOnes 32) (fun _ => 0) 11 = some s ∧ 0 ≤ s.x ∧ s.x + ds.length < 12 ∧
      Nat.ofDigits 8 ds.reverse = 4294967295 := by
  obtain ⟨s, ds, hrun, -, hx, hlen, -, -, hval, -⟩ :=
    printnum_fits (by decide) (.inl rfl) (BitVec.allOnes 32) fun _ => 0
  exact ⟨s, ds, hrun 11 (by decide), hx, hlen, hval⟩

end Os161.Libc
