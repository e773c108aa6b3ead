import Os161.Kern.Usermem
import Os161.Lib.Atomic

/-!
# What the copying routines do

For a block that lies in user memory with all its bytes, `copyin`, `copyout` and
`copyinstr` do what they are for.
-/

namespace Os161.Kern

open Os161.Lib

/-! ## The check -/

/-- A block that ends below the kernel is not cut short. -/
theorem copycheck_of_le {a len : BitVec 32} (hpos : 0 < len.toNat)
    (hle : a.toNat + len.toNat ≤ 2147483648) : copycheck a len = .ok len := by
  have htop : (a + len - 1).toNat = a.toNat + len.toNat - 1 := by
    rw [BitVec.toNat_sub, BitVec.toNat_add]
    simp
    omega
  have hut : USERTOP.toNat = 2147483648 := rfl
  unfold copycheck
  rw [if_neg, if_neg, if_neg]
  · rw [BitVec.le_def, htop, hut]
    omega
  · rw [BitVec.le_def, hut]
    omega
  · rw [BitVec.lt_def, htop]
    omega

/-- A block that starts below the kernel and is not absurdly long is cut at the
boundary. -/
theorem copycheck_of_lt {a len : BitVec 32} (hpos : 0 < len.toNat)
    (hlen : len.toNat ≤ 2147483648) (ha : a.toNat < 2147483648) :
    ∃ stop, copycheck a len = .ok stop ∧ stop.toNat = min len.toNat (2147483648 - a.toNat) := by
  by_cases hle : a.toNat + len.toNat ≤ 2147483648
  · exact ⟨len, copycheck_of_le hpos hle, by omega⟩
  · have hut : USERTOP.toNat = 2147483648 := rfl
    have htop : (a + len - 1).toNat = a.toNat + len.toNat - 1 := by
      rw [BitVec.toNat_sub, BitVec.toNat_add]
      simp
      omega
    refine ⟨USERTOP - a, ?_, ?_⟩
    · unfold copycheck
      rw [if_neg, if_neg, if_pos]
      · rw [BitVec.le_def, htop, hut]
        omega
      · rw [BitVec.le_def, hut]
        omega
      · rw [BitVec.lt_def, htop]
        omega
    · rw [BitVec.toNat_sub, hut]
      omega

theorem toNat_succ {a : BitVec 32} {n : Nat} (h : a.toNat + n ≤ 2147483648) (hn : 0 < n) :
    (a + 1).toNat = a.toNat + 1 := by
  rw [BitVec.toNat_add]
  simp
  omega

/-! ## The loops -/

section
variable {S A B E F : Type} {L : UserLens S} {t : Terms F} {s : S} {a : BitVec 32}
  {l : List UInt8}

variable {b : UInt8} {Q : Except Errno (List UInt8) → S → Prop} {short : Errno} {n : Nat}
  {len : BitVec 32}

theorem awpE_load {Q : Except Errno UInt8 → S → Prop} (hu : L.get s a.toNat = some b)
    (hQ : Q (.ok b) s) : awpE t ((L.space (A := A) (B := B) (E := E)).load a) Q s := by
  refine awpE_call_bind.2 (awp_mem.2 ?_)
  rw [hu]
  exact hQ

theorem awpE_store {Q : Except Errno Unit → S → Prop} (hu : (L.get s a.toNat).isSome)
    (hQ : Q (.ok ()) (L.set (Function.update (L.get s) a.toNat (some b)) s)) :
    awpE t ((L.space (A := A) (B := B) (E := E)).store a b) Q s := by
  refine awpE_call_bind.2 (awp_mem.2 ?_)
  rw [if_pos hu]
  exact awpE_call.2 ((awp_put _).2 hQ)

theorem awpE_memcpyIn (hu : (L.get s).Holds a.toNat l) (hle : a.toNat + l.length ≤ 2147483648)
    (hQ : Q (.ok l) s) : awpE t (memcpyIn (L.space (A := A) (B := B) (E := E)) l.length a) Q s := by
  induction l generalizing a Q with
  | nil => exact hQ
  | cons b l ih =>
    obtain ⟨hb, hl⟩ := ByteMap.holds_cons.1 hu
    rw [List.length_cons] at hle
    refine awpE_bind.2 (awpE_load hb (awpE_bind.2 ?_))
    have hnext := toNat_succ hle (Nat.succ_pos _)
    apply ih
    · rw [hnext]
      exact hl
    · omega
    · exact hQ

theorem awpE_memcpyOut {Q : Except Errno Unit → S → Prop} (hu : (L.get s).Mapped a.toNat l.length)
    (hle : a.toNat + l.length ≤ 2147483648) (hQ : Q (.ok ()) (L.set ((L.get s).write a.toNat l) s))
    : awpE t (memcpyOut (L.space (A := A) (B := B) (E := E)) l a) Q s := by
  induction l generalizing a s with
  | nil =>
    rw [ByteMap.write_nil, L.set_get] at hQ
    exact hQ
  | cons b l ih =>
    rw [List.length_cons] at hle hu
    have hnext := toNat_succ hle (Nat.succ_pos _)
    refine awpE_bind.2 (awpE_store (hu _ le_rfl (by omega)) ?_)
    apply ih
    · rw [L.get_set, hnext]
      intro x hx hx'
      rw [Function.update_of_ne (by omega)]
      exact hu x (by omega) (by omega)
    · omega
    · rw [L.get_set, L.set_set, hnext, ← ByteMap.write_cons]
      exact hQ

variable (hu : (L.get s).Holds a.toNat (l ++ [0])) (h0 : 0 ∉ l) (hle : a.toNat + (l.length + 1) ≤
    2147483648)

include hu h0 hle in
theorem awpE_copystr_loop (hn : l.length + 1 ≤ n) (hQ : Q (.ok (l ++ [0])) s) :
    awpE t (copystr.loop (L.space (A := A) (B := B) (E := E)) short n a) Q s := by
  induction l generalizing a n Q with
  | nil =>
    obtain ⟨n, rfl⟩ := Nat.exists_eq_add_of_le' hn
    obtain ⟨hb, _⟩ := ByteMap.holds_cons.1 hu
    refine awpE_bind.2 (awpE_load hb ?_)
    exact hQ
  | cons b l ih =>
    obtain ⟨n, rfl⟩ : ∃ m, n = m + 1 := ⟨n - 1, by omega⟩
    rw [List.length_cons] at hle hn
    obtain ⟨hb, hl⟩ := ByteMap.holds_cons.1 hu
    have hb0 : b ≠ 0 := by
      intro hb0
      exact h0 (hb0 ▸ List.mem_cons_self)
    have hnext := toNat_succ hle (Nat.succ_pos _)
    refine awpE_bind.2 (awpE_load hb ?_)
    dsimp only
    rw [if_neg hb0]
    refine awpE_bind.2 ?_
    apply ih
    · rw [hnext]
      exact hl
    · exact fun hm => h0 (List.mem_cons_of_mem _ hm)
    · omega
    · omega
    · exact hQ

/-- As many bytes without a terminator as may be copied. -/
theorem awpE_copystr_loop_short (hu : (L.get s).Holds a.toNat l) (h0 : 0 ∉ l)
    (hle : a.toNat + l.length ≤ 2147483648) (hn : n ≤ l.length) (hQ : Q (.error short) s) :
    awpE t (copystr.loop (L.space (A := A) (B := B) (E := E)) short n a) Q s := by
  induction n generalizing a l Q with
  | zero => exact hQ
  | succ n ih =>
    cases l with
    | nil => exact absurd hn (by simp)
    | cons b l =>
      rw [List.length_cons] at hle hn
      obtain ⟨hb, hl⟩ := ByteMap.holds_cons.1 hu
      have hb0 : b ≠ 0 := by
        intro hb0
        exact h0 (hb0 ▸ List.mem_cons_self)
      have hnext := toNat_succ hle (Nat.succ_pos _)
      refine awpE_bind.2 (awpE_load hb ?_)
      dsimp only
      rw [if_neg hb0]
      refine awpE_bind.2 (ih (l := l) ?_ ?_ ?_ ?_ ?_)
      · rw [hnext]
        exact hl
      · exact fun hm => h0 (List.mem_cons_of_mem _ hm)
      · omega
      · omega
      · exact hQ

/-! ## The routines -/

theorem awpE_copyin {n : BitVec 32} (hu : (L.get s).Holds a.toNat l) (hn : n.toNat = l.length)
    (hpos : 0 < l.length) (hle : a.toNat + l.length ≤ 2147483648) (hQ : Q (.ok l) s) :
    awpE t (copyin (L.space (A := A) (B := B) (E := E)) a n) Q s := by
  unfold copyin
  rw [copycheck_of_le (by omega) (by omega)]
  dsimp only
  rw [if_neg (by simp), hn]
  exact awpE_memcpyIn hu hle hQ

theorem awpE_copyout {Q : Except Errno Unit → S → Prop} (hu : (L.get s).Mapped a.toNat l.length)
    (hpos : 0 < l.length) (hle : a.toNat + l.length ≤ 2147483648)
    (hQ : Q (.ok ()) (L.set ((L.get s).write a.toNat l) s)) :
    awpE t (copyout (L.space (A := A) (B := B) (E := E)) l a) Q s := by
  have hlen : (BitVec.ofNat 32 l.length).toNat = l.length := by
    rw [BitVec.toNat_ofNat]
    omega
  unfold copyout
  rw [copycheck_of_le (by omega) (by omega)]
  dsimp only
  rw [if_neg (by simp)]
  exact awpE_memcpyOut hu hle hQ

include hu h0 hle in
theorem awpE_copyinstr (hlen : l.length + 1 ≤ len.toNat)
    (hmax : len.toNat ≤ 2147483648) (hQ : Q (.ok (l ++ [0])) s) :
    awpE t (copyinstr (L.space (A := A) (B := B) (E := E)) a len) Q s := by
  obtain ⟨stop, hstop, hnum⟩ : ∃ stop, copycheck a len = .ok stop ∧
      stop.toNat = min len.toNat (2147483648 - a.toNat) :=
    copycheck_of_lt (by omega) hmax (by omega)
  unfold copyinstr
  rw [hstop]
  apply awpE_copystr_loop hu h0 hle _ hQ
  omega

include hu h0 hle in
/-- A string that is too long for the buffer. -/
theorem awpE_copyinstr_long (hpos : 0 < len.toNat)
    (hlen : len.toNat < l.length + 1) (hQ : Q (.error .ENAMETOOLONG) s) :
    awpE t (copyinstr (L.space (A := A) (B := B) (E := E)) a len) Q s := by
  unfold copyinstr
  rw [copycheck_of_le hpos (by omega)]
  refine awpE_copystr_loop_short (ByteMap.holds_append.1 hu).1 h0 (by omega) (by omega) ?_
  rw [if_neg (BitVec.lt_irrefl len)]
  exact hQ

/-- A block of no bytes ends before it begins. -/
theorem copycheck_zero {a : BitVec 32} (ha : a ≠ 0) : copycheck a 0 = .error .EFAULT := by
  have htop : a + 0 - 1 < a := by bv_omega
  unfold copycheck
  rw [if_pos htop]

theorem awpE_copyout_nil {Q : Except Errno Unit → S → Prop} (hQ : Q (.error .EFAULT) s) :
    awpE t (copyout (L.space (A := A) (B := B) (E := E)) [] a) Q s := by
  unfold copyout
  by_cases ha : a = 0
  · subst ha
    exact hQ
  · rw [List.length_nil, show BitVec.ofNat 32 0 = 0 from rfl, copycheck_zero ha]
    exact hQ

/-- Whatever there is in user memory, the copy of a string changes nothing. -/
theorem awpE_copyinstr_any (hQ : ∀ r, Q r s) :
    awpE t (copyinstr (L.space (A := A) (B := B) (E := E)) a len) Q s := by
  have hloop : ∀ short n a (Q : Except Errno (List UInt8) → S → Prop), (∀ r, Q r s) →
      awpE t (copystr.loop (L.space (A := A) (B := B) (E := E)) short n a) Q s := by
    intro short n
    induction n with
    | zero => exact fun a Q hQ => hQ _
    | succ n ih =>
      intro a Q hQ
      refine awpE_bind.2 (awpE_call_bind.2 (awp_mem.2 ?_))
      cases L.get s a.toNat with
      | none => exact hQ _
      | some b =>
        refine (awpE_pure _).2 ?_
        dsimp only
        split
        · exact hQ _
        · refine awpE_bind.2 (ih _ _ ?_)
          intro r
          cases r with
          | ok l => exact hQ _
          | error e => exact hQ _
  unfold copyinstr
  cases copycheck a len with
  | error e => exact hQ _
  | ok stop => exact hloop _ _ _ _ hQ

end

end Os161.Kern
