import Os161.Kern.Copying
import Os161.Proofs.Copyinout

/-!
# Copies from and to user memory, and strings

A copy goes index by index, in either direction and for blocks as for strings: round `i`
moves one byte, or ends in `EFAULT` because the user's end of it is not mapped. `Rounds`
says this for an invariant that counts the bytes, and the two loops are walked once, for
any such invariant. `In` and `Out` are the invariants of the two directions.

`copycheck` decides which blocks are looked at. It is right about all of them but the
empty one, which it takes for a block that has wrapped around.
-/

namespace Os161.Kern.Copying

open Os161.Lib Function

variable {X : Type} {s s' : Space} {u kbuf len : BitVec 32} {i n N : Nat} {l : List UInt8}

/-! ## Runs -/

/-- What a routine returns, and the memory it leaves. -/
def exec (p : CProg X) (s : Space) : Outcome Panic X × Space :=
  ((p.run ⟨s, fun a => a.elim, {}⟩).1, (p.run ⟨s, fun a => a.elim, {}⟩).2.mem)

/-- No panic, and nothing to allocate. -/
def strict : Terms Panic := ⟨fun _ => False, False, True⟩

variable {Q : X → Space → Prop}

theorem exec_cases {t : Terms Panic} {p : CProg X} (h : awp t p Q s) :
    (∃ x s', exec p s = (.done x, s') ∧ Q x s') ∨ ∃ f s', exec p s = (.crash f, s') ∧
      t.fails f := by
  have hends := awp_run (s := (⟨s, fun a => a.elim, {}⟩ : Machine Space Empty Unit Empty))
    (nofun) h
  cases hr : p.run ⟨s, fun a => a.elim, {}⟩ with
  | mk o m =>
    rw [hr] at hends
    have hexec : exec p s = (o, m.mem) := by rw [exec, hr]
    rw [hexec]
    cases o with
    | done x => exact .inl ⟨x, m.mem, rfl, hends.1⟩
    | crash f => exact .inr ⟨f, m.mem, rfl, hends⟩

theorem exec_of_awp {p : CProg X} (h : awp strict p Q s) :
    ∃ x s', exec p s = (.done x, s') ∧ Q x s' :=
  (exec_cases h).resolve_right fun ⟨_, _, _, hf⟩ => hf

/-! ## Kernel memory -/

theorem put_nil (k : BitVec 32 → UInt8) (a : BitVec 32) : put k a [] = k := by
  funext x
  rfl

variable {p : CopyM Unit} {Q : Except Errno Unit → Space → Prop} {k : BitVec 32 → UInt8}
  {a dest src : BitVec 32} {b : UInt8} {moved : Space → Space → Prop}

/-- Beyond the bytes that are put there nothing changes. -/
theorem put_of_le {x : BitVec 32} (h : l.length ≤ (x - a).toNat) : put k a l x = k x := by
  rw [put, List.getD_eq_default _ _ h]

theorem put_concat (h : l.length < 4294967296) :
    put k a (l ++ [b]) = update (put k a l) (a + BitVec.ofNat 32 l.length) b := by
  funext x
  by_cases hx : x = a + BitVec.ofNat 32 l.length
  · have hd : (x - a).toNat = l.length := by
      subst hx
      bv_omega
    rw [hx, update_self, ← hx, put, hd]
    simp
  · rw [update_of_ne hx, put, put]
    have hd : (x - a).toNat ≠ l.length := by
      intro hd
      exact hx (by bv_omega)
    rcases Nat.lt_or_gt_of_ne hd with hlt | hgt
    · rw [List.getD_append _ _ _ _ hlt]
    · have hlen : (l ++ [b]).length ≤ (x - a).toNat := by
        rw [List.length_append, List.length_singleton]
        omega
      rw [List.getD_eq_default _ _ hlen, List.getD_eq_default _ _ (Nat.le_of_lt hgt)]

theorem length_bytes (k : BitVec 32 → UInt8) (a : BitVec 32) (n : Nat) :
    (bytes k a n).length = n := by
  simp [bytes]

theorem bytes_succ (k : BitVec 32 → UInt8) (a : BitVec 32) (n : Nat) :
    bytes k a (n + 1) = bytes k a n ++ [k (a + BitVec.ofNat 32 n)] := by
  simp [bytes, List.range_succ]

/-! ## The loops -/

theorem ofNat_succ (i : Nat) : BitVec.ofNat 32 i + 1 = BitVec.ofNat 32 (i + 1) := by
  bv_omega

/-- Each of the first `N` rounds takes the invariant one further with the byte that `got`
says, or fails with `EFAULT` if that is none. A byte that has been moved is still there. -/
structure Rounds (load : BitVec 32 → CopyM UInt8) (store : BitVec 32 → UInt8 → CopyM Unit)
    (dest src : BitVec 32) (got : Nat → Option UInt8) (N : Nat) (I : Nat → Space → Prop) :
    Prop where
  assign : ∀ i s, i < N → I i s →
    awpE strict (assign load store dest src (BitVec.ofNat 32 i)) (fun r s' =>
      (r = .ok () ∧ (got i).isSome ∧ I (i + 1) s') ∨ (r = .error .EFAULT ∧ got i = none ∧ I i s')) s
  again : ∀ i s b, i < N → got i = some b → I (i + 1) s →
    awpE strict (load (src + BitVec.ofNat 32 i)) (fun r s' => r = .ok b ∧ I (i + 1) s') s

section
variable {load : BitVec 32 → CopyM UInt8} {store : BitVec 32 → UInt8 → CopyM Unit}
  {dest src : BitVec 32} {got : Nat → Option UInt8} {I : Nat → Space → Prop}

theorem Rounds.awpE_memcpy (h : Rounds load store dest src got N I) (hi : i + n = N) (hI : I i s) :
    awpE strict (memcpy load store dest src n (BitVec.ofNat 32 i)) (fun r s' =>
      (r = .ok () ∧ (∀ j, i ≤ j → j < N → (got j).isSome) ∧ I N s') ∨
        (r = .error .EFAULT ∧ (∃ j < N, got j = none) ∧ ∃ j, I j s')) s := by
  induction n generalizing i s with
  | zero =>
    obtain rfl : i = N := hi
    exact .inl ⟨rfl, fun j h1 h2 => absurd h1 (by omega), hI⟩
  | succ n ih =>
    refine awpE_bind_of (h.assign i s (by omega) hI) (fun x s1 hs1 => ?_) (fun e s1 hs1 => ?_)
    · rcases hs1 with ⟨-, hgot, hI1⟩ | ⟨he, -⟩
      · rw [ofNat_succ]
        refine awpE_mono (ih (by omega) hI1) fun r s' hr => ?_
        refine hr.imp_left fun ⟨hok, hall, hN⟩ => ⟨hok, fun j hj hjN => ?_, hN⟩
        rcases Nat.eq_or_lt_of_le hj with rfl | hlt
        · exact hgot
        · exact hall j hlt hjN
      · cases he
    · rcases hs1 with ⟨he, -⟩ | ⟨he, hgot, hI1⟩
      · cases he
      · cases he
        exact .inr ⟨rfl, ⟨i, by omega, hgot⟩, i, hI1⟩

/-- Only the first `N` bytes matter. -/
theorem Rounds.congr {got' : Nat → Option UInt8} (h : Rounds load store dest src got N I)
    (heq : ∀ i < N, got i = got' i) : Rounds load store dest src got' N I where
  assign := by
    intro i s hi hI
    rw [← heq i hi]
    exact h.assign i s hi hI
  again := by
    intro i s b hi hb hI
    rw [← heq i hi] at hb
    exact h.again i s b hi hb hI

/-- The first terminator is at `d`. -/
def FirstNul (text : Nat → Option UInt8) (d : Nat) : Prop :=
  text d = some 0 ∧ ∀ i < d, text i ≠ some 0

/-- A string of which the first `N` bytes are there: the loop stops behind the terminator,
or has seen them all. -/
theorem Rounds.awpE_copystr (h : Rounds load store dest src got N I) {short : Errno}
    (hall : ∀ j < N, (got j).isSome) (hi : i + n = N) (h0 : ∀ j < i, got j ≠ some 0) (hI : I i s) :
    awpE strict (copystr.loop load store dest src short n (BitVec.ofNat 32 i)) (fun r s' =>
      (∃ d, d < N ∧ FirstNul got d ∧ r = .ok (BitVec.ofNat 32 (d + 1)) ∧ I (d + 1) s') ∨
        (r = .error short ∧ (∀ j < N, got j ≠ some 0) ∧ I N s')) s := by
  induction n generalizing i s with
  | zero =>
    obtain rfl : i = N := hi
    exact .inr ⟨rfl, h0, hI⟩
  | succ n ih =>
    have hlt : i < N := by omega
    obtain ⟨b, hb⟩ := Option.isSome_iff_exists.1 (hall i hlt)
    refine awpE_bind_of (h.assign i s hlt hI) (fun x s1 hs1 => ?_) (fun e s1 hs1 => ?_)
    · have hI1 : I (i + 1) s1 := by
        rcases hs1 with ⟨-, -, hI1⟩ | ⟨he, -⟩
        · exact hI1
        · cases he
      refine awpE_bind_of (h.again i s1 b hlt hb hI1) (fun c s2 hs2 => ?_) (fun e s2 hs2 => ?_)
      · obtain ⟨hc, hI2⟩ := hs2
        cases hc
        by_cases hb0 : b = 0
        · rw [if_pos hb0, ofNat_succ]
          exact .inl ⟨i, hlt, ⟨hb0 ▸ hb, h0⟩, rfl, hI2⟩
        · rw [if_neg hb0, ofNat_succ]
          refine ih (by omega) (fun j hj => ?_) hI2
          rcases Nat.eq_or_lt_of_le (Nat.le_of_lt_succ hj) with rfl | hlt'
          · rw [hb]
            simpa using hb0
          · exact h0 j hlt'
      · cases hs2.1
    · rcases hs1 with ⟨he, -⟩ | ⟨-, hgot, -⟩
      · cases he
      · rw [hb] at hgot
        cases hgot

end

/-! ## The two directions -/

/-- The accesses to user memory since `s` are to the `N` bytes from `u` on. -/
def TouchedIn (u : BitVec 32) (N : Nat) (s s' : Space) : Prop :=
  ∀ va ∈ s'.touched, va ∈ s.touched ∨ (u.toNat ≤ va.toNat ∧ va.toNat < u.toNat + N)

/-- `i` bytes have come in from `u`, of `N` at most. -/
structure In (u dest : BitVec 32) (N : Nat) (s : Space) (i : Nat) (s' : Space) : Prop where
  user : s'.user = s.user
  copied : ∃ l, l.length = i ∧ s.user.Holds u.toNat l ∧ s'.kernel = put s.kernel dest l
  touched : TouchedIn u N s s'
  stored : ∀ a ∈ s'.stored, a ∈ s.stored ∨ (a - dest).toNat < N

/-- `i` bytes have gone out to `u`, of `N` at most. -/
structure Out (src u : BitVec 32) (N : Nat) (s : Space) (i : Nat) (s' : Space) : Prop where
  kernel : s'.kernel = s.kernel
  copied : s'.user = s.user.write u.toNat (bytes s.kernel src i)
  touched : TouchedIn u N s s'

theorem toNat_index (hN : u.toNat + N ≤ 2147483648) (hi : i < N) :
    (u + BitVec.ofNat 32 i).toNat = u.toNat + i := by
  bv_omega

theorem TouchedIn.touch (h : TouchedIn u N s s') (hN : u.toNat + N ≤ 2147483648) (hi : i < N) :
    TouchedIn u N s { s' with touched := (u + BitVec.ofNat 32 i) :: s'.touched } := by
  intro va hva
  rcases List.mem_cons.1 hva with rfl | hva
  · rw [toNat_index hN hi]
    exact .inr ⟨by omega, by omega⟩
  · exact h va hva

theorem In.start (u dest : BitVec 32) (N : Nat) (s : Space) : In u dest N s 0 s where
  user := rfl
  copied := ⟨[], rfl, ByteMap.holds_nil, (put_nil _ _).symm⟩
  touched := fun _ hva => .inl hva
  stored := fun _ ha => .inl ha

theorem In.touch {k : Nat} (h : In u dest N s k s') (hN : u.toNat + N ≤ 2147483648) (hi : i < N) :
    In u dest N s k { s' with touched := (u + BitVec.ofNat 32 i) :: s'.touched } :=
  { h with touched := h.touched.touch hN hi }

/-- The next byte is stored. -/
theorem In.store (h : In u dest N s i s') (hN : u.toNat + N ≤ 2147483648) (hi : i < N)
    (hb : s.user (u.toNat + i) = some b) :
    In u dest N s (i + 1)
      { s' with
        kernel := update s'.kernel (dest + BitVec.ofNat 32 i) b
        stored := (dest + BitVec.ofNat 32 i) :: s'.stored } where
  user := h.user
  copied := by
    obtain ⟨l, rfl, hl, hk⟩ := h.copied
    refine ⟨l ++ [b], by simp, ByteMap.holds_append.2 ⟨hl, ?_⟩, ?_⟩
    · exact ByteMap.holds_cons.2 ⟨hb, ByteMap.holds_nil⟩
    · rw [put_concat (by omega), hk]
  touched := h.touched
  stored := by
    intro a ha
    rcases List.mem_cons.1 ha with rfl | ha
    · right
      bv_omega
    · exact h.stored a ha

theorem In.load {k : Nat} (h : In u dest N s k s') (hN : u.toNat + N ≤ 2147483648) (hi : i < N)
    {Q : Except Errno UInt8 → Space → Prop}
    (hsome : ∀ b, s.user (u.toNat + i) = some b → Q (.ok b)
      { s' with touched := (u + BitVec.ofNat 32 i) :: s'.touched })
    (hnone : s.user (u.toNat + i) = none → Q (.error .EFAULT)
      { s' with touched := (u + BitVec.ofNat 32 i) :: s'.touched }) :
    awpE strict (userLoad (u + BitVec.ofNat 32 i)) Q s' := by
  refine awpE_call_bind.2 ((awp_modify _).2 (awpE_call_bind.2 (awp_mem.2 ?_)))
  have hbyte : s'.user (u + BitVec.ofNat 32 i).toNat = s.user (u.toNat + i) := by
    rw [h.user, toNat_index hN hi]
  rw [hbyte]
  cases hb : s.user (u.toNat + i) with
  | none => exact hnone hb
  | some b => exact hsome b hb

theorem rounds_in (u dest : BitVec 32) (s : Space) (hN : u.toNat + N ≤ 2147483648) :
    Rounds userLoad kernelStore dest u (fun i => s.user (u.toNat + i)) N (In u dest N s) where
  assign := by
    intro i s' hi h
    refine awpE_bind.2 (h.load hN hi (fun b hb => ?_) (fun hb => ?_))
    · refine awpE_call.2 ((awp_modify _).2 (.inl ⟨rfl, ?_, ?_⟩))
      · rw [hb]
        rfl
      · exact (h.touch hN hi).store hN hi hb
    · exact .inr ⟨rfl, hb, h.touch hN hi⟩
  again := by
    intro i s' b hi hb h
    refine h.load hN hi (fun c hc => ⟨?_, h.touch hN hi⟩) (fun hnone => ?_)
    · rw [hb] at hc
      cases hc
      rfl
    · rw [hb] at hnone
      cases hnone

theorem Out.start (src u : BitVec 32) (N : Nat) (s : Space) : Out src u N s 0 s where
  kernel := rfl
  copied := ByteMap.write_nil.symm
  touched := fun _ hva => .inl hva

/-- The next byte is still as it was. -/
theorem Out.next (h : Out src u N s i s') : s'.user (u.toNat + i) = s.user (u.toNat + i) := by
  rw [h.copied, ByteMap.write_of_not]
  rw [length_bytes]
  omega

theorem Out.store (h : Out src u N s i s') (hN : u.toNat + N ≤ 2147483648) (hi : i < N) :
    Out src u N s (i + 1)
      { s' with
        user := update s'.user (u.toNat + i) (some (s.kernel (src + BitVec.ofNat 32 i)))
        touched := (u + BitVec.ofNat 32 i) :: s'.touched } where
  kernel := h.kernel
  copied := by
    rw [bytes_succ, ByteMap.write_append, ByteMap.write_cons, ByteMap.write_nil, ← h.copied,
      length_bytes]
  touched := h.touched.touch hN hi

/-- What a round of a copy to user memory moves. -/
def outGot (s : Space) (src u : BitVec 32) (i : Nat) : Option UInt8 :=
  if (s.user (u.toNat + i)).isSome then some (s.kernel (src + BitVec.ofNat 32 i)) else none

theorem rounds_out (src u : BitVec 32) (s : Space) (hN : u.toNat + N ≤ 2147483648) :
    Rounds kernelLoad userStore u src (outGot s src u) N (Out src u N s) where
  assign := by
    intro i s' hi h
    refine awpE_bind.2 (awpE_call_bind.2 (awp_mem.2 ?_))
    refine (awpE_pure _).2 ?_
    refine awpE_call_bind.2 ((awp_modify _).2 (awpE_call_bind.2 (awp_mem.2 ?_)))
    have hbyte : s'.kernel (src + BitVec.ofNat 32 i) = s.kernel (src + BitVec.ofNat 32 i) := by
      rw [h.kernel]
    rw [toNat_index hN hi, h.next, hbyte]
    unfold outGot
    by_cases hb : (s.user (u.toNat + i)).isSome
    · rw [if_pos hb, if_pos hb]
      exact awpE_call.2 ((awp_put _).2 (.inl ⟨rfl, rfl, h.store hN hi⟩))
    · rw [if_neg hb, if_neg hb]
      exact .inr ⟨rfl, rfl, { h with touched := h.touched.touch hN hi }⟩
  again := by
    intro i s' b hi hb h
    unfold outGot at hb
    split at hb
    · cases hb
      refine awpE_call_bind.2 (awp_mem.2 ⟨?_, h⟩)
      rw [h.kernel]
    · cases hb

/-! ## Blocks -/

/-- Every byte of the block has an address, and it is a user address. -/
def Below (u len : BitVec 32) : Prop := ∀ i < len.toNat, u.toNat + i < USERTOP.toNat

theorem below_iff (hpos : 0 < len.toNat) : Below u len ↔ u.toNat + len.toNat ≤ 2147483648 := by
  have hut : USERTOP.toNat = 2147483648 := rfl
  constructor
  · intro h
    have := h (len.toNat - 1) (by omega)
    omega
  · intro h i hi
    omega

theorem below_zero (u : BitVec 32) : Below u 0 := by
  intro i hi
  cases hi

section
variable (h : len = 0 ∨ ¬ Below u len)
include h

/-- A block that is not below the kernel is refused or cut short, and so is the empty
one. -/
theorem copycheck_refuses :
    copycheck u len = .error .EFAULT ∨ ∃ stop, stop ≠ len ∧ copycheck u len = .ok stop := by
  have hut : USERTOP.toNat = 2147483648 := rfl
  unfold copycheck
  dsimp only
  split
  · exact .inl rfl
  · split
    · exact .inl rfl
    · next hw hb =>
      rw [BitVec.le_def, hut] at hb
      rw [BitVec.lt_def] at hw
      split
      · refine .inr ⟨_, ?_, rfl⟩
        intro hs
        have hstop := congrArg BitVec.toNat hs
        rw [BitVec.toNat_sub, hut] at hstop
        rcases h with rfl | h
        · have hzero : (0 : BitVec 32).toNat = 0 := rfl
          rw [hzero] at hstop
          omega
        · rw [below_iff (by omega)] at h
          omega
      · next ht =>
        rw [BitVec.le_def, hut] at ht
        rcases h with rfl | h
        · bv_omega
        · rw [below_iff (by bv_omega)] at h
          bv_omega

/-- What `copyin` and `copyout` do with such a block. -/
theorem awpE_refused (hQ : Q (.error .EFAULT) s) :
    awpE strict (match copycheck u len with
      | .error e => throw e | .ok stoplen => if stoplen ≠ len then throw .EFAULT else p) Q s := by
  rcases copycheck_refuses h with hc | ⟨stop, hne, hc⟩
  · rw [hc]
    exact hQ
  · rw [hc]
    dsimp only
    rw [if_pos hne]
    exact hQ

theorem awpE_copyin_refused (hQ : Q (.error .EFAULT) s) : awpE strict (copyin u kbuf len) Q s :=
  awpE_refused h hQ

theorem awpE_copyout_refused (hQ : Q (.error .EFAULT) s) : awpE strict (copyout kbuf u len) Q s :=
  awpE_refused h hQ

end

/-- The outcome of a block copy, with the invariant `I` of its direction. -/
def Copied (I : Nat → Space → Prop) (mapped : Prop) (N : Nat) (r : Except Errno Unit)
    (s' : Space) : Prop :=
  (r = .ok () ∧ mapped ∧ I N s') ∨ (r = .error .EFAULT ∧ ¬ mapped ∧ ∃ j, I j s')

variable {load : BitVec 32 → CopyM UInt8} {store : BitVec 32 → UInt8 → CopyM Unit}
    {I : Nat → Space → Prop}

theorem Rounds.awpE_copied {dest src a : BitVec 32} {got : Nat → Option UInt8} {N : Nat}
    (h : Rounds load store dest src got N I) (hI : I 0 s)
    (hgot : ∀ i < N, (got i).isSome ↔ (s.user (a.toNat + i)).isSome) :
    awpE strict (memcpy load store dest src N 0) (Copied I (s.user.Mapped a.toNat N) N) s := by
  refine awpE_mono (h.awpE_memcpy (i := 0) (Nat.zero_add N) hI) fun r s' hr => ?_
  rcases hr with ⟨hok, hall, hI⟩ | ⟨he, ⟨j, hj, hnone⟩, hI⟩
  · refine .inl ⟨hok, fun x h1 h2 => ?_, hI⟩
    obtain ⟨i, rfl⟩ := Nat.exists_eq_add_of_le h1
    exact (hgot i (by omega)).1 (hall i (by omega) (by omega))
  · refine .inr ⟨he, fun hm => ?_, hI⟩
    have hsome := (hgot j hj).2 (hm (a.toNat + j) (by omega) (by omega))
    rw [hnone] at hsome
    cases hsome

theorem awpE_copyin (hpos : 0 < len.toNat) (h : Below u len) : awpE strict (copyin u kbuf len)
      (Copied (In u kbuf len.toNat s) (s.user.Mapped u.toNat len.toNat) len.toNat) s := by
  have hle := (below_iff hpos).1 h
  unfold copyin
  rw [copycheck_of_le hpos hle]
  dsimp only
  rw [if_neg (by simp)]
  exact (rounds_in u kbuf s hle).awpE_copied (.start ..) fun _ _ => Iff.rfl

theorem awpE_copyout (hpos : 0 < len.toNat) (h : Below u len) : awpE strict (copyout kbuf u len)
      (Copied (Out kbuf u len.toNat s) (s.user.Mapped u.toNat len.toNat) len.toNat) s := by
  have hle := (below_iff hpos).1 h
  unfold copyout
  rw [copycheck_of_le hpos hle]
  dsimp only
  rw [if_neg (by simp)]
  refine (rounds_out kbuf u s hle).awpE_copied (.start ..) fun i _ => ?_
  unfold outGot
  split
  · next hm => exact iff_of_true rfl hm
  · next hm => exact iff_of_false Bool.false_ne_true hm

/-- A copy of the block at `u` that touches user memory only, and takes every legal block:
`moved` says what has to be copied. -/
structure Legal (u len : BitVec 32) (moved : Space → Space → Prop) (p : CopyM Unit) : Prop where
  within : ∀ s, ∃ r s', exec p.run s = (.done r, s') ∧ ∀ va ∈ s'.touched, va ∈ s.touched ∨
    (Below u len ∧ u.toNat ≤ va.toNat ∧ va.toNat < u.toNat + len.toNat)
  refuses : ∀ s, ¬ Below u len → exec p.run s = (.done (.error .EFAULT), s)
  accepts : ∀ s, Below u len → s.user.Mapped u.toNat len.toNat →
    ∃ s', exec p.run s = (.done (.ok ()), s') ∧ moved s s'

/-- The block at `u` has come to `dest`. -/
def MovedIn (u dest len : BitVec 32) (s s' : Space) : Prop :=
  s'.user = s.user ∧ ∃ l, l.length = len.toNat ∧ s.user.Holds u.toNat l ∧
    s'.kernel = put s.kernel dest l

/-- The block at `src` has gone to `u`. -/
def MovedOut (src u len : BitVec 32) (s s' : Space) : Prop :=
  s'.kernel = s.kernel ∧ s'.user = s.user.write u.toNat (bytes s.kernel src len.toNat)

/-- What makes a copy legal, whichever way it goes. -/
theorem Legal.of_awp {I : Space → Nat → Space → Prop}
    (hrefused : ∀ s, ¬ Below u len → awpE strict p (fun r s' => r = .error .EFAULT ∧ s' = s) s)
    (hcopied : ∀ s, Below u len →
      awpE strict p (Copied (I s) (s.user.Mapped u.toNat len.toNat) len.toNat) s)
    (htouched : ∀ s i s', I s i s' → TouchedIn u len.toNat s s')
    (hmoved : ∀ s s', I s len.toNat s' → moved s s') : Legal u len moved p where
  within := by
    intro s
    by_cases hb : Below u len
    · obtain ⟨r, s', hrun, hr⟩ := exec_of_awp (hcopied s hb)
      refine ⟨r, s', hrun, fun va hva => ?_⟩
      have ht : TouchedIn u len.toNat s s' := by
        rcases hr with ⟨-, -, hI⟩ | ⟨-, -, j, hI⟩
        · exact htouched _ _ _ hI
        · exact htouched _ _ _ hI
      exact (ht va hva).imp_right fun hin => ⟨hb, hin⟩
    · obtain ⟨r, s', hrun, -, rfl⟩ := exec_of_awp (hrefused s hb)
      exact ⟨r, s', hrun, fun _ hva => .inl hva⟩
  refuses := by
    intro s hb
    obtain ⟨r, s', hrun, rfl, rfl⟩ := exec_of_awp (hrefused s hb)
    exact hrun
  accepts := by
    intro s hb hm
    obtain ⟨r, s', hrun, hr⟩ := exec_of_awp (hcopied s hb)
    rcases hr with ⟨rfl, -, hI⟩ | ⟨-, hn, -⟩
    · exact ⟨s', hrun, hmoved _ _ hI⟩
    · exact absurd hm hn

/-- A routine that refuses the empty block does not take every legal one. -/
theorem not_legal_zero (h : ∀ s, awpE strict p (fun r _ => r = .error .EFAULT) s) :
    ¬ Legal u 0 moved p := by
  intro hl
  let s : Space := ⟨fun _ => 0, fun _ => none, none, [], []⟩
  obtain ⟨r, s', hrun, rfl⟩ := exec_of_awp (h s)
  obtain ⟨s'', hok, -⟩ := hl.accepts s (below_zero u) (fun x h1 h2 => absurd h2 (by simpa using h1))
  rw [hrun] at hok
  cases hok

/-- The block copies are right about every block but the empty one. -/
theorem copy_legal_iff (u kbuf len : BitVec 32) :
    (Legal u len (MovedIn u kbuf len) (copyin u kbuf len) ↔ len ≠ 0) ∧
      (Legal u len (MovedOut kbuf u len) (copyout kbuf u len) ↔ len ≠ 0) := by
  have hpos : len ≠ 0 → 0 < len.toNat := by
    intro hne
    bv_omega
  refine ⟨⟨?_, fun hne => ?_⟩, ⟨?_, fun hne => ?_⟩⟩
  · rintro hl rfl
    exact not_legal_zero (fun s => awpE_copyin_refused (.inl rfl) rfl) hl
  · exact Legal.of_awp (I := fun s => In u kbuf len.toNat s)
      (fun s hb => awpE_copyin_refused (.inr hb) ⟨rfl, rfl⟩)
      (fun s hb => awpE_copyin (hpos hne) hb) (fun s i s' h => h.touched)
      (fun s s' h => ⟨h.user, h.copied⟩)
  · rintro hl rfl
    exact not_legal_zero (fun s => awpE_copyout_refused (.inl rfl) rfl) hl
  · exact Legal.of_awp (I := fun s => Out kbuf u len.toNat s)
      (fun s hb => awpE_copyout_refused (.inr hb) ⟨rfl, rfl⟩)
      (fun s hb => awpE_copyout (hpos hne) hb) (fun s i s' h => h.touched)
      (fun s s' h => ⟨h.kernel, h.copied⟩)

/-- A page of user memory. -/
def onePage : Space :=
  { kernel := fun _ => 0
    user := fun x => if 4096 ≤ x ∧ x < 8192 then some 7 else none
    tVmspace := some 0
    touched := []
    stored := [] }

/-- No bytes of it can be copied. -/
theorem copy_empty_refused :
    (exec (copyin 4096 0x80001000 0).run onePage).1 = .done (.error .EFAULT) ∧
      (exec (copyout 0x80001000 4096 0).run onePage).1 = .done (.error .EFAULT) ∧
      Below 4096 0 ∧ onePage.user.Mapped 4096 0 :=
  ⟨rfl, rfl, below_zero _, fun x h1 h2 => absurd h2 (by simpa using h1)⟩

/-! ## Strings -/

/-- The outcome of a string copy is the right one for the string `text`, where `u` is the
user's end of the copy. A success has left `holds` for the length it reports. -/
structure Classified (text : Nat → Option UInt8) (u len : BitVec 32) (holds : Nat → Prop)
    (r : Except Errno (BitVec 32)) : Prop where
  zero : ∀ got, r = .ok got ↔ ∃ d, FirstNul text d ∧ d < len.toNat ∧
    u.toNat + d < USERTOP.toNat ∧ got.toNat = d + 1
  copied : ∀ got, r = .ok got → holds got.toNat
  long : r = .error .ENAMETOOLONG ↔
    u.toNat + len.toNat ≤ USERTOP.toNat ∧ ∀ i < len.toNat, text i ≠ some 0
  fault : r = .error .EFAULT ↔ USERTOP.toNat < u.toNat + len.toNat ∧
    ∀ i, u.toNat + i < USERTOP.toNat → text i ≠ some 0
  others : ∀ e, r = .error e → e = .ENAMETOOLONG ∨ e = .EFAULT

theorem FirstNul.eq {text : Nat → Option UInt8} {d d' : Nat} (h : FirstNul text d)
    (h' : FirstNul text d') : d = d' := by
  rcases Nat.lt_trichotomy d d' with hlt | heq | hgt
  · exact absurd h.1 (h'.2 d hlt)
  · exact heq
  · exact absurd h'.1 (h.2 d' hgt)

section
variable {text : Nat → Option UInt8} {holds : Nat → Prop}

/-- The terminator has been found. -/
theorem Classified.of_nul {d : Nat} (hlen : len.toNat ≤ 2147483648) (hd : d < len.toNat)
    (hu : u.toNat + d < USERTOP.toNat) (hnul : FirstNul text d) (hholds : holds (d + 1)) :
    Classified text u len holds (.ok (BitVec.ofNat 32 (d + 1))) where
  zero := by
    have hnum : (BitVec.ofNat 32 (d + 1)).toNat = d + 1 := by
      rw [BitVec.toNat_ofNat]
      omega
    intro got
    constructor
    · intro hgot
      cases hgot
      exact ⟨d, hnul, hd, hu, hnum⟩
    · intro ⟨d', hnul', _, _, hgot⟩
      rw [hnul'.eq hnul] at hgot
      exact congrArg _ (BitVec.eq_of_toNat_eq (by rw [hgot, hnum]))
  copied := by
    intro got hgot
    cases hgot
    rw [BitVec.toNat_ofNat, Nat.mod_eq_of_lt (by omega)]
    exact hholds
  long := by
    refine ⟨(nofun), fun ⟨_, hno⟩ => ?_⟩
    exact absurd hnul.1 (hno d hd)
  fault := by
    refine ⟨(nofun), fun ⟨_, hno⟩ => ?_⟩
    exact absurd hnul.1 (hno d hu)
  others := by
    intro e he
    cases he

/-- All the bytes have been seen that may be. -/
theorem Classified.of_short {stop : BitVec 32} (hu : u.toNat < 2147483648)
    (hstop : stop.toNat = min len.toNat (2147483648 - u.toNat))
    (hno : ∀ i < stop.toNat, text i ≠ some 0) :
    Classified text u len holds (.error (if stop < len then .EFAULT else .ENAMETOOLONG)) := by
  have hut : USERTOP.toNat = 2147483648 := rfl
  have hzero : ∀ d, FirstNul text d → d < len.toNat → ¬ u.toNat + d < USERTOP.toNat := by
    intro d hnul hd hlt
    exact hno d (by omega) hnul.1
  have hok : ∀ (e : Errno) (got : BitVec 32), (.error e : Except Errno (BitVec 32)) = .ok got ↔
      ∃ d, FirstNul text d ∧ d < len.toNat ∧ u.toNat + d < USERTOP.toNat ∧ got.toNat = d + 1 := by
    intro e got
    refine ⟨(nofun), fun ⟨d, hnul, hd, hlt, _⟩ => ?_⟩
    exact absurd hlt (hzero d hnul hd)
  by_cases hs : stop < len
  · rw [if_pos hs]
    rw [BitVec.lt_def] at hs
    refine ⟨hok _, (nofun), ?_, ?_, fun e he => ?_⟩
    · refine ⟨(nofun), fun ⟨hle, _⟩ => absurd hle (by omega)⟩
    · exact ⟨fun _ => ⟨by omega, fun i hi => hno i (by omega)⟩, fun _ => rfl⟩
    · cases he
      exact .inr rfl
  · rw [if_neg hs]
    rw [BitVec.lt_def] at hs
    refine ⟨hok _, (nofun), ?_, ?_, fun e he => ?_⟩
    · exact ⟨fun _ => ⟨by omega, fun i hi => hno i (by omega)⟩, fun _ => rfl⟩
    · refine ⟨(nofun), fun ⟨hlt, _⟩ => absurd hlt (by omega)⟩
    · cases he
      exact .inl rfl

/-- Both ways a string copy can end, for the string that the rounds move. -/
theorem Rounds.classified {dest src stop : BitVec 32} {holds : Nat → Space → Prop}
    (h : Rounds load store dest src text stop.toNat I) (hu : u.toNat < 2147483648)
    (hlen : len.toNat ≤ 2147483648) (hstop : stop.toNat = min len.toNat (2147483648 - u.toNat))
    (hall : ∀ j < stop.toNat, (text j).isSome) (hI : I 0 s) (hholds : ∀ n s', I n s' → holds n s') :
    awpE strict (copystr load store dest src len stop)
      (fun r s' => Classified text u len (fun n => holds n s') r ∧ ∃ n, n ≤ stop.toNat ∧ I n s')
      s := by
  have hut : USERTOP.toNat = 2147483648 := rfl
  unfold copystr
  rw [show min len.toNat stop.toNat = stop.toNat by omega]
  refine awpE_mono (h.awpE_copystr (i := 0) hall (by omega)
    (fun j hj => absurd hj (by omega)) hI) ?_
  intro r s' hr
  rcases hr with ⟨d, hd, hnul, rfl, hI'⟩ | ⟨rfl, hno, hI'⟩
  · exact ⟨.of_nul hlen (by omega) (by omega) hnul (hholds _ _ hI'), d + 1, hd, hI'⟩
  · exact ⟨.of_short hu hstop hno, _, le_rfl, hI'⟩

end

/-- What has been touched or stored by a string copy. -/
theorem TouchedIn.below (h : TouchedIn u N s s') (hN : u.toNat + N ≤ 2147483648) :
    ∀ va ∈ s'.touched, va ∈ s.touched ∨ va.toNat < USERTOP.toNat := by
  have hut : USERTOP.toNat = 2147483648 := rfl
  intro va hva
  exact (h va hva).imp_right fun hin => by omega

/-- The string copies, in both directions, over user memory that is mapped as far as they
may go: every string is classified correctly, no more than `len` bytes are stored, and
nothing is touched that is not below the kernel. -/
theorem strings_classified (s : Space) (u kbuf len : BitVec 32) (hu : u < USERTOP)
    (hpos : 1 ≤ len.toNat) (hlen : len.toNat ≤ 2 ^ 31)
    (hm : s.user.Mapped u.toNat (min len.toNat (USERTOP.toNat - u.toNat))) :
    (∃ r s', exec (copyinstr u kbuf len).run s = (.done r, s') ∧
      Classified (fun i => s.user (u.toNat + i)) u len
        (fun n => ∃ l, l.length = n ∧ s.user.Holds u.toNat l ∧ s'.kernel = put s.kernel kbuf l) r ∧
      (∀ a ∈ s'.stored, a ∈ s.stored ∨ (a - kbuf).toNat < len.toNat) ∧
      (∀ a, s'.kernel a ≠ s.kernel a → (a - kbuf).toNat < len.toNat) ∧
      s'.user = s.user ∧
      ∀ va ∈ s'.touched, va ∈ s.touched ∨ va.toNat < USERTOP.toNat) ∧
    (∃ r s', exec (copyoutstr kbuf u len).run s = (.done r, s') ∧
      Classified (fun i => some (s.kernel (kbuf + BitVec.ofNat 32 i))) u len
        (fun n => s'.user = s.user.write u.toNat (bytes s.kernel kbuf n)) r ∧
      (∀ x, s'.user x ≠ s.user x → u.toNat ≤ x ∧ x < u.toNat + len.toNat) ∧
      s'.kernel = s.kernel ∧
      ∀ va ∈ s'.touched, va ∈ s.touched ∨ va.toNat < USERTOP.toNat) := by
  have hut : USERTOP.toNat = 2147483648 := rfl
  rw [BitVec.lt_def, hut] at hu
  obtain ⟨stop, hcheck, hstop⟩ := copycheck_of_lt hpos hlen hu
  rw [hut, ← hstop] at hm
  have hN : u.toNat + stop.toNat ≤ 2147483648 := by omega
  refine ⟨?_, ?_⟩
  · have hall : ∀ j < stop.toNat, (s.user (u.toNat + j)).isSome :=
      fun j hj => hm _ (by omega) (by omega)
    have hrun := (rounds_in u kbuf s hN).classified hu hlen hstop hall (.start ..)
      (fun n s' h => h.copied)
    have heq : copyinstr u kbuf len = copystr userLoad kernelStore kbuf u len stop := by
      unfold copyinstr
      rw [hcheck]
    rw [← heq] at hrun
    obtain ⟨r, s', hr, hcl, n, hn, hI⟩ := exec_of_awp hrun
    refine ⟨r, s', hr, hcl, fun a ha => ?_, fun a ha => ?_, hI.user, hI.touched.below hN⟩
    · exact (hI.stored a ha).imp_right fun h => by omega
    · obtain ⟨l, hl, -, hk⟩ := hI.copied
      by_contra hfar
      rw [hk] at ha
      exact ha (put_of_le (by omega))
  · have hgot : ∀ j < stop.toNat, outGot s kbuf u j = some (s.kernel (kbuf + BitVec.ofNat 32 j)) :=
      fun j hj => if_pos (hm _ (by omega) (by omega))
    have hrounds := (rounds_out kbuf u s hN).congr hgot
    have hrun := hrounds.classified hu hlen hstop (fun _ _ => rfl) (.start ..)
      (fun n s' h => h.copied)
    have heq : copyoutstr kbuf u len = copystr kernelLoad userStore u kbuf len stop := by
      unfold copyoutstr
      rw [hcheck]
    rw [← heq] at hrun
    obtain ⟨r, s', hr, hcl, n, hn, hI⟩ := exec_of_awp hrun
    refine ⟨r, s', hr, hcl, fun x hx => ?_, hI.kernel, hI.touched.below hN⟩
    by_contra hfar
    rw [hI.copied] at hx
    refine hx (ByteMap.write_of_not ?_)
    rw [length_bytes]
    omega

/-- The last bytes below the kernel, of which the very last is not a terminator. -/
def topOfUser : Space :=
  { kernel := fun _ => 7
    user := fun x => if 2147483640 ≤ x ∧ x < 2147483648 then some 7 else none
    tVmspace := none
    touched := []
    stored := [] }

/-- A string that runs into the kernel, from either side. -/
theorem strings_classified_top :
    (exec (copyinstr 0x7ffffffc 0x80001000 16).run topOfUser).1 = .done (.error .EFAULT) ∧
      (exec (copyoutstr 0x80001000 0x7ffffffc 4).run topOfUser).1 =
        .done (.error .ENAMETOOLONG) := by
  have hin := (strings_classified topOfUser 0x7ffffffc 0x80001000 16 (by decide) (by decide)
    (by decide) ?_).1
  have hout := (strings_classified topOfUser 0x7ffffffc 0x80001000 4 (by decide) (by decide)
    (by decide) ?_).2
  · obtain ⟨r, s', hr, hcl, -⟩ := hin
    obtain ⟨r', s'', hr', hcl', -⟩ := hout
    rw [hr, hr']
    rw [hcl.fault.2 ⟨by decide, ?_⟩, hcl'.long.2 ⟨by decide, ?_⟩]
    · exact ⟨rfl, rfl⟩
    · intro i _ h
      cases h
    · intro i _ h
      have : (if 2147483640 ≤ 2147483644 + i ∧ 2147483644 + i < 2147483648 then some (7 : UInt8)
        else none) = some 0 := h
      split at this <;> cases this
  all_goals
    intro x h1 h2
    have h1' : 2147483644 ≤ x := h1
    have h2' : x < 2147483644 + 4 := h2
    show (if _ then _ else _ : Option UInt8).isSome
    rw [if_pos (by omega)]
    rfl

end Os161.Kern.Copying
