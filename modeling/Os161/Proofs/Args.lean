import Os161.Proofs.Copyinout
import Os161.Userprog.Args

/-!
# The new program gets the arguments of the old one

`UserArgv` says that an argument vector stands in user memory: the pointers with
a null pointer behind them, and a string with its terminator at each of them.
`copyin_args` makes one block of the strings (`block`) and `copyout_args` puts
the block on the stack, so a pointer is the place of the block and the number of
bytes in front of its string; `pointers` adds them up one after the other.

What `copyin_args` makes of a vector that can be read is a matter of counting strings and
bytes (`outcome`).
-/

namespace Os161.Userprog

open Os161.Kern Os161.Lib Function

/-! ## Argument vectors -/

/-- The strings one behind the other, each with its terminator. -/
def block (strs : List (List UInt8)) : List UInt8 := strs.flatMap fun s => s ++ [0]

theorem block_cons (s : List UInt8) (strs : List (List UInt8)) :
    block (s :: strs) = s ++ [0] ++ block strs := List.flatMap_cons

theorem length_block_cons (s : List UInt8) (strs : List (List UInt8)) :
    (block (s :: strs)).length = s.length + 1 + (block strs).length := by
  simp [block_cons]
  omega

/-- A string of the user. -/
structure UserString (u : ByteMap) (p : BitVec 32) (s : List UInt8) : Prop where
  pos : p ≠ 0
  noNul : 0 ∉ s
  holds : u.Holds p.toNat (s ++ [0])
  below : p.toNat + (s.length + 1) ≤ 2147483648

structure UserArgv (u : ByteMap) (argv : Nat) (ptrs : List (BitVec 32))
    (strs : List (List UInt8)) : Prop where
  vector : u.Holds argv (ptrs.flatMap wordBytes ++ wordBytes 0)
  below : argv + 4 * (ptrs.length + 1) ≤ 2147483648
  strings : List.Forall₂ (UserString u) ptrs strs

variable {u : ByteMap} {strs : List (List UInt8)} {p : BitVec 32}

theorem UserArgv.noNul {argv : Nat} {ptrs : List (BitVec 32)} (h : UserArgv u argv ptrs strs) :
    ∀ s ∈ strs, (0 : UInt8) ∉ s := by
  have hstr := h.strings
  clear h
  induction hstr with
  | nil => simp
  | cons hp _ ih => exact List.forall_mem_cons.2 ⟨hp.noNul, ih⟩

/-- Where the strings of a block are when it is put at `p`. -/
def pointers : BitVec 32 → List (List UInt8) → List (BitVec 32)
  | _, [] => []
  | p, s :: strs => p :: pointers (p + BitVec.ofNat 32 (s.length + 1)) strs

@[simp] theorem length_pointers (p : BitVec 32) (strs : List (List UInt8)) :
    (pointers p strs).length = strs.length := by
  induction strs generalizing p with
  | nil => rfl
  | cons s strs ih => simp [pointers, ih]

/-- The strings lie one behind the other from `lo` on and end before `hi`. -/
def Laid (hi : Nat) : Nat → List (BitVec 32) → List (List UInt8) → Prop
  | lo, [], [] => lo ≤ hi
  | lo, p :: ptrs, s :: strs => lo ≤ p.toNat ∧ Laid hi (p.toNat + (s.length + 1)) ptrs strs
  | _, _, _ => False

theorem toNat_skip {n : Nat} (h : p.toNat + n ≤ 2147483648) :
    (p + BitVec.ofNat 32 n).toNat = p.toNat + n := by
  rw [BitVec.toNat_add, BitVec.toNat_ofNat]
  omega

theorem laid_pointers {hi : Nat} (hle : p.toNat + (block strs).length ≤ hi)
    (hhi : hi ≤ 2147483648) : Laid hi p.toNat (pointers p strs) strs := by
  induction strs generalizing p with
  | nil => exact Nat.le_trans (Nat.le_add_right _ _) hle
  | cons s strs ih =>
    rw [length_block_cons] at hle
    have hskip : (p + BitVec.ofNat 32 (s.length + 1)).toNat = p.toNat + (s.length + 1) :=
      toNat_skip (by omega)
    refine ⟨le_rfl, ?_⟩
    rw [← hskip]
    apply ih
    omega

/-- A block in user memory is the strings at their pointers. -/
theorem strings_of_block (hu : u.Holds p.toNat (block strs)) (h0 : ∀ s ∈ strs, (0 : UInt8) ∉ s)
    (hp : 0 < p.toNat) (hle : p.toNat + (block strs).length ≤ 2147483648) :
    List.Forall₂ (UserString u) (pointers p strs) strs := by
  induction strs generalizing p with
  | nil => exact .nil
  | cons s strs ih =>
    rw [length_block_cons] at hle
    rw [block_cons, ByteMap.holds_append] at hu
    have hskip : (p + BitVec.ofNat 32 (s.length + 1)).toNat = p.toNat + (s.length + 1) :=
      toNat_skip (by omega)
    refine .cons ⟨?_, h0 s List.mem_cons_self, hu.1, by omega⟩ ?_
    · intro hp0
      simp [hp0] at hp
    · apply ih
      · rw [hskip]
        simpa using hu.2
      · exact fun s' hs' => h0 s' (List.mem_cons_of_mem _ hs')
      · omega
      · omega

/-! ## What is put into the `argvdata` -/

section
variable {ARG_MAX NARG_MAX : Nat}

namespace Argvdata

/-- All the strings, one after the other. -/
def fill (ad : Argvdata ARG_MAX) : List (List UInt8) → Argvdata ARG_MAX
  | [] => ad
  | s :: strs => (ad.push (BitVec.ofNat 32 ad.bytes.length) (s ++ [0])).fill strs

variable (ad : Argvdata ARG_MAX) (strs : List (List UInt8))

theorem fill_bytes : (ad.fill strs).bytes = ad.bytes ++ block strs := by
  induction strs generalizing ad with
  | nil => simp [fill, block]
  | cons s strs ih => simp [fill, ih, push, block_cons]

theorem fill_nargs : (ad.fill strs).nargs = ad.nargs + strs.length := by
  induction strs generalizing ad with
  | nil => rfl
  | cons s strs ih =>
    rw [fill, ih, List.length_cons, push, Nat.add_assoc, Nat.add_comm 1]

theorem fill_held : (ad.fill strs).held = ad.held := by
  induction strs generalizing ad with
  | nil => rfl
  | cons s strs ih => exact ih _

/-- What stands in `offsets` already is not overwritten. -/
theorem fill_offsets_of_lt {j : Nat} (hj : j < ad.nargs) :
    (ad.fill strs).offsets j = ad.offsets j := by
  induction strs generalizing ad with
  | nil => rfl
  | cons s strs ih =>
    rw [fill, ih _ (Nat.lt_succ_of_lt hj)]
    exact update_of_ne (Nat.ne_of_lt hj) _ _

/-- The pointers that `copyout_args` computes. -/
def vector (argbase : BitVec 32) : Nat → Nat → List (BitVec 32)
  | 0, _ => []
  | k + 1, i => (argbase + ad.offsets i) :: vector argbase k (i + 1)

theorem fill_vector (argbase : BitVec 32) : (ad.fill strs).vector argbase strs.length ad.nargs =
      pointers (argbase + BitVec.ofNat 32 ad.bytes.length) strs := by
  induction strs generalizing ad with
  | nil => rfl
  | cons s strs ih =>
    have hfirst : (ad.fill (s :: strs)).offsets ad.nargs = BitVec.ofNat 32 ad.bytes.length := by
      rw [fill, fill_offsets_of_lt _ _ (Nat.lt_succ_self _)]
      exact update_self ..
    have hrest := ih (ad.push (BitVec.ofNat 32 ad.bytes.length) (s ++ [0]))
    rw [List.length_cons, vector, hfirst, pointers, fill]
    rw [push, List.length_append, BitVec.ofNat_add, ← BitVec.add_assoc] at hrest
    simpa [push] using hrest

end Argvdata

/-! ## What `copyin_args` returns -/

/-- The result of the loop of `copyin_args`, with `used` bytes in the buffer. -/
def outcome (ARG_MAX NARG_MAX : Nat) : Nat → Nat → List (List UInt8) → Except Errno Unit
  | _, _, [] => .ok ()
  | used, nargs, s :: strs =>
    if NARG_MAX ≤ nargs then .error .E2BIG
    else if used = ARG_MAX then .error .EFAULT
    else if used + (s.length + 1) ≤ ARG_MAX then
      outcome ARG_MAX NARG_MAX (used + (s.length + 1)) (nargs + 1) strs
    else .error .E2BIG

/-- The strings fill the buffer exactly with another one still to come. -/
def Overruns (ARG_MAX NARG_MAX used nargs : Nat) (strs : List (List UInt8)) : Prop :=
  ∃ i, i < strs.length ∧ nargs + i < NARG_MAX ∧ used + (block (strs.take i)).length = ARG_MAX

/-- Everything fits. -/
def Fits (ARG_MAX NARG_MAX used nargs : Nat) (strs : List (List UInt8)) : Prop :=
  nargs + strs.length ≤ NARG_MAX ∧ used + (block strs).length ≤ ARG_MAX

theorem outcome_cases {strs : List (List UInt8)} {used nargs : Nat} (hused : used ≤ ARG_MAX)
    (hnargs : nargs ≤ NARG_MAX) :
    (Fits ARG_MAX NARG_MAX used nargs strs ∧ outcome ARG_MAX NARG_MAX used nargs strs = .ok ()) ∨
      (¬ Fits ARG_MAX NARG_MAX used nargs strs ∧
        (outcome ARG_MAX NARG_MAX used nargs strs = .error .E2BIG ∧
            ¬ Overruns ARG_MAX NARG_MAX used nargs strs ∨
          outcome ARG_MAX NARG_MAX used nargs strs = .error .EFAULT ∧
            Overruns ARG_MAX NARG_MAX used nargs strs)) := by
  induction strs generalizing used nargs with
  | nil => exact .inl ⟨⟨by simpa using hnargs, by simpa [block] using hused⟩, rfl⟩
  | cons s strs ih =>
    have hlen := length_block_cons s strs
    rw [outcome]
    by_cases hn : NARG_MAX ≤ nargs
    · rw [if_pos hn]
      refine .inr ⟨fun hf => ?_, .inl ⟨rfl, ?_⟩⟩
      · have hfits := hf.1
        rw [List.length_cons] at hfits
        omega
      · rintro ⟨i, _, hi, _⟩
        omega
    · rw [if_neg hn]
      by_cases hfull : used = ARG_MAX
      · rw [if_pos hfull]
        refine .inr ⟨fun hf => ?_, .inr ⟨rfl, 0, by simp, by omega, by simpa [block] using hfull⟩⟩
        have hfits := hf.2
        omega
      · rw [if_neg hfull]
        -- a string that is not the first
        have hover : Overruns ARG_MAX NARG_MAX used nargs (s :: strs) ↔
            Overruns ARG_MAX NARG_MAX (used + (s.length + 1)) (nargs + 1) strs := by
          constructor
          · rintro ⟨i, hi, hin, hb⟩
            cases i with
            | zero => exact absurd (by simpa [block] using hb) hfull
            | succ i =>
              rw [List.take_succ_cons, length_block_cons] at hb
              rw [List.length_cons] at hi
              exact ⟨i, by omega, by omega, by omega⟩
          · rintro ⟨i, hi, hin, hb⟩
            refine ⟨i + 1, by rw [List.length_cons]; omega, by omega, ?_⟩
            rw [List.take_succ_cons, length_block_cons]
            omega
        have hfits : Fits ARG_MAX NARG_MAX used nargs (s :: strs) ↔
            Fits ARG_MAX NARG_MAX (used + (s.length + 1)) (nargs + 1) strs := by
          rw [Fits, Fits, hlen, List.length_cons]
          constructor <;> rintro ⟨h1, h2⟩ <;> exact ⟨by omega, by omega⟩
        by_cases hroom : used + (s.length + 1) ≤ ARG_MAX
        · rw [if_pos hroom, hover, hfits]
          exact ih hroom (by omega)
        · rw [if_neg hroom, hover, hfits]
          refine .inr ⟨fun hf => ?_, .inl ⟨rfl, ?_⟩⟩
          · have hsum := hf.2
            omega
          · rintro ⟨i, _, _, hb⟩
            omega

/-! ## `copyin_args` -/

variable {t : Terms ArgPanic} {s : ArgState ARG_MAX} {ptrs : List (BitVec 32)}
  {strs : List (List UInt8)}

theorem awpE_map {p : ArgM ARG_MAX (List UInt8)} {f : List UInt8 → BitVec 32}
    {Q : Except Errno (BitVec 32) → ArgState ARG_MAX → Prop}
    (h : awpE t p (fun r s' => Q (r.map f) s') s) : awpE t (f <$> p) Q s := by
  rw [map_eq_pure_bind]
  refine awpE_bind_of h ?_ ?_
  · exact fun _ _ hQ => hQ
  · exact fun _ _ hQ => hQ

/-- Nothing has been written outside the buffer and the vector of offsets. -/
structure Within (NARG_MAX : Nat) (ad ad' : Argvdata ARG_MAX) : Prop where
  bytes : ad'.bytes.length ≤ ARG_MAX
  nargs : ad'.nargs ≤ NARG_MAX
  offsets : ∀ j, NARG_MAX ≤ j → ad'.offsets j = ad.offsets j

variable {Q : Except Errno Unit → ArgState ARG_MAX → Prop} {k old : Nat} {argv : BitVec 32}
  {ad : Argvdata ARG_MAX} {u : ByteMap}

theorem awpE_copyinArgs_loop_outcome {bufresid : BitVec 32} (hmax : ARG_MAX ≤ 2147483648)
    (hargv : UserArgv s.user argv.toNat ptrs strs)
    (hres : bufresid = BitVec.ofNat 32 (ARG_MAX - s.ad.bytes.length))
    (hused : s.ad.bytes.length ≤ ARG_MAX) (hk : s.ad.nargs + k = NARG_MAX)
    (hQ : ∀ ad', Within NARG_MAX s.ad ad' →
      (outcome ARG_MAX NARG_MAX s.ad.bytes.length s.ad.nargs strs = .ok () → ad' = s.ad.fill strs) →
      Q (outcome ARG_MAX NARG_MAX s.ad.bytes.length s.ad.nargs strs) { s with ad := ad' }) :
    awpE t (copyinArgs.loop NARG_MAX (k + 1) argv bufresid) Q s := by
  induction strs generalizing k argv bufresid s ptrs with
  | nil =>
    have hwithin : Within NARG_MAX s.ad s.ad := ⟨hused, by omega, fun _ _ => rfl⟩
    obtain ⟨hvec, hbelow, hstr⟩ := hargv
    cases hstr
    rw [List.flatMap_nil, List.nil_append] at hvec
    refine awpE_bind.2 (awpE_map (awpE_copyin hvec rfl (by simp) (by simpa using hbelow) ?_))
    simp only [Except.map, wordOfBytes_wordBytes]
    exact hQ s.ad hwithin fun _ => rfl
  | cons str strs ih =>
    have hwithin : Within NARG_MAX s.ad s.ad := ⟨hused, by omega, fun _ _ => rfl⟩
    obtain ⟨hvec, hbelow, hstr⟩ := hargv
    cases hstr with
    | @cons p _ ptrs _ hp hstr =>
      rw [List.length_cons] at hbelow
      rw [List.flatMap_cons, List.append_assoc, ByteMap.holds_append] at hvec
      have h4 : (argv + 4).toNat = argv.toNat + 4 := toNat_skip (n := 4) (by omega)
      have hnum : bufresid.toNat = ARG_MAX - s.ad.bytes.length := by
        rw [hres, BitVec.toNat_ofNat]
        omega
      refine awpE_bind.2 (awpE_map (awpE_copyin hvec.1 rfl (by simp) (by simp; omega) ?_))
      simp only [Except.map, wordOfBytes_wordBytes, if_neg hp.pos]
      refine awpE_call_bind.2 (awp_mem.2 ?_)
      rw [outcome] at hQ
      by_cases hn : NARG_MAX ≤ s.ad.nargs
      · rw [if_pos hn] at hQ ⊢
        exact hQ s.ad hwithin nofun
      rw [if_neg hn] at hQ ⊢
      by_cases hfull : s.ad.bytes.length = ARG_MAX
      · -- no room at all
        have hzero : bufresid = 0 := by
          rw [hres, hfull, Nat.sub_self]
          rfl
        rw [if_pos hfull] at hQ
        rw [hzero, copyinstr, copycheck_zero hp.pos]
        refine awpE_call_bind.2 ?_
        exact hQ s.ad hwithin nofun
      rw [if_neg hfull] at hQ
      by_cases hroom : s.ad.bytes.length + (str.length + 1) ≤ ARG_MAX
      · rw [if_pos hroom] at hQ
        refine awpE_call_bind.2 (awpE_copyinstr hp.holds hp.noNul hp.below (by omega) (by omega) ?_)
        refine awpE_call_bind.2 ((awp_modify _).2 ?_)
        have hoff : BitVec.ofNat 32 ARG_MAX - bufresid = BitVec.ofNat 32 s.ad.bytes.length := by
          apply BitVec.eq_of_toNat_eq
          rw [BitVec.toNat_sub, hnum, BitVec.toNat_ofNat, BitVec.toNat_ofNat]
          omega
        rw [hoff]
        have hargv : UserArgv s.user (argv + 4).toNat ptrs strs := by
          refine ⟨?_, by omega, hstr⟩
          rw [h4]
          exact hvec.2
        obtain ⟨k, rfl⟩ : ∃ j, k = j + 1 := ⟨k - 1, by omega⟩
        have hlen : (s.ad.push (BitVec.ofNat 32 s.ad.bytes.length) (str ++ [0])).bytes.length =
            s.ad.bytes.length + (str.length + 1) := by
          rw [Argvdata.push, List.length_append, List.length_append, List.length_singleton]
        apply ih
        · exact hargv
        · apply BitVec.eq_of_toNat_eq
          rw [hlen, BitVec.toNat_sub, hnum, BitVec.toNat_ofNat, BitVec.toNat_ofNat,
            List.length_append, List.length_singleton]
          omega
        · dsimp only
          rw [hlen]
          exact hroom
        · simp only [Argvdata.push]
          omega
        · dsimp only
          rw [hlen]
          intro ad' hw had'
          refine hQ ad' ⟨hw.bytes, hw.nargs, fun j hj => (hw.offsets j hj).trans ?_⟩ had'
          exact update_of_ne (by omega) _ _
      · rw [if_neg hroom] at hQ
        refine awpE_call_bind.2 (awpE_copyinstr_long hp.holds hp.noNul hp.below (by omega)
          (by omega) ?_)
        dsimp only
        rw [if_pos rfl]
        exact hQ s.ad hwithin nofun

theorem Argvdata.ARG_MAX_le (ad : Argvdata ARG_MAX) : ARG_MAX ≤ 2147483648 := by
  have hlo := ad.kernel
  have hhi := ad.room
  rw [BitVec.le_def] at hlo
  have hut : USERTOP.toNat = 2147483648 := rfl
  omega

/-- The `argvdata` when all arguments are in it. -/
def Argvdata.filled (ad : Argvdata ARG_MAX) (strs : List (List UInt8)) : Argvdata ARG_MAX :=
  { ad with bytes := [], nargs := 0 : Argvdata ARG_MAX }.fill strs

/-- What comes of an argument vector that can be read. -/
theorem awpE_copyinArgs_outcome (hheld : s.ad.held = true)
    (hargv : UserArgv s.user argv.toNat ptrs strs)
    (hQ : ∀ ad', Within NARG_MAX s.ad ad' →
      (outcome ARG_MAX NARG_MAX 0 0 strs = .ok () → ad' = s.ad.filled strs) →
      Q (outcome ARG_MAX NARG_MAX 0 0 strs) { s with ad := ad' }) :
    awpE t (copyinArgs NARG_MAX argv) Q s := by
  refine awpE_call_bind.2 (awp_mem.2 ?_)
  refine awpE_call_bind.2 (awp_assert.2 ⟨fun _ => ?_, absurd hheld⟩)
  refine awpE_call_bind.2 ((awp_modify _).2 ?_)
  apply awpE_copyinArgs_loop_outcome s.ad.ARG_MAX_le
  · exact hargv
  · rfl
  · exact Nat.zero_le _
  · exact Nat.zero_add _
  · exact fun ad' hw had' => hQ ad' ⟨hw.bytes, hw.nargs, hw.offsets⟩ had'

theorem awpE_copyinArgs (hheld : s.ad.held = true) (hargv : UserArgv s.user argv.toNat ptrs strs)
    (hroom : (block strs).length ≤ ARG_MAX) (hn : strs.length ≤ NARG_MAX)
    (hQ : Q (.ok ()) { s with ad := s.ad.filled strs }) :
    awpE t (copyinArgs NARG_MAX argv) Q s := by
  refine awpE_copyinArgs_outcome hheld hargv fun ad' _ had' => ?_
  rcases outcome_cases (ARG_MAX.zero_le) (NARG_MAX.zero_le) with hfits | hfits
  · rw [hfits.2] at had' ⊢
    rw [had' rfl]
    exact hQ
  · exact absurd ⟨by omega, by omega⟩ hfits.1

/-! ## `copyout_args` -/

theorem awpE_copyoutArgs_loop {argbase userargv : BitVec 32} {i : Nat}
    {Q : Except Errno (BitVec 32) → ArgState ARG_MAX → Prop}
    (hmap : s.user.Mapped userargv.toNat (4 * k)) (hle : userargv.toNat + 4 * k ≤ 2147483648)
    (hQ : ∀ last : BitVec 32, last.toNat = userargv.toNat + 4 * k → Q (.ok last) { s with
      user := s.user.write userargv.toNat ((ad.vector argbase k i).flatMap wordBytes) }) :
    awpE t (copyoutArgs.loop ad argbase k i userargv) Q s := by
  induction k generalizing i userargv s with
  | zero =>
    have h := hQ userargv (by omega)
    simp only [Argvdata.vector, List.flatMap_nil, ByteMap.write_nil] at h
    exact h
  | succ k ih =>
    have h4 : (userargv + 4).toNat = userargv.toNat + 4 := toNat_skip (n := 4) (by omega)
    refine awpE_bind.2 (awpE_copyout ?_ (by simp) (by simp; omega) ?_)
    · exact hmap.mono le_rfl (by rw [length_wordBytes]; omega)
    · apply ih
      · rw [h4]
        exact (hmap.mono (by omega) (by omega)).write
      · omega
      · intro last hlast
        have h := hQ last (by omega)
        rw [Argvdata.vector, List.flatMap_cons, ByteMap.write_append, length_wordBytes] at h
        rw [h4]
        exact h

theorem length_flatMap_wordBytes (l : List (BitVec 32)) :
    (l.flatMap wordBytes).length = 4 * l.length := by
  induction l with
  | nil => rfl
  | cons w l ih =>
    rw [List.flatMap_cons, List.length_append, ih, length_wordBytes, List.length_cons]
    omega

/-- Where the block of strings goes, below a stack pointer. -/
def argbase (old : Nat) (strs : List (List UInt8)) : Nat := (old - (block strs).length) / 4 * 4

/-- Where the vector goes. -/
def newStack (old : Nat) (strs : List (List UInt8)) : Nat :=
  argbase old strs - 4 * (strs.length + 1)

/-- There is enough memory below the stack pointer. -/
structure Enough (u : ByteMap) (old : Nat) (strs : List (List UInt8)) : Prop where
  below : old ≤ 2147483648
  block : (block strs).length ≤ old
  vector : 4 * (strs.length + 1) ≤ argbase old strs
  mapped : u.Mapped (newStack old strs) (old - newStack old strs)

/-- What `copyout_args` has made of the memory `u`: the arguments, with the
vector at the new stack pointer and the strings behind it. -/
structure Handed (u u' : ByteMap) (new old : Nat) (strs : List (List UInt8)) : Prop where
  aligned : new % 4 = 0
  argv : ∃ ptrs, UserArgv u' new ptrs strs ∧ Laid old (new + 4 * (strs.length + 1)) ptrs strs
  rest : ∀ x, x < new ∨ old ≤ x → u' x = u x

theorem length_vector (base : BitVec 32) (strs : List (List UInt8)) :
    ((pointers base strs).flatMap wordBytes ++ wordBytes 0).length = 4 * (strs.length + 1) := by
  rw [List.length_append, length_flatMap_wordBytes, length_pointers, length_wordBytes]
  omega

theorem Enough.fits (h : Enough u old strs) :
    argbase old strs + (Userprog.block strs).length ≤ old ∧
      newStack old strs + 4 * (strs.length + 1) = argbase old strs := by
  have hblock := h.block
  have hvector := h.vector
  constructor
  · unfold argbase
    omega
  · unfold newStack
    omega

/-- The block at its place and the vector below it make a new argument vector. -/
theorem Enough.handed {base sp : BitVec 32} (h : Enough u old strs)
    (h0 : ∀ str ∈ strs, (0 : UInt8) ∉ str) (hbase : base.toNat = argbase old strs)
    (hsp : sp.toNat = newStack old strs) :
    Handed u ((u.write base.toNat (Userprog.block strs)).write sp.toNat
      ((pointers base strs).flatMap wordBytes ++ wordBytes 0)) sp.toNat old strs := by
  obtain ⟨hfit, hnew⟩ := h.fits
  have hbelow := h.below
  have hlen := length_vector base strs
  refine ⟨?_, ⟨pointers base strs, ⟨ByteMap.holds_write, ?_, ?_⟩, ?_⟩, ?_⟩
  · have hmod : argbase old strs % 4 = 0 := Nat.mul_mod_left _ 4
    omega
  · rw [length_pointers]
    omega
  · apply strings_of_block _ h0 (by omega) (by omega)
    exact ByteMap.Holds.write ByteMap.holds_write (.inl (by omega))
  · rw [hsp, hnew, ← hbase]
    exact laid_pointers (by omega) hbelow
  · intro x hx
    rw [ByteMap.write_of_not (by omega), ByteMap.write_of_not (by omega)]

theorem toNat_align (x : BitVec 32) : (x - (x &&& 3)).toNat = x.toNat / 4 * 4 := by
  have hand : (x &&& 3).toNat = x.toNat % 4 := by
    rw [BitVec.toNat_and]
    exact Nat.and_two_pow_sub_one_eq_mod x.toNat 2
  have hlt := x.isLt
  rw [BitVec.toNat_sub, hand]
  omega

theorem awpE_copyoutArgs {stackptr : BitVec 32}
    {Q : Except Errno (BitVec 32 × BitVec 32) → ArgState ARG_MAX → Prop} (hheld : ad.held = true)
    (hne : strs ≠ []) (h0 : ∀ str ∈ strs, (0 : UInt8) ∉ str) (hmax : (block strs).length ≤ ARG_MAX)
    (had : s.ad = ad.filled strs) (hen : Enough s.user stackptr.toNat strs)
    (hQ : ∀ (sp : BitVec 32) u', Handed s.user u' sp.toNat stackptr.toNat strs →
      Q (.ok (sp, sp)) { s with user := u' }) : awpE t (copyoutArgs stackptr) Q s := by
  obtain ⟨hfit, hnew⟩ := hen.fits
  obtain ⟨hbelow, hblock, _, hmapped⟩ := id hen
  have hb : s.ad.bytes = block strs := by
    rw [had, Argvdata.filled, Argvdata.fill_bytes]
    rfl
  have hnargs : s.ad.nargs = strs.length := by
    rw [had, Argvdata.filled, Argvdata.fill_nargs, Nat.zero_add]
  have hheld' : s.ad.held = true := by
    rw [had, Argvdata.filled, Argvdata.fill_held]
    exact hheld
  have hpos : 0 < (block strs).length := by
    cases strs with
    | nil => exact absurd rfl hne
    | cons str strs =>
      rw [length_block_cons]
      omega
  have hlen : (s.ad.bufend - s.ad.buffer).toNat = (block strs).length := by
    have hsub : s.ad.bufend - s.ad.buffer = BitVec.ofNat 32 (block strs).length := by
      rw [Argvdata.bufend, hb, BitVec.add_comm, BitVec.add_sub_cancel]
    rw [hsub, BitVec.toNat_ofNat]
    omega
  refine awpE_call_bind.2 (awp_mem.2 ?_)
  dsimp only
  refine awpE_call_bind.2 (awp_assert.2 ⟨fun _ => ?_, absurd hheld'⟩)
  generalize hbase : stackptr - (s.ad.bufend - s.ad.buffer) -
    (stackptr - (s.ad.bufend - s.ad.buffer) &&& 3) = base
  have hbasenum : base.toNat = argbase stackptr.toNat strs := by
    rw [← hbase, toNat_align, BitVec.toNat_sub, hlen, argbase]
    omega
  have hspnum : (base - (BitVec.ofNat 32 s.ad.nargs + 1) * 4).toNat =
      newStack stackptr.toNat strs := by
    have hfour : ((BitVec.ofNat 32 s.ad.nargs + 1) * 4).toNat = 4 * (strs.length + 1) := by
      rw [BitVec.toNat_mul, BitVec.toNat_add, BitVec.toNat_ofNat, hnargs]
      simp
      omega
    rw [BitVec.toNat_sub, hfour, hbasenum]
    omega
  generalize base - (BitVec.ofNat 32 s.ad.nargs + 1) * 4 = sp at hspnum ⊢
  rw [hlen, hb, List.take_length]
  refine awpE_bind.2 (awpE_copyout ?_ hpos (by omega) ?_)
  · exact hmapped.mono (by omega) (by omega)
  refine awpE_bind.2 (awpE_copyoutArgs_loop ?_ (by omega) ?_)
  · apply ByteMap.Mapped.write
    exact hmapped.mono (by omega) (by omega)
  intro last hlast
  refine awpE_bind.2 (awpE_copyout ?_ (by simp) (by simp; omega) ?_)
  · apply ByteMap.Mapped.write
    apply ByteMap.Mapped.write
    exact hmapped.mono (by omega) (by simp; omega)
  have hvec : s.ad.vector base s.ad.nargs 0 = pointers base strs := by
    have h := Argvdata.fill_vector { ad with bytes := [], nargs := 0 } strs base
    rw [hnargs, had, Argvdata.filled]
    simpa using h
  have hlenv : ((pointers base strs).flatMap wordBytes).length = 4 * strs.length := by
    rw [length_flatMap_wordBytes, length_pointers]
  have hdone := hQ sp _ (hen.handed h0 hbasenum hspnum)
  -- the null pointer goes behind the others
  rw [ByteMap.write_append, hlenv, ← hnargs, ← hlast, ← hvec] at hdone
  exact hdone

/-- The new program gets exactly the arguments of the old one. -/
theorem execv_args (NARG_MAX : Nat) (m : Machine (ArgState ARG_MAX) Empty Unit Empty)
    (argv : BitVec 32) (ptrs : List (BitVec 32)) (strs : List (List UInt8))
    (hheld : m.mem.ad.held = true) (hargv : UserArgv m.mem.user argv.toNat ptrs strs)
    (hne : 1 ≤ strs.length) (hn : strs.length ≤ NARG_MAX) (hmax : (block strs).length ≤ ARG_MAX) :
    ∃ m', Prog.run (copyinArgs NARG_MAX argv).run m = (.done (.ok ()), m') ∧
      m'.mem.user = m.mem.user ∧ m'.mem.ad.nargs = strs.length ∧
      ∀ (m₂ : Machine (ArgState ARG_MAX) Empty Unit Empty) (stackptr : BitVec 32),
        m₂.mem.ad = m'.mem.ad → Enough m₂.mem.user stackptr.toNat strs →
        ∃ sp m₃, Prog.run (copyoutArgs stackptr).run m₂ = (.done (.ok (sp, sp)), m₃) ∧
          Handed m₂.mem.user m₃.mem.user sp.toNat stackptr.toNat strs := by
  have hterms : ∀ f : ArgPanic, ¬ (⟨fun _ => False, False, True⟩ : Terms ArgPanic).fails f :=
    fun _ hf => hf
  have hin : awpE ⟨fun _ => False, False, True⟩ (copyinArgs NARG_MAX argv)
      (fun r s' => r = .ok () ∧ s' = { m.mem with ad := m.mem.ad.filled strs }) m.mem :=
    awpE_copyinArgs hheld hargv hmax hn ⟨rfl, rfl⟩
  obtain ⟨r, m', hrun, rfl, hmem⟩ := awp_run_done hterms (fun _ => trivial) hin
  refine ⟨m', hrun, ?_, ?_, ?_⟩
  · rw [hmem]
  · rw [hmem]
    exact (Argvdata.fill_nargs _ _).trans (Nat.zero_add _)
  · intro m₂ stackptr had hen
    rw [hmem] at had
    have hout : awpE ⟨fun _ => False, False, True⟩ (copyoutArgs stackptr)
        (fun r s' => ∃ sp, r = .ok (sp, sp) ∧
          Handed m₂.mem.user s'.user sp.toNat stackptr.toNat strs) m₂.mem := by
      apply awpE_copyoutArgs hheld _ hargv.noNul hmax had hen
      · exact fun sp u' hh => ⟨sp, rfl, hh⟩
      · intro hnil
        simp [hnil] at hne
    obtain ⟨r, m₃, hrun2, ⟨sp, rfl, hh⟩⟩ := awp_run_done hterms (fun _ => trivial) hout
    exact ⟨sp, m₃, hrun2, hh⟩

end

/-- A program that was started with `a` and `bc`. -/
def twoArgs : Machine (ArgState 16) Empty Unit Empty where
  mem :=
    { user := (ByteMap.write (fun _ => some 0) 0x1000 [0, 0, 0x20, 0, 0, 0, 0x20, 2]).write 0x2000
        [97, 0, 98, 99, 0]
      ad :=
        { buffer := 0x80100000
          kernel := by decide
          room := by decide
          bytes := []
          offsets := fun _ => 0
          nargs := 0
          held := true } }
  disk a := a.elim

theorem twoArgs_argv :
    UserArgv twoArgs.mem.user (0x1000 : BitVec 32).toNat [0x2000, 0x2002] [[97], [98, 99]] := by
  refine ⟨?_, by decide, .cons ⟨by decide, by decide, ?_, by decide⟩
    (.cons ⟨by decide, by decide, ?_, by decide⟩ .nil)⟩
  · unfold ByteMap.Holds
    decide
  · unfold ByteMap.Holds
    decide
  · unfold ByteMap.Holds
    decide

theorem execv_args_two : ∃ m' m₃ sp,
    Prog.run (copyinArgs 4 0x1000).run twoArgs = (.done (.ok ()), m') ∧
      Prog.run (copyoutArgs 0x80000000).run m' = (.done (.ok (sp, sp)), m₃) ∧
      Handed m'.mem.user m₃.mem.user sp.toNat (0x80000000 : BitVec 32).toNat
        [[97], [98, 99]] := by
  obtain ⟨m', hin, huser, _, hout⟩ :=
    execv_args 4 twoArgs 0x1000 [0x2000, 0x2002] [[97], [98, 99]] rfl twoArgs_argv
      (by decide) (by decide) (by decide)
  have hen : Enough m'.mem.user (0x80000000 : BitVec 32).toNat [[97], [98, 99]] := by
    refine ⟨by decide, by decide, by decide, ?_⟩
    rw [huser]
    apply ByteMap.Mapped.write
    apply ByteMap.Mapped.write
    exact fun _ _ _ => rfl
  obtain ⟨sp, m₃, hrun, hh⟩ := hout m' 0x80000000 rfl hen
  exact ⟨m', m₃, sp, hin, hrun, hh⟩

end Os161.Userprog
