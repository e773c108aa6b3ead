import Os161.Proofs.Args

/-!
# The limits on arguments

`copyin_args` counts the strings and the bytes that are left in its buffer, and gives up
with E2BIG when either runs out. It takes that from the error of `copyinstr`, which is
ENAMETOOLONG as long as there is any room at all. When the strings so far have filled the
buffer to the last byte, `copyinstr` is called with no room, and `copycheck` refuses a
block of no bytes with EFAULT, whatever its address.

For the same reason `copyout_args` cannot cope with a program that has no arguments: the
block of strings that it copies out has no bytes.
-/

namespace Os161.Userprog

open Os161.Kern Os161.Lib

variable {ARG_MAX NARG_MAX : Nat}

/-- The limits are enforced as they should be, and what is accepted can be handed on. -/
def LimitsExact (NARG_MAX : Nat) (m : Machine (ArgState ARG_MAX) Empty Unit Empty)
    (argv : BitVec 32) (strs : List (List UInt8)) : Prop :=
  ∃ r m', Prog.run (copyinArgs NARG_MAX argv).run m = (.done r, m') ∧
    r = (if strs.length ≤ NARG_MAX ∧ (block strs).length ≤ ARG_MAX then .ok ()
      else .error .E2BIG) ∧
    Within NARG_MAX m.mem.ad m'.mem.ad ∧
    (r = .ok () → ∀ (m₂ : Machine (ArgState ARG_MAX) Empty Unit Empty) (stackptr : BitVec 32),
      m₂.mem.ad = m'.mem.ad → Enough m₂.mem.user stackptr.toNat strs →
      ∃ x m₃, Prog.run (copyoutArgs stackptr).run m₂ = (.done (.ok x), m₃))

/-- There are arguments, and they do not fill the buffer exactly with another one to
come. -/
def Manageable (ARG_MAX NARG_MAX : Nat) (strs : List (List UInt8)) : Prop :=
  strs ≠ [] ∧ ∀ i, i < strs.length → i < NARG_MAX → (block (strs.take i)).length ≠ ARG_MAX

def argTerms : Terms ArgPanic := ⟨fun _ => False, False, True⟩

section
variable {m : Machine (ArgState ARG_MAX) Empty Unit Empty} {ad : Argvdata ARG_MAX}
  {strs : List (List UInt8)} {stackptr : BitVec 32}

/-- Without arguments the new program never gets its stack. -/
theorem copyout_nil_run (hheld : ad.held = true) (had : m.mem.ad = ad.filled [])
    (stackptr : BitVec 32) :
    ∃ m', Prog.run (copyoutArgs stackptr).run m = (.done (.error .EFAULT), m') := by
  have hw : awpE argTerms (copyoutArgs stackptr) (fun r _ => r = .error .EFAULT) m.mem := by
    refine awpE_call_bind.2 (awp_mem.2 ?_)
    refine awpE_call_bind.2 (awp_assert.2 ⟨fun _ => ?_, fun hno => absurd ?_ hno⟩)
    · dsimp only
      rw [had, show (ad.filled []).bytes = [] from rfl, List.take_nil]
      exact awpE_bind.2 (awpE_copyout_nil rfl)
    · rw [had]
      exact hheld
  obtain ⟨r, m', hrun, rfl⟩ := awp_run_done (fun _ hf => hf) (fun _ => trivial) hw
  exact ⟨m', hrun⟩

/-- With arguments it does. -/
theorem copyout_run (hheld : ad.held = true) (hne : strs ≠ [])
    (h0 : ∀ str ∈ strs, (0 : UInt8) ∉ str) (hmax : (block strs).length ≤ ARG_MAX)
    (had : m.mem.ad = ad.filled strs) (hen : Enough m.mem.user stackptr.toNat strs) :
    ∃ x m', Prog.run (copyoutArgs stackptr).run m = (.done (.ok x), m') := by
  have hw : awpE argTerms (copyoutArgs stackptr) (fun r _ => ∃ x, r = .ok x) m.mem :=
    awpE_copyoutArgs hheld hne h0 hmax had hen fun sp u' _ => ⟨(sp, sp), rfl⟩
  obtain ⟨r, m', hrun, x, rfl⟩ := awp_run_done (fun _ hf => hf) (fun _ => trivial) hw
  exact ⟨x, m', hrun⟩

end

theorem Fits.not_overruns {strs : List (List UInt8)} (h : Fits ARG_MAX NARG_MAX 0 0 strs) :
    ¬ Overruns ARG_MAX NARG_MAX 0 0 strs := by
  rintro ⟨i, hi, -, hb⟩
  have hsum := h.2
  have hblock : block strs = block (strs.take i) ++ block (strs.drop i) := by
    rw [block, block, block, ← List.flatMap_append, List.take_append_drop]
  obtain ⟨s, rest, hdrop⟩ : ∃ s rest, strs.drop i = s :: rest :=
    ⟨_, _, List.drop_eq_getElem_cons hi⟩
  rw [hblock, hdrop, List.length_append, length_block_cons] at hsum
  omega

/-- All of user memory is there, and the stack at its top. -/
theorem enough_nil : Enough (fun _ => some 0) (0x80000000 : BitVec 32).toNat [] :=
  ⟨by decide, by decide, by decide, fun _ _ _ => rfl⟩

theorem manageable_iff {strs : List (List UInt8)} :
    Manageable ARG_MAX NARG_MAX strs ↔ strs ≠ [] ∧ ¬ Overruns ARG_MAX NARG_MAX 0 0 strs := by
  refine and_congr_right fun _ => ?_
  constructor
  · rintro h ⟨i, hi, hn, hb⟩
    exact h i hi (by omega) (by omega)
  · intro h i hi hn hb
    exact h ⟨i, hi, by omega, by omega⟩

/-- The limits are enforced exactly, and every program that is accepted gets its
arguments, exactly if the arguments are manageable. -/
theorem args_limits_iff (NARG_MAX : Nat) (m : Machine (ArgState ARG_MAX) Empty Unit Empty)
    (argv : BitVec 32) (ptrs : List (BitVec 32)) (strs : List (List UInt8))
    (hheld : m.mem.ad.held = true) (hargv : UserArgv m.mem.user argv.toNat ptrs strs) :
    LimitsExact NARG_MAX m argv strs ↔ Manageable ARG_MAX NARG_MAX strs := by
  have hin : awpE argTerms (copyinArgs NARG_MAX argv) (fun r s' =>
      r = outcome ARG_MAX NARG_MAX 0 0 strs ∧ Within NARG_MAX m.mem.ad s'.ad ∧
      (r = .ok () → s'.ad = m.mem.ad.filled strs)) m.mem :=
    awpE_copyinArgs_outcome hheld hargv fun ad' hw had' => ⟨rfl, hw, had'⟩
  obtain ⟨r, m', hrun, hr, hw, had⟩ := awp_run_done (fun _ hf => hf) (fun _ => trivial) hin
  have hexact : LimitsExact NARG_MAX m argv strs ↔
      r = (if strs.length ≤ NARG_MAX ∧ (block strs).length ≤ ARG_MAX then .ok ()
        else .error .E2BIG) ∧
      (r = .ok () → ∀ (m₂ : Machine (ArgState ARG_MAX) Empty Unit Empty) (stackptr : BitVec 32),
        m₂.mem.ad = m'.mem.ad → Enough m₂.mem.user stackptr.toNat strs →
        ∃ x m₃, Prog.run (copyoutArgs stackptr).run m₂ = (.done (.ok x), m₃)) := by
    constructor
    · rintro ⟨r', m'', hrun', h1, -, h2⟩
      rw [hrun] at hrun'
      cases hrun'
      exact ⟨h1, h2⟩
    · rintro ⟨h1, h2⟩
      exact ⟨r, m', hrun, h1, hw, h2⟩
  rw [hexact, manageable_iff]
  rcases outcome_cases ARG_MAX.zero_le NARG_MAX.zero_le with ⟨hfits, ho⟩ | ⟨hfits, ho⟩
  · rw [ho] at hr
    subst hr
    rw [if_pos (by simpa [Fits] using hfits)]
    have had' := had rfl
    refine ⟨fun hexact => ⟨?_, hfits.not_overruns⟩, fun hne =>
      ⟨rfl, fun _ m₂ stackptr hm2 hen => ?_⟩⟩
    · -- a machine with all the memory there is
      rintro rfl
      let m₂ : Machine (ArgState ARG_MAX) Empty Unit Empty :=
        ⟨⟨fun _ => some 0, m'.mem.ad⟩, m'.disk, m'.script⟩
      obtain ⟨x, m₃, hout⟩ := hexact.2 rfl m₂ 0x80000000 rfl enough_nil
      obtain ⟨m4, hnil⟩ := copyout_nil_run (m := m₂) hheld had' 0x80000000
      rw [hout] at hnil
      cases hnil
    · exact copyout_run hheld hne.1 hargv.noNul (by simpa using hfits.2) (hm2.trans had') hen
  · have hnot : ¬ (strs.length ≤ NARG_MAX ∧ (block strs).length ≤ ARG_MAX) := by
      simpa [Fits] using hfits
    have hne : strs ≠ [] := by
      rintro rfl
      exact hnot ⟨Nat.zero_le _, Nat.zero_le _⟩
    rw [if_neg hnot]
    rcases ho with ⟨ho, hover⟩ | ⟨ho, hover⟩
    · rw [ho] at hr
      exact iff_of_true ⟨hr, fun hok => by rw [hr] at hok; cases hok⟩ ⟨hne, hover⟩
    · rw [ho] at hr
      exact iff_of_false (fun h => by rw [hr] at h; cases h.1) fun h => h.2 hover

theorem args_limits_two : LimitsExact 4 twoArgs 0x1000 [[97], [98, 99]] :=
  (args_limits_iff 4 twoArgs 0x1000 [0x2000, 0x2002] [[97], [98, 99]] rfl twoArgs_argv).2
    ⟨by decide, by decide⟩

/-- An address that `kmalloc` may return, with room behind it. -/
theorem kernel_address :
    USERTOP ≤ (0x80200000 : BitVec 32) ∧ (0x80200000 : BitVec 32).toNat + 4 ≤ 4294967296 := by
  decide

/-- `abc` and `d`, with the limits of `limits.h`: both are four. -/
def fullArgs : Machine (ArgState 4) Empty Unit Empty where
  mem :=
    { user := (ByteMap.write (fun _ => some 0) 0x1000 [0, 0, 0x20, 0, 0, 0, 0x20, 4]).write 0x2000
        [97, 98, 99, 0, 100, 0]
      ad :=
        { buffer := 0x80200000
          kernel := kernel_address.1
          room := kernel_address.2
          bytes := []
          offsets := fun _ => 0
          nargs := 0
          held := true } }
  disk a := a.elim

/-- The first string fills the buffer, and the second one is not too long but a fault. No
arguments at all are accepted, and cannot be copied out. -/
theorem args_limits_full :
    UserArgv fullArgs.mem.user (0x1000 : BitVec 32).toNat [0x2000, 0x2004] [[97, 98, 99], [100]] ∧
      (Prog.run (copyinArgs 4 0x1000).run fullArgs).1 = .done (.error .EFAULT) ∧
      UserArgv fullArgs.mem.user (0x3000 : BitVec 32).toNat [] [] ∧
      (Prog.run (copyinArgs 4 0x3000).run fullArgs).1 = .done (.ok ()) ∧
      (Prog.run (copyoutArgs 0x80000000).run
        (Prog.run (copyinArgs 4 0x3000).run fullArgs).2).1 = .done (.error .EFAULT) := by
  refine ⟨⟨?_, by decide, .cons ⟨by decide, by decide, ?_, by decide⟩
    (.cons ⟨by decide, by decide, ?_, by decide⟩ .nil)⟩, rfl, ⟨?_, by decide, .nil⟩, rfl, rfl⟩
  · unfold ByteMap.Holds
    decide
  · unfold ByteMap.Holds
    decide
  · unfold ByteMap.Holds
    decide
  · unfold ByteMap.Holds
    decide

end Os161.Userprog
