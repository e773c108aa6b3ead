import Os161.Proofs.Refs

/-!
# The name of the boot file system

`vfs_setbootfs` wants to take its argument with or without a colon at the end, and
no colon anywhere else. Its test asks whether the string from the colon on is empty,
which it never is: a name with its colon is turned away like any other string with a
colon in it. So it makes a difference for every name but those that `vfs_chdir`
answers with the same error.

Besides, only the first 254 bytes of the argument are looked at.
-/

namespace Os161.Vfs

open Os161.Kern Os161.Lib

variable {σ : Type} {kept opened held : List Vnode} {s : State σ} {O : Ops σ}

/-- What is left to see of a call: its result, the boot file system and the current
directories. -/
def bootRun (O : Ops σ) (s : State σ) (script : Script Empty) (fsname : CString) :
    Outcome Panic (Except Errno Unit) × Option Vnode × List (Option Vnode) :=
  let x := (vfsSetbootfs O fsname).run.run (s.machine script)
  (x.1, x.2.mem.bootfsVnode, x.2.mem.tCwd)

/-- The name has been rejected, and everything is as it was. -/
def BootRejected (O : Ops σ) (s : State σ) (script : Script Empty) (fsname : CString) : Prop :=
  ∃ m, (vfsSetbootfs O fsname).run.run (s.machine script) = (.done (.error .EINVAL), m) ∧
    SameCounts s.vnodes m.mem.vnodes ∧ m.mem = s.withVnodes m.mem.vnodes

/-- `vfs_chdir` has the answer EINVAL for this name with a colon. -/
def ChdirInvalid (O : Ops σ) (s : State σ) (script : Script Empty) (name : CString) : Prop :=
  ∃ m, (vfsChdir O (name.strcat colonString)).run.run (s.machine script) =
    (.done (.error .EINVAL), m)

section
variable {script : Script Empty} {fsname : CString}

theorem setbootfs_colon (h : chColon ∈ (fsname.cut (nameMax - 1)).bytes) :
    (vfsSetbootfs O fsname).run.run (s.machine script) =
      (.done (.error .EINVAL), s.machine script) := by
  rw [vfsSetbootfs, if_pos h]
  rfl

/-- What `vfs_setbootfs` does once the directory has been changed. -/
theorem awpE_setbootfs_rest (hO : O.Accounts) (h : Sound kept s opened held) {v : Vnode}
    (hcwd : s.cwd = some v) :
    awpE Terms.none (do let newguy ← vfsGetcurdir; call (changeBootfs O (some newguy)))
      (fun r _ => r = .ok ()) s := by
  refine awpE_bind.2 (awpE_vfsGetcurdir h (fun hn => ?_) fun w n _ hs => ?_)
  · rw [hcwd] at hn
    cases hn
  · exact Lib.awpE_call.2 (awp_mono (awp_changeBootfs hO (x := some w) hs) fun _ _ _ => rfl)

/-- Without a colon everything depends on `vfs_chdir`. -/
theorem setbootfs_plain (hO : O.Accounts) (h : Sound kept s opened held)
    (hno : chColon ∉ (fsname.cut (nameMax - 1)).bytes) :
    ∃ r m, (vfsSetbootfs O fsname).run.run (s.machine script) = (.done r, m) ∧
      (r = .error .EINVAL ↔ ChdirInvalid O s script (fsname.cut (nameMax - 1))) ∧
      ∀ e, r = .error e → SameCounts s.vnodes m.mem.vnodes ∧ m.mem = s.withVnodes m.mem.vnodes := by
  have hchdir : awpE Terms.none (vfsChdir O ((fsname.cut (nameMax - 1)).strcat colonString))
      (fun r s' => (r = .ok () → Sound kept s' opened held ∧ ∃ v, s'.cwd = some v) ∧
        ∀ e, r = .error e → SameCounts s.vnodes s'.vnodes ∧ s' = s.withVnodes s'.vnodes) s := by
    refine awpE_vfsChdir hO h _ (fun v n hs => ⟨fun _ => ⟨hs, v, ?_⟩, fun e he => ?_⟩)
      fun e n hs => ⟨fun he => ?_, fun _ _ => ⟨h.same_of hs, rfl⟩⟩
    · exact State.cwd_setCwd h.cur _
    · cases he
    · cases he
  have hplain : vfsSetbootfs O fsname = (do
      vfsChdir O ((fsname.cut (nameMax - 1)).strcat colonString)
      let newguy ← vfsGetcurdir
      call (changeBootfs O (some newguy))) := by
    rw [vfsSetbootfs]
    exact if_neg hno
  obtain ⟨r, m, hrun, hok, herr⟩ := awp_run_done (s := s.machine script) (fun _ hf => hf)
    (fun _ => trivial) hchdir
  have hrun' : (vfsChdir O ((fsname.cut (nameMax - 1)).strcat colonString)).run.run
      (s.machine script) = (.done r, m) := hrun
  rw [hplain]
  cases r with
  | error e =>
    refine ⟨.error e, m, Prog.run_bind_error hrun' _, ⟨fun he => ?_, fun hi => ?_⟩, herr⟩
    · cases he
      exact ⟨m, hrun'⟩
    · obtain ⟨m', hm'⟩ := hi
      exact Outcome.done.inj (Prod.mk.inj (hrun'.symm.trans hm')).1
  | ok x =>
    obtain ⟨hs, v, hv⟩ := hok rfl
    obtain ⟨r, m', hrest, rfl⟩ := awp_run_done (s := m) (fun _ hf => hf) (fun _ => trivial)
      (awpE_setbootfs_rest hO hs hv)
    refine ⟨.ok (), m', (Prog.run_bind_ok hrun' _).trans hrest, ⟨fun he => ?_, fun hi => ?_⟩,
      fun e he => ?_⟩
    · cases he
    · obtain ⟨m', hm'⟩ := hi
      cases Outcome.done.inj (Prod.mk.inj (hrun'.symm.trans hm')).1
    · cases he

end

/-- A name means the same with a colon behind it exactly if `vfs_chdir` turns it away
with EINVAL. A string with a colon further in front is rejected exactly if the colon
is among the first 254 bytes, or these are a name of that kind. -/
theorem setbootfs_colon_iff (hO : O.Accounts) (h : Sound kept s opened held)
    (script : Script Empty) :
    (∀ name : CString, chColon ∉ name.bytes → name.strlen < nameMax - 1 →
      (bootRun O s script (name.strcat colonString) = bootRun O s script name ↔
        ChdirInvalid O s script name)) ∧
    ∀ (t : CString) (i : Nat), t.bytes[i]? = some chColon → i + 1 < t.strlen →
      (BootRejected O s script t ↔
        chColon ∈ t.bytes.take (nameMax - 1) ∨
          ChdirInvalid O s script (t.cut (nameMax - 1))) := by
  constructor
  · intro name hno hlen
    have hcut : name.cut (nameMax - 1) = name :=
      CString.ext (List.take_of_length_le (Nat.le_of_lt hlen))
    have hcolon : chColon ∈ ((name.strcat colonString).cut (nameMax - 1)).bytes := by
      show chColon ∈ (name.bytes ++ [chColon]).take (nameMax - 1)
      rw [List.take_of_length_le (by rw [List.length_append]; exact hlen)]
      exact List.mem_append_right _ (List.mem_singleton_self _)
    obtain ⟨r, m, hrun, hiff, herr⟩ := @setbootfs_plain _ _ _ _ s O script name hO h
      (by rwa [hcut])
    rw [hcut] at hiff
    rw [← hiff, bootRun, bootRun, setbootfs_colon hcolon, hrun]
    constructor
    · intro heq
      exact (Outcome.done.inj (Prod.mk.inj heq).1).symm
    · rintro rfl
      obtain ⟨-, hm⟩ := herr _ rfl
      dsimp only
      rw [hm]
      rfl
  · intro t i hi hlt
    by_cases hcolon : chColon ∈ t.bytes.take (nameMax - 1)
    · refine iff_of_true ⟨_, setbootfs_colon hcolon, ⟨rfl, rfl⟩, rfl⟩ (.inl hcolon)
    · obtain ⟨r, m, hrun, hiff, herr⟩ := @setbootfs_plain _ _ _ _ s O script t hO h hcolon
      rw [or_iff_right hcolon, ← hiff, BootRejected, hrun]
      constructor
      · rintro ⟨m', hm', -⟩
        exact Outcome.done.inj (Prod.mk.inj hm').1
      · rintro rfl
        exact ⟨m, rfl, herr _ rfl⟩

/-- `a:b` has its colon in the wrong place, and is rejected. -/
theorem setbootfs_inner_colon :
    BootRejected (rootOnly fun _ => none) oneDev {} (CString.ofBytes [97, chColon, 98]) :=
  ((setbootfs_colon_iff (rootOnly_accounts _) oneDev_sound {}).2
    (CString.ofBytes [97, chColon, 98]) 1 rfl (by decide)).2 (.inl (by decide))

/-- `lhd0` becomes the boot file system, and `lhd0:` does not. -/
theorem setbootfs_lhd0_colon :
    chColon ∉ lhd0.bytes ∧ lhd0.strlen < nameMax - 1 ∧
      (bootRun (rootOnly fun _ => none) oneDev {} lhd0).1 = .done (.ok ()) ∧
      (bootRun (rootOnly fun _ => none) oneDev {} (lhd0.strcat colonString)).1 =
        .done (.error .EINVAL) :=
  ⟨by decide, by decide, rfl, rfl⟩

end Os161.Vfs
