import Os161.Proofs.OpenFiles
import Os161.Userprog.FileSyscalls

/-!
# `lseek`

The sums of `sys_lseek` wrap, and its only test of the result is for its sign. That is
enough. Where it looks at a sum, one term is at least zero, and such a sum cannot come
back to zero by wrapping: it is the exact one if it is not negative, and if it is
negative then the exact one is out of range as well.

On a directory nothing can be sought. `vop_tryseek` is one of the entries that SFS and
emufs have not implemented there.
-/

namespace Os161.Userprog

open Os161.Kern Os161.Lib Os161.Vfs Function

variable {σ : Type} {s : FileState σ} {O : Ops σ} {S : SeekOps σ}

/-! ## Signed words -/

theorem slt_zero_iff (x : BitVec 32) : x.slt 0 = true ↔ x.toInt < 0 :=
  BitVec.slt_iff_toInt_lt

/-- A sum with one term that is not negative: its sign tells whether it has wrapped. -/
theorem toInt_add_cases {x : BitVec 32} (hx : 0 ≤ x.toInt) (y : BitVec 32) :
    if 0 ≤ x.toInt + y.toInt ∧ x.toInt + y.toInt < 2147483648
    then (x + y).toInt = x.toInt + y.toInt else (x + y).toInt < 0 := by
  have hx' : x.toInt < 2147483648 := BitVec.toInt_lt
  have hy : -2147483648 ≤ y.toInt := BitVec.le_toInt y
  have hy' : y.toInt < 2147483648 := BitVec.toInt_lt
  rw [BitVec.toInt_add, Int.bmod_def]
  split <;> split <;> omega

/-! ## Locks -/

variable {t : Terms FilePanic} {lock : Option Addr} {l : Addr} {Q : Unit → FileState σ → Prop}

theorem awp_lockAcquire (hl : lock = some l) (hfree : s.locks l = some none)
    (hQ : Q () { s with locks := update s.locks l (some (some s.curthread)) }) :
    awp t (lockAcquire lock) Q s := by
  subst hl
  refine awp_bind.2 (awp_bind.2 ?_)
  rw [awp_mem, hfree]
  refine awp_bind.2 ?_
  rw [awp_mem]
  refine awp_bind.2 (awp_assert.2 ⟨fun _ => ?_, fun hn => absurd ?_ hn⟩)
  · exact awp_bind.2 (awp_assert.2 ⟨fun _ => hQ, absurd rfl⟩)
  · exact nofun

theorem awp_lockRelease (hl : lock = some l) (hheld : s.locks l = some (some s.curthread))
    (hQ : Q () { s with locks := update s.locks l (some none) }) :
    awp t (lockRelease lock) Q s := by
  subst hl
  refine awp_bind.2 (awp_bind.2 ?_)
  rw [awp_mem, hheld]
  refine awp_bind.2 ?_
  rw [awp_mem]
  exact awp_bind.2 (awp_assert.2 ⟨fun _ => hQ, absurd rfl⟩)

theorem awp_findfile {fd : Int} {Q : Option Addr → FileState σ → Prop} (hfd : InRange fd)
    (hQ : Q (s.slot fd) s) : awp t (filetableFindfile fd) Q s := by
  refine awp_bind.2 ?_
  rw [awp_mem, if_pos hfd]
  exact hQ

theorem awp_openfile_of {a : Addr} {f : Openfile} {Q : Openfile → FileState σ → Prop}
    (hf : s.files a = some f) (hQ : Q f s) : awp t (openfile a) Q s := by
  refine awp_bind.2 ?_
  rw [awp_mem, hf]
  exact hQ

/-- VOP_FOO of a file that is in use. -/
theorem awp_vopOn_file {α : Type} {fs : Fs} {ino : Ino} {dev : Option Device → VProg σ α}
    {vop : Fs → Ino → Below σ α} {Q : α → FileState σ → Prop}
    (hused : 0 < s.vfs.vnodes.refcount (.file fs ino))
    (hQ : Q (vop fs ino s.vfs.vnodes).1
      { s with vfs := { s.vfs with vnodes := (vop fs ino s.vfs.vnodes).2 } }) :
    awp t (onVfs (vopOn (.file fs ino) dev vop)) Q s :=
  awp_zoom.2 (awp_bind.2 (awp_bind.2 (awp_assert.2 ⟨fun _ => hQ, absurd hused⟩)))

/-! ## What is sought -/

/-- A descriptor for a file of SFS or emufs, with the file's lock free and with a size
that VOP_STAT finds. -/
structure Seekable (S : SeekOps σ) (s : FileState σ) (fd : Int) (a l : Addr) (f : Openfile)
    (fs : Fs) (ino : Ino) (size : BitVec 32) : Prop where
  range : InRange fd
  slot : s.slot fd = some a
  file : s.files a = some f
  lock : f.ofLock = some l
  free : s.locks l = some none
  vnode : f.ofVnode = some (.file fs ino)
  used : 0 < s.vfs.vnodes.refcount (.file fs ino)
  stat : (S.vopStat fs ino s.vfs.vnodes).1 = .ok size
  counts : SameCounts s.vfs.vnodes (S.vopStat fs ino s.vfs.vnodes).2
  offset_nonneg : 0 ≤ f.ofOffset.toInt
  size_nonneg : 0 ≤ size.toInt

/-- What the offset is added to. -/
def seekBase (f : Openfile) (size : BitVec 32) (whence : Int) : Option Int :=
  if whence = seekSet then some 0
  else if whence = seekCur then some f.ofOffset.toInt
  else if whence = seekEnd then some size.toInt
  else none

/-- The table is one of those for files that are not directories. -/
def VnodeOps.IsFile (ops : VnodeOps) : Prop := ops = .sfsFileops ∨ ops = .emufsFileops

/-- There is a place to go to: `whence` is valid, and the exact sum is a position. -/
def InReach (f : Openfile) (size offset : BitVec 32) (whence : Int) : Prop :=
  ∃ base, seekBase f size whence = some base ∧
    0 ≤ base + offset.toInt ∧ base + offset.toInt < 2147483648

/-- What has become of a file that was sought in. -/
structure Sought (s : FileState σ) (a : Addr) (f : Openfile) (size offset : BitVec 32)
    (whence : Int) (isFile : Prop) (r : Except Errno Unit) (s' : FileState σ) : Prop where
  locks : s'.locks = s.locks
  kept : r ≠ .ok () → s'.files = s.files
  moved : r = .ok () → ∃ base pos, seekBase f size whence = some base ∧
    pos.toInt = base + offset.toInt ∧ 0 ≤ pos.toInt ∧
    s'.files = update s.files a (some { f with ofOffset := pos })
  ok_iff : r = .ok () ↔ isFile ∧ InReach f size offset whence

section
variable {fd : Int} {a l : Addr} {f : Openfile} {fs : Fs} {ino : Ino} {size offset : BitVec 32}
  {whence : Int}

/-- A sum that the source tests is one whose sign tells whether it is in reach. -/
theorem target_cases (hoff : 0 ≤ f.ofOffset.toInt) (hsize : 0 ≤ size.toInt) :
    match sysLseek.target f size offset whence with
    | none => seekBase f size whence = none
    | some pos => ∃ base, seekBase f size whence = some base ∧
        if 0 ≤ base + offset.toInt ∧ base + offset.toInt < 2147483648
        then pos.toInt = base + offset.toInt else pos.toInt < 0 := by
  rw [sysLseek.target, seekBase]
  by_cases hset : whence = seekSet
  · rw [if_pos hset, if_pos hset]
    refine ⟨0, rfl, ?_⟩
    have h := toInt_add_cases (x := 0#32) (by decide) offset
    rw [BitVec.zero_add] at h
    exact h
  · rw [if_neg hset, if_neg hset]
    by_cases hcur : whence = seekCur
    · rw [if_pos hcur, if_pos hcur]
      exact ⟨_, rfl, toInt_add_cases hoff offset⟩
    · rw [if_neg hcur, if_neg hcur]
      by_cases hend : whence = seekEnd
      · rw [if_pos hend, if_pos hend]
        exact ⟨_, rfl, toInt_add_cases hsize offset⟩
      · rw [if_neg hend, if_neg hend]

theorem VnodeOps.tryseek_ok_iff {ops : VnodeOps} {pos : BitVec 32} :
    ops.vopTryseek pos = .ok () ↔ ops.IsFile ∧ 0 ≤ pos.toInt := by
  have hsign : nonNegative pos = .ok () ↔ 0 ≤ pos.toInt := by
    rw [nonNegative, ← Int.not_lt, ← slt_zero_iff]
    by_cases h : pos.slt 0 = true
    · rw [if_pos h]
      exact iff_of_false (nofun) (not_not.2 h)
    · rw [if_neg h]
      exact iff_of_true rfl h
  cases ops with
  | sfsFileops => exact hsign.trans (and_iff_right (.inl rfl)).symm
  | emufsFileops => exact hsign.trans (and_iff_right (.inr rfl)).symm
  | sfsDirops => exact iff_of_false (nofun) (fun h => by rcases h.1 with h | h <;> cases h)
  | emufsDirops => exact iff_of_false (nofun) (fun h => by rcases h.1 with h | h <;> cases h)

/-! ## `sys_lseek` -/

/-- The state in which `sys_lseek` has the lock and knows the size. -/
def FileState.locked (S : SeekOps σ) (s : FileState σ) (l : Addr) (fs : Fs) (ino : Ino) :
    FileState σ :=
  { s with
    locks := update s.locks l (some (some s.curthread))
    vfs := { s.vfs with vnodes := (S.vopStat fs ino s.vfs.vnodes).2 } }

namespace Seekable

section
variable (h : Seekable S s fd a l f fs ino size)
include h

theorem unlock : update (s.locked S l fs ino).locks l (some none) = s.locks := by
  rw [FileState.locked, update_idem, ← h.free, update_eq_self]

theorem fails {t : Terms FilePanic} {isFile : Prop}
    (e : Errno) (hno : ¬ (isFile ∧ InReach f size offset whence)) :
    awpE t (sysLseek.fail f e) (Sought s a f size offset whence isFile) (s.locked S l fs ino) := by
  refine awpE_call_bind.2 (awp_lockRelease h.lock (update_self ..) ?_)
  exact ⟨h.unlock, fun _ => rfl, fun hr => (by cases hr), iff_of_false (nofun) hno⟩

theorem stores {t : Terms FilePanic} {pos : BitVec 32}
    {base : Int} (hbase : seekBase f size whence = some base)
    (hpos : if 0 ≤ base + offset.toInt ∧ base + offset.toInt < 2147483648
      then pos.toInt = base + offset.toInt else pos.toInt < 0) :
    awpE t (sysLseek.store O S a f (.file fs ino) pos)
      (Sought s a f size offset whence (S.vnOps fs ino).IsFile) (s.locked S l fs ino) := by
  have hreach : InReach f size offset whence ↔ 0 ≤ pos.toInt := by
    split at hpos
    · next hin =>
      rw [hpos]
      exact iff_of_true ⟨base, hbase, hin⟩ hin.1
    · next hout =>
      refine iff_of_false ?_ (by omega)
      rintro ⟨base', hbase', hin⟩
      rw [hbase] at hbase'
      cases hbase'
      exact hout hin
  have hused : 0 < (s.locked S l fs ino).vfs.vnodes.refcount (.file fs ino) := by
    show 0 < (S.vopStat fs ino s.vfs.vnodes).2.refcount _
    rw [h.counts.1]
    exact h.used
  refine awpE_call_bind.2 (awp_vopOn_file hused ?_)
  dsimp only [pure, StateT.pure]
  cases hr : (S.vnOps fs ino).vopTryseek pos with
  | error e =>
    refine h.fails e fun hno => ?_
    rw [VnodeOps.tryseek_ok_iff.2 ⟨hno.1, hreach.1 hno.2⟩] at hr
    cases hr
  | ok _ =>
    obtain ⟨hfile, hsign⟩ := VnodeOps.tryseek_ok_iff.1 hr
    rw [if_neg (by rw [slt_zero_iff]; omega)]
    refine awpE_call_bind.2 (awp_setFile h.file ?_)
    refine Lib.awpE_call.2 (awp_lockRelease h.lock (update_self ..) ?_)
    rw [if_pos] at hpos
    · exact ⟨h.unlock, absurd rfl, fun _ => ⟨base, pos, hbase, hpos, hsign, rfl⟩,
        iff_of_true rfl ⟨hfile, hreach.2 hsign⟩⟩
    · obtain ⟨base', hbase', hin⟩ := hreach.2 hsign
      rw [hbase] at hbase'
      cases hbase'
      exact hin

theorem seeks {t : Terms FilePanic} : awpE t (sysLseek O S fd offset whence)
      (Sought s a f size offset whence (S.vnOps fs ino).IsFile) s := by
  refine awpE_call_bind.2 (awp_findfile h.range ?_)
  rw [if_neg (not_not.2 h.range), h.slot]
  refine awpE_call_bind.2 (awp_openfile_of h.file ?_)
  refine awpE_call_bind.2 (awp_lockAcquire h.lock h.free ?_)
  rw [vnodeOf, h.vnode]
  refine awpE_call_bind.2 ((awp_ret _).2 ?_)
  refine awpE_call_bind.2 (awp_vopOn_file h.used ?_)
  have htarget := @target_cases f size offset whence h.offset_nonneg h.size_nonneg
  rw [h.stat]
  dsimp only
  cases ht : sysLseek.target f size offset whence with
  | none =>
    rw [ht] at htarget
    refine h.fails .EINVAL fun hno => ?_
    obtain ⟨base, hbase, -⟩ := hno.2
    rw [htarget] at hbase
    cases hbase
  | some pos =>
    rw [ht] at htarget
    obtain ⟨base, hbase, hpos⟩ := htarget
    exact h.stores hbase hpos

end

end Seekable

/-- `sys_lseek` comes to an end with the lock released. It fails and leaves everything as
it was, or it stores the exact sum, which is not negative. It fails exactly on a
directory, for a `whence` that does not exist, and if the exact sum is not a position. -/
theorem lseek_exact (O : Ops σ) (h : Seekable S s fd a l f fs ino size) (offset : BitVec 32)
    (whence : Int) (script : Script Empty) :
    ∃ r m, (sysLseek O S fd offset whence).run.run (s.machine script) = (.done r, m) ∧
      Sought s a f size offset whence (S.vnOps fs ino).IsFile r m.mem :=
  awp_run_done (s := s.machine script) (t := fileTerms) (fun _ hf => hf) (fun _ => trivial) h.seeks

end

/-- Every file is a directory of SFS, 512 bytes in size. -/
def sfsDirs : SeekOps Unit where
  vnOps _ _ := .sfsDirops
  vopStat _ _ := answer (.ok 512)

/-- Every file is an ordinary one of SFS, 512 bytes in size. -/
def sfsFiles : SeekOps Unit where
  vnOps _ _ := .sfsFileops
  vopStat _ _ := answer (.ok 512)

/-- The root of `lhd0:`, with a reference, open under descriptor 0. -/
def rootFile : FileState Unit :=
  { oneFile with vfs := { oneDev with vnodes := { oneDev.vnodes with refcount := fun _ => 1 } } }

theorem seekable_rootFile {S : SeekOps Unit} (hS : S.vopStat = fun _ _ => answer (.ok 512)) :
    Seekable S rootFile 0 10 11 (exampleFile 11 0) 0 0 512 where
  range := by decide
  slot := rfl
  file := rfl
  lock := rfl
  free := rfl
  vnode := rfl
  used := Nat.one_pos
  stat := by rw [hS]; rfl
  counts := by rw [hS]; exact ⟨rfl, rfl⟩
  offset_nonneg := by decide
  size_nonneg := by decide

/-- Back from the end of a file by its size. -/
theorem lseek_to_start :
    ∃ r m, (sysLseek (rootOnly fun _ => none) sfsFiles 0 (-512) seekEnd).run.run
        (rootFile.machine {}) = (.done r, m) ∧
      Sought rootFile 10 (exampleFile 11 0) 512 (-512) seekEnd True r m.mem := by
  obtain ⟨r, m, hrun, hs⟩ := lseek_exact (rootOnly fun _ => none)
    (seekable_rootFile (S := sfsFiles) rfl) (-512) seekEnd {}
  exact ⟨r, m, hrun, hs.locks, hs.kept, hs.moved, by
    rw [hs.ok_iff]
    exact and_congr_left' (iff_true_intro (.inl rfl))⟩

/-- The start of a directory is a position that cannot be sought. -/
theorem lseek_directory_fails :
    Seekable sfsDirs rootFile 0 10 11 (exampleFile 11 0) 0 0 512 ∧
      InReach (exampleFile 11 0) 512 0 seekSet ∧
      ((sysLseek (rootOnly fun _ => none) sfsDirs 0 0 seekSet).run.run (rootFile.machine {})).1 =
        .done (.error .EUNIMP) :=
  ⟨seekable_rootFile rfl, ⟨0, rfl, by decide⟩, rfl⟩

end Os161.Userprog
