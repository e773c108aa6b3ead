import Os161.Proofs.Copyinout
import Os161.Proofs.Refs
import Os161.Userprog.File

/-!
# Descriptors

What `file_open` and `dup2` should do to the file table, and when they do.

`filetable_dup2file` never makes an alias. It looks up the old descriptor twice and
assigns an openfile to itself, after it has closed the file of the new descriptor and
given the openfile a new lock. The lock that it releases in the end is the new one,
which nobody holds, so that the panic of `lock_release` is where every such call ends
that has not failed earlier. What is left of `dup2` are the calls that have nothing to
do: a descriptor out of range, an old descriptor that is not open, and an open one that
is to be its own alias.

`file_open` opens the file first and looks for a slot then. If there is none it returns
without closing the file, whose counts stay too high for good. All its other errors come
from before the file is open, and leave nothing behind.
-/

namespace Os161.Userprog

open Os161.Kern Os161.Lib Os161.Vfs Function

variable {σ : Type} {s : FileState σ} {O : Ops σ}

def FileState.machine (s : FileState σ) (script : Script Empty) :
    Machine (FileState σ) Empty Unit Empty :=
  ⟨s, fun _ => (), script⟩

/-- Whatever may go wrong. -/
def anyTerms : Terms FilePanic := ⟨fun _ => True, True, True⟩

theorem awp_any {α : Type} (p : FProg σ α) : awp anyTerms p (fun _ _ => True) s :=
  awp_true (fun _ => trivial) trivial p

/-! ## `dup2` -/

/-- What is to become of the file of `newfd`: it is closed, once. -/
def ClosedOnce (O : Ops σ) (s : FileState σ) (script : Script Empty) (newfd : Int)
    (s' : FileState σ) : Prop :=
  match s.slot newfd with
  | none => s'.vfs = s.vfs
  | some _ => ∃ m, (fileClose O newfd).run.run (s.machine script) = (.done (.ok ()), m) ∧
      s'.vfs = m.mem.vfs

/-- What `dup2` is for. -/
def Dup2Right (O : Ops σ) (s : FileState σ) (script : Script Empty) (oldfd newfd : Int) : Prop :=
  ∃ r m, (filetableDup2file O oldfd newfd).run.run (s.machine script) = (.done r, m) ∧
    if InRange oldfd ∧ InRange newfd ∧ (s.slot oldfd).isSome then
      r = .ok () ∧
        if oldfd = newfd then m.mem = s
        else m.mem.table = s.table.set newfd.toNat (s.slot oldfd) ∧
          ClosedOnce O s script newfd m.mem
    else r = .error .EBADF ∧ m.mem.tables = s.tables

/-- The calls that have nothing to do. -/
def Dup2Idle (s : FileState σ) (oldfd newfd : Int) : Prop :=
  ¬ InRange oldfd ∨ ¬ InRange newfd ∨
    if oldfd = newfd then (s.slot oldfd).isSome else s.slot oldfd = none

/-- A lock that is new has no holder. -/
theorem awp_lockCreate : awp anyTerms (lockCreate : FProg σ (Option Addr))
    (fun lock s' => ∀ l, lock = some l → s'.locks l = some none) s := by
  refine awp_bind.2 (awp_kmalloc.2 ⟨trivial, ?_, fun _ => ?_⟩)
  · refine awp_bind.2 (awp_kmalloc.2 ⟨trivial, ?_, fun _ => ?_⟩)
    · rw [if_pos rfl]
      refine awp_bind.2 ?_
      rw [awp_mem]
      intro l hl
      cases hl
      exact update_self ..
    · rw [if_neg (by decide)]
      intro l hl
      cases hl
  · rw [if_neg (by decide)]
    intro l hl
    cases hl

/-- To release a lock that nobody holds is a panic. -/
theorem awp_lockRelease_free {lock : Option Addr} (h : ∀ l, lock = some l → s.locks l = some none) :
    awp anyTerms (lockRelease lock) (fun _ _ => False) s := by
  cases lock with
  | none => trivial
  | some l =>
    refine awp_bind.2 (awp_bind.2 ?_)
    rw [awp_mem, h l rfl]
    refine awp_bind.2 ?_
    rw [awp_mem]
    exact awp_bind.2 (awp_assert.2 ⟨fun hn => (by cases hn), fun _ => trivial⟩)

variable {t : Terms FilePanic} {a : Addr}

theorem awp_openfile {Q : Openfile → FileState σ → Prop}
    (hfreed : t.fails .freed) (hQ : ∀ f, s.files a = some f → Q f s) : awp t (openfile a) Q s := by
  refine awp_bind.2 ?_
  rw [awp_mem]
  cases hf : s.files a with
  | none => exact hfreed
  | some f => exact hQ f hf

/-- No way leads to the end of `filetable_dup2file`. -/
theorem awp_assign (fileO : Addr) :
    awp anyTerms (filetableDup2file.assign fileO (some fileO)) (fun _ _ => False) s := by
  refine awp_bind.2 (awp_openfile trivial fun o _ => ?_)
  refine awp_bind_of (awp_any _) fun _ s1 _ => ?_
  refine awp_bind_of (awp_any _) fun _ s2 _ => ?_
  refine awp_bind_of awp_lockCreate fun lock s3 hlock => ?_
  refine awp_bind.2 (awp_bind.2 (awp_openfile trivial fun f _ => ?_))
  rw [awp_modify]
  refine awp_bind.2 (awp_openfile trivial fun o' ho' => ?_)
  -- the openfile now has the new lock
  have hlock' : o'.ofLock = lock := by
    dsimp only at ho'
    rw [update_self] at ho'
    exact congrArg Openfile.ofLock (Option.some.inj ho').symm
  rw [hlock']
  exact awp_lockRelease_free hlock

theorem dup2_never_ends {script : Script Empty} {oldfd newfd : Int} {m : Machine _ _ _ _}
    (hold : InRange oldfd) (hnew : InRange newfd) (hne : oldfd ≠ newfd)
    (ha : s.slot oldfd = some a) :
    (filetableDup2file O oldfd newfd).run.run (s.machine script) ≠ (.done (.ok ()), m) := by
  have hw : awpE anyTerms (filetableDup2file O oldfd newfd) (fun r _ => r ≠ .ok ()) s := by
    rw [filetableDup2file, if_neg (by simp [hold, hnew]), if_neg hne]
    refine awpE_call_bind.2 (awp_bind.2 ?_)
    rw [awp_mem, if_pos hold, ha]
    refine awpE_call_bind.2 (awp_bind.2 ?_)
    rw [awp_mem, if_pos hold, ha]
    refine awpE_call_bind.2 (awp_mono (awp_any _) fun r s' _ => ?_)
    cases r with
    | error e => exact nofun
    | ok x => exact Lib.awpE_call.2 (awp_mono (awp_assign a) fun _ _ hf => hf.elim)
  intro hrun
  have hends := awp_run (s := s.machine script) (fun _ => trivial) hw
  rw [hrun] at hends
  exact hends.1 rfl

/-- `dup2` does what it is for exactly if it has nothing to do. -/
theorem dup2_right_iff (O : Ops σ) (s : FileState σ) (script : Script Empty) (oldfd newfd : Int) :
    Dup2Right O s script oldfd newfd ↔ Dup2Idle s oldfd newfd := by
  rw [Dup2Right, Dup2Idle]
  by_cases hold : InRange oldfd
  · by_cases hnew : InRange newfd
    · rw [or_iff_right (not_not.2 hold), or_iff_right (not_not.2 hnew)]
      by_cases heq : oldfd = newfd
      · have hrun : (filetableDup2file O oldfd newfd).run.run (s.machine script) =
            (.done (.ok ()), s.machine script) := by
          rw [filetableDup2file, if_neg (by simp [hold, hnew]), if_pos heq]
          rfl
        rw [if_pos heq, hrun]
        constructor
        · rintro ⟨r, m, hr, h⟩
          by_contra hopen
          rw [if_neg (by simp [hopen])] at h
          rw [h.1] at hr
          cases Outcome.done.inj (Prod.mk.inj hr).1
        · intro hopen
          exact ⟨_, _, rfl, by rw [if_pos ⟨hold, hnew, hopen⟩, if_pos heq]; exact ⟨rfl, rfl⟩⟩
      · rw [if_neg heq]
        cases ha : s.slot oldfd with
        | none =>
          refine iff_of_true ⟨.error .EBADF, s.machine script, ?_, ?_⟩ rfl
          · have hfind : (call (filetableFindfile oldfd) : FileM σ (Option Addr)).run.run
                (s.machine script) = (.done (.ok none), s.machine script) := by
              show (Outcome.done (Except.ok (if InRange oldfd then s.slot oldfd else none)), _) = _
              rw [if_pos hold, ha]
            rw [filetableDup2file, if_neg (by simp [hold, hnew]), if_neg heq]
            exact Prog.run_bind_ok hfind _
          · rw [if_neg (by simp)]
            exact ⟨rfl, rfl⟩
        | some a =>
          refine iff_of_false ?_ (by simp)
          rintro ⟨r, m, hr, h⟩
          rw [if_pos ⟨hold, hnew, rfl⟩] at h
          rw [h.1] at hr
          exact dup2_never_ends hold hnew heq ha hr
    · refine iff_of_true ⟨.error .EBADF, s.machine script, ?_, ?_⟩ (.inr (.inl hnew))
      · rw [filetableDup2file, if_pos (.inr hnew)]
        rfl
      · rw [if_neg (by simp [hnew])]
        exact ⟨rfl, rfl⟩
  · refine iff_of_true ⟨.error .EBADF, s.machine script, ?_, ?_⟩ (.inl hold)
    · rw [filetableDup2file, if_pos (.inl hold)]
      rfl
    · rw [if_neg (by simp [hold])]
      exact ⟨rfl, rfl⟩

/-! ### Two open files -/

/-- The openfile of a file of file system 0. -/
def exampleFile (lock : Addr) (ino : Ino) : Openfile :=
  ⟨some (.file 0 ino), some lock, 0, 0, 1, some (.file 0 ino)⟩

/-- One process with a file that is open under descriptor 0. -/
def oneFile : FileState Unit where
  vfs := oneDev
  user := fun _ => none
  files := fun a => if a = 10 then some (exampleFile 11 0) else none
  locks := fun a => if a = 11 then some none else none
  tables := [some 10 :: List.replicate 99 none]
  curthread := 0
  fresh := 20

/-- Descriptor 1 is to be an alias of 0, and is refused for not being open. -/
theorem dup2_refuses_closed :
    InRange 0 ∧ InRange 1 ∧ oneFile.slot 0 = some 10 ∧ oneFile.slot 1 = none ∧
      ((filetableDup2file (rootOnly fun _ => none) 0 1).run.run (oneFile.machine {})).1 =
        .done (.error .EBADF) :=
  ⟨by decide, by decide, rfl, rfl, rfl⟩

/-! ## `file_open` -/

section
variable {kept opened held : List Vnode} {g : Garbage}

/-- The allocator may refuse; nothing else may go wrong. -/
def fileTerms : Terms FilePanic := ⟨fun _ => False, True, True⟩

theorem Terms.none_le : Terms.none.Le (fileTerms.zoom .vfs) where
  fails _ hf := hf
  asks _ := trivial
  refuses _ := trivial

/-- A routine of the VFS layer that holds to its postcondition whatever the allocator
answers. -/
theorem awp_onVfs {α : Type} {p : VProg σ α} {Q : α → FileState σ → Prop}
    (h : awp Terms.none p (fun x v => Q x { s with vfs := v }) s.vfs) :
    awp fileTerms (onVfs p) Q s :=
  awp_zoom.2 (awp_terms Terms.none_le h)

theorem awp_lockCreate_frame {Q : Option Addr → FileState σ → Prop}
    (hQ : ∀ lock locks fresh, Q lock { s with locks := locks, fresh := fresh }) :
    awp fileTerms (lockCreate : FProg σ (Option Addr)) Q s := by
  refine awp_bind.2 (awp_kmalloc.2 ⟨trivial, ?_, fun _ => ?_⟩)
  · refine awp_bind.2 (awp_kmalloc.2 ⟨trivial, ?_, fun _ => ?_⟩)
    · exact hQ _ _ _
    · exact hQ _ s.locks s.fresh
  · exact hQ _ s.locks s.fresh

theorem awp_setFile {f : Openfile} {g : Openfile → Openfile}
    {Q : Unit → FileState σ → Prop} (hf : s.files a = some f)
    (hQ : Q () { s with files := update s.files a (some (g f)) }) :
    awp t (setFile a g) Q s := by
  refine awp_bind.2 (awp_bind.2 ?_)
  rw [awp_mem, hf]
  exact hQ

/-- `file_open` up to where `vfs_open` has returned: the tables are not touched, and the
counts of vnodes change only if the file has been opened. -/
theorem awpE_fileOpen_enter (hO : O.Accounts) (h : Vfs.Sound kept s.vfs opened held)
    (filename : BitVec 32) (flags : UInt32) :
    awpE fileTerms (fileOpen.enter O g filename flags) (fun r s' =>
      s'.tables = s.tables ∧ s'.curthread = s.curthread ∧
      (∀ e, r = .error e → SameCounts s.vfs.vnodes s'.vfs.vnodes) ∧
      ∀ x, r = .ok x → Vfs.Sound kept s'.vfs (x.2 :: opened) held) s := by
  refine awpE_call_bind.2 (awp_kmalloc.2 ⟨trivial, ?_, fun _ => ?_⟩)
  · refine awpE_bind.2 (awpE_copyinstr_any fun r => ?_)
    cases r with
    | error e => exact ⟨rfl, rfl, fun _ _ => ⟨rfl, rfl⟩, fun x hx => (by cases hx)⟩
    | ok kbuf =>
      refine awpE_call_bind.2 (awp_lockCreate_frame fun lock locks fresh => ?_)
      refine awpE_call_bind.2 (awp_bind.2 ?_)
      rw [awp_mem]
      refine awpE_call_bind.2 (awp_onVfs (awpE_vfsOpen hO h _ _ (fun v n hs => ?_) fun e n
        hs => ?_))
      · refine awpE_call_bind.2 (awp_setFile (update_self ..) ?_)
        exact ⟨rfl, rfl, fun e he => (by cases he), fun x hx => by cases hx; exact hs⟩
      · exact ⟨rfl, rfl, fun _ _ => h.same_of hs, fun x hx => (by cases hx)⟩
  · exact ⟨rfl, rfl, fun _ _ => ⟨rfl, rfl⟩, fun x hx => (by cases hx)⟩

/-- What is to hold when `file_open` returns. -/
def NoLeak (O : Ops σ) (g : Garbage) (s : FileState σ) (script : Script Empty)
    (filename : BitVec 32) (flags : UInt32) : Prop :=
  ∃ r m, (fileOpen O g filename flags).run.run (s.machine script) = (.done r, m) ∧
    match r with
    | .ok (some fd) => s.table[fd]? = some none ∧ ∀ i < fd, s.table[i]? ≠ some none
    | _ => m.mem.tables = s.tables ∧ SameCounts s.vfs.vnodes m.mem.vfs.vnodes

/-- `file_open` returns before a file is open. -/
def OpenFails (O : Ops σ) (g : Garbage) (s : FileState σ) (script : Script Empty)
    (filename : BitVec 32) (flags : UInt32) : Prop :=
  ∃ e m, (fileOpen.enter O g filename flags).run.run (s.machine script) = (.done (.error e), m)

/-- One more opening of a vnode is one that its open count shows. -/
theorem not_same_opened {s0 s1 : Vfs.State σ} {v : Vnode} (h : Vfs.Sound kept s0 opened held)
    (h' : Vfs.Sound kept s1 (v :: opened) held) : ¬ SameCounts s0.vnodes s1.vnodes := by
  intro hsame
  have hcount : s1.vnodes.opencount v = s0.vnodes.opencount v := congrFun hsame.2 v
  rw [h.opencount v, h'.opencount v, List.count_cons_self] at hcount
  omega

/-- `filetable_placefile` finds the first free slot if there is one. -/
theorem awp_placefile (file : Addr) : awp t (filetablePlacefile file) (fun r s' =>
      (∀ fd, r = some fd → s.table[fd]? = some none ∧ ∀ i < fd, s.table[i]? ≠ some none) ∧
      (r = none → none ∉ s.table ∧ s' = s)) s := by
  refine awp_bind.2 ?_
  rw [awp_mem]
  cases hidx : s.table.findIdx? Option.isNone with
  | none =>
    refine ⟨fun fd hfd => (by cases hfd), fun _ => ⟨fun hfree => ?_, rfl⟩⟩
    exact absurd (List.findIdx?_eq_none_iff.1 hidx none hfree) (by decide)
  | some fd =>
    refine ⟨fun fd' hfd => ?_, fun hr => (by cases hr)⟩
    cases hfd
    obtain ⟨hlt, hnone, hfirst⟩ := List.findIdx?_eq_some_iff_getElem.1 hidx
    refine ⟨?_, fun i hi hfree => ?_⟩
    · rw [List.getElem?_eq_getElem hlt, Option.isNone_iff_eq_none.1 hnone]
    · obtain ⟨_, hi'⟩ := List.getElem?_eq_some_iff.1 hfree
      exact hfirst i hi (Option.isNone_iff_eq_none.2 hi')

theorem FileState.table_congr {s' : FileState σ} (htables : s'.tables = s.tables)
    (hcur : s'.curthread = s.curthread) : s'.table = s.table := by
  rw [FileState.table, htables, hcur, FileState.table]

/-- `file_open` leaks nothing exactly if there is a free slot for the file or the file
could not be opened. -/
theorem fileOpen_noLeak_iff (hO : O.Accounts) (h : Vfs.Sound kept s.vfs opened held)
    (g : Garbage) (script : Script Empty) (filename : BitVec 32) (flags : UInt32) :
    NoLeak O g s script filename flags ↔
      none ∈ s.table ∨ OpenFails O g s script filename flags := by
  have henter := awpE_fileOpen_enter (g := g) (O := O) hO h
  obtain ⟨r, m, hrun, htables, hcur, herr, hok⟩ :=
    awp_run_done (s := s.machine script) (fun _ hf => hf) (fun _ => trivial) (henter filename flags)
  cases r with
  | error e =>
    exact iff_of_true ⟨_, m, Prog.run_bind_error hrun _, htables, herr e rfl⟩ (.inr ⟨e, m, hrun⟩)
  | ok x =>
    have hfails : ¬ OpenFails O g s script filename flags := by
      rintro ⟨e, m', hrun'⟩
      rw [hrun] at hrun'
      cases hrun'
    obtain ⟨fd, m', hplace, hsome, hnone⟩ :=
      awp_run_done (s := m) (t := fileTerms) (fun _ hf => hf) (fun _ => trivial)
        (awp_placefile x.1)
    have hopen : (fileOpen O g filename flags).run.run (s.machine script) = (.done (.ok fd), m') :=
      (Prog.run_bind_ok hrun _).trans (Prog.run_bind_done hplace _)
    rw [FileState.table_congr htables hcur] at hsome hnone
    rw [or_iff_left hfails]
    constructor
    · rintro ⟨r, m1, hr, hleak⟩
      rw [hopen] at hr
      cases hr
      cases fd with
      | some fd => exact List.mem_of_getElem? (hsome fd rfl).1
      | none =>
        rw [(hnone rfl).2] at hleak
        exact absurd hleak.2 (not_same_opened h (hok x rfl))
    · intro hfree
      cases fd with
      | some fd => exact ⟨_, m', hopen, hsome fd rfl⟩
      | none => exact absurd hfree (hnone rfl).1

end

/-- `lhd0:` as a string in the memory of a process, at address 4096. -/
def pathMem : ByteMap :=
  ByteMap.write (fun _ => none) 4096 ((lhd0.strcat colonString).bytes ++ [0])

/-- A second file is opened with the first one still there. -/
theorem fileOpen_second :
    NoLeak (rootOnly fun _ => none) ⟨none, 0⟩ { oneFile with user := pathMem } {} 4096 oRdonly :=
  (fileOpen_noLeak_iff (rootOnly_accounts _) oneDev_sound ⟨none, 0⟩ {} 4096 oRdonly).2
    (.inl (by decide))

/-- All slots are in use. -/
def fullTable : FileState Unit :=
  { oneFile with user := pathMem, tables := [List.replicate OPEN_MAX (some 10)] }

/-- The root of `lhd0:` is open after it could not be opened. -/
theorem fileOpen_full_leaks :
    ∃ m, (fileOpen (rootOnly fun _ => none) ⟨none, 0⟩ 4096 oRdonly).run.run
        (fullTable.machine {}) = (.done (.ok none), m) ∧
      oneDev.vnodes.opencount (.file 0 0) = 0 ∧ m.mem.vfs.vnodes.opencount (.file 0 0) = 1 :=
  ⟨_, rfl, rfl, rfl⟩

end Os161.Userprog
