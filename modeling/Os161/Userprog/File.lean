import Os161.Kern.Usermem
import Os161.Lib.Zoom
import Os161.Vfs.Path

/-!
# Open files

`thread/file.c`. A descriptor is an index into the file table of its process, and
a slot of the table points to an openfile.

The source does not compile as it stands. `filetable_findile` and
`filetable_close`, which do not exist, are `filetable_findfile` and `file_close`
here. An out-parameter that is a pointer without a value (`struct openfile **file`)
is a cell of its own; where the source stores through such a cell, there is a new
openfile in it. What a local variable holds before it is assigned is in `Garbage`.
`filetable_init` does not give its caller the table that it allocates, so the copy
that `filetable_copy` fills is a table of its own as well, an empty one.

Addresses of openfiles and locks are not used again once they are freed, and to
follow one that has been freed is a panic. One call is made at a time; to wait for
a lock that another thread holds is a panic, too, as nobody will release it.
-/

namespace Os161.Userprog

open Os161.Kern Os161.Lib Os161.Vfs Function

def OPEN_MAX : Nat := 100

def PATH_MAX : BitVec 32 := 1024

/-- `struct openfile`. `opened` is not in the source: the vnode that `vfs_open` has
returned for it. -/
structure Openfile where
  ofVnode : Option Vnode
  ofLock : Option Addr
  ofOffset : BitVec 32
  ofAccmode : BitVec 32
  ofRefcount : Int
  opened : Option Vnode

/-- `ft_openfiles` of a `struct filetable`. -/
abbrev Filetable := List (Option Addr)

/-- The kernel as far as it is about open files: the VFS layer, the memory of the
current process, the openfiles, the holders of the locks, and the file tables of all
processes. -/
structure FileState (σ : Type) where
  vfs : Vfs.State σ
  user : ByteMap
  files : Addr → Option Openfile
  locks : Addr → Option (Option Nat)
  tables : List Filetable
  curthread : Nat
  fresh : Addr

inductive FilePanic where
  | vfs (p : Vfs.Panic)
  /-- An openfile or a lock is used after it was freed. -/
  | freed
  | nullFile
  | nullLock
  /-- "vnode_check: null vnode" -/
  | nullVnode
  /-- The panics of `lock_acquire` and `lock_release`. -/
  | deadlock
  | asleep
  /-- `lock_destroy` frees the thread that holds the lock. -/
  | holder
  /-- VOP_READ and VOP_WRITE insist on the direction of the transfer. -/
  | direction
  /-- "uiomove: size reached 0" -/
  | uiomoveSize
  deriving DecidableEq

section
variable (σ : Type)

abbrev FProg : Type → Type := Prog (FileState σ) Empty Unit Empty FilePanic

/-- A routine that returns an error code. -/
abbrev FileM : Type → Type := ExceptT Errno (FProg σ)

end

/-- What uninitialised memory holds. -/
structure Garbage where
  vn : Option Vnode
  accmode : BitVec 32

variable {σ α : Type}

def FileState.lens : UserLens (FileState σ) where
  get s := s.user
  set u s := { s with user := u }
  get_set _ _ := rfl
  set_get _ := rfl
  set_set _ _ _ := rfl

/-- The memory of the current process. -/
def userSpace : UserSpace (FProg σ) := FileState.lens.space

/-- The VFS layer's part of the state. -/
def vfsPart : Lens (FileState σ) (Vfs.State σ) where
  get s := s.vfs
  set v s := { s with vfs := v }
  get_set _ _ := rfl
  set_get _ := rfl
  set_set _ _ _ := rfl

def onVfs (p : VProg σ α) : FProg σ α := p.zoom vfsPart .vfs

/-! ## Openfiles and locks -/

/-- `kmalloc` of an openfile, once it has succeeded. -/
def newFile (f : Openfile) : FProg σ Addr := do
  let s ← Prog.mem
  Prog.put { s with files := update s.files s.fresh (some f), fresh := s.fresh + 1 }
  pure s.fresh

/-- `*file`, to look at its fields. -/
def openfile (a : Addr) : FProg σ Openfile := do
  let s ← Prog.mem
  match s.files a with
  | some f => pure f
  | none => Prog.panic .freed

/-- A change to the fields of `*file`. -/
def setFile (a : Addr) (g : Openfile → Openfile) : FProg σ Unit := do
  let f ← openfile a
  Prog.modify fun s => { s with files := update s.files a (some (g f)) }

/-- `kfree(file)`. -/
def freeFile (a : Addr) : FProg σ Unit :=
  Prog.modify fun s => { s with files := update s.files a none }

/-- `lock_create`. -/
def lockCreate : FProg σ (Option Addr) := do
  let lock ← Prog.kmalloc
  if lock then
    let name ← Prog.kmalloc
    if name then
      let s ← Prog.mem
      Prog.put { s with
        locks := update s.locks s.fresh (some none), fresh := s.fresh + 1 }
      pure (some s.fresh)
    else pure none
  else pure none

/-- `lock->holder`, of a lock that is not NULL. -/
def lockHolder (lock : Option Addr) : FProg σ (Addr × Option Nat) := do
  match lock with
  | none => Prog.panic .nullLock
  | some l => do
      let s ← Prog.mem
      match s.locks l with
      | none => Prog.panic .freed
      | some holder => pure (l, holder)

def setHolder (l : Addr) (holder : Option Nat) : FProg σ Unit :=
  Prog.modify fun s => { s with locks := update s.locks l (some holder) }

/-- `lock_acquire`. -/
def lockAcquire (lock : Option Addr) : FProg σ Unit := do
  let h ← lockHolder lock
  let s ← Prog.mem
  Prog.assert (h.2 ≠ some s.curthread) .deadlock
  Prog.assert (h.2 = none) .asleep
  setHolder h.1 (some s.curthread)

/-- `lock_release`. -/
def lockRelease (lock : Option Addr) : FProg σ Unit := do
  let h ← lockHolder lock
  let s ← Prog.mem
  Prog.assert (h.2 = some s.curthread) .deadlock
  setHolder h.1 none

/-- `lock_destroy`. -/
def lockDestroy (lock : Option Addr) : FProg σ Unit := do
  let h ← lockHolder lock
  Prog.assert (h.2 = none) .holder
  Prog.modify fun s => { s with locks := update s.locks h.1 none }

/-! ## File tables -/

/-- `curthread->t_filetable`. -/
def FileState.table (s : FileState σ) : Filetable := s.tables.getD s.curthread []

/-- A valid descriptor. -/
def InRange (fd : Int) : Prop := 0 ≤ fd ∧ fd < OPEN_MAX

instance (fd : Int) : Decidable (InRange fd) := inferInstanceAs (Decidable (_ ∧ _))

/-- `curthread->t_filetable->ft_openfiles[fd]`. -/
def FileState.slot (s : FileState σ) (fd : Int) : Option Addr := s.table.getD fd.toNat none

/-- `filetable_findfile`. Without a valid descriptor nothing is found, and no caller
looks at what was. -/
def filetableFindfile (fd : Int) : FProg σ (Option Addr) := do
  let s ← Prog.mem
  pure (if InRange fd then s.slot fd else none)

/-- `filetable_placefile`: the first slot that is NULL. Without one it returns -1,
which is no error code. -/
def filetablePlacefile (file : Addr) : FProg σ (Option Nat) := do
  let s ← Prog.mem
  match s.table.findIdx? Option.isNone with
  | none => pure none
  | some i => do
      Prog.put { s with tables := s.tables.set s.curthread (s.table.set i (some file)) }
      pure (some i)

/-! ## Opening and closing -/

/-- `file_open` up to where `vfs_open` has returned. `of_vnode` is set before that. If
there is no memory for the name, the copy faults at address zero. -/
def fileOpen.enter (O : Ops σ) (g : Garbage) (filename : BitVec 32) (flags : UInt32) :
    FileM σ (Addr × Vnode) := do
  if ← call Prog.kmalloc then
    let kbuf ← copyinstr userSpace filename PATH_MAX
    let lock ← call lockCreate
    let file ← call (newFile
      { ofVnode := g.vn
        ofLock := lock
        ofOffset := 0
        ofAccmode := g.accmode
        ofRefcount := 1
        opened := none })
    let r ← call (onVfs (vfsOpen O (CString.ofBytes kbuf) flags).run)
    match r with
    | .error e => do
        call (freeFile file)
        throw e
    | .ok vn => do
        call (setFile file fun f => { f with opened := some vn })
        pure (file, vn)
  else throw .EFAULT

/-- `file_open`. -/
def fileOpen (O : Ops σ) (g : Garbage) (filename : BitVec 32) (flags : UInt32) :
    FileM σ (Option Nat) := do
  let file ← fileOpen.enter O g filename flags
  call (filetablePlacefile file.1)

/-- `file_close`, for a file that is there. -/
def fileClose.drop (O : Ops σ) (a : Addr) : FileM σ Unit := do
  let f ← call (openfile a)
  match f.ofVnode with
  | none => throw .EBADF
  | some v =>
    if f.ofRefcount = 1 then do
      let _ ← call (onVfs (vopClose O v))
      call (lockDestroy f.ofLock)
      call (freeFile a)
    else call (setFile a fun f => { f with ofRefcount := f.ofRefcount - 1 })

/-- `file_close`. -/
def fileClose (O : Ops σ) (fd : Int) : FileM σ Unit := do
  let file ← call (filetableFindfile fd)
  if ¬ InRange fd then throw .EBADF
  else
    match file with
    | none => throw .EBADF
    | some a => fileClose.drop O a

/-- The end of `filetable_dup2file`: one openfile's fields become the other's. -/
def filetableDup2file.assign (fileO : Addr) (fileN : Option Addr) : FProg σ Unit := do
  let o ← openfile fileO
  lockAcquire o.ofLock
  match fileN with
  | none => Prog.panic .nullFile
  | some n => do
      setFile n fun f => { f with
        ofVnode := o.ofVnode
        ofOffset := o.ofOffset
        ofAccmode := o.ofAccmode
        ofRefcount := o.ofRefcount }
      let lock ← lockCreate
      setFile n fun f => { f with ofLock := lock }
      let o ← openfile fileO
      lockRelease o.ofLock

/-- `filetable_dup2file`. Both files are looked up with `oldfd`. -/
def filetableDup2file (O : Ops σ) (oldfd newfd : Int) : FileM σ Unit :=
  if ¬ InRange oldfd ∨ ¬ InRange newfd then throw .EBADF
  else if oldfd = newfd then pure ()
  else do
    match ← call (filetableFindfile oldfd) with
    | none => throw .EBADF
    | some fileO => do
        let fileN ← call (filetableFindfile oldfd)
        match ← result (fileClose O newfd) with
        | .error _ => throw .EBADF
        | .ok () => call (filetableDup2file.assign fileO fileN)

end Os161.Userprog
