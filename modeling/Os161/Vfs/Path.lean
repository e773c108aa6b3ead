import Os161.Vfs.List

/-!
# Path names

`vfs/vfslookup.c`, `vfs/vfscwd.c` and `vfs/vfspath.c`: from a path name to the
vnode where the search begins, from there through VOP_LOOKUP or VOP_LOOKPARENT
to a vnode, and the system calls' work on top of that.

A reference that a routine returns belongs to its caller. `result` keeps the
error code of a VOP for after the VOP_DECREF that comes in between.
-/

namespace Os161.Vfs

open Os161.Kern Os161.Lib

variable {σ α : Type}

/-! ## The current directory -/

/-- `curthread->t_cwd`. -/
def State.cwd (s : State σ) : Option Vnode := s.tCwd.getD s.curthread none

def State.setCwd (s : State σ) (v : Option Vnode) : State σ :=
  { s with tCwd := s.tCwd.set s.curthread v }

/-- `vfs_getcurdir`. -/
def vfsGetcurdir : VfsM σ Vnode := do
  let s ← call Prog.mem
  match s.cwd with
  | none => throw .ENOENT
  | some v => do
      call (vnodeIncref v)
      pure v

/-- VOP_DECREF, unless the pointer is NULL. -/
def decrefOpt (O : Ops σ) : Option Vnode → VProg σ Unit
  | none => pure ()
  | some v => vnodeDecref O v

/-- `vfs_setcurdir`. -/
def vfsSetcurdir (O : Ops σ) (dir : Vnode) : VfsM σ Unit := do
  let vtype ← vopGettype O dir
  if ¬ sIsdir vtype then throw .ENOTDIR
  else do
    let s ← call Prog.mem
    call (Prog.put (s.setCwd (some dir)))
    call (decrefOpt O s.cwd)

/-- `vfs_clearcurdir`. -/
def vfsClearcurdir (O : Ops σ) : VProg σ Unit := do
  let s ← Prog.mem
  Prog.put (s.setCwd none)
  decrefOpt O s.cwd

/-! ## Where a path begins -/

/-- The characters ':' and '/'. -/
def chColon : UInt8 := 58
def chSlash : UInt8 := 47

/-- The loop of `getdevice`: the first slash or colon, `(slash, colon)`. -/
def getdevice.scan : List UInt8 → Nat → Option Nat × Option Nat
  | [], _ => (none, none)
  | c :: path, i =>
    if c = chColon then (none, some i)
    else if c = chSlash then (some i, none)
    else getdevice.scan path (i + 1)

/-- `getdevice` for `/path` and `:path`. -/
def getdevice.root (O : Ops σ) (path : CString) : VfsM σ (CString × Vnode) := do
  let subpath := (path.after 1).skip chSlash
  if path.bytes.head? = some chSlash then do
    let s ← call Prog.mem
    match s.bootfsVnode with
    | none => throw .ENOENT
    | some v => do
        call (vnodeIncref v)
        pure (subpath, v)
  else do
    call (Prog.assert (path.bytes.head? = some chColon) .getdeviceMark)
    let vn ← vfsGetcurdir
    match vn.vnFs with
    | none => call (Prog.panic .getdeviceFs)
    | some fs => do
        let startvn ← call (fsopGetroot O fs)
        call (vnodeDecref O vn)
        pure (subpath, startvn)

/-- `getdevice`: the rest of the path, and the vnode to start from. -/
def getdevice (O : Ops σ) (path : CString) : VfsM σ (CString × Vnode) :=
  match getdevice.scan path.bytes 0 with
  | (_, some (colon + 1)) => do
      -- device:path - get root of device's filesystem
      let startvn ← vfsGetroot O (path.cut (colon + 1))
      pure ((path.after (colon + 2)).skip chSlash, startvn)
  | (slash, none) =>
    if slash ≠ some 0 then do
      -- a relative path or just a bare filename
      let startvn ← vfsGetcurdir
      pure (path, startvn)
    else getdevice.root O path
  | (_, some 0) => getdevice.root O path

/-- `result = ...; VOP_DECREF(vn); return result;` -/
def thenDecref (O : Ops σ) (p : VfsM σ α) (vn : Vnode) : VfsM σ α := do
  let r ← result p
  call (vnodeDecref O vn)
  match r with
  | .ok x => pure x
  | .error e => throw e

/-- `vfs_lookparent`. -/
def vfsLookparent (O : Ops σ) (path : CString) (buflen : Nat) : VfsM σ (Vnode × CString) := do
  let start ← getdevice O path
  if start.1.strlen = 0 then thenDecref O (throw .EINVAL) start.2
  else thenDecref O (vopLookparent O start.2 start.1 buflen) start.2

/-- `vfs_lookup`. -/
def vfsLookup (O : Ops σ) (path : CString) : VfsM σ Vnode := do
  let start ← getdevice O path
  if start.1.strlen = 0 then pure start.2
  else thenDecref O (vopLookup O start.2 start.1) start.2

/-! ## Changing directory -/

/-- `vfs_chdir`. -/
def vfsChdir (O : Ops σ) (path : CString) : VfsM σ Unit := do
  let vn ← vfsLookup O path
  let r ← result (vfsSetcurdir O vn)
  match r with
  | .ok () => pure ()
  | .error e => do
      call (vnodeDecref O vn)
      throw e

/-- The name of a file system: its volume name, or that of its device. -/
def getcwd.name (O : Ops σ) (fs : Fs) : VProg σ CString := do
  match O.fsGetvolname fs with
  | some name => pure name
  | none => do
      let name ← vfsGetdevname fs
      match name with
      | some name => pure name
      | none => Prog.panic .getcwdName

/-- The three pieces of `vfs_getcwd`'s answer. -/
def getcwd.move (O : Ops σ) (cwd : Vnode) (name : CString) : VfsM σ Unit := do
  let _ ← (below (O.uiomove name.bytes) : VfsM σ Unit)
  let _ ← (below (O.uiomove [chColon]) : VfsM σ Unit)
  vopNamefile O cwd

/-- `vfs_getcwd`. -/
def vfsGetcwd (O : Ops σ) : VfsM σ Unit := do
  let cwd ← vfsGetcurdir
  match cwd.vnFs with
  | none => call (Prog.panic .getcwdFs)
  | some fs => do
      let name ← call (getcwd.name O fs)
      thenDecref O (getcwd.move O cwd name) cwd

/-! ## The boot file system -/

/-- `change_bootfs`. -/
def changeBootfs (O : Ops σ) (newguy : Option Vnode) : VProg σ Unit := do
  let s ← Prog.mem
  Prog.put { s with bootfsVnode := newguy }
  decrefOpt O s.bootfsVnode

/-- ":". -/
def colonString : CString := CString.ofBytes [chColon]

/-- `vfs_setbootfs`. The name is cut off at 254 bytes, and where there is a
colon in it the rest is never empty. -/
def vfsSetbootfs (O : Ops σ) (fsname : CString) : VfsM σ Unit := do
  let tmp := fsname.cut (nameMax - 1)
  if chColon ∈ tmp.bytes then throw .EINVAL
  else do
    vfsChdir O (tmp.strcat colonString)
    let newguy ← vfsGetcurdir
    call (changeBootfs O (some newguy))

/-- `vfs_clearbootfs`. -/
def vfsClearbootfs (O : Ops σ) : VProg σ Unit := changeBootfs O none

/-! ## Operations on path names -/

/-- `canwrite`, or no access mode at all. -/
def vfsOpen.canwrite (openflags : UInt32) : Option Bool :=
  if openflags &&& oAccmode = oRdonly then some false
  else if openflags &&& oAccmode = oWronly ∨ openflags &&& oAccmode = oRdwr then some true
  else none

/-- The vnode for `vfs_open`, created if need be. -/
def vfsOpen.find (O : Ops σ) (path : CString) (openflags : UInt32) : VfsM σ Vnode :=
  if openflags &&& oCreat ≠ 0 then do
    let dir ← vfsLookparent O path (nameMax + 1)
    thenDecref O (vopCreat O dir.1 dir.2 (openflags &&& oExcl ≠ 0)) dir.1
  else vfsLookup O path

/-- O_TRUNC, for a file that has been opened. -/
def vfsOpen.truncate (O : Ops σ) (canwrite : Bool) (vn : Vnode) (openflags : UInt32) :
    VfsM σ Unit :=
  if openflags &&& oTrunc ≠ 0 then
    if canwrite then vopTruncate O vn 0 else throw .EINVAL
  else pure ()

/-- `vfs_open` once it has the vnode. -/
def vfsOpen.enter (O : Ops σ) (canwrite : Bool) (vn : Vnode) (openflags : UInt32) :
    VfsM σ Vnode := do
  let r ← result (vopOpen O vn openflags)
  match r with
  | .error e => do
      call (vnodeDecref O vn)
      throw e
  | .ok () => do
      call (vnodeIncopen vn)
      let r ← result (vfsOpen.truncate O canwrite vn openflags)
      match r with
      | .error e => do
          call (vnodeDecopen O vn)
          call (vnodeDecref O vn)
          throw e
      | .ok () => pure vn

/-- `vfs_open`. -/
def vfsOpen (O : Ops σ) (path : CString) (openflags : UInt32) : VfsM σ Vnode :=
  match vfsOpen.canwrite openflags with
  | none => throw .EINVAL
  | some canwrite => do
      let vn ← vfsOpen.find O path openflags
      vfsOpen.enter O canwrite vn openflags

/-- `vfs_close`. -/
def vfsClose (O : Ops σ) (vn : Vnode) : VProg σ Unit := do
  vnodeDecopen O vn
  vnodeDecref O vn

/-- The operations that do one thing to the directory of a name. -/
def inParent (O : Ops σ) (path : CString) (vop : Vnode → CString → VfsM σ Unit) :
    VfsM σ Unit := do
  let dir ← vfsLookparent O path (nameMax + 1)
  thenDecref O (vop dir.1 dir.2) dir.1

/-- `vfs_remove`. -/
def vfsRemove (O : Ops σ) (path : CString) : VfsM σ Unit :=
  inParent O path fun dir name => vopRemove O dir name

/-- `vfs_symlink`. -/
def vfsSymlink (O : Ops σ) (contents path : CString) : VfsM σ Unit :=
  inParent O path fun dir name => vopSymlink O dir name contents

/-- `vfs_mkdir`. -/
def vfsMkdir (O : Ops σ) (path : CString) : VfsM σ Unit :=
  inParent O path fun dir name => vopMkdir O dir name

/-- `vfs_rmdir`. -/
def vfsRmdir (O : Ops σ) (path : CString) : VfsM σ Unit :=
  inParent O path fun dir name => vopRmdir O dir name

/-- `vfs_readlink`. -/
def vfsReadlink (O : Ops σ) (path : CString) : VfsM σ Unit := do
  let vn ← vfsLookup O path
  thenDecref O (vopReadlink O vn) vn

/-- Two vnodes of one file system. -/
def sameFs (v w : Vnode) : Prop := v.vnFs ≠ none ∧ v.vnFs = w.vnFs

instance (v w : Vnode) : Decidable (sameFs v w) := inferInstanceAs (Decidable (_ ∧ _))

/-- The second half of `vfs_rename` and `vfs_link`: the directory of the new
name is found and the vnodes are compared, with `old` held by the caller, who
drops it in any case. -/
def withNewdir (O : Ops σ) (old : Vnode) (newpath : CString)
    (vop : Vnode → CString → VfsM σ Unit) : VfsM σ Unit := do
  let new ← vfsLookparent O newpath (nameMax + 1)
  thenDecref O (if sameFs old new.1 then vop new.1 new.2 else throw .EXDEV) new.1

/-- `vfs_rename`. -/
def vfsRename (O : Ops σ) (oldpath newpath : CString) : VfsM σ Unit := do
  let old ← vfsLookparent O oldpath (nameMax + 1)
  thenDecref O (withNewdir O old.1 newpath fun newdir newname =>
    vopRename O old.1 old.2 newdir newname) old.1

/-- `vfs_link`. -/
def vfsLink (O : Ops σ) (oldpath newpath : CString) : VfsM σ Unit := do
  let oldfile ← vfsLookup O oldpath
  thenDecref O (withNewdir O oldfile newpath fun newdir newname =>
    vopLink O newdir newname oldfile) oldfile

end Os161.Vfs
