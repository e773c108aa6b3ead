import Os161.Lib.Record
import Os161.Sfs.Vnode
import Os161.Vfs.Path

/-!
# Opening a file

`vfs_open` and what it calls, on a mounted volume. `Vfs.Path` has the routine over
file systems that may do anything; here the operations behind a vnode are those of
`sfs_vnode.c`, on the table of vnodes and the disk of one volume.

A path may begin at this volume or at a device, or at nothing. What the names of
devices stand for, and what the drivers answer, does not depend on the volume and
is in `Places`. The vnodes of devices are not in the volume's table, so their counts
are kept beside it (`Beside`).
-/

namespace Os161.Sfs.Open

open Os161.Kern Os161.Lib Function

/-- A vnode of this volume, or of a device. -/
inductive Vnode where
  | file (f : UInt32)
  | dev (d : Nat)
  deriving DecidableEq

/-- What a name in front of a colon stands for. -/
inductive Named where
  | volume
  | device (d : Nat)

/-- Where paths begin: `curthread->t_cwd`, `bootfs_vnode`, and the table of devices,
with the answers of `d_open` and of `dev_truncate` to length zero. -/
structure Places where
  cwd : Option UInt32
  bootfs : Option UInt32
  named : CString → Except Errno Named
  dOpen : Nat → UInt32 → Except Errno Unit
  dTruncate : Nat → Except Errno Unit

structure Beside where
  refs : Nat → Nat
  opens : Nat → Nat

abbrev OpenM : Type → Type := Rec Beside Errno SfsFs UInt32 Block IoErr Panic

variable {α : Type}

/-- A routine that has computed its error code. -/
def ret (r : Except Errno α) : OpenM α :=
  match r with
  | .ok x => pure x
  | .error e => throw e

/-! ## Counts -/

/-- VOP_DECREF. `dev_reclaim` does nothing: devices are permanent. -/
def vopDecref : Vnode → OpenM Unit
  | .file f => Rec.call (vnodeDecref f)
  | .dev d => do
      let t ← Rec.look
      Rec.call (Prog.assert (0 < t.refs d) .decrefRefcount)
      if 1 < t.refs d then
        Rec.note fun t => { t with refs := update t.refs d (t.refs d - 1) }
      else pure ()

/-- VOP_INCREF. -/
def vopIncref : Vnode → OpenM Unit
  | .file f => Rec.call (vnodeIncref f)
  | .dev d => Rec.note fun t => { t with refs := update t.refs d (t.refs d + 1) }

/-- VOP_INCOPEN. -/
def vopIncopen : Vnode → OpenM Unit
  | .file f => Rec.call (setVnode f fun sv => { sv with vnOpencount := sv.vnOpencount + 1 })
  | .dev d => Rec.note fun t => { t with opens := update t.opens d (t.opens d + 1) }

/-- `vnode_decopen` of a vnode of the volume. VOP_CLOSE is `sfs_close`, which calls
VOP_FSYNC; an error ends up in a warning. -/
def decopen (f : UInt32) : SfsProg Unit := do
  let sv ← vnode f
  Prog.assert (0 < sv.vnOpencount) .decopenOpencount
  setVnode f fun sv => { sv with vnOpencount := sv.vnOpencount - 1 }
  if 0 < sv.vnOpencount - 1 then pure ()
  else do
    let _ ← (sfsSyncInode f).run
    pure ()

/-- VOP_DECOPEN. -/
def vopDecopen : Vnode → OpenM Unit
  | .file f => Rec.call (decopen f)
  | .dev d => do
      let t ← Rec.look
      Rec.call (Prog.assert (0 < t.opens d) .decopenOpencount)
      Rec.note fun t => { t with opens := update t.opens d (t.opens d - 1) }

/-! ## Operations on vnodes -/

/-- `sfs_open`. -/
def sfsOpen (openflags : UInt32) : Except Errno Unit :=
  if openflags &&& Vfs.oAppend ≠ 0 then .error .EUNIMP else .ok ()

/-- `sfs_opendir`. -/
def sfsOpendir (openflags : UInt32) : Except Errno Unit :=
  if openflags &&& Vfs.oAccmode ≠ Vfs.oRdonly then .error .EISDIR
  else if openflags &&& Vfs.oAppend ≠ 0 then .error .EISDIR
  else .ok ()

/-- What `sfs_fileops` and `sfs_dirops` have for a vnode of the volume. -/
def vop (f : UInt32) (fileop dirop : OpenM α) : OpenM α := do
  let sv ← Rec.call (vnode f)
  match sv.vnOps with
  | .fileops => fileop
  | .dirops => dirop

/-- VOP_OPEN. -/
def vopOpen (P : Places) (openflags : UInt32) : Vnode → OpenM Unit
  | .file f => vop f (ret (sfsOpen openflags)) (ret (sfsOpendir openflags))
  | .dev d =>
    if openflags &&& (Vfs.oCreat ||| Vfs.oTrunc ||| Vfs.oExcl ||| Vfs.oAppend) ≠ 0 then
      throw .EINVAL
    else ret (P.dOpen d openflags)

/-- VOP_TRUNCATE to length zero. -/
def vopTruncate (P : Places) : Vnode → OpenM Unit
  | .file f => vop f (Rec.callE (sfsTruncate f 0)) (throw .EISDIR)
  | .dev d => ret (P.dTruncate d)

/-- VOP_LOOKUP. -/
def vopLookup (path : CString) : Vnode → OpenM Vnode
  | .file f => vop f (throw .ENOTDIR) do
      let final ← Rec.callE (sfsLookup f path)
      pure (.file final)
  | .dev d =>
    if 0 < path.strlen then throw .ENOENT
    else do
      vopIncref (.dev d)
      pure (.dev d)

/-- VOP_LOOKPARENT. -/
def vopLookparent (path : CString) (buflen : Nat) : Vnode → OpenM (Vnode × CString)
  | .file f => vop f (throw .ENOTDIR) do
      let r ← Rec.callE (sfsLookparent f path buflen)
      pure (.file r.1, r.2)
  | .dev _ => throw .ENOTDIR

/-- VOP_CREAT. -/
def vopCreat (name : CString) (excl : Bool) : Vnode → OpenM Vnode
  | .file f => vop f (throw .ENOTDIR) do
      let vn ← Rec.callE (sfsCreat f name excl)
      pure (.file vn)
  | .dev _ => throw .ENOTDIR

/-! ## Paths -/

/-- `vfs_getcurdir`. -/
def vfsGetcurdir (P : Places) : OpenM UInt32 := do
  match P.cwd with
  | none => throw .ENOENT
  | some v => do
      vopIncref (.file v)
      pure v

/-- `vfs_getroot`. -/
def vfsGetroot (P : Places) (devname : CString) : OpenM Vnode := do
  match P.named devname with
  | .error e => throw e
  | .ok .volume => do
      let root ← Rec.call sfsGetroot
      pure (.file root)
  | .ok (.device d) => do
      vopIncref (.dev d)
      pure (.dev d)

/-- `getdevice` for `/path` and `:path`. -/
def getdevice.root (P : Places) (path : CString) : OpenM (CString × Vnode) := do
  let subpath := (path.after 1).skip Vfs.chSlash
  if path.bytes.head? = some Vfs.chSlash then
    match P.bootfs with
    | none => throw .ENOENT
    | some v => do
        vopIncref (.file v)
        pure (subpath, .file v)
  else do
    let vn ← vfsGetcurdir P
    let startvn ← Rec.call sfsGetroot
    vopDecref (.file vn)
    pure (subpath, .file startvn)

/-- `getdevice`: the rest of the path, and the vnode to start from. -/
def getdevice (P : Places) (path : CString) : OpenM (CString × Vnode) :=
  match Vfs.getdevice.scan path.bytes 0 with
  | (_, some (colon + 1)) => do
      -- device:path - get root of device's filesystem
      let startvn ← vfsGetroot P (path.cut (colon + 1))
      pure ((path.after (colon + 2)).skip Vfs.chSlash, startvn)
  | (slash, none) =>
    if slash ≠ some 0 then do
      -- a relative path or just a bare filename
      let startvn ← vfsGetcurdir P
      pure (path, .file startvn)
    else getdevice.root P path
  | (_, some 0) => getdevice.root P path

/-- `result = ...; VOP_DECREF(vn); return result;` -/
def thenDecref (p : OpenM α) (vn : Vnode) : OpenM α := do
  let r ← Rec.result p
  vopDecref vn
  ret r

/-- `vfs_lookparent`. -/
def vfsLookparent (P : Places) (path : CString) (buflen : Nat) : OpenM (Vnode × CString) := do
  let start ← getdevice P path
  if start.1.strlen = 0 then thenDecref (throw .EINVAL) start.2
  else thenDecref (vopLookparent start.1 buflen start.2) start.2

/-- `vfs_lookup`. -/
def vfsLookup (P : Places) (path : CString) : OpenM Vnode := do
  let start ← getdevice P path
  if start.1.strlen = 0 then pure start.2
  else thenDecref (vopLookup start.1 start.2) start.2

/-- The vnode for `vfs_open`, created if need be. -/
def vfsOpen.find (P : Places) (path : CString) (openflags : UInt32) : OpenM Vnode :=
  if openflags &&& Vfs.oCreat ≠ 0 then do
    let dir ← vfsLookparent P path (Vfs.nameMax + 1)
    thenDecref (vopCreat dir.2 (decide (openflags &&& Vfs.oExcl ≠ 0)) dir.1) dir.1
  else vfsLookup P path

/-- O_TRUNC, for a file that has been opened. -/
def vfsOpen.truncate (P : Places) (canwrite : Bool) (vn : Vnode) (openflags : UInt32) :
    OpenM Unit :=
  if openflags &&& Vfs.oTrunc ≠ 0 then
    if canwrite then vopTruncate P vn else throw .EINVAL
  else pure ()

/-- `vfs_open` once it has the vnode. -/
def vfsOpen.enter (P : Places) (canwrite : Bool) (openflags : UInt32) (vn : Vnode) :
    OpenM Vnode := do
  let r ← Rec.result (vopOpen P openflags vn)
  match r with
  | .error e => do
      vopDecref vn
      throw e
  | .ok () => do
      vopIncopen vn
      let r ← Rec.result (vfsOpen.truncate P canwrite vn openflags)
      match r with
      | .error e => do
          vopDecopen vn
          vopDecref vn
          throw e
      | .ok () => pure vn

/-- `vfs_open`. -/
def vfsOpen (P : Places) (path : CString) (openflags : UInt32) : OpenM Vnode :=
  match Vfs.vfsOpen.canwrite openflags with
  | none => throw .EINVAL
  | some canwrite => do
      let vn ← vfsOpen.find P path openflags
      vfsOpen.enter P canwrite openflags vn

end Os161.Sfs.Open
