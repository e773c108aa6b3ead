import Os161.Kern.Array
import Os161.Kern.CString

/-!
# Vnodes, devices and file systems as the VFS layer sees them

`vfs/vnode.c`, `vfs/device.c` and the globals of the rest of `fs/vfs`.

A vnode belongs to a device, which `dev_create_vnode` has made it for, or to a
file system. The counts of all vnodes are kept in one map; a vnode that is not
in memory has a reference count of zero, `vnode_init` starts it at one.

What is behind `struct fs`, `struct device` and the `vnode_ops` of a file system
is a parameter (`Ops`): a routine there sees the counts and a state of its own,
and may change both. The `vnode_ops` of devices are those of `device.c`. A file
system hands out vnodes of its own only.

One thread runs at a time here, so the locks are left out. A count is an
`int`; it is a natural number here, which it stays as long as there are fewer
than 2^31 references to one vnode.
-/

namespace Os161.Vfs

open Os161.Kern Os161.Lib

abbrev Addr := Nat

/-- A file system that is mounted, or hard-wired to its name. -/
abbrev Fs := Nat

/-- A `struct device`. -/
abbrev Device := Nat

/-- A file of a file system, by whatever the file system tells its files apart
with. -/
abbrev Ino := Nat

/-- A vnode of a device is known by its address; `vn_data` is the device, or
NULL where `vfs_addfs` had none. -/
inductive Vnode where
  | dev (a : Addr) (vnData : Option Device)
  | file (fs : Fs) (ino : Ino)
  deriving DecidableEq

def Vnode.vnFs : Vnode → Option Fs
  | dev _ _ => none
  | file fs _ => some fs

/-! ## Flags -/

def oRdonly : UInt32 := 0
def oWronly : UInt32 := 1
def oRdwr : UInt32 := 2
def oCreat : UInt32 := 4
def oExcl : UInt32 := 8
def oTrunc : UInt32 := 16
def oAppend : UInt32 := 32
def oAccmode : UInt32 := 3

def sIfmt : UInt32 := 0x7000
def sIfdir : UInt32 := 0x2000
def sIfchr : UInt32 := 0x4000
def sIfblk : UInt32 := 0x5000

/-- S_ISDIR. -/
def sIsdir (mode : UInt32) : Prop := mode &&& sIfmt = sIfdir

instance (mode : UInt32) : Decidable (sIsdir mode) :=
  inferInstanceAs (Decidable (_ = _))

abbrev nameMax : Nat := 255

/-! ## The layers below -/

/-- The counts, and what the file systems and drivers have in memory and on
disk. -/
structure Vnodes (σ : Type) where
  refcount : Vnode → Nat
  opencount : Vnode → Nat
  priv : σ

/-- A routine below the VFS layer. -/
abbrev Below (σ α : Type) := StateM (Vnodes σ) α

/-- A routine below the VFS layer that returns an error code. -/
abbrev BelowE (σ α : Type) := Below σ (Except Errno α)

/-- `struct fs`, `struct device`, and the `vnode_ops` of the file systems; the
buffer that a uio stands for is theirs as well. -/
structure Ops (σ : Type) where
  fsSync : Fs → BelowE σ Unit
  fsGetvolname : Fs → Option CString
  fsGetroot : Fs → Below σ Ino
  fsUnmount : Fs → BelowE σ Unit
  dOpen : Device → UInt32 → BelowE σ Unit
  dClose : Device → BelowE σ Unit
  dBlocks : Device → UInt32
  dBlocksize : Device → UInt32
  uiomove : List UInt8 → BelowE σ Unit
  vopOpen : Fs → Ino → UInt32 → BelowE σ Unit
  vopClose : Fs → Ino → BelowE σ Unit
  vopReclaim : Fs → Ino → BelowE σ Unit
  vopReadlink : Fs → Ino → BelowE σ Unit
  vopGettype : Fs → Ino → BelowE σ UInt32
  vopTruncate : Fs → Ino → UInt32 → BelowE σ Unit
  vopNamefile : Fs → Ino → BelowE σ Unit
  vopCreat : Fs → Ino → CString → Bool → BelowE σ Ino
  vopSymlink : Fs → Ino → CString → CString → BelowE σ Unit
  vopMkdir : Fs → Ino → CString → BelowE σ Unit
  vopLink : Fs → Ino → CString → Vnode → BelowE σ Unit
  vopRemove : Fs → Ino → CString → BelowE σ Unit
  vopRmdir : Fs → Ino → CString → BelowE σ Unit
  vopRename : Fs → Ino → CString → Vnode → CString → BelowE σ Unit
  vopLookup : Fs → Ino → CString → BelowE σ Ino
  vopLookparent : Fs → Ino → CString → Nat → BelowE σ (Ino × CString)

/-! ## The state -/

/-- `struct knowndev`. Without a raw name the device cannot be mounted on, and
only a file system that is there for good makes up for a missing device. -/
structure KnownDev where
  kdName : CString
  kdRawname : Option CString
  kdDevice : Option Device
  kdVnode : Addr
  kdFs : Option Fs
  raw : kdRawname.isSome → kdDevice.isSome
  bare : kdFs = none → kdDevice.isSome

/-- `kd_vnode`. -/
def KnownDev.vnode (kd : KnownDev) : Vnode := .dev kd.kdVnode kd.kdDevice

/-- The globals of `fs/vfs`, and the member `t_cwd` of every thread. -/
structure State (σ : Type) where
  vnodes : Vnodes σ
  tCwd : List (Option Vnode)
  curthread : Nat
  bootfsVnode : Option Vnode
  knowndevs : KArray KnownDev

/-- The `panic`s and `assert`s of the modelled code. -/
inductive Panic where
  -- vnode.c, device.c
  | vnodeCheck (v : Vnode)
  | decrefRefcount (v : Vnode)
  | decopenOpencount (v : Vnode)
  | nullDevice
  | devVnodeInit
  -- vfslist.c
  | getrootFs
  | getrootRawname
  | getrootDevice
  | mountRawname
  | mountDevice
  | unmountRawname
  | unmountDevice
  -- vfslookup.c, vfscwd.c
  | getdeviceMark
  | getdeviceFs
  | getcwdFs
  | getcwdName
  deriving DecidableEq

/-- A routine of the VFS layer. -/
abbrev VProg (σ : Type) := Prog (State σ) Empty Unit Empty Panic

/-- A routine of the VFS layer that returns an error code. -/
abbrev VfsM (σ : Type) := ExceptT Errno (VProg σ)

variable {σ α : Type}

/-- Call a routine below. -/
def below (c : Below σ α) : VProg σ α := do
  let s ← Prog.mem
  Prog.put { s with vnodes := (c s.vnodes).2 }
  pure (c s.vnodes).1

/-! ## Counts -/

def setRefcount (v : Vnode) (n : Nat) : VProg σ Unit :=
  Prog.modify fun s => { s with vnodes :=
    { s.vnodes with refcount := Function.update s.vnodes.refcount v n } }

def setOpencount (v : Vnode) (n : Nat) : VProg σ Unit :=
  Prog.modify fun s => { s with vnodes :=
    { s.vnodes with opencount := Function.update s.vnodes.opencount v n } }

/-- `vnode_check`, in front of every VOP but `vop_reclaim`. -/
def vnodeCheck (v : Vnode) : VProg σ Unit := do
  let s ← Prog.mem
  Prog.assert (0 < s.vnodes.refcount v) (.vnodeCheck v)

/-- `vnode_incref`. -/
def vnodeIncref (v : Vnode) : VProg σ Unit := do
  let s ← Prog.mem
  setRefcount v (s.vnodes.refcount v + 1)

/-- VOP_RECLAIM. `dev_reclaim` does nothing: devices are permanent. -/
def vopReclaim (O : Ops σ) : Vnode → VProg σ (Except Errno Unit)
  | .dev _ _ => pure (.ok ())
  | .file fs ino => below (O.vopReclaim fs ino)

/-- `vnode_decref`: an error of VOP_RECLAIM ends up in a warning. -/
def vnodeDecref (O : Ops σ) (v : Vnode) : VProg σ Unit := do
  let s ← Prog.mem
  Prog.assert (0 < s.vnodes.refcount v) (.decrefRefcount v)
  if 1 < s.vnodes.refcount v then setRefcount v (s.vnodes.refcount v - 1)
  else do
    let _ ← vopReclaim O v
    pure ()

/-- `vnode_incopen`. -/
def vnodeIncopen (v : Vnode) : VProg σ Unit := do
  let s ← Prog.mem
  setOpencount v (s.vnodes.opencount v + 1)

/-! ## Operations on vnodes

VOP_FOO checks the vnode and calls what the vnode's kind has for it. -/

/-- The device behind a vnode, to call a function of. -/
def vnDevice (vnData : Option Device) : VProg σ Device :=
  match vnData with
  | none => Prog.panic .nullDevice
  | some d => pure d

/-- `dev_open`. -/
def devOpen (O : Ops σ) (vnData : Option Device) (flags : UInt32) :
    VProg σ (Except Errno Unit) := do
  let d ← vnDevice vnData
  if flags &&& (oCreat ||| oTrunc ||| oExcl ||| oAppend) ≠ 0 then pure (.error .EINVAL)
  else below (O.dOpen d flags)

/-- `dev_close`. -/
def devClose (O : Ops σ) (vnData : Option Device) : VProg σ (Except Errno Unit) := do
  let d ← vnDevice vnData
  below (O.dClose d)

/-- `dev_gettype`: a device of known length is a block device. -/
def devGettype (O : Ops σ) (vnData : Option Device) : VProg σ (Except Errno UInt32) := do
  let d ← vnDevice vnData
  pure (.ok (if 0 < O.dBlocks d then sIfblk else sIfchr))

/-- `dev_truncate`. -/
def devTruncate (O : Ops σ) (vnData : Option Device) (len : UInt32) :
    VProg σ (Except Errno Unit) := do
  let d ← vnDevice vnData
  pure (if 0 < O.dBlocks d ∧ O.dBlocks d * O.dBlocksize d = len then .ok ()
    else .error .EINVAL)

/-- `dev_lookup`. -/
def devLookup (dir : Vnode) (pathname : CString) : VProg σ (Except Errno Vnode) :=
  if 0 < pathname.strlen then pure (.error .ENOENT)
  else do
    vnodeIncref dir
    pure (.ok dir)

/-- VOP_FOO: `dev` for a device, `vop` for a file of a file system. -/
def vopOn (v : Vnode) (dev : Option Device → VProg σ α) (vop : Fs → Ino → Below σ α) :
    VProg σ α := do
  vnodeCheck v
  match v with
  | .dev _ d => dev d
  | .file fs ino => below (vop fs ino)

def vopOpen (O : Ops σ) (v : Vnode) (flags : UInt32) : VProg σ (Except Errno Unit) :=
  vopOn v (devOpen O · flags) fun fs ino => O.vopOpen fs ino flags

def vopClose (O : Ops σ) (v : Vnode) : VProg σ (Except Errno Unit) :=
  vopOn v (devClose O) O.vopClose

def vopGettype (O : Ops σ) (v : Vnode) : VProg σ (Except Errno UInt32) :=
  vopOn v (devGettype O) O.vopGettype

def vopTruncate (O : Ops σ) (v : Vnode) (len : UInt32) : VProg σ (Except Errno Unit) :=
  vopOn v (devTruncate O · len) fun fs ino => O.vopTruncate fs ino len

/-- `vop` on a file of a file system; on a device it is `null_io`, `null_nameop`
and so on, which answer `e`. -/
def vopOr (e : Except Errno α) (v : Vnode) (vop : Fs → Ino → BelowE σ α) :
    VProg σ (Except Errno α) :=
  vopOn v (fun _ => pure e) vop

def vopReadlink (O : Ops σ) (v : Vnode) : VProg σ (Except Errno Unit) :=
  vopOr (.error .EINVAL) v O.vopReadlink

/-- `dev_namefile` has nothing to add to the device's name. -/
def vopNamefile (O : Ops σ) (v : Vnode) : VProg σ (Except Errno Unit) :=
  vopOr (.ok ()) v O.vopNamefile

def vopSymlink (O : Ops σ) (v : Vnode) (name contents : CString) :
    VProg σ (Except Errno Unit) :=
  vopOr (.error .ENOTDIR) v fun fs ino => O.vopSymlink fs ino name contents

def vopMkdir (O : Ops σ) (v : Vnode) (name : CString) : VProg σ (Except Errno Unit) :=
  vopOr (.error .ENOTDIR) v fun fs ino => O.vopMkdir fs ino name

def vopLink (O : Ops σ) (v : Vnode) (name : CString) (file : Vnode) :
    VProg σ (Except Errno Unit) :=
  vopOr (.error .ENOTDIR) v fun fs ino => O.vopLink fs ino name file

def vopRemove (O : Ops σ) (v : Vnode) (name : CString) : VProg σ (Except Errno Unit) :=
  vopOr (.error .ENOTDIR) v fun fs ino => O.vopRemove fs ino name

def vopRmdir (O : Ops σ) (v : Vnode) (name : CString) : VProg σ (Except Errno Unit) :=
  vopOr (.error .ENOTDIR) v fun fs ino => O.vopRmdir fs ino name

def vopRename (O : Ops σ) (v : Vnode) (name : CString) (v2 : Vnode) (name2 : CString) :
    VProg σ (Except Errno Unit) :=
  vopOr (.error .ENOTDIR) v fun fs ino => O.vopRename fs ino name v2 name2

/-- The file that a file system has answered with, as a vnode. -/
def own (fs : Fs) (c : BelowE σ Ino) : VProg σ (Except Errno Vnode) := do
  let r ← below c
  pure (r.map (.file fs))

def vopCreat (O : Ops σ) (v : Vnode) (name : CString) (excl : Bool) :
    VProg σ (Except Errno Vnode) := do
  vnodeCheck v
  match v with
  | .dev _ _ => pure (.error .ENOTDIR)
  | .file fs ino => own fs (O.vopCreat fs ino name excl)

def vopLookup (O : Ops σ) (v : Vnode) (path : CString) : VProg σ (Except Errno Vnode) := do
  vnodeCheck v
  match v with
  | .dev a d => devLookup (.dev a d) path
  | .file fs ino => own fs (O.vopLookup fs ino path)

def vopLookparent (O : Ops σ) (v : Vnode) (path : CString) (buflen : Nat) :
    VProg σ (Except Errno (Vnode × CString)) := do
  vnodeCheck v
  match v with
  | .dev _ _ => pure (.error .ENOTDIR)
  | .file fs ino => do
      let r ← below (O.vopLookparent fs ino path buflen)
      pure (r.map fun x => (.file fs x.1, x.2))

/-- `vnode_decopen`: an error of VOP_CLOSE ends up in a warning. -/
def vnodeDecopen (O : Ops σ) (v : Vnode) : VProg σ Unit := do
  let s ← Prog.mem
  Prog.assert (0 < s.vnodes.opencount v) (.decopenOpencount v)
  setOpencount v (s.vnodes.opencount v - 1)
  if 0 < s.vnodes.opencount v - 1 then pure ()
  else do
    let _ ← vopClose O v
    pure ()

/-- FSOP_GETROOT. -/
def fsopGetroot (O : Ops σ) (fs : Fs) : VProg σ Vnode := do
  let ino ← below (O.fsGetroot fs)
  pure (.file fs ino)

end Os161.Vfs
