import Os161.Userprog.File

/-!
# System calls on descriptors

`lseek` of `userprog/file_syscalls.c`, with the entries for `vop_stat` and
`vop_tryseek` in the function tables of devices, of SFS and of emufs.

`off_t` is a signed word of 32 bits, and so are the sums. Where the source has
`(*file)->offset`, a field that does not exist, it is `of_offset` here.
-/

namespace Os161.Userprog

open Os161.Kern Os161.Lib Os161.Vfs

variable {σ : Type}

/-! ## Function tables -/

/-- The function tables that SFS and emufs have for their vnodes. -/
inductive VnodeOps where
  | sfsFileops
  | sfsDirops
  | emufsFileops
  | emufsDirops
  deriving DecidableEq

/-- `vn_ops` of a file, set when the vnode is loaded, and what VOP_STAT has for
`st_size`. -/
structure SeekOps (σ : Type) where
  vnOps : Fs → Ino → VnodeOps
  vopStat : Fs → Ino → BelowE σ (BitVec 32)

/-- Any position that is not negative. -/
def nonNegative (pos : BitVec 32) : Except Errno Unit :=
  if pos.slt 0 then .error .EINVAL else .ok ()

def sfsTryseek : BitVec 32 → Except Errno Unit := nonNegative

def emufsTryseek : BitVec 32 → Except Errno Unit := nonNegative

def sfsUnimp : Except Errno Unit := .error .EUNIMP

def emufsUnimp : Except Errno Unit := .error .EUNIMP

/-- The entry `vop_tryseek`. -/
def VnodeOps.vopTryseek : VnodeOps → BitVec 32 → Except Errno Unit
  | .sfsFileops, pos => sfsTryseek pos
  | .sfsDirops, _ => sfsUnimp
  | .emufsFileops, pos => emufsTryseek pos
  | .emufsDirops, _ => emufsUnimp

/-- `dev_stat`: the size of a block device. -/
def devStat (O : Ops σ) (vnData : Option Device) : VProg σ (Except Errno (BitVec 32)) := do
  let d ← vnDevice vnData
  pure (.ok (if 0 < O.dBlocks d then (O.dBlocks d * O.dBlocksize d).toBitVec else 0))

/-- `dev_tryseek`. The sizes of a device are unsigned, and `%` and `/` are as well. -/
def devTryseek (O : Ops σ) (vnData : Option Device) (pos : BitVec 32) :
    VProg σ (Except Errno Unit) := do
  let d ← vnDevice vnData
  pure (if 0 < O.dBlocks d then
      if pos % (O.dBlocksize d).toBitVec ≠ 0 then .error .EINVAL
      else if pos.slt 0 then .error .EINVAL
      else if (O.dBlocks d).toBitVec ≤ pos / (O.dBlocksize d).toBitVec then .error .EINVAL
      else .ok ()
    else .error .ESPIPE)

def vopStat (O : Ops σ) (S : SeekOps σ) (v : Vnode) : VProg σ (Except Errno (BitVec 32)) :=
  vopOn v (devStat O) S.vopStat

def vopTryseek (O : Ops σ) (S : SeekOps σ) (v : Vnode) (pos : BitVec 32) :
    VProg σ (Except Errno Unit) :=
  vopOn v (devTryseek O · pos) fun fs ino => pure ((S.vnOps fs ino).vopTryseek pos)

/-! ## `sys_lseek` -/

def seekSet : Int := 0
def seekCur : Int := 1
def seekEnd : Int := 2

/-- `of_vnode`, to call a function of. -/
def vnodeOf (f : Openfile) : FProg σ Vnode :=
  match f.ofVnode with
  | none => Prog.panic .nullVnode
  | some v => pure v

/-- The sum that is passed to VOP_TRYSEEK and becomes `pos`, if `whence` is one of
the three. -/
def sysLseek.target (f : Openfile) (fileSize offset : BitVec 32) (whence : Int) :
    Option (BitVec 32) :=
  if whence = seekSet then some offset
  else if whence = seekCur then some (f.ofOffset + offset)
  else if whence = seekEnd then some (fileSize + offset)
  else none

/-- The file's lock is released on the way out. -/
def sysLseek.fail (f : Openfile) (e : Errno) : FileM σ Unit := do
  call (lockRelease f.ofLock)
  throw e

/-- The rest of `sys_lseek`, for a valid `whence`. -/
def sysLseek.store (O : Ops σ) (S : SeekOps σ) (a : Addr) (f : Openfile) (v : Vnode)
    (pos : BitVec 32) : FileM σ Unit := do
  match ← call (onVfs (vopTryseek O S v pos)) with
  | .error e => sysLseek.fail f e
  | .ok () =>
    if pos.slt 0 then sysLseek.fail f .EINVAL
    else do
      call (setFile a fun f => { f with ofOffset := pos })
      call (lockRelease f.ofLock)

/-- `sys_lseek`, for a file that is there. -/
def sysLseek.seek (O : Ops σ) (S : SeekOps σ) (a : Addr) (offset : BitVec 32) (whence : Int) :
    FileM σ Unit := do
  let f ← call (openfile a)
  call (lockAcquire f.ofLock)
  let v ← call (vnodeOf f)
  match ← call (onVfs (vopStat O S v)) with
  | .error e => sysLseek.fail f e
  | .ok fileSize =>
    match sysLseek.target f fileSize offset whence with
    | none => sysLseek.fail f .EINVAL
    | some pos => sysLseek.store O S a f v pos

/-- `sys_lseek`. -/
def sysLseek (O : Ops σ) (S : SeekOps σ) (fd : Int) (offset : BitVec 32) (whence : Int) :
    FileM σ Unit := do
  let file ← call (filetableFindfile fd)
  if ¬ InRange fd then throw .EBADF
  else
    match file with
    | none => throw .EBADF
    | some a => sysLseek.seek O S a offset whence

end Os161.Userprog
