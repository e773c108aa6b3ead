import Os161.Lib.Zoom
import Os161.Vfs.Path

/-!
# Where a path begins, in memory

`getdevice` of `vfs/vfslookup.c` once more, on the buffer that holds the path.
`Vfs.Path` has it on strings; here the characters are read and written one at a
time, a place in the buffer is an index, and an index outside the buffer stops the
program. The buffer of a path ends with its terminator, so that a step too far is
not left to what happens to lie behind it.

`splitPath` is what the syntax of paths says, in its own words: the characters in
front of the first colon or slash, and what that first character is.
-/

namespace Os161.Vfs

open Os161.Kern Os161.Lib

variable {σ α : Type}

/-! ## The syntax -/

/-- What a path begins with. -/
inductive Start where
  | device (name : List UInt8)
  /-- The boot file system. -/
  | boot
  /-- The file system of the current directory. -/
  | root
  | cwd
  deriving DecidableEq

def Start.isPlain (c : UInt8) : Bool := c ≠ chColon ∧ c ≠ chSlash

/-- The characters behind the slashes. -/
def skipSlashes (l : List UInt8) : List UInt8 := l.dropWhile (· = chSlash)

/-- `device:path`, `/path`, `:path`, or a path from the current directory; in front
of the path there may be any number of slashes. -/
def splitPath (path : List UInt8) : Start × List UInt8 :=
  match path.takeWhile Start.isPlain, path.dropWhile Start.isPlain with
  | [], c :: rest => (if c = chColon then .root else .boot, skipSlashes rest)
  | name, c :: rest => if c = chColon then (.device name, skipSlashes rest) else (.cwd, path)
  | _, [] => (.cwd, path)

/-! ## The places -/

/-- A root directory, or a vnode that is there already. -/
inductive Place where
  | root (fs : Fs)
  | vnode (v : Vnode)

/-- The vnode of the place: FSOP_GETROOT knows that of a root directory. -/
def Place.Is (O : Ops σ) (v : Vnode) : Place → Prop
  | root fs => ∃ n, v = .file fs (O.fsGetroot fs n).1
  | vnode w => v = w

/-- The entry goes by this name: its own, that of the volume, or the raw one. -/
def KnownDev.GoesBy (O : Ops σ) (name : CString) (kd : KnownDev) : Prop :=
  kd.kdName = name ∨ kd.kdFs.bind O.fsGetvolname = some name ∨ kd.kdRawname = some name

instance (O : Ops σ) (name : CString) (kd : KnownDev) : Decidable (kd.GoesBy O name) :=
  inferInstanceAs (Decidable (_ ∨ _))

/-- What an entry is, under one of its names. -/
def KnownDev.place (O : Ops σ) (name : CString) (kd : KnownDev) : Except Errno Place :=
  match kd.kdFs with
  | some fs =>
    if kd.kdName = name ∨ O.fsGetvolname fs = some name then .ok (.root fs)
    else .ok (.vnode kd.vnode)
  | none =>
    -- something could be mounted on it, and is not
    if kd.kdName = name ∧ kd.kdRawname.isSome then .error Errno.ENXIO
    else .ok (.vnode kd.vnode)

/-- The device of this name: the first entry that goes by it. -/
def deviceNamed (O : Ops σ) (l : List KnownDev) (name : CString) : Except Errno Place :=
  match l.find? fun kd => kd.GoesBy O name with
  | some kd => kd.place O name
  | none => .error .ENODEV

/-- Where the search begins. -/
def State.startOf (O : Ops σ) (s : State σ) : Start → Except Errno Place
  | .device name => deviceNamed O s.knowndevs.v (CString.ofBytes name)
  | .boot =>
    match s.bootfsVnode with
    | some v => .ok (.vnode v)
    | none => .error .ENOENT
  | .root =>
    match s.cwd with
    | some (.file fs _) => .ok (.root fs)
    | _ => .error .ENOENT
  | .cwd =>
    match s.cwd with
    | some v => .ok (.vnode v)
    | none => .error .ENOENT

/-! ## The code -/

structure PathState (σ : Type) where
  vfs : State σ
  buf : List UInt8

inductive PathPanic where
  | vfs (p : Panic)
  /-- An access outside the buffer. -/
  | bounds
  deriving DecidableEq

section
variable (σ)

abbrev PathProg : Type → Type := Prog (PathState σ) Empty Unit Empty PathPanic

abbrev PathM : Type → Type := ExceptT Errno (PathProg σ)

end

def PathState.vfsPart : Lens (PathState σ) (State σ) where
  get s := s.vfs
  set v s := { s with vfs := v }
  get_set _ _ := rfl
  set_get _ := rfl
  set_set _ _ _ := rfl

/-- Call a routine that does not look at the buffer. -/
def onVfs (p : VfsM σ α) : PathM σ α := zoomE PathState.vfsPart .vfs p

/-- `path[i]`. -/
def charAt (i : Nat) : PathProg σ UInt8 := do
  let s ← Prog.mem
  match s.buf[i]? with
  | some c => pure c
  | none => Prog.panic .bounds

/-- `path[i] = c`. -/
def putChar (i : Nat) (c : UInt8) : PathProg σ Unit := do
  let s ← Prog.mem
  Prog.assert (i < s.buf.length) .bounds
  Prog.put { s with buf := s.buf.set i c }

/-- The loop over the path, `(slash, colon)`. The first argument is the number of
characters from `i` to the end of the buffer. -/
def pathGetdevice.scan : Nat → Nat → PathProg σ (Option Nat × Option Nat)
  | 0, _ => Prog.panic .bounds
  | left + 1, i => do
      let c ← charAt i
      if c = 0 then pure (none, none)
      else if c = chColon then pure (none, some i)
      else if c = chSlash then pure (some i, none)
      else pathGetdevice.scan left (i + 1)

/-- `while (path[i+1]=='/') i++;`, with the number of characters behind `i`. -/
def pathGetdevice.skip : Nat → Nat → PathProg σ Nat
  | 0, _ => Prog.panic .bounds
  | left + 1, i => do
      let c ← charAt (i + 1)
      if c = chSlash then pathGetdevice.skip left (i + 1) else pure i

/-- The root of the boot file system. -/
def bootStart : VfsM σ Vnode := do
  let s ← call Prog.mem
  match s.bootfsVnode with
  | none => throw .ENOENT
  | some v => do
      call (vnodeIncref v)
      pure v

/-- The root of the current directory's file system. -/
def cwdRoot (O : Ops σ) : VfsM σ Vnode := do
  let vn ← vfsGetcurdir
  match vn.vnFs with
  | none => call (Prog.panic .getdeviceFs)
  | some fs => do
      let startvn ← call (fsopGetroot O fs)
      call (vnodeDecref O vn)
      pure startvn

/-- `getdevice` for `/path` and `:path`. -/
def pathGetdevice.root (O : Ops σ) : PathM σ (Nat × Vnode) := do
  let c ← call (charAt 0)
  let s ← call Prog.mem
  if c = chSlash then do
    let startvn ← onVfs bootStart
    let p ← call (pathGetdevice.skip (s.buf.length - 1) 0)
    pure (p + 1, startvn)
  else do
    call (Prog.assert (c = chColon) (.vfs .getdeviceMark))
    let startvn ← onVfs (cwdRoot O)
    let p ← call (pathGetdevice.skip (s.buf.length - 1) 0)
    pure (p + 1, startvn)

/-- `getdevice`: where in the buffer the rest of the path is, and the vnode to start
from. -/
def pathGetdevice (O : Ops σ) : PathM σ (Nat × Vnode) := do
  let s ← call Prog.mem
  let (slash, colon) ← call (pathGetdevice.scan s.buf.length 0)
  match colon with
  | some (colon + 1) => do
      -- device:path - get root of device's filesystem
      call (putChar (colon + 1) 0)
      let p ← call (pathGetdevice.skip (s.buf.length - (colon + 2)) (colon + 1))
      let s ← call Prog.mem
      let startvn ← onVfs (vfsGetroot O (CString.ofBytes s.buf))
      pure (p + 1, startvn)
  | some 0 => pathGetdevice.root O
  | none =>
    if slash ≠ some 0 then do
      -- a relative path or just a bare filename
      let startvn ← onVfs vfsGetcurdir
      pure (0, startvn)
    else pathGetdevice.root O

end Os161.Vfs
