import Os161.Kern.Copyinout
import Os161.Kern.Uio
import Os161.Lib.Bytes
import Os161.Lib.Prog

/-!
# Copying, with both ends of the copy

`lib/copyinout.c` and `uiomove` of `userprog/uio.c` once more, on a machine that has
the kernel's memory as well as the program's. `Kern.Copyinout` returns what was copied,
and only if all of it was; here every byte is stored where the routine stores it, when
it does. `touched` and `stored` are not in the source: the user addresses that have been
accessed, and the kernel addresses that the copies from there have written, newest first.

A `struct uio` has its fields in the types of the source, so what is subtracted from
`uio_resid` may leave a very large number.
-/

namespace Os161.Kern.Copying

open Os161.Lib

structure Space where
  kernel : BitVec 32 → UInt8
  user : ByteMap
  /-- `curthread->t_vmspace`. -/
  tVmspace : Option Nat
  touched : List (BitVec 32)
  stored : List (BitVec 32)

inductive Panic where
  /-- `assert(uio->uio_space == ...)`. -/
  | uioSpace
  /-- "uiomove: size reached 0" -/
  | size
  deriving DecidableEq

abbrev CProg : Type → Type := Prog Space Empty Unit Empty Panic

abbrev CopyM : Type → Type := ExceptT Errno CProg

/-! ## Memory -/

/-- An access to a user address is under way. -/
def touch (va : BitVec 32) : CProg Unit :=
  Prog.modify fun s => { s with touched := va :: s.touched }

def userLoad (va : BitVec 32) : CopyM UInt8 := do
  call (touch va)
  let s ← call Prog.mem
  match s.user va.toNat with
  | some b => pure b
  | none => throw .EFAULT

def userStore (va : BitVec 32) (b : UInt8) : CopyM Unit := do
  call (touch va)
  let s ← call Prog.mem
  if (s.user va.toNat).isSome then
    call (Prog.put { s with user := Function.update s.user va.toNat (some b) })
  else throw .EFAULT

def kernelLoad (a : BitVec 32) : CopyM UInt8 := do
  let s ← call Prog.mem
  pure (s.kernel a)

def kernelStore (a : BitVec 32) (b : UInt8) : CopyM Unit :=
  call (Prog.modify fun s =>
    { s with kernel := Function.update s.kernel a b, stored := a :: s.stored })

/-! ## Blocks -/

/-- `dest[i] = src[i]`, with the accesses for the two ends. -/
def assign (load : BitVec 32 → CopyM UInt8) (store : BitVec 32 → UInt8 → CopyM Unit)
    (dest src i : BitVec 32) : CopyM Unit := do
  let b ← load (src + i)
  store (dest + i) b

/-- `memcpy`, from index `i` on. -/
def memcpy (load : BitVec 32 → CopyM UInt8) (store : BitVec 32 → UInt8 → CopyM Unit)
    (dest src : BitVec 32) : Nat → BitVec 32 → CopyM Unit
  | 0, _ => pure ()
  | n + 1, i => do
      assign load store dest src i
      memcpy load store dest src n (i + 1)

/-- `copyin`. -/
def copyin (usersrc dest len : BitVec 32) : CopyM Unit :=
  match copycheck usersrc len with
  | .error e => throw e
  | .ok stoplen =>
    if stoplen ≠ len then throw .EFAULT
    else memcpy userLoad kernelStore dest usersrc len.toNat 0

/-- `copyout`. -/
def copyout (src userdest len : BitVec 32) : CopyM Unit :=
  match copycheck userdest len with
  | .error e => throw e
  | .ok stoplen =>
    if stoplen ≠ len then throw .EFAULT
    else memcpy kernelLoad userStore userdest src len.toNat 0

/-! ## Strings -/

/-- The loop of `copystr`, from index `i` on, with at most `n` rounds. The byte that
has been copied is read once more to see if it is the last. -/
def copystr.loop (load : BitVec 32 → CopyM UInt8) (store : BitVec 32 → UInt8 → CopyM Unit)
    (dest src : BitVec 32) (short : Errno) : Nat → BitVec 32 → CopyM (BitVec 32)
  | 0, _ => throw short
  | n + 1, i => do
      assign load store dest src i
      let b ← load (src + i)
      if b = 0 then pure (i + 1)
      else copystr.loop load store dest src short n (i + 1)

/-- `copystr`; what is returned is `*gotlen`. -/
def copystr (load : BitVec 32 → CopyM UInt8) (store : BitVec 32 → UInt8 → CopyM Unit)
    (dest src maxlen stoplen : BitVec 32) : CopyM (BitVec 32) :=
  copystr.loop load store dest src (if stoplen < maxlen then .EFAULT else .ENAMETOOLONG)
    (min maxlen.toNat stoplen.toNat) 0

/-- `copyinstr`. -/
def copyinstr (usersrc dest len : BitVec 32) : CopyM (BitVec 32) :=
  match copycheck usersrc len with
  | .error e => throw e
  | .ok stoplen => copystr userLoad kernelStore dest usersrc len stoplen

/-- `copyoutstr`. -/
def copyoutstr (src userdest len : BitVec 32) : CopyM (BitVec 32) :=
  match copycheck userdest len with
  | .error e => throw e
  | .ok stoplen => copystr kernelLoad userStore userdest src len stoplen

/-! ## Transfers -/

inductive UioSeg where
  | UIO_USERSPACE
  | UIO_SYSSPACE
  | UIO_USERISPACE
  deriving DecidableEq

/-- `struct uio`. The base is `iov_kbase` or `iov_ubase`. -/
structure Uio where
  iovBase : BitVec 32
  iovLen : BitVec 32
  uioOffset : BitVec 32
  uioResid : BitVec 32
  uioSegflg : UioSeg
  uioRw : UioRw
  uioSpace : Option Nat

/-- `n` bytes of the kernel's memory. -/
def bytes (kernel : BitVec 32 → UInt8) (a : BitVec 32) (n : Nat) : List UInt8 :=
  (List.range n).map fun i => kernel (a + BitVec.ofNat 32 i)

/-- The kernel's memory with `l` from `a` on. -/
def put (kernel : BitVec 32 → UInt8) (a : BitVec 32) (l : List UInt8) (x : BitVec 32) : UInt8 :=
  l.getD (x - a).toNat (kernel x)

/-- `memmove`. -/
def memmove (dest src : BitVec 32) (n : Nat) : CProg Unit :=
  Prog.modify fun s => { s with kernel := put s.kernel dest (bytes s.kernel src n) }

/-- The transfer of `size` bytes. -/
def uiomove.piece (uio : Uio) (ptr size : BitVec 32) : CopyM Unit :=
  match uio.uioSegflg, uio.uioRw with
  | .UIO_SYSSPACE, .UIO_READ => call (memmove uio.iovBase ptr size.toNat)
  | .UIO_SYSSPACE, .UIO_WRITE => call (memmove ptr uio.iovBase size.toNat)
  | _, .UIO_READ => copyout ptr uio.iovBase size
  | _, .UIO_WRITE => copyin uio.iovBase ptr size

/-- The uio after a piece. -/
def Uio.advance (uio : Uio) (size : BitVec 32) : Uio :=
  { uio with
    iovBase := uio.iovBase + size
    iovLen := uio.iovLen - size
    uioOffset := uio.uioOffset + size
    uioResid := uio.uioResid - size }

/-- The loop of `uiomove`: the result code, and the uio. Every round moves at least one
byte, so there are no more than `n` of them. -/
def uiomove.loop : Nat → BitVec 32 → BitVec 32 → Uio → CProg (Except Errno Unit × Uio)
  | 0, _, _, uio => pure (.ok (), uio)
  | fuel + 1, ptr, n, uio =>
    if 0 < n ∧ 0 < uio.uioResid then do
      let size := if n < uio.iovLen then n else uio.iovLen
      Prog.assert (size ≠ 0) .size
      let result ← (uiomove.piece uio ptr size).run
      match result with
      | .error e => pure (.error e, uio)
      | .ok () => uiomove.loop fuel (ptr + size) (n - size) (uio.advance size)
    else pure (.ok (), uio)

/-- `uiomove`. -/
def uiomove (ptr n : BitVec 32) (uio : Uio) : CProg (Except Errno Unit × Uio) := do
  let s ← Prog.mem
  Prog.assert (uio.uioSpace = if uio.uioSegflg = .UIO_SYSSPACE then none else s.tVmspace)
    .uioSpace
  uiomove.loop n.toNat ptr n uio

end Os161.Kern.Copying
