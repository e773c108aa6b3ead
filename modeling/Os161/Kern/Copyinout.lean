import Os161.Kern.Errno

/-!
# Copying between kernel and user memory

`lib/copyinout.c`. The kernel touches user memory as the program would, one
address after the other, and an access that cannot be made ends the copy with
`EFAULT`. What user memory is, and what it takes to touch it, is a parameter
(`UserSpace`); an access that fails has to fail with that error, because
`copyfail` knows no other.

`copycheck` keeps kernel addresses out. It works on the last byte of the block,
so a block of no bytes at all is refused: its last byte comes before its first.
-/

namespace Os161.Kern

def USERTOP : BitVec 32 := 0x80000000

/-- Access to user memory. -/
structure UserSpace (m : Type → Type) where
  load : BitVec 32 → ExceptT Errno m UInt8
  store : BitVec 32 → UInt8 → ExceptT Errno m Unit

/-- `copycheck`: the number of bytes of the block that are below the kernel. -/
def copycheck (userptr len : BitVec 32) : Except Errno (BitVec 32) :=
  let bot := userptr
  let top := bot + len - 1
  if top < bot then
    .error .EFAULT
  else if USERTOP ≤ bot then
    .error .EFAULT
  else if USERTOP ≤ top then
    .ok (USERTOP - bot)
  else
    .ok len

section
variable {m : Type → Type} [Monad m] (us : UserSpace m)

def memcpyIn : Nat → BitVec 32 → ExceptT Errno m (List UInt8)
  | 0, _ => pure []
  | n + 1, src => do
      let b ← us.load src
      let rest ← memcpyIn n (src + 1)
      pure (b :: rest)

def memcpyOut : List UInt8 → BitVec 32 → ExceptT Errno m Unit
  | [], _ => pure ()
  | b :: rest, dest => do
      us.store dest b
      memcpyOut rest (dest + 1)

/-- `copyin`. -/
def copyin (usersrc len : BitVec 32) : ExceptT Errno m (List UInt8) :=
  match copycheck usersrc len with
  | .error e => throw e
  | .ok stoplen =>
    if stoplen ≠ len then throw .EFAULT
    else memcpyIn us len.toNat usersrc

/-- `copyout` of all of `src`. -/
def copyout (src : List UInt8) (userdest : BitVec 32) : ExceptT Errno m Unit :=
  match copycheck userdest (BitVec.ofNat 32 src.length) with
  | .error e => throw e
  | .ok stoplen =>
    if stoplen ≠ BitVec.ofNat 32 src.length then throw .EFAULT
    else memcpyOut us src userdest

/-- The loop of `copystr`: at most `n` bytes, up to and with the terminator.
`short` is the error when there is none among them. -/
def copystr.loop (short : Errno) : Nat → BitVec 32 → ExceptT Errno m (List UInt8)
  | 0, _ => throw short
  | n + 1, src => do
      let b ← us.load src
      if b = 0 then
        pure [b]
      else do
        let rest ← copystr.loop short n (src + 1)
        pure (b :: rest)

/-- `copystr`, from user memory. -/
def copystr (src maxlen stoplen : BitVec 32) : ExceptT Errno m (List UInt8) :=
  copystr.loop us (if stoplen < maxlen then .EFAULT else .ENAMETOOLONG)
    (min maxlen.toNat stoplen.toNat) src

/-- `copyinstr`. What is stored is the string with its terminator, and `actual`
is its length. -/
def copyinstr (usersrc len : BitVec 32) : ExceptT Errno m (List UInt8) :=
  match copycheck usersrc len with
  | .error e => throw e
  | .ok stoplen => copystr us usersrc len stoplen

end

end Os161.Kern
