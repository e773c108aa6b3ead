import Os161.Kern.Usermem
import Os161.Lib.Atomic

/-!
# The arguments of a program

`copyin_args` and `copyout_args` of `userprog/proc_syscalls.c`. The strings go
from the old program into a buffer of the kernel, and from there to the top of
the new program's stack, with the vector of pointers below them.

The two limits are parameters. The buffer is memory that `kmalloc` found, so it
lies above the addresses of user programs with all its `ARG_MAX` bytes; that is
part of the structure. What is in the buffer behind `bufend`, and in `offsets`
behind the last argument, is never looked at.
-/

namespace Os161.Userprog

open Os161.Kern Os161.Lib

/-- `struct argvdata`. `bytes` is what stands between `buffer` and `bufend`, and
`held` whether the current thread holds the lock. -/
structure Argvdata (ARG_MAX : Nat) where
  buffer : BitVec 32
  kernel : USERTOP ≤ buffer
  room : buffer.toNat + ARG_MAX ≤ 4294967296
  bytes : List UInt8
  offsets : Nat → BitVec 32
  nargs : Nat
  held : Bool

def Argvdata.bufend {ARG_MAX : Nat} (ad : Argvdata ARG_MAX) : BitVec 32 :=
  ad.buffer + BitVec.ofNat 32 ad.bytes.length

structure ArgState (ARG_MAX : Nat) where
  user : ByteMap
  ad : Argvdata ARG_MAX

def ArgState.lens {ARG_MAX : Nat} : UserLens (ArgState ARG_MAX) where
  get s := s.user
  set u s := { s with user := u }
  get_set _ _ := rfl
  set_get _ := rfl
  set_set _ _ _ := rfl

inductive ArgPanic where
  /-- `assert(lock_do_i_hold(ad->lock))`. -/
  | lockNotHeld
  deriving DecidableEq

section
variable (ARG_MAX NARG_MAX : Nat)

abbrev ArgM : Type → Type :=
  ExceptT Errno (Prog (ArgState ARG_MAX) Empty Unit Empty ArgPanic)

variable {ARG_MAX}

/-- The user memory of the state. -/
def us : UserSpace (Prog (ArgState ARG_MAX) Empty Unit Empty ArgPanic) := ArgState.lens.space

/-- A change to the `argvdata`. -/
def modifyAd (f : Argvdata ARG_MAX → Argvdata ARG_MAX) : ArgM ARG_MAX Unit :=
  call (Prog.modify fun s => { s with ad := f s.ad })

/-- `offsets[nargs] = offset; bufend += arglen; nargs++`, with the string that
`copyinstr` has stored at `bufend`. -/
def Argvdata.push (ad : Argvdata ARG_MAX) (offset : BitVec 32) (arg : List UInt8) :
    Argvdata ARG_MAX :=
  { ad with
    offsets := Function.update ad.offsets ad.nargs offset
    bytes := ad.bytes ++ arg
    nargs := ad.nargs + 1 }

/-- The loop of `copyin_args`. The first argument is how often `nargs` can still
be incremented before the loop ends. -/
def copyinArgs.loop : Nat → BitVec 32 → BitVec 32 → ArgM ARG_MAX Unit
  | 0, _, _ => pure ()
  | k + 1, argv, bufresid => do
      let argptr ← wordOfBytes <$> copyin us argv 4
      if argptr = 0 then
        pure ()
      else do
        let s ← call Prog.mem
        if NARG_MAX ≤ s.ad.nargs then
          throw .E2BIG
        else do
          match ← result (copyinstr us argptr bufresid) with
          | .error e => if e = .ENAMETOOLONG then throw .E2BIG else throw e
          | .ok arg => do
              modifyAd fun ad => ad.push (BitVec.ofNat 32 ARG_MAX - bufresid) arg
              copyinArgs.loop k (argv + 4) (bufresid - BitVec.ofNat 32 arg.length)

/-- `copyin_args`. -/
def copyinArgs (argv : BitVec 32) : ArgM ARG_MAX Unit := do
  let s ← call Prog.mem
  call (Prog.assert (s.ad.held = true) .lockNotHeld)
  modifyAd fun ad => { ad with bytes := [], nargs := 0 }
  copyinArgs.loop NARG_MAX (NARG_MAX + 1) argv (BitVec.ofNat 32 ARG_MAX)

variable {NARG_MAX}

/-- The pointers, from argument `i` on and `k` of them. -/
def copyoutArgs.loop (ad : Argvdata ARG_MAX) (argbase : BitVec 32) :
    Nat → Nat → BitVec 32 → ArgM ARG_MAX (BitVec 32)
  | 0, _, userargv => pure userargv
  | k + 1, i, userargv => do
      copyout us (wordBytes (argbase + ad.offsets i)) userargv
      copyoutArgs.loop ad argbase k (i + 1) (userargv + 4)

/-- `copyout_args`: the new `argv` and the new stack pointer. -/
def copyoutArgs (stackptr : BitVec 32) : ArgM ARG_MAX (BitVec 32 × BitVec 32) := do
  let s ← call Prog.mem
  let ad := s.ad
  call (Prog.assert (ad.held = true) .lockNotHeld)
  let buflen := ad.bufend - ad.buffer
  let stack := stackptr - buflen
  let argbase := stack - (stack &&& 3)
  copyout us (ad.bytes.take buflen.toNat) argbase
  let userargv := argbase - (BitVec.ofNat 32 ad.nargs + 1) * 4
  let last ← copyoutArgs.loop ad argbase ad.nargs 0 userargv
  copyout us (wordBytes 0) last
  pure (userargv, userargv)

end

end Os161.Userprog
