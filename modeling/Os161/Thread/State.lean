import Os161.Kern.Queue
import Os161.Thread.Pid

/-!
# The state of the thread system

The globals of `thread/thread.c`, `thread/scheduler.c` and `thread/pid.c`, the
thread structures, and the counts and holders of the synchronisation objects of
`thread/synch.c`.

What a thread does next when it gets the processor back is on its stack, and
`md_switch` finds it through the pcb. Here it is the member `pc`: a new thread
goes to `mi_threadstart`, a thread that yielded is about to restore its
interrupt level, one that slept returns to whoever called `thread_sleep`. The
callers are a semaphore's `P`, `lock_acquire`, `cv_wait`, and any other code
that goes to sleep with interrupts off and restores them afterwards; what they
keep in their locals is kept with them.

Structures are allocated and freed; `allocated` says at which addresses there
is a `struct thread` at present, and `openfiles` where there is a
`struct openfile`. Objects of different kinds never share an address, so a
sleep address is an address together with the kind of the object (`Chan`).
-/

namespace Os161.Thread

open Os161.Kern Os161.Lib

/-! ## Threads -/

/-- Something to sleep on. -/
inductive Chan where
  | sem (a : Addr)
  | lock (a : Addr)
  | cv (a : Addr)
  | other (a : Addr)
  deriving DecidableEq

/-- Who called `cv_wait`. -/
inductive WaitRet where
  | user
  | pidWait (info : Addr) (wpid : Word)
  deriving DecidableEq

/-- Who called `lock_acquire`. -/
inductive AcquireRet where
  | user
  | cvWait (cv : Addr) (spl : Nat) (ret : WaitRet)
  deriving DecidableEq

/-- Who called `thread_sleep`, with its locals. -/
inductive Caller where
  | plain (spl : Nat)
  | semP (sem : Addr) (spl : Nat)
  | lockAcquire (lock : Addr) (spl : Nat) (ret : AcquireRet)
  | cvWait (cv lock : Addr) (spl : Nat) (ret : WaitRet)
  deriving DecidableEq

/-- Where a thread goes on. -/
inductive Pc where
  /-- It has never run. -/
  | start
  /-- It runs code outside the thread system. -/
  | run
  /-- Switched out in `thread_yield`. -/
  | yield (spl : Nat)
  /-- Switched out in `thread_sleep`. -/
  | sleep (caller : Caller)
  /-- `thread_sleep` has returned, interrupts are still off. -/
  | awake (caller : Caller)
  /-- Switched out in `thread_exit`. -/
  | dead
  deriving DecidableEq

set_option linter.dupNamespace false in
/-- `struct thread`, with the bytes at the bottom of its stack. -/
structure Thread where
  tSleepaddr : Option Chan
  tStack : Option (List UInt8)
  tVmspace : Option Addr
  tCwd : Option Addr
  tPid : Word
  tFiletable : Addr
  pc : Pc

/-- The magic number that `thread_fork` puts there. -/
def stackMagic : List UInt8 := [0xae, 0x11, 0xda, 0x33]

/-! ## The kernel -/

inductive Panic where
  -- thread.c
  | nullCurthread
  | switchSpl
  | switchStack
  | switchResult
  | notSwitchedOut
  | exorciseSpl
  | exorciseSelf
  | exorciseResult
  | destroySelf
  | destroyVmspace
  | destroyCwd
  | pidNotFound
  | exitNumthreads
  | backFromDead
  | wakeupSpl
  | wakeupResult
  -- scheduler.c
  | schedulerSpl
  -- pid.c
  | pidCreateParent
  -- synch.c
  | cvDestroyNull
  | cvBroadcastNull
  | semPCount (sem : Addr)
  | semVCount (sem : Addr)
  | acquireDeadlock (lock : Addr)
  | releaseDeadlock (lock : Addr)
  deriving DecidableEq

structure Kernel where
  curspl : Nat
  curthread : Option Addr
  sleepers : KArray Addr
  zombies : KArray Addr
  numthreads : Nat
  runqueue : Queue Addr
  threads : Addr → Thread
  allocated : Addr → Bool
  pids : PidTable
  pidlock : Addr
  sems : Addr → Int
  locks : Addr → Option Addr
  filetables : Addr → List (Option Addr)
  openfiles : Addr → Bool

abbrev KProg : Type → Type := Prog Kernel Empty Unit Empty Panic

abbrev KM : Type → Type := ExceptT Errno KProg

namespace Kernel

/-- `t->...`: change a thread structure. -/
def onThread (k : Kernel) (t : Addr) (f : Thread → Thread) : Kernel :=
  { k with threads := Function.update k.threads t (f (k.threads t)) }

/-- A `struct thread` that exists and has not been through `thread_exit`. -/
def Live (k : Kernel) (t : Addr) : Prop :=
  k.allocated t = true ∧ (k.threads t).pc ≠ .dead

/-- A thread that has exited and has not been disposed of. -/
def Exited (k : Kernel) (t : Addr) : Prop :=
  k.allocated t = true ∧ (k.threads t).pc = .dead

/-- A thread that is asleep on `c`. -/
def Asleep (k : Kernel) (t : Addr) (c : Chan) : Prop :=
  t ∈ k.sleepers.v ∧ (k.threads t).tSleepaddr = some c

end Kernel

/-! ## Interrupt level -/

/-- `splhigh`. -/
def splhigh : KProg Nat := do
  let k ← Prog.mem
  Prog.put { k with curspl := 15 }
  pure k.curspl

/-- `splx`. -/
def splx (s : Nat) : KProg Unit := Prog.modify fun k => { k with curspl := s }

/-- Follow `curthread`. -/
def self : KProg Addr := do
  let k ← Prog.mem
  match k.curthread with
  | some t => pure t
  | none => Prog.panic .nullCurthread

end Os161.Thread
