import Os161.Thread.Pid

/-!
# The lock of the table of processes

The routines of `thread/pid.c` as one thread executes them. Every `lock_acquire`
in the file is commented out; a `lock_release`, a `cv_wait` and a `cv_broadcast` are
not. What the thread sees of `pidlock` is whether it holds the lock. `cv_wait` gives
the lock away, and when it has the lock back the table is as the other threads have
left it: that table is an argument (`later`).

`calls` is not in the source: the calls on `pidlock` that have been made, each with
whether the lock was held then.
-/

namespace Os161.Thread

open Os161.Kern Os161.Lib

/-- The calls that are made with `pidlock`. -/
inductive LockCall where
  | lockRelease
  | cvWait
  | cvBroadcast
  deriving DecidableEq

/-- What the routines see of the kernel. -/
structure PidView where
  pids : PidTable
  held : Bool
  /-- `curthread->t_pid`. -/
  tPid : Word
  calls : List (LockCall × Bool)

inductive LockPanic where
  | parent
  | cvDestroyNull
  | cvWaitNull
  | cvBroadcastNull
  /-- "lock %s at %p: Deadlock", in `lock_release`. -/
  | deadlock
  deriving DecidableEq

abbrev LProg : Type → Type := Prog PidView Empty Unit Empty LockPanic

namespace Pidlock

def note (c : LockCall) : LProg Unit :=
  Prog.modify fun v => { v with calls := v.calls ++ [(c, v.held)] }

/-- `lock_release(pidlock)`. -/
def lockRelease : LProg Unit := do
  note .lockRelease
  let v ← Prog.mem
  Prog.assert (v.held = true) .deadlock
  Prog.put { v with held := false }

/-- `cv_wait(cv, pidlock)`. -/
def cvWait (later : PidTable) (cv : Word) : LProg Unit := do
  note .cvWait
  Prog.assert (cv ≠ 0) .cvWaitNull
  lockRelease
  -- thread_sleep, lock_acquire
  Prog.modify fun v => { v with pids := later, held := true }

/-- `cv_broadcast(cv, pidlock)`. -/
def cvBroadcast (cv : Word) : LProg Unit := do
  note .cvBroadcast
  Prog.assert (cv ≠ 0) .cvBroadcastNull

def setPids (pids : PidTable) : LProg Unit := Prog.modify fun v => { v with pids := pids }

/-- `pid_create`. -/
def pidCreate (info cv : Addr) (ppid status : Word) : LProg (Except PidErr Word) := do
  let v ← Prog.mem
  let r ← Thread.pidCreate .parent v.pids info cv ppid status
  setPids r.2
  pure r.1

/-- `pid_destroy`. -/
def pidDestroy (dpid : Word) : ExceptT PidErr LProg Unit := do
  let v ← call Prog.mem
  let pids ← Thread.pidDestroy .cvDestroyNull v.pids dpid
  call (setPids pids)

/-- `pid_get`. -/
def pidGet (gpid : Word) : ExceptT PidErr LProg (Word × Word × Word) := do
  let v ← call Prog.mem
  Thread.pidGet v.pids gpid

/-- The end of `pid_wait`: `*status` and `*ret`. -/
def pidWait.deliver (info : Addr) (wpid : Word) : ExceptT PidErr LProg (Word × Word) := do
  let v ← call Prog.mem
  pure (v.pids.load info .exitstatus, wpid)

/-- `pid_wait`, from the test for the parent on. -/
def pidWait.found (later : PidTable) (info : Addr) (wpid : Word) :
    ExceptT PidErr LProg (Word × Word) := do
  let v ← call Prog.mem
  if v.pids.load info .parentPid = v.tPid then do
    call lockRelease
    throw (.errno .EINVAL)
  else if v.pids.load info .hasexited = 0 then do
    call (cvWait later (v.pids.load info .exitcv))
    pidWait.deliver info wpid
  else pidWait.deliver info wpid

/-- `pid_wait`. `null` says that `status` is NULL. -/
def pidWait (later : PidTable) (wpid : Word) (null : Bool) (flags : Word) :
    ExceptT PidErr LProg (Word × Word) := do
  let v ← call Prog.mem
  if wpid = v.tPid then throw (.errno .EINVAL)
  else if flags ≠ 0 then throw (.errno .EINVAL)
  else if null then throw (.errno .EFAULT)
  else do
    let i ← findpid v.pids wpid
    pidWait.found later (v.pids.guy i) wpid

/-- `pid_setexitstatus`. -/
def pidSetexitstatus (spid status : Word) : ExceptT PidErr LProg Unit := do
  let v ← call Prog.mem
  let pids ← Thread.pidSetexitstatus v.pids spid status
  call (setPids pids)

/-- `pid_sethasexited`, once the entry is found. -/
def pidSethasexited.found (info : Addr) (hasexited : Word) : LProg Unit := do
  Prog.modify fun v => { v with pids := v.pids.store info .hasexited hasexited }
  if hasexited ≠ 0 then do
    let v ← Prog.mem
    cvBroadcast (v.pids.load info .exitcv)

/-- `pid_sethasexited`. -/
def pidSethasexited (spid hasexited : Word) : ExceptT PidErr LProg Unit := do
  let v ← call Prog.mem
  let i ← findpid v.pids spid
  call (pidSethasexited.found (v.pids.guy i) hasexited)

end Pidlock

/-- A call of a routine, with what its caller passes. -/
inductive PidRoutine where
  | create (info cv : Addr) (ppid status : Word)
  | destroy (dpid : Word)
  | get (gpid : Word)
  | wait (wpid : Word) (null : Bool) (flags : Word)
  | setexitstatus (spid status : Word)
  | sethasexited (spid hasexited : Word)

/-- The routine returns zero or an error; what it stores for its caller is left
out. -/
def PidRoutine.prog (later : PidTable) : PidRoutine → LProg (Except PidErr Unit)
  | create info cv ppid status => do
      let r ← Pidlock.pidCreate info cv ppid status
      pure (r.map fun _ => ())
  | destroy dpid => (Pidlock.pidDestroy dpid).run
  | get gpid => do
      let r ← (Pidlock.pidGet gpid).run
      pure (r.map fun _ => ())
  | wait wpid null flags => do
      let r ← (Pidlock.pidWait later wpid null flags).run
      pure (r.map fun _ => ())
  | setexitstatus spid status => (Pidlock.pidSetexitstatus spid status).run
  | sethasexited spid hasexited => (Pidlock.pidSethasexited spid hasexited).run

end Os161.Thread
