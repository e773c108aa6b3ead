import Os161.Thread.Sched

/-!
# Semaphores, locks, condition variables

`thread/synch.c`, the two system calls of `userprog/proc_syscalls.c` that rest
on it, and the system they make up.

A routine runs with interrupts off from its `splhigh` to its `splx`, or to the
point where `thread_sleep` gives the processor away. What comes after the sleep
is a section of its own (`resume`), executed when the thread has been switched
in again; a loop around `thread_sleep` is entered once per section. Nested
routines keep interrupts off because they restore the level they found.

`Done` is what a section reports: how it ended, and which operations on
semaphores and locks were completed in it and by whom.
-/

namespace Os161.Thread

open Os161.Kern Os161.Lib Function

/-- Completed operations. The thread is the one that ran. -/
inductive Event where
  | took (sem : Addr)
  | gave (sem : Addr)
  | acquired (t : Option Addr) (lock : Addr)
  | released (t : Option Addr) (lock : Addr)
  | waited (t : Option Addr) (cv lock : Addr)
  deriving DecidableEq

inductive Ret where
  /-- The processor has been given away inside the routine. -/
  | blocked
  | returned
  | forked (r : Except PidErr Unit)
  /-- `sys_waitpid` has returned zero, and this is what it delivered. -/
  | waitpid (pid returncode : Word)

structure Done where
  events : List Event
  ret : Ret

/-! ## Semaphores -/

/-- The loop of `P`, and what follows it. -/
def semP.loop (sem : Addr) (spl : Nat) : KProg Done := do
  let k ← Prog.mem
  if k.sems sem = 0 then do
    threadSleep (some (.sem sem)) (.semP sem spl)
    pure ⟨[], .blocked⟩
  else do
    Prog.assert (0 < k.sems sem) (.semPCount sem)
    Prog.put { k with sems := update k.sems sem (k.sems sem - 1) }
    splx spl
    pure ⟨[.took sem], .returned⟩

/-- `P`. -/
def semP (sem : Addr) : KProg Done := do
  let spl ← splhigh
  semP.loop sem spl

/-- `V`. The count is an `int`, and goes around at its maximum. -/
def semV (sem : Addr) : KProg Done := do
  let spl ← splhigh
  let k ← Prog.mem
  let count := Int.bmod (k.sems sem + 1) 4294967296
  Prog.put { k with sems := update k.sems sem count }
  Prog.assert (0 < count) (.semVCount sem)
  threadWakeup (some (.sem sem))
  splx spl
  pure ⟨[.gave sem], .returned⟩

/-! ## Locks -/

/-- `lock_do_i_hold`. -/
def lockDoIHold (lock : Addr) : KProg Bool := do
  let k ← Prog.mem
  pure (k.locks lock = k.curthread)

/-- The return from `cv_wait`, to `pid_wait` or to somebody else. In
`pid_wait` the status is copied into the caller's cell then, and `sys_waitpid`
puts the return value over it. -/
def WaitRet.ret : WaitRet → Ret
  | user => .returned
  | pidWait _ wpid => .waitpid wpid 0

/-- The loop of `lock_acquire`, and what follows it. -/
def lockAcquire.loop (lock : Addr) (spl : Nat) (ret : AcquireRet) : KProg Done := do
  let k ← Prog.mem
  match k.locks lock with
  | some _ => do
      threadSleep (some (.lock lock)) (.lockAcquire lock spl ret)
      pure ⟨[], .blocked⟩
  | none => do
      Prog.put { k with locks := update k.locks lock k.curthread }
      splx spl
      match ret with
      | .user => pure ⟨[.acquired k.curthread lock], .returned⟩
      | .cvWait cv spl ret => do
          splx spl
          pure ⟨[.acquired k.curthread lock, .waited k.curthread cv lock], ret.ret⟩

/-- `lock_acquire`. -/
def lockAcquire (lock : Addr) (ret : AcquireRet) : KProg Done := do
  let spl ← splhigh
  if ← lockDoIHold lock then Prog.panic (.acquireDeadlock lock)
  else lockAcquire.loop lock spl ret

/-- `lock_release`. -/
def lockRelease (lock : Addr) : KProg Unit := do
  let spl ← splhigh
  if ← lockDoIHold lock then do
    Prog.modify fun k => { k with locks := update k.locks lock none }
    threadWakeup (some (.lock lock))
    splx spl
  else Prog.panic (.releaseDeadlock lock)

/-! ## Condition variables -/

/-- `cv_wait`, up to the switch. -/
def cvWait (cv lock : Addr) (ret : WaitRet) : KProg Done := do
  let spl ← splhigh
  let k ← Prog.mem
  lockRelease lock
  threadSleep (some (.cv cv)) (.cvWait cv lock spl ret)
  pure ⟨[.released k.curthread lock], .blocked⟩

/-- `cv_signal`. -/
def cvSignal (cv : Addr) : KProg Unit := do
  let spl ← splhigh
  threadWakeone (some (.cv cv))
  splx spl

/-- A thread that is back from `thread_sleep` returns to its caller. -/
def resume : KProg Done := do
  let cur ← self
  let k ← Prog.mem
  match (k.threads cur).pc with
  | .awake caller => do
      Prog.put (k.onThread cur fun t => { t with pc := .run })
      match caller with
      | .plain spl => do
          splx spl
          pure ⟨[], .returned⟩
      | .semP sem spl => semP.loop sem spl
      | .lockAcquire lock spl ret => lockAcquire.loop lock spl ret
      | .cvWait cv lock spl ret => lockAcquire lock (.cvWait cv spl ret)
  | _ => Prog.panic .notSwitchedOut

/-! ## Processes -/

/-- `pid_setexitstatus`, on the kernel's table. -/
def setExitstatus (spid status : Word) : ExceptT PidErr KProg Unit := do
  let k ← call Prog.mem
  let pids ← pidSetexitstatus k.pids spid status
  call (Prog.modify fun k => { k with pids := pids })

/-- `sys__exit`. -/
def sysExit (code : Word) : KProg Unit := do
  let cur ← self
  let k ← Prog.mem
  let _ ← (setExitstatus (k.threads cur).tPid code).run
  threadExit

/-- `pid_wait` from the test for the parent on. -/
def pidWait.found (cur info : Addr) (wpid : Word) : KProg Done := do
  let k ← Prog.mem
  if k.pids.load info .parentPid = (k.threads cur).tPid then do
    lockRelease k.pidlock
    pure ⟨[.released k.curthread k.pidlock], .waitpid wpid (PidErr.errno .EINVAL).code⟩
  else if k.pids.load info .hasexited = 0 then
    cvWait (k.pids.load info .exitcv).toNat k.pidlock (.pidWait info wpid)
  else pure ⟨[], .waitpid wpid 0⟩

/-- `sys_waitpid`. Whatever `pid_wait` returns goes into `*returncode`, over
the status that it may have put there, and the call returns zero. -/
def sysWaitpid (pid flags : Word) : KProg Done := do
  let cur ← self
  let k ← Prog.mem
  if pid = (k.threads cur).tPid then pure ⟨[], .waitpid pid (PidErr.errno .EINVAL).code⟩
  else if flags ≠ 0 then pure ⟨[], .waitpid pid (PidErr.errno .EINVAL).code⟩
  else
    match k.pids.findpidindex pid with
    | none => pure ⟨[], .waitpid pid PidErr.minusOne.code⟩
    | some i => pidWait.found cur (k.pids.guy i) pid

/-! ## The system -/

/-- What the running thread may do, and an interrupt handler. -/
inductive Op where
  | fork (newguy info cv : Addr) (g : Garbage)
  | yield
  | sleep (addr : Option Chan)
  | wakeup (addr : Option Chan)
  | wakeone (addr : Option Chan)
  | exit
  | semP (sem : Addr)
  | semV (sem : Addr)
  | lockAcquire (lock : Addr)
  | lockRelease (lock : Addr)
  | cvWait (cv lock : Addr)
  | cvSignal (cv lock : Addr)
  | cvBroadcast (cv lock : Addr)
  | sysExit (code : Word)
  | sysWaitpid (pid flags : Word)
  | resume

/-- The section that `op` begins. -/
def Op.prog : Op → KProg Done
  | fork newguy info cv g => do
      let r ← threadFork newguy info cv g
      pure ⟨[], .forked r⟩
  | yield => do
      threadYield
      pure ⟨[], .blocked⟩
  | sleep addr => do
      let spl ← splhigh
      threadSleep addr (.plain spl)
      pure ⟨[], .blocked⟩
  | wakeup addr => do
      let spl ← splhigh
      threadWakeup addr
      splx spl
      pure ⟨[], .returned⟩
  | wakeone addr => do
      let spl ← splhigh
      threadWakeone addr
      splx spl
      pure ⟨[], .returned⟩
  | exit => do
      threadExit
      pure ⟨[], .blocked⟩
  | semP sem => Thread.semP sem
  | semV sem => Thread.semV sem
  | lockAcquire lock => Thread.lockAcquire lock .user
  | lockRelease lock => do
      let k ← Prog.mem
      Thread.lockRelease lock
      pure ⟨[.released k.curthread lock], .returned⟩
  | cvWait cv lock => Thread.cvWait cv lock .user
  | cvSignal cv _ => do
      Thread.cvSignal cv
      pure ⟨[], .returned⟩
  | cvBroadcast cv _ => do
      Thread.cvBroadcast cv
      pure ⟨[], .returned⟩
  | sysExit code => do
      Thread.sysExit code
      pure ⟨[], .blocked⟩
  | sysWaitpid pid flags => Thread.sysWaitpid pid flags
  | resume => Thread.resume

/-- What a handler may call: it cannot sleep. -/
def Op.FromInterrupt : Op → Prop
  | yield | wakeup _ | wakeone _ | semV _ => True
  | _ => False

/-- What the allocator owes `thread_fork`: no thread lives at the address of
the new one, and the new entry of the pid table lies apart from the others. -/
def Op.Fresh (k : Kernel) : Op → Prop
  | fork newguy info _ _ => k.allocated newguy = false ∧
      ∀ b ∈ k.pids.infos.v, info + sizeofPidinfo ≤ b ∨ b + sizeofPidinfo ≤ info
  | _ => True

/-- Who may do what when. In the idle loop only handlers run; a thread that is
back from `thread_sleep` has interrupts off until it has returned to its caller
and the caller has gone on. -/
def Op.Enabled (k : Kernel) (op : Op) : Prop :=
  match k.curthread with
  | none => op.FromInterrupt
  | some t =>
    match (k.threads t).pc with
    | .run => op ≠ .resume ∧ op.Fresh k
    | .awake _ => op = .resume
    | _ => False

/-- The section, with what the idle loop does after a handler. -/
def Op.code (k : Kernel) (op : Op) : KProg Done :=
  match k.curthread with
  | none => do
      let d ← op.prog
      dispatch
      pure d
  | some _ => op.prog

/-- The kernel in front of an allocator with a script. -/
def Kernel.machine (k : Kernel) (script : Script Empty) : Machine Kernel Empty Unit Empty :=
  ⟨k, fun _ => (), script⟩

/-- The rest of the kernel at work: the running thread changes its public
members, files are opened and closed, words of memory are written outside the
pid table. -/
inductive Elsewhere (k : Kernel) : Kernel → Prop
  | intro (cur : Addr) (hcur : k.curthread = some cur) (vmspace cwd : Option Addr)
      (ft : Addr) (mem : Addr → Word)
      (hmem : ∀ b ∈ k.pids.infos.v, ∀ f : Field, mem (b + f.offset) = k.pids.load b f)
      (filetables : Addr → List (Option Addr)) (openfiles : Addr → Bool) :
      Elsewhere k { k.onThread cur (fun t => { t with
        tVmspace := vmspace, tCwd := cwd, tFiletable := ft }) with
        pids := { k.pids with mem := mem }
        filetables := filetables
        openfiles := openfiles }

/-- One section of `op`, with the allocator answering from `script`. -/
def Leads (k : Kernel) (op : Op) (script : Script Empty) (d : Done) (k' : Kernel) : Prop :=
  ∃ s, (op.code k).run (k.machine script) = (.done d, s) ∧ s.mem = k'

end Os161.Thread
