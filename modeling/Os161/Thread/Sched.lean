import Os161.Thread.State

/-!
# Switching threads

`thread/thread.c` and `thread/scheduler.c`, and of `thread/file.c` what
`thread_destroy` calls.

`mi_switch` is cut in two. The first half puts the running thread where it
belongs and leaves nobody running. The second half (`dispatch`) takes the next
thread from the run queue; the code that follows `md_switch` in the source is
then executed by that thread. If the run queue is empty the scheduler sits in
its idle loop, with `curthread` null, until an interrupt has made somebody
runnable.
-/

namespace Os161.Thread

open Os161.Kern Os161.Lib Function

/-! ## The scheduler -/

/-- `make_runnable`. -/
def makeRunnable (t : Addr) : KM Unit := do
  let k ← call Prog.mem
  call (Prog.assert (0 < k.curspl) .schedulerSpl)
  let runqueue ← qAddtail k.runqueue t
  call (Prog.modify fun k => { k with runqueue := runqueue })

/-- `scheduler_preallocate`. -/
def schedulerPreallocate (nthreads : Nat) : KM Unit := do
  let k ← call Prog.mem
  call (Prog.assert (0 < k.curspl) .schedulerSpl)
  let runqueue ← qPreallocate k.runqueue nthreads
  call (Prog.modify fun k => { k with runqueue := runqueue })

/-! ## Disposing of dead threads -/

/-- `filetable_destroy`: the open files are freed, the table is not. -/
def filetableDestroy (ft : Addr) : KProg Unit :=
  Prog.modify fun k => { k with
    openfiles := fun a => k.openfiles a && !(some a ∈ k.filetables ft) }

/-- `pid_destroy`, on the kernel's table. -/
def destroyPid (dpid : Word) : ExceptT PidErr KProg Unit := do
  let k ← call Prog.mem
  let pids ← pidDestroy .cvDestroyNull k.pids dpid
  call (Prog.modify fun k => { k with pids := pids })

/-- `kfree(thread)`. -/
def freeThread (t : Addr) : KProg Unit :=
  Prog.modify fun k => { k with allocated := update k.allocated t false }

/-- `thread_destroy`. The pid and the file table are those of the thread that
runs. -/
def threadDestroy (thread : Addr) : KProg Unit := do
  let cur ← self
  let k ← Prog.mem
  Prog.assert (thread ≠ cur) .destroySelf
  Prog.assert ((k.threads thread).tVmspace = none) .destroyVmspace
  Prog.assert ((k.threads thread).tCwd = none) .destroyCwd
  match ← (destroyPid (k.threads cur).tPid).run with
  | .error _ => Prog.panic .pidNotFound
  | .ok () => do
      filetableDestroy (k.threads cur).tFiletable
      freeThread thread

/-- The loop of `exorcise`. -/
def exorcise.loop : List Addr → KProg Unit
  | [] => pure ()
  | z :: rest => do
      let k ← Prog.mem
      Prog.assert (k.curthread ≠ some z) .exorciseSelf
      threadDestroy z
      exorcise.loop rest

/-- `exorcise`. -/
def exorcise : KProg Unit := do
  let k ← Prog.mem
  Prog.assert (0 < k.curspl) .exorciseSpl
  exorcise.loop k.zombies.v
  match ← (arraySetsize k.zombies 0).run with
  | .error _ => Prog.panic .exorciseResult
  | .ok zombies => Prog.modify fun k => { k with zombies := zombies }

/-! ## The context switch -/

/-- What a thread does once `md_switch` has brought it back. -/
def switchIn (next : Addr) : KProg Unit := do
  let k ← Prog.mem
  match (k.threads next).pc with
  -- mi_threadstart: spl0()
  | .start => Prog.modify fun k =>
    { k.onThread next (fun t => { t with pc := .run }) with curspl := 0 }
  -- the end of thread_yield
  | .yield spl => do
      exorcise
      Prog.modify fun k => k.onThread next fun t => { t with pc := .run }
      splx spl
  -- the end of thread_sleep
  | .sleep caller => do
      exorcise
      Prog.modify fun k => k.onThread next fun t =>
        { t with tSleepaddr := none, pc := .awake caller }
  | .dead => do
      exorcise
      Prog.panic .backFromDead
  | .run => Prog.panic .notSwitchedOut
  | .awake _ => Prog.panic .notSwitchedOut

/-- `scheduler`, and the rest of `mi_switch`. -/
def dispatch : KProg Unit := do
  let k ← Prog.mem
  if k.runqueue.isEmpty then pure ()
  else do
    Prog.put { k with runqueue := k.runqueue.tail, curthread := some k.runqueue.head }
    switchIn k.runqueue.head

/-- `threadstate_t`, without the state of the thread that runs. -/
inductive NextState where
  | ready
  | sleep
  | zomb

/-- Stash the current thread on whatever list it is supposed to go on. -/
def stash : NextState → Addr → KM Unit
  | .ready, cur => makeRunnable cur
  | .sleep, cur => do
      let k ← call Prog.mem
      let sleepers ← arrayAdd k.sleepers cur
      call (Prog.modify fun k => { k with sleepers := sleepers })
  | .zomb, cur => do
      let k ← call Prog.mem
      let zombies ← arrayAdd k.zombies cur
      call (Prog.modify fun k => { k with zombies := zombies })

/-- `mi_switch`; `pc` is where the thread will go on. -/
def miSwitch (nextstate : NextState) (pc : Pc) : KProg Unit := do
  let k ← Prog.mem
  Prog.assert (0 < k.curspl) .switchSpl
  match k.curthread with
  | none => pure ()
  | some cur => do
      Prog.assert ((k.threads cur).tStack.all (· = stackMagic)) .switchStack
      Prog.put ({ k with curthread := none }.onThread cur fun t => { t with pc := pc })
      match ← (stash nextstate cur).run with
      | .error _ => Prog.panic .switchResult
      | .ok () => dispatch

/-- `thread_yield`. In the idle loop there is nobody to yield. -/
def threadYield : KProg Unit := do
  let spl ← splhigh
  let k ← Prog.mem
  match k.curthread with
  | none => do
      miSwitch .ready (.yield spl)
      splx spl
  | some _ => miSwitch .ready (.yield spl)

/-- `thread_sleep`, called by `caller`. -/
def threadSleep (addr : Option Chan) (caller : Caller) : KProg Unit := do
  let cur ← self
  Prog.modify fun k => k.onThread cur fun t => { t with tSleepaddr := addr }
  miSwitch .sleep (.sleep caller)

/-- The loop of `thread_wakeup`; every round looks at a sleeper, so as many
rounds as there are sleepers are enough. -/
def threadWakeup.loop (addr : Option Chan) : Nat → Nat → KProg Unit
  | 0, _ => pure ()
  | fuel + 1, i => do
      let k ← Prog.mem
      match k.sleepers.v[i]? with
      | none => pure ()
      | some t =>
        if (k.threads t).tSleepaddr = addr then do
          Prog.put { k with sleepers := k.sleepers.remove i }
          match ← (makeRunnable t).run with
          | .error _ => Prog.panic .wakeupResult
          -- must look at the same sleepers[i] again
          | .ok () => threadWakeup.loop addr fuel i
        else threadWakeup.loop addr fuel (i + 1)

/-- `thread_wakeup`. -/
def threadWakeup (addr : Option Chan) : KProg Unit := do
  let k ← Prog.mem
  Prog.assert (0 < k.curspl) .wakeupSpl
  threadWakeup.loop addr k.sleepers.v.length 0

/-- The loop of `thread_wakeone`. -/
def threadWakeone.loop (addr : Option Chan) : Nat → Nat → KProg Unit
  | 0, _ => pure ()
  | fuel + 1, i => do
      let k ← Prog.mem
      match k.sleepers.v[i]? with
      | none => pure ()
      | some t =>
        if (k.threads t).tSleepaddr = addr then do
          Prog.put { k with sleepers := k.sleepers.remove i }
          match ← (makeRunnable t).run with
          | .error _ => Prog.panic .wakeupResult
          | .ok () => pure ()
        else threadWakeone.loop addr fuel (i + 1)

/-- `thread_wakeone`. -/
def threadWakeone (addr : Option Chan) : KProg Unit := do
  let k ← Prog.mem
  Prog.assert (0 < k.curspl) .wakeupSpl
  threadWakeone.loop addr k.sleepers.v.length 0

/-! ## Birth and death -/

/-- Locals and members that are used before anything has been stored in
them. -/
structure Garbage where
  spl : Nat
  filetable : Addr

/-- `thread_create`, with both allocations made. Nobody sets
`t_filetable`. -/
def Kernel.create (k : Kernel) (thread : Addr) (g : Garbage) : Kernel :=
  { k with
    allocated := update k.allocated thread true
    threads := update k.threads thread
      { tSleepaddr := none, tStack := none, tVmspace := none, tCwd := none, tPid := 0,
        tFiletable := g.filetable, pc := .start } }

/-- The label `fail` of `thread_fork`. -/
def forkFail (newguy : Addr) (s : Nat) (e : PidErr) : KProg (Except PidErr Unit) := do
  splx s
  freeThread newguy
  pure (.error e)

/-- The part of `thread_fork` that is atomic. -/
def forkPlace (newguy : Addr) : KM Unit := do
  let k ← call Prog.mem
  let sleepers ← arrayPreallocate k.sleepers (k.numthreads + 1)
  call (Prog.modify fun k => { k with sleepers := sleepers })
  let zombies ← arrayPreallocate k.zombies (k.numthreads + 1)
  call (Prog.modify fun k => { k with zombies := zombies })
  schedulerPreallocate (k.numthreads + 1)
  makeRunnable newguy

/-- `thread_fork` from the allocation of the stack on. -/
def forkStack (newguy cur : Addr) : KProg (Except PidErr Unit) := do
  let stack ← Prog.kmalloc
  if stack then do
    Prog.modify fun k => k.onThread newguy fun t =>
      { t with tStack := some stackMagic, tCwd := (k.threads cur).tCwd }
    let s ← splhigh
    match ← (forkPlace newguy).run with
    | .error e => forkFail newguy s (.errno e)
    | .ok () => do
        Prog.modify fun k => { k with numthreads := k.numthreads + 1 }
        splx s
        pure (.ok ())
  else do
    freeThread newguy
    pure (.error (.errno .ENOMEM))

/-- `thread_fork` from `pid_create` on. -/
def forkPid (newguy info cv : Addr) (g : Garbage) : KProg (Except PidErr Unit) := do
  let cur ← self
  let k ← Prog.mem
  let (r, pids) ← pidCreate .pidCreateParent k.pids info cv (k.threads cur).tPid 0
  Prog.modify fun k => { k with pids := pids }
  match r with
  | .error e => forkFail newguy g.spl e
  | .ok npid => do
      Prog.modify fun k => k.onThread newguy fun t => { t with tPid := npid }
      forkStack newguy cur

/-- `thread_fork`. `newguy`, `info` and `cv` are where the allocator would put
the thread, its `struct pidinfo` and the condition variable in it. -/
def threadFork (newguy info cv : Addr) (g : Garbage) : KProg (Except PidErr Unit) := do
  let s ← Prog.kmalloc
  if s then do
    let name ← Prog.kmalloc
    if name then do
      Prog.modify fun k => k.create newguy g
      forkPid newguy info cv g
    else pure (.error (.errno .ENOMEM))
  else pure (.error (.errno .ENOMEM))

/-- `cv_broadcast`. -/
def cvBroadcast (cv : Addr) : KProg Unit := do
  let spl ← splhigh
  threadWakeup (some (.cv cv))
  splx spl

/-- `pid_sethasexited`, on the kernel's table. -/
def setHasexited (spid hasexited : Word) : ExceptT PidErr KProg Unit := do
  let k ← call Prog.mem
  let (pids, cv) ← pidSethasexited .cvBroadcastNull k.pids spid hasexited
  call (Prog.modify fun k => { k with pids := pids })
  match cv with
  | some cv => call (cvBroadcast cv)
  | none => pure ()

/-- `thread_exit`. What `pid_sethasexited` returns is not looked at. -/
def threadExit : KProg Unit := do
  let cur ← self
  let k ← Prog.mem
  Prog.assert ((k.threads cur).tStack.all (· = stackMagic)) .switchStack
  let _ ← splhigh
  Prog.modify fun k => k.onThread cur fun t => { t with tVmspace := none, tCwd := none }
  let _ ← (setHasexited (k.threads cur).tPid 1).run
  let k ← Prog.mem
  Prog.assert (0 < k.numthreads) .exitNumthreads
  Prog.put { k with numthreads := k.numthreads - 1 }
  miSwitch .zomb .dead

end Os161.Thread
