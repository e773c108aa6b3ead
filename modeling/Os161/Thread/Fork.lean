import Os161.Lib.Zoom
import Os161.Thread.Sched

/-!
# `thread_fork` and the current directory

`Sched` has `thread_fork` without the references to vnodes that it takes and drops. Here
it is with them, and with a note of how far a call came that has failed.

VOP_DECREF of a directory that is in use by another thread is a subtraction; what
VOP_RECLAIM would do is left out.
-/

namespace Os161.Thread

open Os161.Kern Os161.Lib

/-- The thread system, and `vn_refcount` of the vnodes that threads have for a current
directory. -/
structure ForkState where
  kernel : Kernel
  refcount : Addr → Nat

inductive ForkPanic where
  | kernel (p : Panic)
  /-- `assert(vn->vn_refcount > 0)`. -/
  | decref
  deriving DecidableEq

/-- Where an allocation has failed. -/
inductive ForkPoint where
  /-- `thread_create`. -/
  | thread
  /-- `pid_create`. -/
  | pid
  /-- The stack. -/
  | stack
  /-- The preallocations and `make_runnable`. -/
  | place
  deriving DecidableEq

abbrev ForkProg : Type → Type := Prog ForkState Empty Unit Empty ForkPanic

abbrev ForkResult := Except (ForkPoint × PidErr) Unit

def ForkState.kernelPart : Lens ForkState Kernel where
  get s := s.kernel
  set k s := { s with kernel := k }
  get_set _ _ := rfl
  set_get _ := rfl
  set_set _ _ _ := rfl

def inKernel {α : Type} (p : KProg α) : ForkProg α := p.zoom ForkState.kernelPart .kernel

/-- VOP_INCREF, unless it is NULL. -/
def vopIncref : Option Addr → ForkProg Unit
  | none => pure ()
  | some vn => Prog.modify fun s =>
    { s with refcount := Function.update s.refcount vn (s.refcount vn + 1) }

/-- VOP_DECREF, unless it is NULL. -/
def vopDecref : Option Addr → ForkProg Unit
  | none => pure ()
  | some vn => do
      let s ← Prog.mem
      Prog.assert (0 < s.refcount vn) .decref
      Prog.put { s with refcount := Function.update s.refcount vn (s.refcount vn - 1) }

/-- The label `fail`. -/
def forkAt.fail (newguy : Addr) (s : Nat) (point : ForkPoint) (e : PidErr) :
    ForkProg ForkResult := do
  inKernel (splx s)
  let st ← Prog.mem
  vopDecref (st.kernel.threads newguy).tCwd
  inKernel (freeThread newguy)
  pure (.error (point, e))

/-- `thread_fork` with interrupts off. -/
def forkAt.place (newguy : Addr) : ForkProg ForkResult := do
  let s ← inKernel splhigh
  match ← inKernel (forkPlace newguy).run with
  | .error e => forkAt.fail newguy s .place (.errno e)
  | .ok () => do
      inKernel (Prog.modify fun k => { k with numthreads := k.numthreads + 1 })
      inKernel (splx s)
      pure (.ok ())

/-- `thread_fork` from the allocation of the stack on. -/
def forkAt.stack (newguy cur : Addr) : ForkProg ForkResult := do
  let stack ← Prog.kmalloc
  if stack then do
    let st ← Prog.mem
    vopIncref (st.kernel.threads cur).tCwd
    inKernel (Prog.modify fun k => k.onThread newguy fun t =>
      { t with tStack := some stackMagic, tCwd := (k.threads cur).tCwd })
    forkAt.place newguy
  else do
    inKernel (freeThread newguy)
    pure (.error (.stack, .errno .ENOMEM))

/-- `thread_fork` from `pid_create` on. -/
def forkAt.pid (newguy info cv : Addr) (g : Garbage) : ForkProg ForkResult := do
  let cur ← inKernel self
  let st ← Prog.mem
  let (r, pids) ← inKernel
    (pidCreate .pidCreateParent st.kernel.pids info cv (st.kernel.threads cur).tPid 0)
  inKernel (Prog.modify fun k => { k with pids := pids })
  match r with
  | .error e => forkAt.fail newguy g.spl .pid e
  | .ok npid => do
      inKernel (Prog.modify fun k => k.onThread newguy fun t => { t with tPid := npid })
      forkAt.stack newguy cur

/-- `thread_fork`. -/
def forkAt (newguy info cv : Addr) (g : Garbage) : ForkProg ForkResult := do
  let s ← Prog.kmalloc
  if s then do
    let name ← Prog.kmalloc
    if name then do
      inKernel (Prog.modify fun k => k.create newguy g)
      forkAt.pid newguy info cv g
    else pure (.error (.thread, .errno .ENOMEM))
  else pure (.error (.thread, .errno .ENOMEM))

end Os161.Thread
