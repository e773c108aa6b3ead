import Os161.Vm.Load

/-!
# Processes

Any number of threads with address spaces on one processor. Each of them is in
the kernel without an address space, or runs a program, or is on the way from
one program to the next in `loadexec`: `Phase` says which, and holds what
`loadexec` keeps in its locals.

The steps are what can happen between two instants at which another thread may
be switched in: an access to user memory, `mi_switch`, the pieces of `loadexec`,
`fork`, `exit`, and a request of the kernel's own for pages. A piece that is a
program of `Vm.Space` or `Vm.Load` is run as it is, and a step in which it panics
does not exist.

`thread_fork` leaves `t_vmspace` of the new thread NULL. Whether somebody puts the
copied address space there before the thread first runs is left open.
-/

namespace Os161.Vm

open Os161.Kern Os161.Lib Function

/-- `curthread->t_vmspace = as`. -/
def setVmspace (as : Option Addr) : VProg Unit :=
  Prog.modify fun s => { s with tVmspace := update s.tVmspace s.curthread as }

/-- `mi_switch` from where the next thread is known, for a thread that returns
from it; `mi_threadstart` does the same for a new one. -/
def miSwitch (next : Addr) : VProg Unit := do
  Prog.modify fun s => { s with curthread := next }
  let s ← Prog.mem
  match s.tVmspace s.curthread with
  | some _ => asActivate
  | none => pure ()

/-- `loadexec` up to `load_elf`: the address space is replaced, and the old one
returned. -/
def loadexec.enter (new : Addr) : VmM (Option Addr) := do
  match ← call (asCreate new) with
  | none => throw .ENOMEM
  | some newvm => do
      let s ← call Prog.mem
      call (setVmspace (some newvm))
      call asActivate
      pure (s.tVmspace s.curthread)

/-- `loadexec` after `load_elf` has failed. -/
def loadexec.restore (oldvm : Option Addr) (newvm : Addr) : VProg Unit := do
  setVmspace oldvm
  asActivate
  asDestroy newvm

/-- `loadexec` after `load_elf` has succeeded. -/
def loadexec.finish (oldvm : Option Addr) (newvm : Addr) : VmM Word := do
  let stackptr ← asDefineStack newvm
  match oldvm with
  | some old => call (asDestroy old)
  | none => pure ()
  pure stackptr

/-- The part of `thread_exit` that is about the address space. -/
def threadExit : VProg Unit := do
  let s ← Prog.mem
  match s.tVmspace s.curthread with
  | some as => do
      setVmspace none
      asDestroy as
  | none => pure ()

/-! ## The system -/

inductive Phase where
  /-- There is no such thread, or it has exited. -/
  | dead
  /-- In the kernel, without an address space. -/
  | kernel
  /-- It has a program, and may run it. -/
  | user
  /-- In `load_elf`, before `as_prepare_load`. -/
  | defining (oldvm : Option Addr)
  /-- In `load_elf`, after it. -/
  | loading (oldvm : Option Addr)
  /-- `load_elf` has returned an error. -/
  | failing (oldvm : Option Addr)
  deriving DecidableEq

structure System where
  vm : State
  phase : Addr → Phase

/-- The program ends, from one state in the other. -/
def Ends {α : Type} (p : VProg α) (s : State) (x : α) (s' : State) : Prop :=
  ∃ m m' : Machine State Empty Unit Empty, m.mem = s ∧ m'.mem = s' ∧ p.run m = (.done x, m')

namespace System

/-- The phase of the thread that runs. -/
def now (σ : System) : Phase := σ.phase σ.vm.curthread

/-- The current thread goes on to another phase. -/
def goes (σ : System) (s : State) (p : Phase) : System :=
  ⟨s, update σ.phase σ.vm.curthread p⟩

/-- After `loadexec` has failed. -/
def returned (oldvm : Option Addr) : Phase := if oldvm.isSome then .user else .kernel

inductive Step : System → System → Prop where
  /-- An access, by the program or in its name by `copyin` and `copyout`. -/
  | load {σ : System} {va : Word} {r : Except Errno UInt8} {s : State} :
      (σ.now = .user ∨ ∃ old, σ.now = .loading old) → va < USERTOP →
      Ends (user.load va).run σ.vm r s → Step σ { σ with vm := s }
  | store {σ : System} {va : Word} {b : UInt8} {r : Except Errno Unit} {s : State} :
      (σ.now = .user ∨ ∃ old, σ.now = .loading old) → va < USERTOP →
      Ends (user.store va b).run σ.vm r s → Step σ { σ with vm := s }
  | switch {σ : System} {next : Addr} {s : State} :
      σ.phase next ≠ .dead → Ends (miSwitch next) σ.vm () s → Step σ { σ with vm := s }
  | enter {σ : System} {new : Addr} {old : Option Addr} {s : State} :
      (σ.now = .user ∨ σ.now = .kernel) → σ.vm.spaces new = none →
      Ends (loadexec.enter new).run σ.vm (.ok old) s → Step σ (σ.goes s (.defining old))
  | enterFails {σ : System} {new : Addr} {e : Errno} {s : State} :
      (σ.now = .user ∨ σ.now = .kernel) → σ.vm.spaces new = none →
      Ends (loadexec.enter new).run σ.vm (.error e) s → Step σ { σ with vm := s }
  | define {σ : System} {old : Option Addr} {as : Addr} {vaddr sz : Word} {s : State} :
      σ.now = .defining old → σ.vm.tVmspace σ.vm.curthread = some as →
      Ends (asDefineRegion as vaddr sz).run σ.vm (.ok ()) s → Step σ { σ with vm := s }
  | prepare {σ : System} {old : Option Addr} {as : Addr} {s : State} :
      σ.now = .defining old → σ.vm.tVmspace σ.vm.curthread = some as →
      Ends (asPrepareLoad as).run σ.vm (.ok ()) s → Step σ (σ.goes s (.loading old))
  | prepareFails {σ : System} {old : Option Addr} {as : Addr} {e : Errno} {s : State} :
      σ.now = .defining old → σ.vm.tVmspace σ.vm.curthread = some as →
      Ends (asPrepareLoad as).run σ.vm (.error e) s → Step σ (σ.goes s (.failing old))
  /-- `load_elf` gives up, for whatever reason, and the old program goes on. -/
  | restore {σ : System} {old : Option Addr} {as : Addr} {s : State} :
      (σ.now = .defining old ∨ σ.now = .loading old ∨ σ.now = .failing old) →
      σ.vm.tVmspace σ.vm.curthread = some as →
      Ends (loadexec.restore old as) σ.vm () s → Step σ (σ.goes s (returned old))
  | finish {σ : System} {old : Option Addr} {as : Addr} {sp : Word} {s : State} :
      σ.now = .loading old → σ.vm.tVmspace σ.vm.curthread = some as →
      Ends (loadexec.finish old as).run σ.vm (.ok sp) s → Step σ (σ.goes s .user)
  /-- `fork`, with the copy given to the new thread or not. -/
  | fork {σ : System} {as new child : Addr} {copy : Addr} {attach : Bool} {s : State} :
      σ.now = .user → σ.vm.tVmspace σ.vm.curthread = some as → σ.vm.spaces new = none →
      σ.phase child = .dead → Ends (asCopy as new).run σ.vm (.ok copy) s →
      Step σ
        ⟨{ s with tVmspace := update s.tVmspace child (if attach then some copy else none) },
          update σ.phase child (if attach then .user else .kernel)⟩
  | copyFails {σ : System} {as new : Addr} {e : Errno} {s : State} :
      σ.now = .user → σ.vm.tVmspace σ.vm.curthread = some as → σ.vm.spaces new = none →
      Ends (asCopy as new).run σ.vm (.error e) s → Step σ { σ with vm := s }
  /-- There is no memory for the thread, and the copy is freed. -/
  | forkFails {σ : System} {as new copy : Addr} {s s' : State} :
      σ.now = .user → σ.vm.tVmspace σ.vm.curthread = some as → σ.vm.spaces new = none →
      Ends (asCopy as new).run σ.vm (.ok copy) s → Ends (asDestroy copy) s () s' →
      Step σ { σ with vm := s' }
  /-- A thread of the kernel is forked. -/
  | spawn {σ : System} {child : Addr} :
      σ.phase child = .dead →
      Step σ
        ⟨{ σ.vm with tVmspace := update σ.vm.tVmspace child none },
          update σ.phase child .kernel⟩
  | exit {σ : System} {s : State} :
      (σ.now = .user ∨ σ.now = .kernel) → Ends threadExit σ.vm () s → Step σ (σ.goes s .dead)
  /-- The kernel takes pages for itself. -/
  | pages {σ : System} {npages va : Word} {s : State} :
      Ends (allocKpages npages) σ.vm va s → Step σ { σ with vm := s }

/-- One kernel thread, and no address space. -/
structure Booted (σ : System) : Prop where
  phase : ∀ t, σ.phase t = .kernel ∨ σ.phase t = .dead
  vmspace : ∀ t, σ.vm.tVmspace t = none
  spaces : ∀ a, σ.vm.spaces a = none

end System

end Os161.Vm
