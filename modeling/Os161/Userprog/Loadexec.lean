import Os161.Lib.Zoom
import Os161.Vfs.Path
import Os161.Vm.Proc

/-!
# `loadexec`

The whole of `loadexec` in `userprog/proc_syscalls.c`, with its calls into the VFS layer;
`Vm.Proc` has only what it does to address spaces, in the pieces between which another
thread may run.

What is loaded is not of interest here. `load_elf` and `as_define_stack` are any two
routines that return, with or without an error, and that work on the new address space
and in the file and nowhere else.

`calls` is not in the source. It is a record of the address spaces that have been made,
activated and destroyed, in that order. The address at which `kmalloc` puts the new one
is a parameter.
-/

namespace Os161.Userprog

open Os161.Kern Os161.Lib Os161.Vfs

/-- A call of `as_create` that has succeeded, of `as_activate` or of `as_destroy`. -/
inductive AsCall where
  | create (as : Addr)
  | activate (as : Option Addr)
  | destroy (as : Addr)
  deriving DecidableEq

structure ExecState (σ : Type) where
  vfs : Vfs.State σ
  vm : Vm.State
  tName : Addr → CString
  calls : List AsCall

inductive ExecPanic where
  | vfs (p : Vfs.Panic)
  | vm (p : Vm.Panic)
  deriving DecidableEq

/-- Nothing but the address space `as` is different, apart from memory and the translation
buffer. -/
structure OnlySpace (as : Addr) (s s' : Vm.State) : Prop where
  tVmspace : s'.tVmspace = s.tVmspace
  curthread : s'.curthread = s.curthread
  spaces : ∀ a, a ≠ as → s'.spaces a = s.spaces a

/-- `load_elf` of a file and `as_define_stack`, with the address space they are for. -/
structure Loader (σ : Type) where
  loadElf : Vnode → Addr → Vm.State × Vnodes σ → Except Errno Vm.Word × Vm.State × Vnodes σ
  asDefineStack : Addr → Vm.State → Except Errno Vm.Word × Vm.State
  load_space : ∀ v as s n, OnlySpace as s (loadElf v as (s, n)).2.1
  load_refcount : ∀ v as s n, (loadElf v as (s, n)).2.2.refcount = n.refcount
  load_opencount : ∀ v as s n, (loadElf v as (s, n)).2.2.opencount = n.opencount
  stack_space : ∀ as s, OnlySpace as s (asDefineStack as s).2

section
variable (σ : Type)

abbrev ExecProg : Type → Type := Prog (ExecState σ) Empty Unit Empty ExecPanic

abbrev ExecM : Type → Type := ExceptT Errno (ExecProg σ)

end

variable {σ α : Type}

namespace ExecState

/-- The VFS layer's part of the state. -/
def vfsPart : Lens (ExecState σ) (Vfs.State σ) where
  get s := s.vfs
  set v s := { s with vfs := v }
  get_set _ _ := rfl
  set_get _ := rfl
  set_set _ _ _ := rfl

/-- The address spaces. -/
def vmPart : Lens (ExecState σ) Vm.State where
  get s := s.vm
  set v s := { s with vm := v }
  get_set _ _ := rfl
  set_get _ := rfl
  set_set _ _ _ := rfl

/-- `curthread->t_vmspace`. -/
def vmspace (s : ExecState σ) : Option Addr := s.vm.tVmspace s.vm.curthread

end ExecState

def inVfs (p : Vfs.VProg σ α) : ExecProg σ α := p.zoom ExecState.vfsPart .vfs

def inVm (p : Vm.VProg α) : ExecProg σ α := p.zoom ExecState.vmPart .vm

/-! ## Address spaces -/

def noteCall (c : AsCall) : ExecProg σ Unit :=
  Prog.modify fun s => { s with calls := s.calls ++ [c] }

def asCreate (new : Addr) : ExecProg σ (Option Addr) := do
  match ← inVm (Vm.asCreate new) with
  | none => pure none
  | some as => do
      noteCall (.create as)
      pure (some as)

def asActivate (as : Option Addr) : ExecProg σ Unit := do
  inVm Vm.asActivate
  noteCall (.activate as)

def asDestroy (as : Addr) : ExecProg σ Unit := do
  inVm (Vm.asDestroy as)
  noteCall (.destroy as)

/-- `curthread->t_vmspace = as`, and it is activated. -/
def switchVmspace (as : Option Addr) : ExecProg σ Unit := do
  inVm (Vm.setVmspace as)
  asActivate as

/-! ## `loadexec` -/

/-- `load_elf(v, entrypoint)`. -/
def loadElf (L : Loader σ) (v : Vnode) (as : Addr) : ExecProg σ (Except Errno Vm.Word) := do
  let s ← Prog.mem
  let x := L.loadElf v as (s.vm, s.vfs.vnodes)
  Prog.put { s with vm := x.2.1, vfs := { s.vfs with vnodes := x.2.2 } }
  pure x.1

/-- `as_define_stack(as, stackptr)`. -/
def asDefineStack (L : Loader σ) (as : Addr) : ExecProg σ (Except Errno Vm.Word) := do
  let s ← Prog.mem
  let x := L.asDefineStack as s.vm
  Prog.put { s with vm := x.2 }
  pure x.1

/-- The old address space is restored and activated, and the new one destroyed. -/
def loadexec.undo (oldvm : Option Addr) (newvm : Addr) (e : Errno) : ExecM σ α := do
  call (switchVmspace oldvm)
  call (asDestroy newvm)
  throw e

/-- The rest of `loadexec` when everything has been loaded. -/
def loadexec.commit (oldvm : Option Addr) (newname : CString) : ExecProg σ Unit := do
  match oldvm with
  | some old => asDestroy old
  | none => pure ()
  Prog.modify fun s => { s with tName := Function.update s.tName s.vm.curthread newname }

/-- `loadexec` with the new address space in place. -/
def loadexec.load (O : Ops σ) (L : Loader σ) (v : Vnode) (oldvm : Option Addr) (newvm : Addr)
    (newname : CString) : ExecM σ (Vm.Word × Vm.Word) := do
  match ← call (loadElf L v newvm) with
  | .error e => do
      call (inVfs (vfsClose O v))
      loadexec.undo oldvm newvm e
  | .ok entrypoint => do
      call (inVfs (vfsClose O v))
      match ← call (asDefineStack L newvm) with
      | .error e => loadexec.undo oldvm newvm e
      | .ok stackptr => do
          call (loadexec.commit oldvm newname)
          pure (entrypoint, stackptr)

/-- `loadexec` with the file open. -/
def loadexec.enter (O : Ops σ) (L : Loader σ) (new : Addr) (v : Vnode) (newname : CString) :
    ExecM σ (Vm.Word × Vm.Word) := do
  match ← call (asCreate new) with
  | none => do
      call (inVfs (vfsClose O v))
      throw .ENOMEM
  | some newvm => do
      let s ← call Prog.mem
      call (switchVmspace (some newvm))
      loadexec.load O L v s.vmspace newvm newname

/-- `loadexec`, which returns the entry point and the stack pointer. `newname` is a copy of
the path from before `vfs_open` may write into it. -/
def loadexec (O : Ops σ) (L : Loader σ) (new : Addr) (path : CString) :
    ExecM σ (Vm.Word × Vm.Word) := do
  if ← call Prog.kmalloc then
    match ← call (inVfs (vfsOpen O path oRdonly).run) with
    | .error e => throw e
    | .ok v => loadexec.enter O L new v path
  else throw .ENOMEM

end Os161.Userprog
