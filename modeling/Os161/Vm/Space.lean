import Os161.Kern.Copyinout
import Os161.Lib.Atomic
import Os161.Vm.Ram

/-!
# Address spaces

`arch/mips/mips/dumbvm.c`. An address space is two regions and a stack, each of
them a stretch of virtual addresses laid over a stretch of physical memory. The
pages get into the translation buffer one at a time, as the program touches
them, and `as_activate` throws all of them out.

The state has what this code can see: the memory, the translation buffer, the
structures `struct addrspace` by their addresses, the threads' `t_vmspace`, and
the interrupt level. `granted` is not in the source; it is a record of what
`ram_stealmem` has handed out, newest first.

The address at which `kmalloc` puts a new structure is a parameter of the
routine that allocates it.
-/

namespace Os161.Vm

open Os161.Kern Os161.Lib Function

abbrev Addr := Nat

def NUM_TLB : Nat := 64

def TLBLO_DIRTY : Word := 0x00000400
def TLBLO_VALID : Word := 0x00000200

def USERSTACK : Word := USERTOP

def DUMBVM_STACKPAGES : Word := 12

def VM_FAULT_READ : Nat := 0
def VM_FAULT_WRITE : Nat := 1
def VM_FAULT_READONLY : Nat := 2

/-- One line of the translation buffer. -/
structure TlbEntry where
  ehi : Word
  elo : Word
  deriving DecidableEq

def TlbEntry.Valid (e : TlbEntry) : Prop := e.elo &&& TLBLO_VALID ≠ 0

instance (e : TlbEntry) : Decidable e.Valid := inferInstanceAs (Decidable (_ ≠ _))

/-- `struct addrspace`. -/
structure Addrspace where
  vbase1 : Word
  pbase1 : Word
  npages1 : Word
  vbase2 : Word
  pbase2 : Word
  npages2 : Word
  stackpbase : Word
  deriving DecidableEq

/-- What `as_create` fills in. -/
def Addrspace.zero : Addrspace := ⟨0, 0, 0, 0, 0, 0, 0⟩

/-- The assertions of `vm_fault`, in their order. -/
inductive Check where
  | vbase1 | pbase1 | npages1 | vbase2 | pbase2 | npages2 | stackpbase
  | vbase1Frame | pbase1Frame | vbase2Frame | pbase2Frame | stackpbaseFrame | paddrFrame
  deriving DecidableEq

inductive Panic where
  /-- A structure is used that is not there. -/
  | wild
  | gotReadonly
  | vmFault (c : Check)
  | prepareLoad
  | defineStack
  | asCopy
  /-- `uiomove: size reached 0`. -/
  | uiomoveSize
  /-- The same access faults again after `vm_fault` has returned zero. -/
  | faultsAgain
  deriving DecidableEq

structure State where
  ram : Ram
  granted : List (Word × Word)
  mem : Word → UInt8
  tlb : Fin NUM_TLB → TlbEntry
  spaces : Addr → Option Addrspace
  tVmspace : Addr → Option Addr
  curthread : Addr
  curspl : Nat

abbrev VProg : Type → Type := Prog State Empty Unit Empty Panic

abbrev VmM : Type → Type := ExceptT Errno VProg

def splhigh : VProg Nat := do
  let s ← Prog.mem
  Prog.put { s with curspl := 15 }
  pure s.curspl

def splx (spl : Nat) : VProg Unit := Prog.modify fun s => { s with curspl := spl }

/-- Follow a pointer to a `struct addrspace`. -/
def space (as : Addr) : VProg Addrspace := do
  let s ← Prog.mem
  match s.spaces as with
  | some sp => pure sp
  | none => Prog.panic .wild

/-- Store through such a pointer. -/
def setSpace (as : Addr) (sp : Addrspace) : VProg Unit :=
  Prog.modify fun s => { s with spaces := update s.spaces as (some sp) }

/-! ## Pages -/

/-- `getppages`. -/
def getppages (npages : Word) : VProg Word := do
  let spl ← splhigh
  let s ← Prog.mem
  let (addr, ram) := ramStealmem npages s.ram
  Prog.put { s with
    ram := ram
    granted := if addr = 0 then s.granted else (addr, npages) :: s.granted }
  splx spl
  pure addr

/-- `alloc_kpages`. -/
def allocKpages (npages : Word) : VProg Word := do
  let pa ← getppages npages
  if pa = 0 then
    pure 0
  else
    pure (pa + MIPS_KSEG0)

/-! ## Faults -/

namespace Addrspace

def vtop1 (as : Addrspace) : Word := as.vbase1 + as.npages1 * PAGE_SIZE

def vtop2 (as : Addrspace) : Word := as.vbase2 + as.npages2 * PAGE_SIZE

def stackbase : Word := USERSTACK - DUMBVM_STACKPAGES * PAGE_SIZE

/-- The frame of a page: the first of the two regions and the stack that the
page is in. -/
def frame (as : Addrspace) (faultaddress : Word) : Option Word :=
  if as.vbase1 ≤ faultaddress ∧ faultaddress < as.vtop1 then
    some (faultaddress - as.vbase1 + as.pbase1)
  else if as.vbase2 ≤ faultaddress ∧ faultaddress < as.vtop2 then
    some (faultaddress - as.vbase2 + as.pbase2)
  else if stackbase ≤ faultaddress ∧ faultaddress < USERSTACK then
    some (faultaddress - stackbase + as.stackpbase)
  else
    none

/-- What has to hold for an assertion on the structure to pass. -/
def Passes (as : Addrspace) : Check → Prop
  | .vbase1 => as.vbase1 ≠ 0
  | .pbase1 => as.pbase1 ≠ 0
  | .npages1 => as.npages1 ≠ 0
  | .vbase2 => as.vbase2 ≠ 0
  | .pbase2 => as.pbase2 ≠ 0
  | .npages2 => as.npages2 ≠ 0
  | .stackpbase => as.stackpbase ≠ 0
  | .vbase1Frame => as.vbase1 &&& PAGE_FRAME = as.vbase1
  | .pbase1Frame => as.pbase1 &&& PAGE_FRAME = as.pbase1
  | .vbase2Frame => as.vbase2 &&& PAGE_FRAME = as.vbase2
  | .pbase2Frame => as.pbase2 &&& PAGE_FRAME = as.pbase2
  | .stackpbaseFrame => as.stackpbase &&& PAGE_FRAME = as.stackpbase
  | .paddrFrame => True

instance (as : Addrspace) : DecidablePred as.Passes := fun c => by
  cases c <;> unfold Passes <;> infer_instance

end Addrspace

/-- The assertions at the head of `vm_fault`, in order. -/
def checks : List Check :=
  [.vbase1, .pbase1, .npages1, .vbase2, .pbase2, .npages2, .stackpbase,
    .vbase1Frame, .pbase1Frame, .vbase2Frame, .pbase2Frame, .stackpbaseFrame]

def assertSpace (as : Addrspace) : List Check → VProg Unit
  | [] => pure ()
  | c :: rest => do
      Prog.assert (as.Passes c) (.vmFault c)
      assertSpace as rest

/-- The first entry that is not valid. -/
def freeEntry (tlb : Fin NUM_TLB → TlbEntry) : Option (Fin NUM_TLB) :=
  (List.finRange NUM_TLB).find? fun i => ¬ (tlb i).Valid

/-- The end of `vm_fault`: the page goes into the translation buffer. -/
def vmFault.install (spl : Nat) (faultaddress paddr : Word) : VmM Unit := do
  call (Prog.assert (paddr &&& PAGE_FRAME = paddr) (.vmFault .paddrFrame))
  let s ← call Prog.mem
  match freeEntry s.tlb with
  | some i => do
      let e : TlbEntry := ⟨faultaddress, paddr ||| TLBLO_DIRTY ||| TLBLO_VALID⟩
      call (Prog.put { s with tlb := update s.tlb i e })
      call (splx spl)
  | none => do
      call (splx spl)
      throw .EFAULT

/-- The middle of it, for an address space. -/
def vmFault.lookup (spl : Nat) (as : Addr) (faultaddress : Word) : VmM Unit := do
  let sp ← call (space as)
  call (assertSpace sp checks)
  match sp.frame faultaddress with
  | some paddr => vmFault.install spl faultaddress paddr
  | none => do
      call (splx spl)
      throw .EFAULT

/-- `vm_fault`. Without an address space it returns with interrupts off. -/
def vmFault (faulttype : Nat) (faultaddress : Word) : VmM Unit := do
  let spl ← call splhigh
  let faultaddress := faultaddress &&& PAGE_FRAME
  if faulttype = VM_FAULT_READONLY then
    call (Prog.panic .gotReadonly)
  else if faulttype = VM_FAULT_READ ∨ faulttype = VM_FAULT_WRITE then do
    let s ← call Prog.mem
    match s.tVmspace s.curthread with
    | none => throw .EFAULT
    | some as => vmFault.lookup spl as faultaddress
  else do
    call (splx spl)
    throw .EINVAL

/-! ## Making and changing address spaces -/

/-- `as_create`. -/
def asCreate (new : Addr) : VProg (Option Addr) := do
  if ← Prog.kmalloc then do
    setSpace new .zero
    pure (some new)
  else
    pure none

/-- `as_destroy`. The pages are not given back. -/
def asDestroy (as : Addr) : VProg Unit :=
  Prog.modify fun s => { s with spaces := update s.spaces as none }

/-- An entry of the buffer that matches nothing. -/
def TlbEntry.invalid (i : Fin NUM_TLB) : TlbEntry :=
  ⟨(0x80000 + BitVec.ofNat 32 i) <<< 12, 0⟩

/-- `as_activate`. -/
def asActivate : VProg Unit := do
  let spl ← splhigh
  Prog.modify fun s => { s with tlb := TlbEntry.invalid }
  splx spl

/-- `as_define_region` on the structure. -/
def Addrspace.defineRegion (as : Addrspace) (vaddr sz : Word) : Except Errno Addrspace :=
  let sz := sz + (vaddr &&& ~~~ PAGE_FRAME)
  let vaddr := vaddr &&& PAGE_FRAME
  let sz := (sz + PAGE_SIZE - 1) &&& PAGE_FRAME
  let npages := sz / PAGE_SIZE
  if as.vbase1 = 0 then
    .ok { as with vbase1 := vaddr, npages1 := npages }
  else if as.vbase2 = 0 then
    .ok { as with vbase2 := vaddr, npages2 := npages }
  else
    .error .EUNIMP

/-- `as_define_region`. -/
def asDefineRegion (as : Addr) (vaddr sz : Word) : VmM Unit := do
  let sp ← call (space as)
  match sp.defineRegion vaddr sz with
  | .ok sp => call (setSpace as sp)
  | .error e => throw e

/-- `as_prepare_load`. -/
def asPrepareLoad (as : Addr) : VmM Unit := do
  let sp ← call (space as)
  call (Prog.assert (sp.pbase1 = 0 ∧ sp.pbase2 = 0 ∧ sp.stackpbase = 0) .prepareLoad)
  let pbase1 ← call (getppages sp.npages1)
  call (setSpace as { sp with pbase1 := pbase1 })
  if pbase1 = 0 then throw .ENOMEM else do
    let pbase2 ← call (getppages sp.npages2)
    call (setSpace as { sp with pbase1 := pbase1, pbase2 := pbase2 })
    if pbase2 = 0 then throw .ENOMEM else do
      let stackpbase ← call (getppages DUMBVM_STACKPAGES)
      call (setSpace as
        { sp with pbase1 := pbase1, pbase2 := pbase2, stackpbase := stackpbase })
      if stackpbase = 0 then throw .ENOMEM else pure ()

/-- `as_define_stack`. -/
def asDefineStack (as : Addr) : VmM Word := do
  let sp ← call (space as)
  call (Prog.assert (sp.stackpbase ≠ 0) .defineStack)
  pure USERSTACK

/-- `memmove` between physical addresses, which the kernel sees in its direct
mapped segment. -/
def memmove (mem : Word → UInt8) (dst src len : Word) : Word → UInt8 :=
  fun p => if p - dst < len then mem (src + (p - dst)) else mem p

/-- `as_copy`. -/
def asCopy (old new : Addr) : VmM Addr := do
  match ← call (asCreate new) with
  | none => throw .ENOMEM
  | some new => do
      let oldsp ← call (space old)
      call (setSpace new
        { Addrspace.zero with
          vbase1 := oldsp.vbase1, npages1 := oldsp.npages1
          vbase2 := oldsp.vbase2, npages2 := oldsp.npages2 })
      match ← result (asPrepareLoad new) with
      | .error _ => do
          call (asDestroy new)
          throw .ENOMEM
      | .ok () => do
          let newsp ← call (space new)
          call (Prog.assert (newsp.pbase1 ≠ 0 ∧ newsp.pbase2 ≠ 0 ∧ newsp.stackpbase ≠ 0) .asCopy)
          let move (dst src len : Word) : VProg Unit :=
            Prog.modify fun s => { s with mem := memmove s.mem dst src len }
          call (move newsp.pbase1 oldsp.pbase1 (oldsp.npages1 * PAGE_SIZE))
          call (move newsp.pbase2 oldsp.pbase2 (oldsp.npages2 * PAGE_SIZE))
          call (move newsp.stackpbase oldsp.stackpbase (DUMBVM_STACKPAGES * PAGE_SIZE))
          pure new

end Os161.Vm
