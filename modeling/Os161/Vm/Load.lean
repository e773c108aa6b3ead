import Os161.Vm.Space

/-!
# Loading an executable

`userprog/loadelf.c`, with the part of `userprog/uio.c` that moves file data to
a user program, and the access to user memory behind it: the translation buffer
is looked up, and on a miss `vm_fault` is called and the access made again.

A file is what `VOP_READ` makes of it (`Vnode`): for an offset and a number of
bytes it moves some chunks of data, one `uiomove` each, and ends with an error
or without. That it moves no more than it was asked for is part of the type.

Structures in the file are in the machine's own byte order, the most significant
byte first.
-/

namespace Os161.Vm

open Os161.Kern Os161.Lib

/-! ## User memory -/

/-- The physical address an access to `va` goes to: that of a valid entry for
its page. -/
def State.translate (s : State) (va : Word) : Option Word :=
  ((List.finRange NUM_TLB).find? fun i =>
    (s.tlb i).Valid ∧ (s.tlb i).ehi &&& PAGE_FRAME = va &&& PAGE_FRAME).map
    fun i => (s.tlb i).elo &&& PAGE_FRAME ||| va &&& ~~~ PAGE_FRAME

/-- An access to user memory: where it ends up. -/
def access (faulttype : Nat) (va : Word) : VmM Word := do
  let s ← call Prog.mem
  match s.translate va with
  | some pa => pure pa
  | none => do
      match ← result (vmFault faulttype va) with
      | .error _ => throw .EFAULT
      | .ok () => do
          let s ← call Prog.mem
          match s.translate va with
          | some pa => pure pa
          | none => call (Prog.panic .faultsAgain)

/-- What user addresses mean to the current thread. -/
def user : UserSpace VProg where
  load va := do
    let pa ← access VM_FAULT_READ va
    let s ← call Prog.mem
    pure (s.mem pa)
  store va b := do
    let pa ← access VM_FAULT_WRITE va
    call (Prog.modify fun s => { s with mem := Function.update s.mem pa b })

/-! ## Reading the file -/

structure Vnode where
  read : Word → Nat → List (List UInt8) × Option Errno
  le : ∀ offset resid, (read offset resid).1.flatten.length ≤ resid

/-- `VOP_READ` into a structure of the kernel, all of which has to come. -/
def Vnode.readStruct (v : Vnode) (offset : Word) (size : Nat) : Except Errno (List UInt8) :=
  match v.read offset size with
  | (_, some e) => .error e
  | (chunks, none) =>
    if chunks.flatten.length = size then .ok chunks.flatten else .error .ENOEXEC

/-- The field of one, two or four bytes at offset `i` of a structure. -/
def byteAt (b : List UInt8) (i : Nat) : Nat := (b.getD i 0).toNat

def halfAt (b : List UInt8) (i : Nat) : Nat := byteAt b i * 256 + byteAt b (i + 1)

def wordAt (b : List UInt8) (i : Nat) : Word :=
  BitVec.ofNat 32 (halfAt b i * 65536 + halfAt b (i + 2))

/-- `Elf_Ehdr`: the members that are looked at. -/
structure Ehdr where
  ident : List UInt8
  type : Nat
  machine : Nat
  version : Word
  entry : Word
  phoff : Word
  phentsize : Nat
  phnum : Nat
  deriving DecidableEq

def Ehdr.ofBytes (b : List UInt8) : Ehdr where
  ident := b.take 16
  type := halfAt b 16
  machine := halfAt b 18
  version := wordAt b 20
  entry := wordAt b 24
  phoff := wordAt b 28
  phentsize := halfAt b 42
  phnum := halfAt b 44

/-- The test for a 32-bit big-endian executable of version one for a MIPS. -/
def Ehdr.Ok (eh : Ehdr) : Prop :=
  eh.ident.take 7 = [0x7f, 0x45, 0x4c, 0x46, 1, 2, 1] ∧ eh.version = 1 ∧ eh.type = 2 ∧
    eh.machine = 8

instance (eh : Ehdr) : Decidable eh.Ok := inferInstanceAs (Decidable (_ ∧ _))

/-- `Elf_Phdr`. -/
structure Phdr where
  type : Word
  offset : Word
  vaddr : Word
  filesz : Word
  memsz : Word
  flags : Word
  deriving DecidableEq

def Phdr.ofBytes (b : List UInt8) : Phdr where
  type := wordAt b 0
  offset := wordAt b 4
  vaddr := wordAt b 8
  filesz := wordAt b 16
  memsz := wordAt b 20
  flags := wordAt b 24

def PT_NULL : Word := 0
def PT_LOAD : Word := 1
def PT_PHDR : Word := 6
def PT_MIPS_REGINFO : Word := 0x70000000

/-- The header at the start of the file. -/
def Vnode.ehdr (v : Vnode) : Except Errno Ehdr := do
  let b ← v.readStruct 0 52
  let eh := Ehdr.ofBytes b
  if eh.Ok then .ok eh else .error .ENOEXEC

/-- Segment header `i`; `none` for one that is skipped. -/
def Vnode.phdr (v : Vnode) (eh : Ehdr) (i : Nat) : Except Errno (Option Phdr) := do
  let b ← v.readStruct (eh.phoff + BitVec.ofNat 32 (i * eh.phentsize)) 32
  let ph := Phdr.ofBytes b
  if ph.type = PT_NULL ∨ ph.type = PT_PHDR ∨ ph.type = PT_MIPS_REGINFO then .ok none
  else if ph.type = PT_LOAD then .ok (some ph)
  else .error .ENOEXEC

/-! ## Moving data -/

/-- A `struct uio` for reading into user memory. -/
structure UserUio where
  ubase : Word
  iovLen : Nat
  resid : Nat

/-- `uiomove`, for a buffer with all of `data`. A round moves at least one
byte, so there are no more rounds than bytes. -/
def uiomove.loop : Nat → List UInt8 → UserUio → VmM UserUio
  | 0, _, uio => pure uio
  | fuel + 1, data, uio =>
    if data.length = 0 ∨ uio.resid = 0 then pure uio
    else do
      let size := min uio.iovLen data.length
      call (Prog.assert (size ≠ 0) .uiomoveSize)
      copyout user (data.take size) uio.ubase
      uiomove.loop fuel (data.drop size)
        { ubase := uio.ubase + BitVec.ofNat 32 size
          iovLen := uio.iovLen - size
          resid := uio.resid - size }

def uiomove (data : List UInt8) (uio : UserUio) : VmM UserUio :=
  uiomove.loop data.length data uio

/-- `uiomovezeros`. -/
def uiomovezeros.loop : Nat → Nat → UserUio → VmM UserUio
  | 0, _, uio => pure uio
  | fuel + 1, n, uio =>
    if n = 0 then pure uio
    else do
      let amt := min 16 n
      let uio ← uiomove (List.replicate amt 0) uio
      uiomovezeros.loop fuel (n - amt) uio

def uiomovezeros (n : Nat) (uio : UserUio) : VmM UserUio := uiomovezeros.loop n n uio

/-- The chunks that `VOP_READ` moves. -/
def moveChunks : List (List UInt8) → UserUio → VmM UserUio
  | [], uio => pure uio
  | chunk :: rest, uio => do
      let uio ← uiomove chunk uio
      moveChunks rest uio

/-- `VOP_READ` into user memory. -/
def vopRead (v : Vnode) (offset : Word) (uio : UserUio) : VmM UserUio := do
  let uio' ← moveChunks (v.read offset uio.resid).1 uio
  match (v.read offset uio.resid).2 with
  | some e => throw e
  | none => pure uio'

/-- `load_segment`. -/
def loadSegment (v : Vnode) (offset vaddr memsize filesize : Word) : VmM Unit := do
  let filesize := if memsize < filesize then memsize else filesize
  let u ← vopRead v offset ⟨vaddr, memsize.toNat, filesize.toNat⟩
  if u.resid ≠ 0 then throw .ENOEXEC else do
    let fillamt := memsize.toNat - filesize.toNat
    if 0 < fillamt then do
      let _ ← uiomovezeros fillamt { u with resid := u.resid + fillamt }
      pure ()
    else
      pure ()

/-! ## The two passes -/

/-- A pass over the segment headers from `i` on, `n` of them. -/
def eachSegment (v : Vnode) (eh : Ehdr) (f : Phdr → VmM Unit) : Nat → Nat → VmM Unit
  | 0, _ => pure ()
  | n + 1, i =>
    match v.phdr eh i with
    | .error e => throw e
    | .ok none => eachSegment v eh f n (i + 1)
    | .ok (some ph) => do
        f ph
        eachSegment v eh f n (i + 1)

/-- `load_elf`, into the address space of the current thread. -/
def loadElf (v : Vnode) : VmM Word := do
  match v.ehdr with
  | .error e => throw e
  | .ok eh => do
      let s ← call Prog.mem
      match s.tVmspace s.curthread with
      | none => call (Prog.panic .wild)
      | some as => do
          eachSegment v eh (fun ph => asDefineRegion as ph.vaddr ph.memsz) eh.phnum 0
          asPrepareLoad as
          eachSegment v eh (fun ph => loadSegment v ph.offset ph.vaddr ph.memsz ph.filesz)
            eh.phnum 0
          pure eh.entry

/-- How the processor reports a missing page. -/
def touchType (write : Bool) : Nat := if write then VM_FAULT_WRITE else VM_FAULT_READ

/-- A program reads or writes one address after the other. What it does about
an access that cannot be made does not matter here. -/
def touches : List (Bool × Word) → VProg Unit
  | [] => pure ()
  | (write, va) :: rest => do
      let _ ← (access (touchType write) va).run
      touches rest

end Os161.Vm
