import Mathlib.Logic.Function.Basic
import Os161.Lib.Align

/-!
# Physical memory

`arch/mips/mips/ram.c`. All the memory above the kernel image is one stretch,
from `firstpaddr` to `lastpaddr`, and it is handed out from the bottom; nothing
is ever given back. Sizes and addresses are 32-bit words, and so are the sums
and products the code forms of them.
-/

namespace Os161.Vm

abbrev Word := BitVec 32

def PAGE_SIZE : Word := 4096

/-- The mask for the page number of an address. -/
def PAGE_FRAME : Word := 0xfffff000

theorem PAGE_FRAME_eq : PAGE_FRAME = Lib.pageMask 32 12 := by decide

def MIPS_KSEG0 : Word := 0x80000000

structure Ram where
  firstpaddr : Word
  lastpaddr : Word
  deriving DecidableEq

/-- `ram_stealmem`. -/
def ramStealmem (npages : Word) (ram : Ram) : Word × Ram :=
  let size := npages * PAGE_SIZE
  if ram.lastpaddr < ram.firstpaddr + size then
    (0, ram)
  else
    (ram.firstpaddr, { ram with firstpaddr := ram.firstpaddr + size })

/-- Requests one after the other: what was asked for, and what was returned. -/
def ramSteals : List Word → Ram → List (Word × Word) × Ram
  | [], ram => ([], ram)
  | npages :: rest, ram =>
    let (paddr, ram) := ramStealmem npages ram
    let (answers, ram) := ramSteals rest ram
    ((npages, paddr) :: answers, ram)

end Os161.Vm
