import Mathlib.Logic.Relation
import Os161.Kern.Lhd

/-!
# Many requests at one disk

`lhd_io` and `lhd_irq` of `dev/lamebus/lhd.c` again, now for any number of calls that
wait for one another at `lh_clear` and for the card at `lh_done`. Between two accesses
to the semaphores, to the registers and buffer of the card, and to `lh_result`, another
call may go on; `LhdPc` is the access that comes next. `lhd_irq` runs with interrupts
off and is one step.

The uio of a call is its own. What `uiomove` makes of its `k`-th sector is given with the
call: the data, for a write, or the error of a user address that cannot be used.
-/

namespace Os161.Dev

open Os161.Kern Function

/-- The arguments of a call of `lhd_io`. -/
structure Request where
  rw : UioRw
  offset : Nat
  resid : Nat
  /-- What comes out of the uio for the `k`-th sector. -/
  source : Nat → Except Errno Block
  /-- Whether the `k`-th sector goes into it. -/
  sink : Nat → Option Errno

namespace Request

def sector (r : Request) : UInt32 := lhdSector r.offset

def len (r : Request) : UInt32 := UInt32.ofNat (r.resid / 512)

/-- `sector+i`. -/
def sectorAt (r : Request) (i : Nat) : UInt32 := r.sector + UInt32.ofNat i

end Request

/-- An operation that the card has finished: `data` is what it read or wrote. -/
structure Op (ι : Type) where
  owner : ι
  rw : UioRw
  sector : UInt32
  data : Block
  code : LhdStatus

/-- The operations of one call. -/
def opsOf {ι : Type} [DecidableEq ι] (i : ι) (log : List (Op ι)) : List (Op ι) :=
  log.filter fun op => op.owner = i

/-- `LHD_REG_STAT`, with the call that has put it to work. -/
inductive LhdStat (ι : Type) where
  | LHD_IDLE
  | LHD_WORKING (owner : ι) (rw : UioRw)
  | finished (code : LhdStatus)

/-- The card: two registers, the buffer `lh_buf`, and the disk. -/
structure Card (ι : Type) where
  sect : UInt32
  stat : LhdStat ι
  buf : Block
  sectors : UInt32 → Block

/-- What a call of `lhd_io` does next. -/
inductive LhdPc where
  | call
  /-- `P(lh_clear)`, for sector `i`. -/
  | clear (i : Nat)
  /-- `uiomove` into `lh_buf`. -/
  | fill (i : Nat)
  /-- `V(lh_clear)` after it has failed. -/
  | refused (result : Errno)
  /-- `lhd_wreg` of `LHD_REG_SECT`, and of `LHD_REG_STAT`. -/
  | sect (i : Nat)
  | stat (i : Nat)
  /-- `P(lh_done)`. -/
  | done (i : Nat)
  /-- The read of `lh_result`. -/
  | result (i : Nat)
  /-- `uiomove` out of `lh_buf`. -/
  | drain (i : Nat)
  /-- `V(lh_clear)` at the end of the loop. -/
  | release (i : Nat) (result : Option Errno)
  | returned (result : Option Errno)
  deriving DecidableEq

/-- `ι` are the calls, `got` the sectors that have gone into the uio of each, and `log` the
operations that the card has finished, the first one first. -/
structure LhdSystem (ι : Type) where
  card : Card ι
  lhClear : Nat
  lhDone : Nat
  lhResult : Option Errno
  pc : ι → LhdPc
  got : ι → List Block
  log : List (Op ι)

namespace Request

/-- The test of the loop. -/
def next (r : Request) (i : Nat) : LhdPc :=
  if i < r.len.toNat then
    .clear i
  else
    .returned none

/-- What comes before the loop. -/
def enter (r : Request) (dBlocks : UInt32) : LhdPc :=
  if lhdSectoff r.offset ≠ 0 ∨ r.resid % 512 ≠ 0 then
    .returned (some .EINVAL)
  else if dBlocks < r.sector + r.len then
    .returned (some .EINVAL)
  else
    r.next 0

end Request

namespace LhdSystem

variable {ι : Type} [DecidableEq ι]

/-- The call goes on to another place. -/
def goes (s : LhdSystem ι) (i : ι) (pc : LhdPc) : LhdSystem ι :=
  { s with pc := update s.pc i pc }

/-- `lhd_irq`. -/
def lhdIrq (s : LhdSystem ι) : LhdSystem ι :=
  match s.card.stat with
  | .finished code =>
    { s with card.stat := .LHD_IDLE, lhResult := lhdCodeToErrno code, lhDone := s.lhDone + 1 }
  | _ => s

/-- The card finishes an operation, leaving `buf` in its buffer. -/
def finish (s : LhdSystem ι) (op : Op ι) (buf : Block) (sectors : UInt32 → Block) : LhdSystem ι :=
  { s with
    card.stat := .finished op.code
    card.buf := buf
    card.sectors := sectors
    log := s.log ++ [op] }

/-- How the card carries an operation out. After a failed one the buffer may have
anything in it. -/
inductive Operates (dBlocks : UInt32) (s : LhdSystem ι) (i : ι) :
    UioRw → LhdSystem ι → Prop where
  | read : s.card.sect < dBlocks → Operates dBlocks s i .UIO_READ
      (s.finish ⟨i, .UIO_READ, s.card.sect, s.card.sectors s.card.sect, .LHD_OK⟩
        (s.card.sectors s.card.sect) s.card.sectors)
  | write : s.card.sect < dBlocks → Operates dBlocks s i .UIO_WRITE
      (s.finish ⟨i, .UIO_WRITE, s.card.sect, s.card.buf, .LHD_OK⟩ s.card.buf
        (update s.card.sectors s.card.sect s.card.buf))
  | media (rw : UioRw) (buf : Block) : s.card.sect < dBlocks → Operates dBlocks s i rw
      (s.finish ⟨i, rw, s.card.sect, s.card.buf, .LHD_MEDIA⟩ buf s.card.sectors)
  | invsect (rw : UioRw) (buf : Block) : dBlocks ≤ s.card.sect → Operates dBlocks s i rw
      (s.finish ⟨i, rw, s.card.sect, s.card.buf, .LHD_INVSECT⟩ buf s.card.sectors)

/-- The next access of some call, or of the card, or an interrupt. -/
inductive Step (dBlocks : UInt32) (req : ι → Request) (s : LhdSystem ι) : LhdSystem ι → Prop where
  | call (i : ι) : s.pc i = .call → Step dBlocks req s (s.goes i ((req i).enter dBlocks))
  | clear (i : ι) {k : Nat} : s.pc i = .clear k → s.lhClear ≠ 0 →
      Step dBlocks req s ({ s with lhClear := s.lhClear - 1 }.goes i
        (if (req i).rw = UioRw.UIO_WRITE then .fill k else .sect k))
  | fill (i : ι) {k : Nat} {buf : Block} : s.pc i = .fill k → (req i).source k = .ok buf →
      Step dBlocks req s ({ s with card.buf := buf }.goes i (.sect k))
  | fault (i : ι) {k : Nat} {e : Errno} : s.pc i = .fill k → (req i).source k = .error e →
      Step dBlocks req s (s.goes i (.refused e))
  | refused (i : ι) {e : Errno} : s.pc i = .refused e →
      Step dBlocks req s ({ s with lhClear := s.lhClear + 1 }.goes i (.returned (some e)))
  | sect (i : ι) {k : Nat} : s.pc i = .sect k →
      Step dBlocks req s ({ s with card.sect := (req i).sectorAt k }.goes i (.stat k))
  | stat (i : ι) {k : Nat} : s.pc i = .stat k →
      Step dBlocks req s
        ({ s with card.stat := .LHD_WORKING i (req i).rw }.goes i (.done k))
  | done (i : ι) {k : Nat} : s.pc i = .done k → s.lhDone ≠ 0 →
      Step dBlocks req s ({ s with lhDone := s.lhDone - 1 }.goes i (.result k))
  | result (i : ι) {k : Nat} : s.pc i = .result k →
      Step dBlocks req s (s.goes i
        (if s.lhResult = none ∧ (req i).rw = UioRw.UIO_READ then .drain k
          else .release k s.lhResult))
  | drain (i : ι) {k : Nat} : s.pc i = .drain k → (req i).sink k = none →
      Step dBlocks req s ({ s with got := update s.got i (s.got i ++ [s.card.buf]) }.goes i
        (.release k none))
  | drainFault (i : ι) {k : Nat} {e : Errno} : s.pc i = .drain k → (req i).sink k = some e →
      Step dBlocks req s (s.goes i (.release k (some e)))
  | release (i : ι) {k : Nat} {result : Option Errno} : s.pc i = .release k result →
      Step dBlocks req s ({ s with lhClear := s.lhClear + 1 }.goes i
        (if result ≠ none then .returned result else (req i).next (k + 1)))
  | card {i : ι} {rw : UioRw} {s' : LhdSystem ι} : s.card.stat = .LHD_WORKING i rw →
      Operates dBlocks s i rw s' → Step dBlocks req s s'
  | irq : Step dBlocks req s s.lhdIrq

/-- After `config_lhd`, with any data on the disk. -/
def initial (sectors : UInt32 → Block) : LhdSystem ι where
  card := ⟨0, .LHD_IDLE, .zero, sectors⟩
  lhClear := 1
  lhDone := 0
  lhResult := none
  pc := fun _ => .call
  got := fun _ => []
  log := []

def Reachable (dBlocks : UInt32) (req : ι → Request) (s : LhdSystem ι) : Prop :=
  ∃ sectors, Relation.ReflTransGen (Step dBlocks req) (initial sectors) s

end LhdSystem

end Os161.Dev
