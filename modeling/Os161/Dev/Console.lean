import Mathlib.Logic.Function.Basic
import Mathlib.Logic.Relation

/-!
# The console on a serial port

`dev/generic/console.c` on `dev/lamebus/lser.c`. Threads print through `putch_intr` and
read through `getch_intr`; whoever runs with interrupts off prints through
`lser_writepolled`. There is one processor, so while it runs `lser_irq` or
`lser_writepolled`, with interrupts off, no thread goes on, but the port does. These
two are therefore cut at each access to a register of the port; `lser_write` has one
such access and is a single step.

The port keeps its write-ready condition in `LSER_REG_WIRQ` from some time after a
character has been written to the time it is acknowledged.
-/

namespace Os161.Dev

/-- The serial port. -/
structure Port where
  /-- How many characters have been written and not been reported ready. -/
  sending : Nat
  /-- `LSER_IRQ_ACTIVE` in `LSER_REG_WIRQ`. -/
  wirq : Bool
  /-- `LSER_IRQ_ACTIVE` in `LSER_REG_RIRQ`. -/
  rirq : Bool
  /-- What `LSER_REG_CHAR` reads as. -/
  char : Int
  /-- What has been written to it. -/
  output : List Int
  deriving DecidableEq

/-- The variables of `lser_softc` and `con_softc` behind the two drivers, and the history
of the console, which nothing reads. -/
structure Console where
  port : Port
  lsWbusy : Bool
  csRsem : Nat
  csWsem : Nat
  csGotchar : Int
  /-- The characters of `lser_write`. -/
  written : List Int
  /-- The calls of `con_start`. -/
  started : Nat
  /-- The arguments of `con_input`. -/
  received : List Int
  /-- The results of `getch`. -/
  returned : List Int
  deriving DecidableEq

namespace Console

/-- A character is put into `LSER_REG_CHAR`. -/
def putChar (c : Console) (ch : Int) : Console :=
  { c with port := { c.port with
      sending := c.port.sending + 1, output := c.port.output ++ [ch] } }

/-- `LSER_IRQ_ENABLE` is written to `LSER_REG_WIRQ`: the condition is acknowledged. -/
def ackWrite (c : Console) : Console := { c with port := { c.port with wirq := false } }

def ackRead (c : Console) : Console := { c with port := { c.port with rirq := false } }

def conStart (c : Console) : Console :=
  { c with csWsem := c.csWsem + 1, started := c.started + 1 }

def conInput (c : Console) (ch : Int) : Console :=
  { c with csGotchar := ch, csRsem := c.csRsem + 1, received := c.received ++ [ch] }

/-- `lser_write`; `none` is its panic. -/
def lserWrite (c : Console) (ch : Int) : Option Console :=
  if c.lsWbusy then
    none
  else
    some { c.putChar ch with lsWbusy := true, written := c.written ++ [ch] }

/-- The second half of `getch_intr`. -/
def getchar (c : Console) : Console := { c with returned := c.returned ++ [c.csGotchar] }

end Console

/-- Where the processor is with interrupts off. -/
inductive Cpu where
  /-- Nowhere: some thread runs. -/
  | idle
  /-- `lser_irq`, before each of its accesses to the port. -/
  | irq
  | irqAck
  | irqRead (clearToWrite : Bool)
  | irqChar (clearToWrite : Bool)
  | irqReadAck (clearToWrite : Bool) (ch : Int)
  /-- Before `ls_start`. -/
  | irqStart (clearToWrite : Bool) (gotARead : Option Int)
  /-- Before `ls_input`. -/
  | irqInput (gotARead : Option Int)
  /-- `lser_writepolled`, and again each of its accesses. -/
  | polled (ch : Int)
  | spin (ch : Int)
  | spinAck (ch : Int)
  | send (irqpending : Bool) (ch : Int)
  | finish (irqpending : Bool)
  | finishAck
  deriving DecidableEq

/-- The next access. In `lser_spin_until_write` it may be the same one again. -/
def Cpu.next (cpu : Cpu) (c : Console) : Option (Cpu × Console) :=
  match cpu with
  | .idle => none
  | .irq =>
    if c.port.wirq then
      some (.irqAck, { c with lsWbusy := false })
    else
      some (.irqRead false, c)
  | .irqAck => some (.irqRead true, c.ackWrite)
  | .irqRead clearToWrite =>
    if c.port.rirq then
      some (.irqChar clearToWrite, c)
    else
      some (.irqStart clearToWrite none, c)
  | .irqChar clearToWrite => some (.irqReadAck clearToWrite c.port.char, c)
  | .irqReadAck clearToWrite ch => some (.irqStart clearToWrite (some ch), c.ackRead)
  | .irqStart clearToWrite gotARead =>
    some (.irqInput gotARead, if clearToWrite then c.conStart else c)
  | .irqInput gotARead =>
    some (.idle, match gotARead with
      | some ch => c.conInput ch
      | none => c)
  | .polled ch =>
    if c.lsWbusy then
      some (.spin ch, c)
    else
      some (.send false ch, c)
  | .spin ch =>
    if c.port.wirq then
      some (.spinAck ch, c)
    else
      some (.spin ch, c)
  | .spinAck ch => some (.send true ch, c.ackWrite)
  | .send irqpending ch => some (.finish irqpending, c.putChar ch)
  | .finish irqpending =>
    if c.port.wirq then
      some (if irqpending then .idle else .finishAck, c)
    else
      some (.finish irqpending, c)
  | .finishAck => some (.idle, c.ackWrite)

/-- Where a thread is. -/
inductive ConPc where
  | idle
  /-- In `putch_intr`, between `P(cs_wsem)` and `cs_send`. -/
  | putch (ch : Int)
  /-- In `getch_intr`, between `P(cs_rsem)` and the read of `cs_gotchar`. -/
  | getch
  deriving DecidableEq

/-- `ι` are the threads. -/
structure ConSystem (ι : Type) where
  console : Console
  cpu : Cpu
  pc : ι → ConPc
  panicked : Bool

namespace ConSystem

variable {ι : Type} [DecidableEq ι]

/-- The port raises its write-ready condition. -/
def ready (s : ConSystem ι) : ConSystem ι :=
  { s with console.port.sending := s.console.port.sending - 1, console.port.wirq := true }

/-- A character has come in. -/
def typed (s : ConSystem ι) (ch : Int) : ConSystem ι :=
  { s with console.port.rirq := true, console.port.char := ch }

/-- Thread `i` goes on to another place. -/
def goes (s : ConSystem ι) (i : ι) (pc : ConPc) (c : Console) : ConSystem ι :=
  { s with console := c, pc := Function.update s.pc i pc }

/-- What happens next. A thread takes a step only where interrupts are on, and that is
also where an interrupt is taken or somebody turns interrupts off to print. -/
inductive Step (s : ConSystem ι) : ConSystem ι → Prop where
  | waitWrite (i : ι) (ch : Int) : s.cpu = .idle → s.pc i = .idle → s.console.csWsem ≠ 0 →
      Step s (s.goes i (.putch ch) { s.console with csWsem := s.console.csWsem - 1 })
  | write (i : ι) {ch : Int} {c : Console} : s.cpu = .idle → s.pc i = .putch ch →
      s.console.lserWrite ch = some c → Step s (s.goes i .idle c)
  | panic (i : ι) {ch : Int} : s.cpu = .idle → s.pc i = .putch ch →
      s.console.lserWrite ch = none → Step s { s with panicked := true }
  | waitRead (i : ι) : s.cpu = .idle → s.pc i = .idle → s.console.csRsem ≠ 0 →
      Step s (s.goes i .getch { s.console with csRsem := s.console.csRsem - 1 })
  | read (i : ι) : s.cpu = .idle → s.pc i = .getch → Step s (s.goes i .idle s.console.getchar)
  | interrupt : s.cpu = .idle → Step s { s with cpu := .irq }
  | printPolled (ch : Int) : s.cpu = .idle → Step s { s with cpu := .polled ch }
  | next {cpu : Cpu} {c : Console} : s.cpu.next s.console = some (cpu, c) →
      Step s { s with cpu := cpu, console := c }
  | ready : s.console.port.sending ≠ 0 → Step s s.ready
  | typed (ch : Int) : Step s (s.typed ch)

/-- After `config_con` and `config_lser`. -/
def initial : ConSystem ι where
  console := ⟨⟨0, false, false, 0, []⟩, false, 0, 1, 0, [], 0, [], []⟩
  cpu := .idle
  pc := fun _ => .idle
  panicked := false

def Reachable : ConSystem ι → Prop := Relation.ReflTransGen Step initial

end ConSystem

end Os161.Dev
