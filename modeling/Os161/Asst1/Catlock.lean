import Mathlib.Logic.Function.Basic
import Mathlib.Logic.Relation

/-!
# The kitchen

`asst1/catlock.c`: any number of cats and mice share two dishes. `catlock` and
`mouselock` are one text with two sets of variables, except for `change_turn`,
which looks at the mice first; here that text is written once, for an `Animal`,
and the variables `cats_…` and `mice_…` are one record for each of the two.

A thread holds `mutex` from `lock_acquire` to `lock_release`, or to the point
where `cv_wait` lets go of it. What it does in between is one step, and the
point at which it has let go is its `Pc`. A thread that is woken has to take
`mutex` again before it looks at the turn: `woken` is the state in between, in
which any other thread may be faster.
-/

namespace Os161.Asst1

open Function

/-- The value of a C `int` expression. -/
def int (x : Int) : Int := Int.bmod x 4294967296

inductive Turn where
  | nocatmouse
  | cats
  | mice
  deriving DecidableEq

inductive Animal where
  | cat
  | mouse
  deriving DecidableEq

/-- `turn_cv` and `done_cv`. -/
inductive Cv where
  | turn
  | done
  deriving DecidableEq

/-- The turn an animal waits for. -/
def Animal.turn : Animal → Turn
  | .cat => .cats
  | .mouse => .mice

/-- The condition variable it waits on. -/
def Animal.cv : Animal → Cv
  | .cat => .turn
  | .mouse => .done

def Animal.other : Animal → Animal
  | .cat => .mouse
  | .mouse => .cat

/-- `cats_wait_count`, `cats_in_this_turn`, `cats_eat_count`, `cats_done`, and
the same for the mice. -/
structure Counts where
  waitCount : Int
  inThisTurn : Int
  eatCount : Int
  done : Int
  deriving DecidableEq

structure Kitchen where
  turnType : Turn
  dish1Busy : Int
  dish2Busy : Int
  counts : Animal → Counts

/-- What is done to a condition variable with `mutex` held. -/
inductive Wake where
  | signal (cv : Cv)
  | broadcast (cv : Cv)
  deriving DecidableEq

namespace Kitchen

/-- The variables of one animal are changed. -/
def modify (k : Kitchen) (a : Animal) (f : Counts → Counts) : Kitchen :=
  { k with counts := update k.counts a (f (k.counts a)) }

/-- The turn is given to an animal, with two places at the dishes. -/
def giveTurn (k : Kitchen) (a : Animal) : Kitchen :=
  { k with turnType := a.turn }.modify a fun c => { c with inThisTurn := 2 }

/-- `change_turn`. -/
def changeTurn (k : Kitchen) : Kitchen × List Wake :=
  if (k.counts .mouse).waitCount ≠ 0 then
    (k.giveTurn .mouse, [.broadcast .done])
  else if (k.counts .cat).waitCount ≠ 0 then
    (k.giveTurn .cat, [.broadcast .turn])
  else
    ({ k with turnType := .nocatmouse }, [])

/-- The first free dish is taken: `mydish`. -/
def takeDish (k : Kitchen) : Int × Kitchen :=
  if k.dish1Busy = 0 then
    (1, { k with dish1Busy := 1 })
  else
    (2, { k with dish2Busy := 1 })

def freeDish (k : Kitchen) (mydish : Int) : Kitchen :=
  if mydish = 1 then
    { k with dish1Busy := 0 }
  else
    { k with dish2Busy := 0 }

end Kitchen

/-- Where a thread is while it does not hold `mutex`. -/
inductive Pc where
  /-- Before the first `lock_acquire`. -/
  | start
  /-- Asleep in `cv_wait`. -/
  | waiting
  /-- Woken, and about to take `mutex` again in `cv_wait`. -/
  | woken
  /-- In `clocksleep`. -/
  | eating (mydish : Int)
  /-- After the second `lock_release`. -/
  | left
  | finished
  deriving DecidableEq

namespace Animal

/-- The test of the `while` loop, and what follows it up to `cv_wait` or
`lock_release`. -/
def tryEat (a : Animal) (k : Kitchen) : Pc × Kitchen :=
  if k.turnType ≠ a.turn ∨ (k.counts a).inThisTurn = 0 then
    (.waiting, k)
  else
    let k := k.modify a fun c =>
      { c with inThisTurn := int (c.inThisTurn - 1), eatCount := int (c.eatCount + 1) }
    let (mydish, k) := k.takeDish
    (.eating mydish, k)

/-- From the first `lock_acquire` to the loop. -/
def arrive (a : Animal) (k : Kitchen) : Pc × Kitchen :=
  let k := k.modify a fun c => { c with waitCount := int (c.waitCount + 1) }
  if k.turnType = .nocatmouse then
    a.tryEat (k.giveTurn a)
  else
    a.tryEat k

/-- One waiting animal of the same kind is called in, if none of the other kind
waits. -/
def callNext (a : Animal) (k : Kitchen) : Kitchen × List Wake :=
  if (k.counts a.other).waitCount = 0 ∧ (k.counts a).waitCount ≠ 0 then
    (k.modify a fun c => { c with inThisTurn := int (c.inThisTurn + 1) }, [.signal a.cv])
  else
    (k, [])

/-- From the second `lock_acquire` to its `lock_release`. -/
def leave (a : Animal) (mydish : Int) (k : Kitchen) : Kitchen × List Wake :=
  let k := (k.freeDish mydish).modify a fun c =>
    { c with eatCount := int (c.eatCount - 1), waitCount := int (c.waitCount - 1) }
  let (k, signals) := a.callNext k
  if (k.counts a).eatCount = 0 then
    let (k, wakes) := k.changeTurn
    (k, signals ++ wakes)
  else
    (k, signals)

/-- The next step of a thread, and where it leaves it. A thread that sleeps
or has finished takes none. -/
def lock (a : Animal) (pc : Pc) (k : Kitchen) : Option (Pc × Kitchen × List Wake) :=
  match pc with
  | .start => let (pc, k) := a.arrive k; some (pc, k, [])
  | .waiting => none
  | .woken => let (pc, k) := a.tryEat k; some (pc, k, [])
  | .eating mydish => let (k, wakes) := a.leave mydish k; some (.left, k, wakes)
  | .left => some (.finished, k.modify a fun c => { c with done := int (c.done + 1) }, [])
  | .finished => none

end Animal

/-- `catlock`. -/
def catlock : Pc → Kitchen → Option (Pc × Kitchen × List Wake) := Animal.lock .cat

/-- `mouselock`. -/
def mouselock : Pc → Kitchen → Option (Pc × Kitchen × List Wake) := Animal.lock .mouse

def Animal.thread : Animal → Pc → Kitchen → Option (Pc × Kitchen × List Wake)
  | .cat => catlock
  | .mouse => mouselock

/-! ## All threads together -/

/-- `ι` are the threads, and `kind` says which of the two routines one runs. -/
structure System (ι : Type) where
  kitchen : Kitchen
  pc : ι → Pc

section Steps

variable {ι : Type} [DecidableEq ι] (kind : ι → Animal)

/-- Thread `i` sleeps on the condition variable. -/
def Sleeps (cv : Cv) (pc : ι → Pc) (i : ι) : Prop := pc i = .waiting ∧ (kind i).cv = cv

/-- What a signal or a broadcast makes of the threads. Which of the sleepers a
signal wakes is left open. -/
inductive Wake.Does : Wake → (ι → Pc) → (ι → Pc) → Prop where
  | signal {cv : Cv} {pc : ι → Pc} (i : ι) :
      Sleeps kind cv pc i → Wake.Does (.signal cv) pc (update pc i .woken)
  | nobody {cv : Cv} {pc : ι → Pc} :
      (∀ i, ¬ Sleeps kind cv pc i) → Wake.Does (.signal cv) pc pc
  | broadcast {cv : Cv} {pc pc' : ι → Pc} :
      (∀ i, Sleeps kind cv pc i → pc' i = .woken) →
      (∀ i, ¬ Sleeps kind cv pc i → pc' i = pc i) → Wake.Does (.broadcast cv) pc pc'

/-- The wakes of one step, in their order. -/
inductive Wakes : List Wake → (ι → Pc) → (ι → Pc) → Prop where
  | nil (pc : ι → Pc) : Wakes [] pc pc
  | cons {w : Wake} {ws : List Wake} {pc pc₁ pc₂ : ι → Pc} :
      w.Does kind pc pc₁ → Wakes ws pc₁ pc₂ → Wakes (w :: ws) pc pc₂

/-- Some thread takes `mutex` and runs to the point where it lets go of it. -/
inductive System.Step : System ι → System ι → Prop where
  | mk {s : System ι} {i : ι} {pc : Pc} {k : Kitchen} {ws : List Wake} {pcs : ι → Pc} :
      (kind i).thread (s.pc i) s.kitchen = some (pc, k, ws) →
      Wakes kind ws (update s.pc i pc) pcs → System.Step s ⟨k, pcs⟩

/-- The state `catmouselock` sets up before it forks the first thread. -/
def System.initial : System ι where
  kitchen := ⟨.nocatmouse, 0, 0, fun _ => ⟨0, 0, 0, 0⟩⟩
  pc := fun _ => .start

def System.Reachable : System ι → Prop := Relation.ReflTransGen (System.Step kind) System.initial

def System.Eats (s : System ι) (i : ι) (mydish : Int) : Prop := s.pc i = .eating mydish

end Steps

end Os161.Asst1
