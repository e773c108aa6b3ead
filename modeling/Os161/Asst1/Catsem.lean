import Mathlib.Data.Set.Card
import Os161.Asst1.Catlock

/-!
# The kitchen with a semaphore

`asst1/catsem.c`. `catsem` and `mousesem` are one text again, with the two names of each
variable exchanged. Nothing here is done under a lock: `mutex` is a semaphore that lets
two in, and the room is watched by reading variables in a loop. So every read and every
write of a variable is a step of its own, `catsInRoom++` is two of them, and `SemPc` is
the one that comes next.
-/

namespace Os161.Asst1

open Function

structure Room where
  mutex : Nat
  /-- `catsInRoom`, `miceInRoom`. -/
  inRoom : Animal → Int
  dish1Busy : Int
  dish2Busy : Int
  waiting : Int
  /-- `catsDone`, `miceDone`. -/
  done : Animal → Int

/-- What `waiting` is when an animal of the kind waits. -/
def Animal.mark : Animal → Int
  | .cat => 1
  | .mouse => -1

inductive SemPc where
  /-- The two reads of the `while`. -/
  | test
  | testWaiting
  /-- The read and the write in its body. -/
  | body
  | claim
  /-- `waiting = 0`. -/
  | unwait
  /-- `catsInRoom++`, and the value that has been read. -/
  | enterRead
  | enterWrite (n : Int)
  /-- `P(mutex)`. -/
  | wait
  /-- The read of `dish_1_busy`, and the write of the dish that is taken. -/
  | choose
  | take (dish : Int)
  /-- Up to the write that frees the dish. -/
  | eating (dish : Int)
  /-- `catsDone++`. -/
  | doneRead
  | doneWrite (n : Int)
  /-- `catsInRoom--`. -/
  | leaveRead
  | leaveWrite (n : Int)
  /-- `V(mutex)`. -/
  | signal
  | finished
  deriving DecidableEq

namespace Room

def setDish (r : Room) (dish busy : Int) : Room :=
  if dish = 1 then
    { r with dish1Busy := busy }
  else
    { r with dish2Busy := busy }

def setInRoom (r : Room) (a : Animal) (n : Int) : Room :=
  { r with inRoom := update r.inRoom a n }

def setDone (r : Room) (a : Animal) (n : Int) : Room :=
  { r with done := update r.done a n }

end Room

/-- The next step of a thread, if it has one. -/
def Animal.sem (a : Animal) (pc : SemPc) (r : Room) : Option (SemPc × Room) :=
  match pc with
  | .test => some (if r.inRoom a.other > 0 then .body else .testWaiting, r)
  | .testWaiting => some (if r.waiting = a.other.mark then .body else .unwait, r)
  | .body => some (if r.waiting = 0 then .claim else .test, r)
  | .claim => some (.test, { r with waiting := a.mark })
  | .unwait => some (.enterRead, { r with waiting := 0 })
  | .enterRead => some (.enterWrite (r.inRoom a), r)
  | .enterWrite n => some (.wait, r.setInRoom a (int (n + 1)))
  | .wait => if r.mutex = 0 then none else some (.choose, { r with mutex := r.mutex - 1 })
  | .choose => some (.take (if r.dish1Busy = 0 then 1 else 2), r)
  | .take dish => some (.eating dish, r.setDish dish 1)
  | .eating dish => some (.doneRead, r.setDish dish 0)
  | .doneRead => some (.doneWrite (r.done a), r)
  | .doneWrite n => some (.leaveRead, r.setDone a (int (n + 1)))
  | .leaveRead => some (.leaveWrite (r.inRoom a), r)
  | .leaveWrite n => some (.signal, r.setInRoom a (int (n - 1)))
  | .signal => some (.finished, { r with mutex := r.mutex + 1 })
  | .finished => none

def catsem : SemPc → Room → Option (SemPc × Room) := Animal.sem .cat

def mousesem : SemPc → Room → Option (SemPc × Room) := Animal.sem .mouse

def Animal.semThread : Animal → SemPc → Room → Option (SemPc × Room)
  | .cat => catsem
  | .mouse => mousesem

/-- `ι` are the threads, and `kind` says which of the two routines one runs. -/
structure SemSystem (ι : Type) where
  room : Room
  pc : ι → SemPc

namespace SemSystem

variable {ι : Type} [DecidableEq ι] (kind : ι → Animal)

/-- Thread `i` takes its next step. -/
inductive Step (i : ι) (s : SemSystem ι) : SemSystem ι → Prop where
  | mk {pc : SemPc} {r : Room} : (kind i).semThread (s.pc i) s.room = some (pc, r) →
      Step i s ⟨r, update s.pc i pc⟩

/-- The state `catmousesem` sets up before it forks the first thread. -/
def initial : SemSystem ι where
  room := ⟨2, fun _ => 0, 0, 0, 0, fun _ => 0⟩
  pc := fun _ => .test

def Reachable : SemSystem ι → Prop :=
  Relation.ReflTransGen (fun s s' => ∃ i, s.Step kind i s') initial

def Eats (s : SemSystem ι) (i : ι) (dish : Int) : Prop := s.pc i = .eating dish

/-- No cat eats while a mouse does, at most two animals eat, and from different dishes. -/
def Safe (s : SemSystem ι) : Prop :=
  (∀ i j d e, kind i = .cat → kind j = .mouse → s.Eats i d → ¬ s.Eats j e) ∧
  {i | ∃ d, s.Eats i d}.encard ≤ 2 ∧
  ∀ i j d e, i ≠ j → s.Eats i d → s.Eats j e → d ≠ e

end SemSystem

end Os161.Asst1
