import Mathlib.Logic.Function.Basic

/-!
# Programs that block on a device

A `Prog` is a kernel routine cut at the points where it touches the world
outside its own locals: it reads and writes a memory `M` that other threads
share, asks an allocator that may refuse, and transfers blocks `B` between
memory and a device addressed by `A`. Everything between two such points is
ordinary Lean.

The two transfers are the only places where a thread gives up the processor,
so they are the only places where the cut matters to anybody else. A write
names its source as a function of memory, not as a block: the driver copies
the data when it has been granted the device, and until then the buffer still
belongs to whoever runs.

`Prog.run` is the meaning for one thread alone. The device and the allocator
answer from scripts, one entry for each request, and an exhausted script means
that everything succeeds; a pattern of faults is then nothing but a value.
-/

namespace Os161.Lib

/-- A routine over shared memory `M` and a device with blocks `B` at addresses
`A`. `E` is the type of error codes, `F` the type of panics. -/
inductive Prog (M A B E F X : Type) : Type where
  | ret (x : X)
  | fail (f : F)
  | get (k : M → Prog M A B E F X)
  | set (m : M) (k : Prog M A B E F X)
  | malloc (k : Bool → Prog M A B E F X)
  | rd (a : A) (k : Except E B → Prog M A B E F X)
  | wr (a : A) (src : M → B) (k : Except E Unit → Prog M A B E F X)

variable {M A B E F X Y Z : Type}

namespace Prog

def bind : Prog M A B E F X → (X → Prog M A B E F Y) → Prog M A B E F Y
  | ret x, f => f x
  | fail e, _ => fail e
  | get k, f => get fun m => (k m).bind f
  | set m k, f => set m (k.bind f)
  | malloc k, f => malloc fun b => (k b).bind f
  | rd a k, f => rd a fun r => (k r).bind f
  | wr a src k, f => wr a src fun r => (k r).bind f

instance : Monad (Prog M A B E F) where
  pure := ret
  bind := bind

theorem bind_eq (p : Prog M A B E F X) (f : X → Prog M A B E F Y) :
    p >>= f = p.bind f := rfl

theorem bind_ret (p : Prog M A B E F X) : p.bind ret = p := by
  induction p with
  | ret x => rfl
  | fail e => rfl
  | get k ih => exact congrArg get (funext ih)
  | set m k ih => exact congrArg (set m) ih
  | malloc k ih => exact congrArg malloc (funext ih)
  | rd a k ih => exact congrArg (rd a) (funext ih)
  | wr a src k ih => exact congrArg (wr a src) (funext ih)

theorem bind_assoc (p : Prog M A B E F X) (f : X → Prog M A B E F Y) (g : Y → Prog M A B E F Z) :
    (p.bind f).bind g = p.bind fun x => (f x).bind g := by
  induction p with
  | ret x => rfl
  | fail e => rfl
  | get k ih => exact congrArg get (funext ih)
  | set m k ih => exact congrArg (set m) ih
  | malloc k ih => exact congrArg malloc (funext ih)
  | rd a k ih => exact congrArg (rd a) (funext ih)
  | wr a src k ih => exact congrArg (wr a src) (funext ih)

instance : LawfulMonad (Prog M A B E F) :=
  LawfulMonad.mk' _ (fun p => bind_ret p) (fun _ _ => rfl) bind_assoc

/-! ## The primitive steps, as programs of their own -/

/-- Stop the machine. -/
def panic (f : F) : Prog M A B E F X := fail f

/-- Read the shared memory. -/
def mem : Prog M A B E F M := get ret

/-- Replace the shared memory. -/
def put (m : M) : Prog M A B E F Unit := set m (ret ())

def modify (f : M → M) : Prog M A B E F Unit := get fun m => set (f m) (ret ())

/-- Ask the allocator; `false` is the null pointer. -/
def kmalloc : Prog M A B E F Bool := malloc ret

def read (a : A) : Prog M A B E F (Except E B) := rd a ret

def write (a : A) (src : M → B) : Prog M A B E F (Except E Unit) := wr a src ret

/-- Stop the machine unless `c` holds. -/
def assert (c : Prop) [Decidable c] (f : F) : Prog M A B E F Unit :=
  if c then ret () else fail f

end Prog

/-! ## Routines that return an error code

`if (result) return result;` after every call is what `ExceptT` spells as
sequencing. -/

section
variable {R : Type}

/-- Call a routine that cannot fail from one that can. -/
def call (p : Prog M A B E F X) : ExceptT R (Prog M A B E F) X := ExceptT.lift p

/-- `result = f(...)`, for the caller to look at. -/
def result (p : ExceptT R (Prog M A B E F) X) :
    ExceptT R (Prog M A B E F) (Except R X) := ExceptT.lift p.run

end

/-! ## One thread alone -/

/-- What the device and the allocator will answer, request by request. `none`
is a transfer that succeeds, `true` an allocation that does. -/
structure Script (E : Type) where
  rd : List (Option E) := []
  wr : List (Option E) := []
  mem : List Bool := []

/-- Nothing ever fails. -/
def Script.good : Script E := {}

structure Machine (M A B E : Type) where
  mem : M
  disk : A → B
  script : Script E := {}

inductive Outcome (F X : Type) : Type where
  | done (x : X)
  | crash (f : F)

namespace Machine

/-- The answer to the next read, and the machine it leaves behind. -/
def popRd (s : Machine M A B E) : Option E × Machine M A B E :=
  (s.script.rd.head?.getD none,
    { s with script := { s.script with rd := s.script.rd.tail } })

def popWr (s : Machine M A B E) : Option E × Machine M A B E :=
  (s.script.wr.head?.getD none,
    { s with script := { s.script with wr := s.script.wr.tail } })

def popMem (s : Machine M A B E) : Bool × Machine M A B E :=
  (s.script.mem.head?.getD true,
    { s with script := { s.script with mem := s.script.mem.tail } })

/-- The device performs a write. -/
def store [DecidableEq A] (s : Machine M A B E) (a : A) (b : B) : Machine M A B E :=
  { s with disk := Function.update s.disk a b }

end Machine

variable [DecidableEq A]

namespace Prog

def run : Prog M A B E F X → Machine M A B E → Outcome F X × Machine M A B E
  | ret x, s => (.done x, s)
  | fail f, s => (.crash f, s)
  | get k, s => (k s.mem).run s
  | set m k, s => k.run { s with mem := m }
  | malloc k, s => (k s.popMem.1).run s.popMem.2
  | rd a k, s =>
    match s.popRd.1 with
    | some e => (k (.error e)).run s.popRd.2
    | none => (k (.ok (s.disk a))).run s.popRd.2
  | wr a src k, s =>
    match s.popWr.1 with
    | some e => (k (.error e)).run s.popWr.2
    | none => (k (.ok ())).run (s.popWr.2.store a (src s.mem))

theorem run_bind (p : Prog M A B E F X) (f : X → Prog M A B E F Y) (s : Machine M A B E) :
    (p.bind f).run s =
      match p.run s with
      | (.done x, s') => (f x).run s' | (.crash e, s') => (.crash e, s') := by
  induction p generalizing s with
  | ret x => rfl
  | fail e => rfl
  | get k ih => exact ih _ _
  | set m k ih => exact ih _
  | malloc k ih => exact ih _ _
  | rd a k ih =>
    simp only [bind, run]
    split <;> exact ih _ _
  | wr a src k ih =>
    simp only [bind, run]
    split <;> exact ih _ _

variable {p : Prog M A B E F X} {s s' : Machine M A B E} {x : X} {R : Type}

theorem run_bind_done (h : p.run s = (.done x, s')) (f : X → Prog M A B E F Y) :
    (p.bind f).run s = (f x).run s' := by
  rw [run_bind, h]

/-- A sequence that has ended has ended with its second part. -/
theorem of_run_bind {f : X → Prog M A B E F Y} {y : Y} (h : (p >>= f).run s = (.done y, s')) :
    ∃ x s1, p.run s = (.done x, s1) ∧ (f x).run s1 = (.done y, s') := by
  have hb : (p.bind f).run s = (.done y, s') := h
  rw [run_bind] at hb
  split at hb
  · next x s1 hp => exact ⟨x, s1, hp, hb⟩
  · cases hb

/-- A routine that returns an error code has returned none. -/
theorem run_bind_ok {p : ExceptT R (Prog M A B E F) X} (h : p.run.run s = (.done (.ok x), s'))
    (f : X → ExceptT R (Prog M A B E F) Y) : (p >>= f).run.run s = (f x).run.run s' := by
  show (Prog.bind p.run (ExceptT.bindCont f)).run s = _
  exact run_bind_done h _

/-- It has returned one. -/
theorem run_bind_error {p : ExceptT R (Prog M A B E F) X} {e : R}
    (h : p.run.run s = (.done (.error e), s')) (f : X → ExceptT R (Prog M A B E F) Y) :
    (p >>= f).run.run s = (.done (.error e), s') := by
  show (Prog.bind p.run (ExceptT.bindCont f)).run s = _
  exact run_bind_done h _

end Prog

end Os161.Lib
