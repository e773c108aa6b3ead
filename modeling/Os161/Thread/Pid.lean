import Os161.Kern.Array

/-!
# The table of processes

`thread/pid.c`. The table is an array of pointers to `struct pidinfo`, and the
structures lie in kernel memory, one word for each field. Memory is modelled
as words here, and not as records, because of `findpidindex`: it takes the
entries for pointers to `struct thread` and compares the member `t_pid`. That
member is eighty bytes into a `struct thread`, and a `struct pidinfo` is twenty
bytes long, so the word that is compared belongs to whatever the allocator has
put behind the entry.

The parameters through which the routines hand back a value are cells that
exist. Addresses that the allocator returns are arguments (`info`, `cv`).
-/

namespace Os161.Thread

open Os161.Kern Os161.Lib

/-- A kernel address. A structure is known by the address it was allocated
at. -/
abbrev Addr := Nat

/-- An `int`, a `pid_t`, or a pointer that is stored in a field. -/
abbrev Word := BitVec 32

/-- What the routines of `pid.c` return other than zero. -/
inductive PidErr where
  | minusOne
  | errno (e : Errno)
  deriving DecidableEq, Repr

def PidErr.code : PidErr → Word
  | minusOne => -1
  | errno e => BitVec.ofNat 32 e.code

/-! ## Layout -/

/-- The members of `struct pidinfo`. -/
inductive Field where
  | pid
  | parentPid
  | hasexited
  | exitstatus
  | exitcv
  deriving DecidableEq

def Field.offset : Field → Nat
  | pid => 0
  | parentPid => 4
  | hasexited => 8
  | exitstatus => 12
  | exitcv => 16

def sizeofPidinfo : Nat := 20

/-- `struct pcb` is four words and a `jmp_buf` of eleven registers. -/
def sizeofPcb : Nat := 4 * 4 + 4 * 11

/-- Where `t_pid` is in a `struct thread`: behind `t_pcb`, `t_name`,
`t_sleepaddr`, `t_stack`, `t_vmspace` and `t_cwd`. -/
def tPidOffset : Nat := sizeofPcb + 5 * 4

/-! ## The table -/

structure PidTable where
  nextpid : Word
  infos : KArray Addr
  mem : Addr → Word

namespace PidTable

/-- `info->f`. -/
def load (t : PidTable) (info : Addr) (f : Field) : Word := t.mem (info + f.offset)

/-- `info->f = w`. -/
def store (t : PidTable) (info : Addr) (f : Field) (w : Word) : PidTable :=
  { t with mem := Function.update t.mem (info + f.offset) w }

/-- `array_getguy(pidinfoTable, i)`. -/
def guy (t : PidTable) (i : Nat) : Addr := t.infos.v.getD i 0

/-- `findpidindex`; `none` is the return value -1. -/
def findpidindex (t : PidTable) (pid : Word) : Option Nat :=
  t.infos.v.findIdx? fun p => t.mem (p + tPidOffset) == pid

/-- The five assignments of `pid_create`. -/
def fill (t : PidTable) (info : Addr) (ppid status exitcv : Word) : PidTable :=
  ((((t.store info .pid t.nextpid).store info .parentPid ppid).store info .hasexited 0).store
    info .exitstatus status).store info .exitcv exitcv

/-- `nextpid++`, and back to one at the largest pid. -/
def advance (nextpid : Word) : Word :=
  if nextpid + 1 = 2147483647 then 1 else nextpid + 1

/-- `pid_initialize`, over memory with arbitrary contents. -/
def pidInitialize (mem : Addr → Word) : PidTable := ⟨1, KArray.empty, mem⟩

end PidTable

/-! ## The routines

Each takes the table and hands it back; `f` is the panic for a null condition
variable, which `cv_destroy` and `cv_broadcast` assert against. -/

section
variable {M A B E F : Type}

/-- `cv_create`: the structure and its name. The null pointer is zero. -/
def cvCreate (cv : Addr) : Prog M A B E F Word := do
  let s ← Prog.kmalloc
  if s then do
    let name ← Prog.kmalloc
    pure (if name then BitVec.ofNat 32 cv else 0)
  else pure 0

/-- `pid_create`. Nobody looks at what `cv_create` returned. -/
def pidCreate (f : F) (t : PidTable) (info cv : Addr) (ppid status : Word) :
    Prog M A B E F (Except PidErr Word × PidTable) := do
  Prog.assert (0 ≤ ppid.toInt) f
  let new ← Prog.kmalloc
  if new then do
    let exitcv ← cvCreate cv
    let t := t.fill info ppid status exitcv
    match ← (arrayAdd t.infos info).run with
    | .error e => pure (.error (.errno e), t)
    | .ok infos =>
      pure (.ok t.nextpid, { t with infos := infos, nextpid := PidTable.advance t.nextpid })
  else pure (.error .minusOne, t)

/-- `result = findpidindex(pid, i); if (result) return result;` -/
def findpid (t : PidTable) (pid : Word) : ExceptT PidErr (Prog M A B E F) Nat :=
  match t.findpidindex pid with
  | none => throw .minusOne
  | some i => pure i

/-- `pid_destroy`. -/
def pidDestroy (f : F) (t : PidTable) (dpid : Word) :
    ExceptT PidErr (Prog M A B E F) PidTable := do
  let i ← findpid t dpid
  call (Prog.assert (t.load (t.guy i) .exitcv ≠ 0) f)
  pure { t with infos := t.infos.remove i }

/-- `pid_get`: parent, status, hasexited. -/
def pidGet (t : PidTable) (gpid : Word) :
    ExceptT PidErr (Prog M A B E F) (Word × Word × Word) := do
  let i ← findpid t gpid
  pure (t.load (t.guy i) .parentPid, t.load (t.guy i) .exitstatus,
    t.load (t.guy i) .hasexited)

/-- `pid_setexitstatus`. -/
def pidSetexitstatus (t : PidTable) (spid status : Word) :
    ExceptT PidErr (Prog M A B E F) PidTable := do
  let i ← findpid t spid
  pure (t.store (t.guy i) .exitstatus status)

/-- The condition variable that `pid_sethasexited` broadcasts on, if there is
to be a broadcast. -/
def exitBroadcast (f : F) (t : PidTable) (info : Addr) (hasexited : Word) :
    Prog M A B E F (Option Addr) :=
  if hasexited ≠ 0 then do
    Prog.assert (t.load info .exitcv ≠ 0) f
    pure (some (t.load info .exitcv).toNat)
  else pure none

/-- `pid_sethasexited`, up to the broadcast. -/
def pidSethasexited (f : F) (t : PidTable) (spid hasexited : Word) :
    ExceptT PidErr (Prog M A B E F) (PidTable × Option Addr) := do
  let i ← findpid t spid
  let t' := t.store (t.guy i) .hasexited hasexited
  let cv ← call (exitBroadcast f t' (t.guy i) hasexited)
  pure (t', cv)

end

/-! ## Calls -/

inductive PidPanic where
  | parent
  | cvDestroyNull
  | cvBroadcastNull
  deriving DecidableEq

/-- The calls that come in from the rest of the kernel, and the rest of the
kernel writing a word of its own. -/
inductive PidCall where
  | create (info cv : Addr) (ppid status : Word)
  | destroy (p : Word)
  | get (p : Word)
  | setexitstatus (p status : Word)
  | sethasexited (p hasexited : Word)
  | elsewhere (a : Addr) (w : Word)

inductive PidAnswer where
  | done
  | created (p : Word)
  | got (parent status hasexited : Word)
  | error (e : PidErr)
  deriving DecidableEq

/-- The table is the memory of these programs. -/
abbrev PidProg : Type → Type := Prog PidTable Empty Unit Empty PidPanic

def answer {X : Type} (p : ExceptT PidErr PidProg X) (k : X → PidProg PidAnswer) :
    PidProg PidAnswer := do
  match ← p.run with
  | .ok x => k x
  | .error e => pure (.error e)

def PidCall.prog : PidCall → PidProg PidAnswer
  | create info cv ppid status => do
      let (r, t) ← pidCreate .parent (← Prog.mem) info cv ppid status
      Prog.put t
      match r with
      | .ok p => pure (.created p)
      | .error e => pure (.error e)
  | destroy p => do
      let t ← Prog.mem
      answer (pidDestroy .cvDestroyNull t p) fun t' => do
        Prog.put t'
        pure .done
  | get p => do
      let t ← Prog.mem
      answer (pidGet t p) fun (parent, status, hasexited) =>
        pure (.got parent status hasexited)
  | setexitstatus p status => do
      let t ← Prog.mem
      answer (pidSetexitstatus t p status) fun t' => do
        Prog.put t'
        pure .done
  | sethasexited p hasexited => do
      let t ← Prog.mem
      answer (pidSethasexited .cvBroadcastNull t p hasexited) fun (t', _) => do
        Prog.put t'
        pure .done
  | elsewhere a w => do
      Prog.modify fun t => { t with mem := Function.update t.mem a w }
      pure .done

end Os161.Thread
