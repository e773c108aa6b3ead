import Os161.Kern.Queue

/-!
# Queues, cell by cell

`lib/queue.c` as it is written. The queue is changed in place, its storage is an
array that an index may miss (`Panic.wild`), and `q_grow` puts the entries into the
new array one at a time, by calling `q_addtail` on the queue that it has half
changed. Since `q_addtail` may call `q_grow`, the first argument of `qAddtail` says how
many of its calls may be under way at a time; the call below the last one is
`Panic.depth`.

`nsize` is an `int`, and doubling one of 2^30 or more gives a number that is not
positive. The size that `kmalloc` is asked for is computed modulo 2^32. What is in new
storage is a parameter.
-/

namespace Os161.Kern

open Os161.Lib

/-- `struct queue`, with its cells. -/
structure Ring (α : Type) where
  size : Nat
  nextwrite : Nat
  nextread : Nat
  data : List α

namespace Ring

inductive Panic where
  /-- `assert(q->size > 0)`. -/
  | size
  /-- `assert(nsize > 0)`. -/
  | nsize
  /-- `assert(result==0)`. -/
  | result
  /-- `assert(!q_empty(q))`. -/
  | empty
  /-- A cell outside the storage. -/
  | wild
  /-- A loop that does not end. -/
  | hangs
  | depth
  deriving DecidableEq

section
variable (α : Type)

abbrev RProg : Type → Type := Prog (Ring α) Empty Unit Empty Panic

abbrev RingM : Type → Type := ExceptT Errno (RProg α)

end

variable {α : Type}

/-- `data[i]`. -/
def cell (data : List α) (i : Nat) : RProg α α :=
  match data[i]? with
  | some x => pure x
  | none => Prog.panic .wild

/-- What `kmalloc` returns for `n` pointers. -/
def newCells (garbage : Nat → α) (n : Nat) : List α :=
  (List.range (n * 4 % 4294967296 / 4)).map garbage

/-- The loop of `q_grow` that doubles the size. -/
def qGrow.double (targetsize : Nat) : Nat → Nat → RProg α Nat
  | 0, nsize => if nsize < targetsize then Prog.panic .hangs else pure nsize
  | k + 1, nsize =>
    if nsize < targetsize then do
      Prog.assert (nsize * 2 < 2147483648) .nsize
      qGrow.double targetsize k (nsize * 2)
    else pure nsize

/-- The loop of `q_grow` that adds the old entries, from index `i` on. -/
def qGrow.copy (add : α → RingM α Unit) (old : Ring α) : Nat → Nat → RProg α Unit
  | 0, i => if i = old.nextwrite then pure () else Prog.panic .hangs
  | k + 1, i =>
    if i = old.nextwrite then pure ()
    else do
      let ptr ← cell old.data i
      let result ← (add ptr).run
      match result with
      | .ok () => qGrow.copy add old k ((i + 1) % old.size)
      | .error _ => Prog.panic .result

/-- `q_grow`, which calls `q_addtail` as `add`. -/
def qGrow (garbage : Nat → α) (add : α → RingM α Unit) (targetsize : Nat) : RingM α Unit := do
  let q ← call Prog.mem
  let nsize ← call (qGrow.double targetsize targetsize q.size)
  if ← call Prog.kmalloc then
    call (Prog.put
      { size := nsize, nextwrite := 0, nextread := 0, data := newCells garbage nsize })
    call (qGrow.copy add q q.size q.nextread)
  else throw .ENOMEM

/-- The end of `q_addtail`. -/
def qAddtail.store (ptr : α) : RProg α Unit := do
  let q ← Prog.mem
  Prog.assert (q.nextwrite < q.data.length) .wild
  Prog.put { q with
    nextwrite := (q.nextwrite + 1) % q.size
    data := q.data.set q.nextwrite ptr }

/-- `q_addtail`. -/
def qAddtail (garbage : Nat → α) : Nat → α → RingM α Unit
  | 0, _ => call (Prog.panic .depth)
  | depth + 1, ptr => do
      let q ← call Prog.mem
      call (Prog.assert (0 < q.size) .size)
      if (q.nextwrite + 1) % q.size = q.nextread then do
        qGrow garbage (qAddtail garbage depth) (q.size + 1)
        call (qAddtail.store ptr)
      else call (qAddtail.store ptr)

/-- `q_preallocate`. -/
def qPreallocate (garbage : Nat → α) (depth : Nat) (size : Int) : RingM α Unit := do
  let q ← call Prog.mem
  call (Prog.assert (0 < q.size) .size)
  if (q.size : Int) < size then qGrow garbage (qAddtail garbage depth) size.toNat
  else pure ()

/-- `q_remhead`. -/
def qRemhead : RProg α α := do
  let q ← Prog.mem
  Prog.assert (0 < q.size) .size
  Prog.assert (q.nextwrite ≠ q.nextread) .empty
  let ret ← cell q.data q.nextread
  Prog.put { q with nextread := (q.nextread + 1) % q.size }
  pure ret

/-- `q_create`. -/
def qCreate (garbage : Nat → α) (size : Nat) :
    Prog Unit Empty Unit Empty Panic (Option (Ring α)) := do
  if ← Prog.kmalloc then
    if ← Prog.kmalloc then
      pure (some
        { size := size, nextwrite := 0, nextread := 0, data := newCells garbage size })
    else pure none
  else pure none

/-! ## Calls -/

inductive Op (α : Type) where
  | addtail (ptr : α)
  | remhead
  | preallocate (size : Int)

/-- What a call returns. -/
inductive Answer (α : Type) where
  | zero
  | errno (e : Errno)
  | ptr (x : α)

def Answer.ofResult : Except Errno Unit → Answer α
  | .ok () => .zero
  | .error e => .errno e

/-- A call from outside. One level of recursion is allowed: a `q_addtail` inside the
`q_grow` of another one, or of `q_preallocate`. -/
def Op.prog (garbage : Nat → α) : Op α → RProg α (Answer α)
  | .addtail ptr => do
      let result ← (qAddtail garbage 2 ptr).run
      pure (.ofResult result)
  | .remhead => do
      let ret ← qRemhead
      pure (.ptr ret)
  | .preallocate size => do
      let result ← (qPreallocate garbage 1 size).run
      pure (.ofResult result)

/-- The entries from the head to the tail. -/
def contents (q : Ring α) : List α :=
  (List.range ((q.nextwrite + q.size - q.nextread) % q.size)).filterMap fun i =>
    q.data[(q.nextread + i) % q.size]?

/-- The size that `q_grow` asks for. -/
def grown (q : Ring α) (targetsize : Nat) : Nat := Queue.newsize targetsize targetsize q.size

end Ring

end Os161.Kern
