import Os161.Kern.Errno
import Os161.Lib.Atomic

/-!
# Queues of pointers

`lib/queue.c`. A queue is a ring: it is empty when the two indices coincide, so
a ring of `size` cells is full with `size - 1` entries in it. The cells outside
the occupied stretch keep whatever was in them.

A ring that is full grows when something is to be added, and only then is the
allocator asked. `q_preallocate` sees to `size` cells, that is to room for one
entry less.
-/

namespace Os161.Kern

open Os161.Lib Function

/-- `struct queue`. -/
structure Queue (α : Type) where
  size : Nat
  nextwrite : Nat
  nextread : Nat
  data : Nat → α
  write_lt : nextwrite < size
  read_lt : nextread < size

variable {α M A B E F : Type}

namespace Queue

/-- How many cells are occupied. -/
def len (q : Queue α) : Nat := (q.nextwrite + q.size - q.nextread) % q.size

/-- The entries from the head to the tail. -/
def toList (q : Queue α) : List α :=
  (List.range q.len).map fun i => q.data ((q.nextread + i) % q.size)

/-- `q_empty`. -/
def isEmpty (q : Queue α) : Bool := q.nextwrite == q.nextread

def isFull (q : Queue α) : Bool := (q.nextwrite + 1) % q.size == q.nextread

/-- The end of `q_addtail`. -/
def put (q : Queue α) (ptr : α) : Queue α where
  size := q.size
  nextwrite := (q.nextwrite + 1) % q.size
  nextread := q.nextread
  data := update q.data q.nextwrite ptr
  write_lt := Nat.mod_lt _ (Nat.zero_lt_of_lt q.write_lt)
  read_lt := q.read_lt

/-- `q_remhead`: the entry, and the queue without it. -/
def head (q : Queue α) : α := q.data q.nextread

def tail (q : Queue α) : Queue α where
  size := q.size
  nextwrite := q.nextwrite
  nextread := (q.nextread + 1) % q.size
  data := q.data
  write_lt := q.write_lt
  read_lt := Nat.mod_lt _ (Nat.zero_lt_of_lt q.write_lt)

/-- A ring with nothing in it, over cells with arbitrary contents. -/
def blank (size : Nat) (h : 0 < size) (data : Nat → α) : Queue α where
  size := size
  nextwrite := 0
  nextread := 0
  data := data
  write_lt := h
  read_lt := h

/-- The loop of `q_grow` that doubles the size. -/
def newsize (targetsize : Nat) : Nat → Nat → Nat
  | 0, n => n
  | fuel + 1, n => if n < targetsize then newsize targetsize fuel (n * 2) else n

theorem le_newsize (targetsize fuel n : Nat) : n ≤ newsize targetsize fuel n := by
  induction fuel generalizing n with
  | zero => exact Nat.le_refl n
  | succ fuel ih =>
    rw [newsize]
    split
    · exact Nat.le_trans (by omega) (ih _)
    · exact Nat.le_refl n

theorem target_le_newsize {targetsize fuel n : Nat} (hn : 0 < n)
    (h : targetsize ≤ n + fuel) : targetsize ≤ newsize targetsize fuel n := by
  induction fuel generalizing n with
  | zero => exact h
  | succ fuel ih =>
    rw [newsize]
    split
    · exact ih (by omega) (by omega)
    · omega

/-- `q_grow` with the new storage in hand. There is room for everything
(`grow_room`), so the `q_addtail` of its loop does not come back here. -/
def grow (q : Queue α) (targetsize : Nat) : Queue α :=
  q.toList.foldl put
    (blank (newsize targetsize targetsize q.size)
      (Nat.lt_of_lt_of_le (Nat.zero_lt_of_lt q.write_lt) (le_newsize _ _ _)) q.data)

/-! ## The entries -/

theorem size_pos (q : Queue α) : 0 < q.size := Nat.zero_lt_of_lt q.write_lt

theorem len_lt (q : Queue α) : q.len < q.size := Nat.mod_lt _ q.size_pos

@[simp] theorem length_toList (q : Queue α) : q.toList.length = q.len := by
  rw [toList, List.length_map, List.length_range]

theorem len_eq (q : Queue α) :
    q.len = if q.nextread ≤ q.nextwrite then q.nextwrite - q.nextread
      else q.nextwrite + q.size - q.nextread := by
  have hw := q.write_lt
  have hr := q.read_lt
  rw [len]
  split
  · rw [show q.nextwrite + q.size - q.nextread = q.nextwrite - q.nextread + q.size by omega,
      Nat.add_mod_right, Nat.mod_eq_of_lt (by omega)]
  · exact Nat.mod_eq_of_lt (by omega)

theorem add_mod_ring {n r i : Nat} (hr : r < n) (hi : i ≤ n) :
    (r + i) % n = if r + i < n then r + i else r + i - n := by
  split
  · next h => exact Nat.mod_eq_of_lt h
  · rw [Nat.mod_eq_sub_mod (by omega), Nat.mod_eq_of_lt (by omega)]

theorem read_add_len (q : Queue α) : (q.nextread + q.len) % q.size = q.nextwrite := by
  have hw := q.write_lt
  have hr := q.read_lt
  rw [add_mod_ring hr (Nat.le_of_lt q.len_lt), len_eq]
  split <;> split <;> omega

/-- The number of entries is what leads from one index to the other. -/
theorem len_of_read_add {q : Queue α} {n : Nat} (hn : n < q.size)
    (h : (q.nextread + n) % q.size = q.nextwrite) : q.len = n := by
  have hr := q.read_lt
  have hl := q.len_lt
  rw [← read_add_len, add_mod_ring hr (Nat.le_of_lt hn), add_mod_ring hr (Nat.le_of_lt hl)] at h
  split at h <;> split at h <;> omega

theorem isEmpty_iff (q : Queue α) : q.isEmpty = true ↔ q.len = 0 := by
  have hw := q.write_lt
  have hr := q.read_lt
  rw [isEmpty, beq_iff_eq, len_eq]
  split <;> omega

theorem isEmpty_iff_toList (q : Queue α) : q.isEmpty = true ↔ q.toList = [] := by
  rw [isEmpty_iff, ← length_toList, List.length_eq_zero_iff]

theorem isFull_iff (q : Queue α) : q.isFull = true ↔ q.len + 1 = q.size := by
  have hw := q.write_lt
  have hr := q.read_lt
  rw [isFull, beq_iff_eq, len_eq, add_mod_ring hw (by omega)]
  split <;> split <;> omega

@[simp] theorem put_size (q : Queue α) (x : α) : (q.put x).size = q.size := rfl
@[simp] theorem tail_size (q : Queue α) : q.tail.size = q.size := rfl

theorem len_put {q : Queue α} (h : q.isFull = false) (x : α) : (q.put x).len = q.len + 1 := by
  have hf : q.len + 1 ≠ q.size := fun he => by
    rw [(isFull_iff q).2 he] at h
    cases h
  have hl := q.len_lt
  refine len_of_read_add (by rw [put_size]; omega) ?_
  show (q.nextread + (q.len + 1)) % q.size = (q.nextwrite + 1) % q.size
  rw [← Nat.add_assoc, ← Nat.mod_add_mod, read_add_len]

theorem toList_put {q : Queue α} (h : q.isFull = false) (x : α) :
    (q.put x).toList = q.toList ++ [x] := by
  have hr := q.read_lt
  have hl := q.len_lt
  rw [toList, len_put h, List.range_succ, List.map_append, List.map_singleton]
  congr 1
  · -- the occupied cells are all different from the one that is written
    refine List.map_congr_left fun i hi => ?_
    have hi := List.mem_range.1 hi
    refine update_of_ne ?_ _ _
    show (q.nextread + i) % q.size ≠ q.nextwrite
    intro he
    have := len_of_read_add (by omega) he
    omega
  · show [update q.data q.nextwrite x ((q.nextread + q.len) % q.size)] = [x]
    rw [read_add_len, update_self]

theorem toList_tail {q : Queue α} (h : q.isEmpty = false) : q.toList = q.head :: q.tail.toList := by
  have hr := q.read_lt
  have hl := q.len_lt
  have hne : q.len ≠ 0 := fun he => by
    rw [(isEmpty_iff q).2 he] at h
    cases h
  have hlen : q.tail.len = q.len - 1 := by
    refine len_of_read_add (by rw [tail_size]; omega) ?_
    show ((q.nextread + 1) % q.size + (q.len - 1)) % q.size = q.nextwrite
    rw [Nat.mod_add_mod, show q.nextread + 1 + (q.len - 1) = q.nextread + q.len by omega,
      read_add_len]
  rw [toList, show q.len = q.tail.len + 1 by omega, List.range_succ_eq_map, List.map_cons,
    List.map_map, toList]
  congr 1
  · rw [Nat.add_zero, Nat.mod_eq_of_lt hr, head]
  · refine List.map_congr_left fun i _ => ?_
    show q.data ((q.nextread + (i + 1)) % q.size) =
      q.data (((q.nextread + 1) % q.size + i) % q.size)
    rw [Nat.mod_add_mod, Nat.add_assoc, Nat.add_comm 1 i]

@[simp] theorem toList_blank (size : Nat) (h : 0 < size) (d : Nat → α) :
    (blank size h d).toList = [] := by
  rw [toList, len_eq]
  simp [blank]

/-! ## Growing -/

theorem foldl_put {q : Queue α} {l : List α} (h : q.len + l.length < q.size) :
    (l.foldl put q).toList = q.toList ++ l ∧ (l.foldl put q).size = q.size := by
  induction l generalizing q with
  | nil => exact ⟨(List.append_nil _).symm, rfl⟩
  | cons x l ih =>
    rw [List.length_cons] at h
    have hf : q.isFull = false := by
      rw [← Bool.not_eq_true, isFull_iff]
      omega
    obtain ⟨ht, hs⟩ := ih (q := q.put x) (by rw [len_put hf, put_size]; omega)
    refine ⟨?_, hs⟩
    rw [List.foldl_cons, ht, toList_put hf, List.append_assoc, List.singleton_append]

/-- What is in the ring fits into the new one, with a cell to spare. -/
theorem grow_room (q : Queue α) (targetsize : Nat) :
    0 + q.toList.length < newsize targetsize targetsize q.size := by
  rw [Nat.zero_add, length_toList]
  exact Nat.lt_of_lt_of_le q.len_lt (le_newsize _ _ _)

theorem blank_len (size : Nat) (h : 0 < size) (d : Nat → α) : (blank size h d).len = 0 := by
  rw [← length_toList, toList_blank, List.length_nil]

section
variable (q : Queue α) (targetsize : Nat)
include q targetsize

@[simp] theorem toList_grow : (q.grow targetsize).toList = q.toList := by
  rw [grow, (foldl_put (by rw [blank_len]; exact grow_room q targetsize)).1, toList_blank,
    List.nil_append]

theorem grow_size : (q.grow targetsize).size = newsize targetsize targetsize q.size := by
  rw [grow, (foldl_put (by rw [blank_len]; exact grow_room q targetsize)).2]
  rfl

theorem target_le_grow : targetsize ≤ (q.grow targetsize).size := by
  rw [grow_size]
  exact target_le_newsize q.size_pos (Nat.le_add_left _ _)

theorem size_le_grow : q.size ≤ (q.grow targetsize).size := by
  rw [grow_size]
  exact le_newsize _ _ _

@[simp] theorem grow_len : (q.grow targetsize).len = q.len := by
  rw [← length_toList, toList_grow, length_toList]

end

end Queue

/-! ## The routines -/

/-- `q_grow`. -/
def qGrow (q : Queue α) (targetsize : Nat) : ExceptT Errno (Prog M A B E F) (Queue α) := do
  let ndata ← call Prog.kmalloc
  if ndata then pure (q.grow targetsize) else throw .ENOMEM

/-- `q_preallocate`. -/
def qPreallocate (q : Queue α) (size : Nat) : ExceptT Errno (Prog M A B E F) (Queue α) :=
  if q.size < size then qGrow q size else pure q

/-- `q_addtail`. -/
def qAddtail (q : Queue α) (ptr : α) : ExceptT Errno (Prog M A B E F) (Queue α) :=
  if q.isFull then do
    let q ← qGrow q (q.size + 1)
    pure (q.put ptr)
  else pure (q.put ptr)

/-! ## What they need from the allocator -/

section
variable {t : Terms F} {m : M} {Q : Except Errno (Queue α) → M → Prop}

theorem awpE_qPreallocate {q : Queue α} {size : Nat} (ha : t.asks)
    (hok : ∀ q', q'.toList = q.toList → size ≤ q'.size → q.size ≤ q'.size → Q (.ok q') m)
    (herr : t.refuses → Q (.error .ENOMEM) m) :
    awpE t (qPreallocate q size : ExceptT Errno (Prog M A B E F) _) Q m := by
  rw [qPreallocate]
  split
  · exact awpE_call_bind.2 ⟨ha, hok _ (q.toList_grow size) (q.target_le_grow size)
      (q.size_le_grow size), herr⟩
  · exact hok q rfl (by omega) (Nat.le_refl _)

/-- With two free cells `q_addtail` does not ask. -/
theorem awpE_qAddtail_room {q : Queue α} {ptr : α} (h : q.len + 1 < q.size)
    (hok : ∀ q', q'.toList = q.toList ++ [ptr] → q'.size = q.size → Q (.ok q') m) :
    awpE t (qAddtail q ptr : ExceptT Errno (Prog M A B E F) _) Q m := by
  have hf : q.isFull = false := by
    rw [← Bool.not_eq_true, Queue.isFull_iff]
    omega
  rw [qAddtail, hf]
  exact hok _ (Queue.toList_put hf ptr) rfl

/-- Whatever the size, the entry is added or the queue is what it was. -/
theorem awpE_qAddtail {q : Queue α} {ptr : α} (ha : t.asks)
    (hok : ∀ q', q'.toList = q.toList ++ [ptr] → q.size ≤ q'.size → Q (.ok q') m)
    (herr : t.refuses → Q (.error .ENOMEM) m) :
    awpE t (qAddtail q ptr : ExceptT Errno (Prog M A B E F) _) Q m := by
  cases hf : q.isFull with
  | false =>
    rw [qAddtail, hf]
    exact hok _ (Queue.toList_put hf ptr) (Nat.le_refl _)
  | true =>
    rw [qAddtail, hf]
    have hg : (q.grow (q.size + 1)).isFull = false := by
      have := q.target_le_grow (q.size + 1)
      have := q.len_lt
      rw [← Bool.not_eq_true, Queue.isFull_iff, Queue.grow_len]
      omega
    refine awpE_bind.2 (awpE_call_bind.2 ⟨ha, ?_, herr⟩)
    refine hok _ ?_ (q.size_le_grow _)
    rw [Queue.toList_put hg, Queue.toList_grow]

end

end Os161.Kern
