import Os161.Kern.Array
import Os161.Libc.Memmove

/-!
# The cells of an array

`lib/array.c` once more, with the storage that `v` points to. An array with room for its
entries is a list, and the list is all that `array_getnum` and `array_getguy` can tell. A
routine takes the answer of `kmalloc`, which is NULL or cells with anything in them, and
gives its result and the array; it is `none` if an assertion fails.
-/

namespace Os161.Kern

variable {α : Type}

/-- What `kmalloc` has returned: so many cells. -/
structure Cells (α : Type) where
  room : Nat
  cell : Nat → α

/-- `struct array`; `v` may be NULL. -/
structure CArray (α : Type) where
  num : Nat
  max : Nat
  v : Option (Cells α)

namespace CArray

variable {a b : CArray α} {n i : Nat}

def create : CArray α := ⟨0, 0, none⟩

def getguy (a : CArray α) (index : Nat) : Option α :=
  if a.num ≤ a.max ∧ index < a.num then a.v.map fun c => c.cell index else none

def preallocate (kmalloc : Option (Nat → α)) (nguys : Nat) (a : CArray α) :
    Option (Option Errno × CArray α) :=
  if a.num ≤ a.max then
    let newmax := KArray.newmax nguys nguys a.max
    match kmalloc with
    | none => some (some .ENOMEM, a)
    | some g => some (none, ⟨a.num, newmax, some ⟨newmax, fun i =>
      if i < a.num then (a.v.elim g Cells.cell) i else g i⟩⟩)
  else none

def setsize (kmalloc : Option (Nat → α)) (nguys : Nat) (a : CArray α) :
    Option (Option Errno × CArray α) :=
  if a.num ≤ a.max then
    if a.max < nguys then
      match preallocate kmalloc nguys a with
      | some (none, a) => some (none, { a with num := nguys })
      | r => r
    else if nguys = 0 ∧ 16 < a.max then
      a.v.map fun _ => (none, ⟨nguys, 0, none⟩)
    else some (none, { a with num := nguys })
  else none

/-- `a->v[index] = guy`. -/
def put (a : CArray α) (index : Nat) (guy : α) : CArray α :=
  { a with v := a.v.map fun c => { c with cell := Function.update c.cell index guy } }

def setguy (index : Nat) (guy : α) (a : CArray α) : Option (Option Errno × CArray α) :=
  if a.num ≤ a.max ∧ index < a.num then some (none, a.put index guy) else none

def add (kmalloc : Option (Nat → α)) (guy : α) (a : CArray α) :
    Option (Option Errno × CArray α) :=
  match setsize kmalloc (a.num + 1) a with
  | some (none, b) => some (none, b.put a.num guy)
  | r => r

def remove (index : Nat) (a : CArray α) : Option (Option Errno × CArray α) :=
  if a.num ≤ a.max ∧ index < a.num then
    let nmove := a.num - (index + 1)
    some (none, { a with
      num := a.num - 1
      v := a.v.map fun c => { c with cell := Libc.moved index (index + 1) nmove c.cell } })
  else none

/-- The routines, with what `kmalloc` would answer. -/
inductive Op (α : Type) where
  | add (kmalloc : Option (Nat → α)) (guy : α)
  | remove (index : Nat)
  | setguy (index : Nat) (guy : α)
  | setsize (kmalloc : Option (Nat → α)) (nguys : Nat)
  | preallocate (kmalloc : Option (Nat → α)) (nguys : Nat)

def Op.run : Op α → CArray α → Option (Option Errno × CArray α)
  | add k guy => CArray.add k guy
  | remove i => CArray.remove i
  | setguy i guy => CArray.setguy i guy
  | setsize k n => CArray.setsize k n
  | preallocate k n => CArray.preallocate k n

/-- Indices are in range and sizes below `2^29`. -/
def Op.Legal (a : CArray α) : Op α → Prop
  | add _ _ => a.num + 1 < 536870912
  | remove i => i < a.num
  | setguy i _ => i < a.num
  | setsize _ n => n < 536870912
  | preallocate _ n => n < 536870912

/-- It has to ask for memory, and gets NULL. -/
def Op.Refused (a : CArray α) : Op α → Prop
  | add k _ => k = none ∧ a.max < a.num + 1
  | setsize k n => k = none ∧ a.max < n
  | preallocate k _ => k = none
  | _ => False

/-- What a routine does to the list. -/
def Op.Effect (l l' : List α) : Op α → Prop
  | add _ guy => l' = l ++ [guy]
  | remove i => l' = l.eraseIdx i
  | setguy i guy => l' = l.set i guy
  | setsize _ n => l'.length = n ∧ l'.take l.length = l.take n
  | preallocate _ _ => l' = l

/-- The entries. -/
def contents (a : CArray α) : List α := a.v.elim [] fun c => (List.range a.num).map c.cell

/-- There is room for `max` entries, and as many bytes can be asked for. -/
structure Ok (a : CArray α) : Prop where
  le : a.num ≤ a.max
  room : a.v.elim 0 Cells.room = a.max
  small : a.max < 1073741824

/-- What any calls with any answers of the allocator can lead to. -/
inductive Reach : CArray α → Prop where
  | create : Reach create
  | step {a b : CArray α} {r : Option Errno} (op : Op α) : Reach a → op.Legal a →
      op.run a = some (r, b) → Reach b

theorem newmax_lt {fuel m : Nat} (h : m < 1073741824) (hn : n < 536870912) :
    KArray.newmax n fuel m < 1073741824 := by
  induction fuel generalizing m with
  | zero => exact h
  | succ fuel ih =>
    rw [KArray.newmax]
    split
    · exact ih (by omega)
    · exact h

/-- Storage for some entries is there. -/
theorem Ok.cells (h : a.Ok) (hmax : 0 < a.max) :
    ∃ c, a.v = some c ∧ a.contents = (List.range a.num).map c.cell := by
  obtain ⟨num, max, v⟩ := a
  cases v with
  | none => exact absurd hmax (Nat.not_lt.2 (Nat.le_of_eq h.room.symm))
  | some c => exact ⟨c, rfl, rfl⟩

theorem Ok.empty (h : a.Ok) (hmax : ¬ 0 < a.max) : a.num = 0 ∧ a.contents = [] := by
  have hnum : a.num = 0 := by
    have := h.le
    omega
  refine ⟨hnum, ?_⟩
  rw [contents, hnum]
  cases a.v <;> rfl

theorem Ok.length (h : a.Ok) : a.contents.length = a.num := by
  by_cases hmax : 0 < a.max
  · obtain ⟨c, -, hc⟩ := h.cells hmax
    rw [hc, List.length_map, List.length_range]
  · rw [(h.empty hmax).1, (h.empty hmax).2]
    rfl

theorem Ok.put (h : a.Ok) (i : Nat) (guy : α) : (a.put i guy).Ok := by
  refine ⟨h.le, ?_, h.small⟩
  rw [show (a.put i guy).max = a.max from rfl, ← h.room, CArray.put]
  cases a.v <;> rfl

theorem map_range_congr {f g : Nat → α} (h : ∀ i < n, f i = g i) :
    (List.range n).map f = (List.range n).map g :=
  List.map_congr_left fun i hi => h i (List.mem_range.1 hi)

theorem map_range_update (f : Nat → α) (guy : α) :
    (List.range n).map (Function.update f i guy) = ((List.range n).map f).set i guy := by
  refine List.ext_getElem (by simp) fun j _ _ => ?_
  simp [List.getElem_set, Function.update_apply, eq_comm]

theorem map_range_moved {k : Nat} (f : Nat → α) :
    (List.range (i + k)).map (Libc.moved i (i + 1) k f) =
      ((List.range (i + 1 + k)).map f).eraseIdx i := by
  have hdrop : (List.range (i + 1 + k)).drop (i + 1) = (List.range k).map (i + 1 + ·) := by
    rw [List.range_add]
    exact List.drop_left' List.length_range
  rw [List.eraseIdx_eq_take_drop_succ, ← List.map_take, ← List.map_drop, List.take_range, hdrop,
    List.range_add, List.map_append, show min i (i + 1 + k) = i by omega, List.map_map,
      List.map_map]
  congr 1
  · exact map_range_congr fun j hj => if_neg (by omega)
  · refine map_range_congr fun j hj => ?_
    show Libc.moved i (i + 1) k f (i + j) = f (i + 1 + j)
    rw [Libc.moved, if_pos (by omega), Nat.add_sub_cancel_left]

/-- How a routine ends: it has been refused memory and the array is what it was, or it has
done its work. -/
inductive Done (a : CArray α) (refused : Prop) (P : CArray α → Prop) :
    Option (Option Errno × CArray α) → Prop where
  | ok {b : CArray α} : ¬ refused → b.Ok → P b → Done a refused P (some (none, b))
  | error : refused → Done a refused P (some (some .ENOMEM, a))

theorem Ok.preallocate (h : a.Ok) (k : Option (Nat → α)) (hn : n < 536870912) :
    Done a (k = none) (fun b => b.contents = a.contents ∧ b.num = a.num ∧ n ≤ b.max)
      (a.preallocate k n) := by
  rw [CArray.preallocate, if_pos h.le]
  cases k with
  | none => exact .error rfl
  | some g =>
    refine .ok nofun ⟨Nat.le_trans h.le (KArray.le_newmax ..), rfl, newmax_lt h.small hn⟩
      ⟨?_, rfl, KArray.nguys_le_newmax (Nat.le_add_left ..)⟩
    by_cases hmax : 0 < a.max
    · obtain ⟨c, hv, hc⟩ := h.cells hmax
      rw [hc]
      refine map_range_congr fun i hi => (if_pos hi).trans ?_
      rw [hv]
      rfl
    · rw [contents, (h.empty hmax).1, (h.empty hmax).2]
      rfl

/-- Another number of entries, within the room. -/
theorem Ok.resize (h : a.Ok) (hn : n ≤ a.max) : { a with num := n }.Ok ∧
    ({ a with num := n } : CArray α).contents.take a.num = a.contents.take n := by
  have hok : { a with num := n }.Ok := ⟨hn, h.room, h.small⟩
  refine ⟨hok, ?_⟩
  by_cases hmax : 0 < a.max
  · obtain ⟨c, hv, hc⟩ := h.cells hmax
    rw [hc, contents, hv]
    show ((List.range n).map c.cell).take a.num = _
    rw [← List.map_take, ← List.map_take, List.take_range, List.take_range, Nat.min_comm]
  · rw [(h.empty hmax).2, (hok.empty hmax).2, List.take_nil, List.take_nil]

theorem Ok.setsize (h : a.Ok) (k : Option (Nat → α)) (hn : n < 536870912) :
    Done a (k = none ∧ a.max < n)
      (fun b => b.num = n ∧ b.contents.take a.num = a.contents.take n) (a.setsize k n) := by
  rw [CArray.setsize, if_pos h.le]
  split
  · next hlt =>
    generalize hr : a.preallocate k n = r
    cases hr ▸ h.preallocate k hn with
    | error hk => exact .error ⟨hk, hlt⟩
    | @ok b hk hb hP =>
      obtain ⟨hc, hnum, hmax⟩ := hP
      obtain ⟨hok', htake⟩ := hb.resize hmax
      refine .ok (fun h => hk h.1) hok' ⟨rfl, ?_⟩
      rw [← hc, ← hnum]
      exact htake
  · next hge =>
    split
    · next hz =>
      obtain ⟨c, hv, -⟩ := h.cells (Nat.lt_of_le_of_lt (Nat.zero_le 16) hz.2)
      rw [hv]
      refine .ok (fun h => hge h.2) ⟨Nat.le_of_eq hz.1, rfl, Nat.succ_pos _⟩ ⟨rfl, ?_⟩
      rw [hz.1, List.take_zero]
      exact List.take_nil
    · obtain ⟨hok, htake⟩ := h.resize (Nat.not_lt.1 hge)
      exact .ok (fun h => hge h.2) hok ⟨rfl, htake⟩

theorem Ok.add (h : a.Ok) (k : Option (Nat → α)) (guy : α) (hn : a.num + 1 < 536870912) :
    Done a (k = none ∧ a.max < a.num + 1) (fun b => b.contents = a.contents ++ [guy])
      (a.add k guy) := by
  rw [CArray.add]
  generalize hr : a.setsize k (a.num + 1) = r
  cases hr ▸ h.setsize k hn with
  | error hk => exact .error hk
  | @ok b hk hb hP =>
    refine .ok hk (hb.put _ _) ?_
    obtain ⟨hnum, htake⟩ := hP
    obtain ⟨c, hv, hc⟩ := hb.cells (by have := hb.le; omega)
    have hall : a.contents.take (a.num + 1) = a.contents :=
      List.take_of_length_le (h.length.symm ▸ Nat.le_succ _)
    rw [← hall, ← htake, contents, CArray.put, hv, hc, hnum]
    show (List.range (a.num + 1)).map _ = _
    rw [List.range_succ, List.map_append, List.map_append, List.take_left' (by simp)]
    congr 1
    · exact map_range_congr fun i hi => Function.update_of_ne (Nat.ne_of_lt hi) ..
    · exact congrArg (fun x => [x]) (Function.update_self ..)

theorem Done.mono {refused : Prop} {P Q : CArray α → Prop} {r : Option (Option Errno × CArray α)}
    (h : Done a refused P r) (hPQ : ∀ b : CArray α, b.Ok → P b → Q b) : Done a refused Q r := by
  cases h with
  | ok hn hb hP => exact .ok hn hb (hPQ _ hb hP)
  | error hr => exact .error hr

/-- Every routine does to the list what it should, unless it is refused memory. -/
theorem Ok.run (h : a.Ok) (op : Op α) (hop : op.Legal a) :
    Done a (op.Refused a) (fun b => op.Effect a.contents b.contents) (op.run a) := by
  cases op with
  | add k guy => exact h.add k guy hop
  | preallocate k n => exact (h.preallocate k hop).mono fun b _ hP => hP.1
  | setsize k n =>
    refine (h.setsize k hop).mono fun b hb hP => ⟨hb.length.trans hP.1, ?_⟩
    rw [h.length]
    exact hP.2
  | setguy i guy =>
    have hi : i < a.num := hop
    obtain ⟨c, hv, hc⟩ := h.cells (by have := h.le; omega)
    rw [Op.run, CArray.setguy, if_pos ⟨h.le, hi⟩]
    refine .ok id (h.put i guy) ?_
    show (a.put i guy).contents = a.contents.set i guy
    rw [hc, contents, CArray.put, hv]
    exact map_range_update c.cell guy
  | remove i =>
    have hi : i < a.num := hop
    obtain ⟨c, hv, hc⟩ := h.cells (by have := h.le; omega)
    rw [Op.run, CArray.remove, if_pos ⟨h.le, hi⟩]
    refine .ok id ⟨?_, ?_, h.small⟩ ?_
    · exact Nat.le_trans (Nat.sub_le ..) h.le
    · rw [← h.room, hv]
      rfl
    · have hk : a.num = i + 1 + (a.num - (i + 1)) := by omega
      show contents _ = a.contents.eraseIdx i
      rw [hc, contents, hv]
      generalize a.num - (i + 1) = k at hk
      rw [hk, show i + 1 + k - 1 = i + k by omega]
      exact map_range_moved c.cell

theorem Reach.ok (h : a.Reach) : a.Ok := by
  induction h with
  | create => exact ⟨Nat.le_refl 0, rfl, Nat.succ_pos _⟩
  | step op _ hop hrun ih =>
    cases hrun ▸ ih.run op hop with
    | ok _ hb _ => exact hb
    | error _ => exact ih

/-- In every state that calls can lead to, whatever the allocator answers, there is room for
`max` entries, `num` of them are in use, no product of sizes overflows, and what can be
observed is a list; and every further call fails with ENOMEM and changes nothing if it needs
memory and gets none, and otherwise does to the list what it should. -/
theorem array_is_list (h : a.Reach) :
    a.num ≤ a.max ∧ a.v.elim 0 Cells.room = a.max ∧ a.max * 4 < 4294967296 ∧
    a.num = a.contents.length ∧ (∀ i < a.num, a.getguy i = a.contents[i]?) ∧
    ∀ op : Op α, op.Legal a →
      (op.Refused a → op.run a = some (some .ENOMEM, a)) ∧
      (¬ op.Refused a → ∃ b, op.run a = some (none, b) ∧ op.Effect a.contents b.contents) := by
  have hok := h.ok
  refine ⟨hok.le, hok.room, by have := hok.small; omega, hok.length.symm, fun i hi => ?_,
    fun op hop => ?_⟩
  · obtain ⟨c, hv, hc⟩ := hok.cells (by have := hok.le; omega)
    rw [getguy, if_pos ⟨hok.le, hi⟩, hv, hc, List.getElem?_map, List.getElem?_range hi]
    rfl
  · generalize hr : op.run a = r
    cases hr ▸ hok.run op hop with
    | ok hn _ heff => exact ⟨fun hno => absurd hno hn, fun _ => ⟨_, rfl, heff⟩⟩
    | error hno => exact ⟨fun _ => rfl, fun hn => absurd hno hn⟩

/-- Two entries are added, the first one is removed, and there is no memory for more. -/
theorem array_is_list_two : ∃ a b : CArray Nat, a.Reach ∧ a.contents = [7, 8] ∧
    (Op.remove 0).run a = some (none, b) ∧ b.contents = [8] ∧
    (Op.setsize none 9).run a = some (some .ENOMEM, a) := by
  have hone := Reach.step (.add (some fun _ => 0) 7) .create (by decide : 0 + 1 < 536870912) rfl
  have htwo := Reach.step (.add none 8) hone (by decide : 1 + 1 < 536870912) rfl
  have hops := (array_is_list htwo).2.2.2.2.2
  obtain ⟨b, hb, heff⟩ := (hops (.remove 0) (by decide : 0 < 2)).2 id
  have hnone := (hops (.setsize none 9) (by decide : 9 < 536870912)).1 ⟨rfl, by decide⟩
  exact ⟨_, b, htwo, rfl, hb, heff, hnone⟩

end CArray

end Os161.Kern
