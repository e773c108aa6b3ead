import Os161.Kern.Errno
import Os161.Lib.Atomic

/-!
# Arrays of pointers

`lib/array.c`. An array has a number of entries and a capacity, and every
routine asserts that the first does not exceed the second; here it cannot. The
entries that have been filled in are `v`, so growing an array without storing
anything changes its capacity only.

The capacity moves in two places. `array_preallocate` brings it up to the first
of `max, (max+1)*2, ...` that is large enough, and asks the allocator for new
storage even if the old one would do. `array_setsize` to zero gives the storage
back if it is for more than sixteen entries.
-/

namespace Os161.Kern

open Os161.Lib

/-- `struct array`. -/
structure KArray (α : Type) where
  v : List α
  max : Nat
  le : v.length ≤ max

variable {α M A B E F : Type}

namespace KArray

/-- The loop of `array_preallocate`. Every round adds at least one, so `nguys`
rounds are enough. -/
def newmax (nguys : Nat) : Nat → Nat → Nat
  | 0, m => m
  | fuel + 1, m => if m < nguys then newmax nguys fuel ((m + 1) * 2) else m

theorem le_newmax (nguys fuel m : Nat) : m ≤ newmax nguys fuel m := by
  induction fuel generalizing m with
  | zero => exact Nat.le_refl m
  | succ fuel ih =>
    rw [newmax]
    split
    · exact Nat.le_trans (by omega) (ih _)
    · exact Nat.le_refl m

theorem nguys_le_newmax {nguys fuel m : Nat} (h : nguys ≤ m + fuel) :
    nguys ≤ newmax nguys fuel m := by
  induction fuel generalizing m with
  | zero => exact h
  | succ fuel ih =>
    rw [newmax]
    split
    · exact ih (by omega)
    · omega

/-- A capacity that suffices is kept. -/
theorem newmax_of_le {nguys fuel m : Nat} (h : nguys ≤ m) : newmax nguys fuel m = m := by
  cases fuel with
  | zero => rfl
  | succ fuel => rw [newmax, if_neg (by omega)]

def empty : KArray α := ⟨[], 0, Nat.le_refl _⟩

/-- Room for `nguys` entries, the entries as they were. -/
def reserve (a : KArray α) (nguys : Nat) : KArray α where
  v := a.v
  max := newmax nguys nguys a.max
  le := Nat.le_trans a.le (le_newmax _ _ _)

/-- The first `nguys` entries, if there are so many. -/
def truncate (a : KArray α) (nguys : Nat) : KArray α where
  v := a.v.take nguys
  max := a.max
  le := Nat.le_trans (List.length_take_le' _ _) a.le

/-- A new last entry. -/
def push (a : KArray α) (guy : α) : KArray α where
  v := a.v ++ [guy]
  max := Nat.max (a.v.length + 1) a.max
  le := by rw [List.length_append]; exact Nat.le_max_left _ _

/-- `array_remove`. -/
def remove (a : KArray α) (index : Nat) : KArray α where
  v := a.v.eraseIdx index
  max := a.max
  le := Nat.le_trans (List.length_eraseIdx_le _ _) a.le

/-- `array_setguy`, or a change to what the entry points to. -/
def set (a : KArray α) (index : Nat) (guy : α) : KArray α where
  v := a.v.set index guy
  max := a.max
  le := by rw [List.length_set]; exact a.le

@[simp] theorem remove_v (a : KArray α) (i : Nat) : (a.remove i).v = a.v.eraseIdx i := rfl
@[simp] theorem set_v (a : KArray α) (i : Nat) (x : α) : (a.set i x).v = a.v.set i x := rfl
theorem truncate_all (a : KArray α) : a.truncate (a.v.length + 1) = a := by
  cases a
  rw [truncate]
  congr 1
  exact List.take_of_length_le (Nat.le_succ _)

theorem le_reserve_max (a : KArray α) (n : Nat) : n ≤ (a.reserve n).max :=
  nguys_le_newmax (Nat.le_add_left n a.max)

theorem max_le_reserve_max (a : KArray α) (n : Nat) : a.max ≤ (a.reserve n).max :=
  le_newmax n n a.max

theorem push_max {a : KArray α} (h : a.v.length < a.max) (x : α) : (a.push x).max = a.max :=
  Nat.max_eq_right h

end KArray

/-! ## The routines -/

/-- `array_preallocate`. -/
def arrayPreallocate (a : KArray α) (nguys : Nat) :
    ExceptT Errno (Prog M A B E F) (KArray α) := do
  let newv ← call Prog.kmalloc
  if newv then pure (a.reserve nguys) else throw .ENOMEM

/-- `array_setsize`. -/
def arraySetsize (a : KArray α) (nguys : Nat) :
    ExceptT Errno (Prog M A B E F) (KArray α) :=
  if a.max < nguys then do
    let a ← arrayPreallocate a nguys
    pure (a.truncate nguys)
  -- kfree(a->v)
  else if nguys = 0 ∧ 16 < a.max then pure KArray.empty
  else pure (a.truncate nguys)

/-- `array_add`. -/
def arrayAdd (a : KArray α) (guy : α) : ExceptT Errno (Prog M A B E F) (KArray α) := do
  let a ← arraySetsize a (a.v.length + 1)
  pure (a.push guy)

/-! ## What they need from the allocator -/

section
variable {t : Terms F} {m : M} {Q : Except Errno (KArray α) → M → Prop}

variable {a : KArray α}

theorem awpE_arrayPreallocate {nguys : Nat} (ha : t.asks)
    (hok : Q (.ok (a.reserve nguys)) m) (herr : t.refuses → Q (.error .ENOMEM) m) :
    awpE t (arrayPreallocate a nguys : ExceptT Errno (Prog M A B E F) _) Q m :=
  awpE_call_bind.2 ⟨ha, hok, herr⟩

/-- With room for one more entry `array_add` does not ask. -/
theorem awpE_arrayAdd_room {guy : α} (h : a.v.length < a.max) (hok : Q (.ok (a.push guy)) m) :
    awpE t (arrayAdd a guy : ExceptT Errno (Prog M A B E F) _) Q m := by
  refine awpE_bind.2 ?_
  rw [arraySetsize, if_neg (by omega), if_neg (by omega)]
  show Q (.ok ((a.truncate (a.v.length + 1)).push guy)) m
  rw [KArray.truncate_all]
  exact hok

/-- Whatever the capacity, the entry is added or the array is what it was. -/
theorem awpE_arrayAdd {guy : α} (ha : t.asks)
    (hok : ∀ a', a'.v = a.v ++ [guy] → a.max ≤ a'.max → Q (.ok a') m)
    (herr : t.refuses → Q (.error .ENOMEM) m) :
    awpE t (arrayAdd a guy : ExceptT Errno (Prog M A B E F) _) Q m := by
  by_cases h : a.v.length < a.max
  · exact awpE_arrayAdd_room h (hok _ rfl (Nat.le_of_eq (KArray.push_max h guy).symm))
  · refine awpE_bind.2 ?_
    rw [arraySetsize, if_pos (by omega), awpE_bind]
    refine awpE_arrayPreallocate ha ?_ herr
    refine hok _ ?_ ?_
    · exact congrArg (· ++ [guy]) (List.take_of_length_le (Nat.le_succ _))
    · exact Nat.le_trans (KArray.max_le_reserve_max a _) (Nat.le_max_right _ _)

end

end Os161.Kern
