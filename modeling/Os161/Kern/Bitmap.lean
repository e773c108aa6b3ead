import Os161.Kern.Block
import Os161.Kern.Errno
import Mathlib.Data.UInt
import Mathlib.Data.List.GetD

/-!
# Arrays of bits

`lib/bitmap.c`: bit `i` is bit `i % 8` of byte `i / 8`, counted from the least
significant one, and a set bit is a block in use. The array always has exactly
the bytes that `nbits` needs, which is a field here, so that no index below
`nbits` can leave it.

A routine with an `assert` is an `Option`: `none` is the assertion failing. The
lemmas below say what every routine does in terms of `isset` alone, and nothing
after this file looks into the bytes again.
-/

namespace Os161.Kern

structure Bitmap where
  nbits : Nat
  v : List UInt8
  words : v.length = (nbits + 7) / 8
  deriving DecidableEq

namespace Bitmap

/-- `(WORD_TYPE)1 << offset`. -/
def mask (offset : Nat) : UInt8 := 1 <<< UInt8.ofNat offset

def word (b : Bitmap) (ix : Nat) : UInt8 := b.v.getD ix 0

def setWord (b : Bitmap) (ix : Nat) (w : UInt8) : Bitmap where
  nbits := b.nbits
  v := b.v.set ix w
  words := by rw [List.length_set, b.words]

/-- The leftover bits of the last byte are marked in use. -/
def leftover : Nat → UInt8 → UInt8
  | 0, w => w
  | left + 1, w => leftover left (w ||| mask (8 - (left + 1)))

def create (nbits : Nat) : Option Bitmap :=
  let words := (nbits + 7) / 8
  let b : Bitmap := ⟨nbits, List.replicate words 0, List.length_replicate⟩
  if nbits / 8 < words then
    let ix := words - 1
    let overbits := nbits - ix * 8
    if nbits / 8 = words - 1 ∧ 0 < overbits ∧ overbits < 8 then
      some (b.setWord ix (leftover (8 - overbits) (b.word ix)))
    else none
  else some b

def isset (b : Bitmap) (i : Nat) : Bool := b.word (i / 8) &&& mask (i % 8) != 0

def mark (b : Bitmap) (i : Nat) : Option Bitmap :=
  if i < b.nbits ∧ b.word (i / 8) &&& mask (i % 8) = 0 then
    some (b.setWord (i / 8) (b.word (i / 8) ||| mask (i % 8)))
  else none

def unmark (b : Bitmap) (i : Nat) : Option Bitmap :=
  if i < b.nbits ∧ b.word (i / 8) &&& mask (i % 8) ≠ 0 then
    some (b.setWord (i / 8) (b.word (i / 8) &&& ~~~ mask (i % 8)))
  else none

/-- The inner loop of `bitmap_alloc`, with `left` offsets to go. -/
def freeOffset (w : UInt8) : Nat → Option Nat
  | 0 => none
  | left + 1 =>
    if w &&& mask (8 - (left + 1)) = 0 then some (8 - (left + 1))
    else freeOffset w left

/-- The outer loop, with `left` bytes to go. -/
def alloc.loop (b : Bitmap) : Nat → Option (Except Errno (Nat × Bitmap))
  | 0 => some (.error .ENOSPC)
  | left + 1 =>
    let ix := b.v.length - (left + 1)
    if b.word ix ≠ 0xff then
      match freeOffset (b.word ix) 8 with
      | none => none
      | some offset =>
        let index := ix * 8 + offset
        if index < b.nbits then
          some (.ok (index, b.setWord ix (b.word ix ||| mask offset)))
        else none
    else alloc.loop b left

/-- `bitmap_alloc`. -/
def alloc (b : Bitmap) : Option (Except Errno (Nat × Bitmap)) :=
  alloc.loop b b.v.length

/-- The 512 bytes at `bitmap_getdata(b) + 512 * j`. -/
def getBlock (b : Bitmap) (j : Nat) : Block := Block.ofFn fun i => b.word (512 * j + i)

/-- The same bytes, overwritten. -/
def setBlock (b : Bitmap) (j : Nat) (blk : Block) : Bitmap where
  nbits := b.nbits
  v := (List.range b.v.length).map fun i =>
    if i / 512 = j then blk.byte (i % 512) else b.word i
  words := by rw [List.length_map, List.length_range, b.words]

/-! ## Bits of a byte -/

variable {w : UInt8} {i : Nat}

theorem toNat_mask (h : i < 8) : (mask i).toNat = 2 ^ i := by
  have h2 : 2 ^ i < 256 := Nat.pow_lt_pow_right (by decide : 1 < 2) h
  rw [mask, UInt8.toNat_shiftLeft, UInt8.toNat_ofNat',
    Nat.mod_eq_of_lt (by omega : i < 2 ^ 8), Nat.mod_eq_of_lt h, Nat.shiftLeft_eq]
  simpa using h2

theorem and_mask_eq_zero (h : i < 8) : w &&& mask i = 0 ↔ w.toNat.testBit i = false := by
  rw [← UInt8.toNat_inj, UInt8.toNat_and, toNat_mask h, Nat.and_two_pow]
  cases w.toNat.testBit i <;> simp

theorem testBit_or_mask {i j : Nat} (h : i < 8) :
    (w ||| mask i).toNat.testBit j = (decide (j = i) || w.toNat.testBit j) := by
  rw [UInt8.toNat_or, toNat_mask h, Nat.testBit_or, Nat.testBit_two_pow, Bool.or_comm]
  simp only [eq_comm]

theorem testBit_and_not_mask {i j : Nat} (h : i < 8) (hj : j < 8) :
    (w &&& ~~~ mask i).toNat.testBit j = (!decide (j = i) && w.toNat.testBit j) := by
  have hn : (~~~ mask i).toNat.testBit j = !decide (j = i) := by
    rw [UInt8.toNat_not, toNat_mask h, show UInt8.size - 1 - 2 ^ i = 2 ^ 8 - (2 ^ i + 1) from
      by rw [UInt8.size]; omega, Nat.testBit_two_pow_sub_succ
        (Nat.pow_lt_pow_right (by decide : 1 < 2) h), Nat.testBit_two_pow]
    simp [hj, eq_comm]
  rw [UInt8.toNat_and, Nat.testBit_and, hn, Bool.and_comm]

theorem testBit_high (w : UInt8) {k : Nat} (h : 8 ≤ k) : w.toNat.testBit k = false :=
  Nat.testBit_lt_two_pow
    (Nat.lt_of_lt_of_le w.toNat_lt (Nat.pow_le_pow_right (by decide) h))

theorem testBit_allBits : w = 0xff ↔ ∀ i < 8, w.toNat.testBit i = true := by
  constructor
  · rintro rfl
    decide
  · intro h
    apply UInt8.toNat_inj.mp
    apply Nat.eq_of_testBit_eq
    intro i
    rcases Nat.lt_or_ge i 8 with hi | hi
    · rw [h i hi]
      revert i
      decide
    · rw [testBit_high _ hi, testBit_high _ hi]

/-! ## Bits of the array -/

theorem isset_eq_testBit (b : Bitmap) (i : Nat) :
    b.isset i = (b.word (i / 8)).toNat.testBit (i % 8) := by
  have h := @and_mask_eq_zero (b.word (i / 8)) (i % 8) (by omega)
  rw [isset, Bool.eq_iff_iff, bne_iff_ne, ne_eq, h, Bool.not_eq_false]

variable {b : Bitmap}

theorem word_setWord {ix j : Nat} (h : ix < b.v.length) :
    (b.setWord ix w).word j = if j = ix then w else b.word j := by
  rw [word, setWord, List.getD_eq_getElem?_getD, List.getElem?_set]
  split
  · next h' => rw [if_pos h'.symm]; rfl
  · next h' => rw [if_neg (Ne.symm h'), word, List.getD_eq_getElem?_getD]

theorem div_lt_length (h : i < b.nbits) : i / 8 < b.v.length := by
  rw [b.words]
  omega

/-! ## What the routines do -/

/-- `a` and `b` agree but for bit `i`, which is `x` in `b`. -/
structure Flip (a b : Bitmap) (i : Nat) (x : Bool) : Prop where
  nbits : b.nbits = a.nbits
  isset : ∀ j, b.isset j = if j = i then x else a.isset j

/-- A word is stored that differs in one bit. -/
theorem flip_setWord (hi : i < b.nbits) {w : UInt8} {x : Bool}
    (hw : ∀ k < 8, w.toNat.testBit k =
      if k = i % 8 then x else (b.word (i / 8)).toNat.testBit k) :
    Flip b (b.setWord (i / 8) w) i x := by
  refine ⟨rfl, fun j => ?_⟩
  rw [isset_eq_testBit, isset_eq_testBit, word_setWord (div_lt_length hi)]
  split
  · next hd => simp only [hw _ (Nat.mod_lt j (by decide)), hd, show j % 8 = i % 8 ↔ j = i by omega]
  · next hd => rw [if_neg fun hj => hd (by rw [hj])]

theorem mark_some (hi : i < b.nbits) (h : b.isset i = false) :
    ∃ b', b.mark i = some b' ∧ Flip b b' i true := by
  rw [isset_eq_testBit] at h
  refine ⟨_, if_pos ⟨hi, (and_mask_eq_zero (by omega)).2 h⟩, flip_setWord hi fun k _ => ?_⟩
  rw [testBit_or_mask (by omega)]
  split <;> simp [*]

theorem unmark_some (hi : i < b.nbits) (h : b.isset i = true) :
    ∃ b', b.unmark i = some b' ∧ Flip b b' i false := by
  rw [isset_eq_testBit] at h
  have hne : b.word (i / 8) &&& mask (i % 8) ≠ 0 := by
    rw [ne_eq, and_mask_eq_zero (by omega), h]
    decide
  refine ⟨_, if_pos ⟨hi, hne⟩, flip_setWord hi fun k hk => ?_⟩
  rw [testBit_and_not_mask (by omega) hk]
  split <;> simp [*]

theorem freeOffset_spec {left : Nat} (hl : left ≤ 8)
    (h : ∃ i, 8 - left ≤ i ∧ i < 8 ∧ w.toNat.testBit i = false) :
    ∃ o, freeOffset w left = some o ∧ o < 8 ∧ w.toNat.testBit o = false ∧
      ∀ i, 8 - left ≤ i → i < o → w.toNat.testBit i = true := by
  induction left with
  | zero =>
    obtain ⟨i, h1, h2, -⟩ := h
    omega
  | succ left ih =>
    rw [freeOffset]
    split
    · next hz =>
      exact ⟨_, rfl, by omega, (and_mask_eq_zero (by omega)).1 hz, fun i h1 h2 => by omega⟩
    · next hz =>
      obtain ⟨i, h1, h2, h3⟩ := h
      rw [and_mask_eq_zero (by omega)] at hz
      have hi : 8 - left ≤ i := by
        by_contra hlt
        obtain rfl : i = 8 - (left + 1) := by omega
        exact hz h3
      obtain ⟨o, ho, ho8, hbit, hmin⟩ := ih (by omega) ⟨i, hi, h2, h3⟩
      refine ⟨o, ho, ho8, hbit, fun j h1 h2 => ?_⟩
      by_cases hj : j = 8 - (left + 1)
      · subst hj
        rwa [Bool.not_eq_false] at hz
      · exact hmin j (by omega) h2

/-- What `bitmap_alloc` can do, on an array whose bits past the end are set:
report that nothing is free, or hand out a free bit. -/
inductive AllocSpec (b : Bitmap) : Option (Except Errno (Nat × Bitmap)) → Prop where
  | full : (∀ i < b.nbits, b.isset i = true) → AllocSpec b (some (.error .ENOSPC))
  | found (i : Nat) (b' : Bitmap) : i < b.nbits → b.isset i = false → Flip b b' i true →
      AllocSpec b (some (.ok (i, b')))

/-- Of the free bits it is the first. -/
theorem alloc_least (hpast : ∀ i, b.nbits ≤ i → i < 8 * b.v.length →
    b.isset i = true) : AllocSpec b b.alloc ∧
      ∀ i b', b.alloc = some (.ok (i, b')) → ∀ j < i, b.isset j = true := by
  suffices h : ∀ left ≤ b.v.length,
      (∀ i < (b.v.length - left) * 8, b.isset i = true) →
      AllocSpec b (alloc.loop b left) ∧
        ∀ i b', alloc.loop b left = some (.ok (i, b')) → ∀ j < i, b.isset j = true from
    h _ le_rfl (fun i hi => by omega)
  intro left
  induction left with
  | zero =>
    intro _ hset
    refine ⟨.full fun i hi => hset i ?_, nofun⟩
    have := b.words
    omega
  | succ left ih =>
    intro hl hset
    rw [alloc.loop]
    by_cases hw : b.word (b.v.length - (left + 1)) = 0xff
    · -- the byte is full, and the search goes on behind it
      rw [if_neg (not_not.2 hw)]
      refine ih (by omega) fun i hi => ?_
      rcases Nat.lt_or_ge i ((b.v.length - (left + 1)) * 8) with h | h
      · exact hset i h
      · rw [isset_eq_testBit, show i / 8 = b.v.length - (left + 1) by omega]
        exact testBit_allBits.1 hw _ (by omega)
    · rw [if_pos hw]
      have hex : ∃ i, 8 - 8 ≤ i ∧ i < 8 ∧
          (b.word (b.v.length - (left + 1))).toNat.testBit i = false := by
        by_contra hno
        refine hw (testBit_allBits.2 fun i hi => ?_)
        by_contra hf
        exact hno ⟨i, by omega, hi, Bool.not_eq_true _ ▸ hf⟩
      obtain ⟨o, ho, ho8, hbit, hmin⟩ := freeOffset_spec (Nat.le_refl 8) hex
      rw [ho]
      have hfree : b.isset ((b.v.length - (left + 1)) * 8 + o) = false := by
        rw [isset_eq_testBit, show ((b.v.length - (left + 1)) * 8 + o) / 8 =
          b.v.length - (left + 1) by omega,
          show ((b.v.length - (left + 1)) * 8 + o) % 8 = o by omega]
        exact hbit
      have hlt : (b.v.length - (left + 1)) * 8 + o < b.nbits := by
        by_contra hge
        rw [hpast _ (by omega) (by omega)] at hfree
        cases hfree
      obtain ⟨b', hm, hf⟩ := mark_some hlt hfree
      rw [mark, show ((b.v.length - (left + 1)) * 8 + o) / 8 = b.v.length - (left + 1) by omega,
          show ((b.v.length - (left + 1)) * 8 + o) % 8 = o by omega] at hm
      split at hm
      · simp only [if_pos hlt]
        rw [Option.some.injEq] at hm
        rw [hm]
        refine ⟨.found _ _ hlt hfree hf, fun i b'' h j hj => ?_⟩
        cases h
        rcases Nat.lt_or_ge j ((b.v.length - (left + 1)) * 8) with h | h
        · exact hset j h
        · rw [isset_eq_testBit, show j / 8 = b.v.length - (left + 1) by omega]
          exact hmin _ (by omega) (by omega)
      · cases hm

theorem alloc_spec (hpast : ∀ i, b.nbits ≤ i → i < 8 * b.v.length →
    b.isset i = true) : AllocSpec b b.alloc :=
  (alloc_least hpast).1

theorem create_mul (n : Nat) : ∃ b, create (8 * n) = some b ∧ b.nbits = 8 * n ∧ b.v.length = n := by
  refine ⟨⟨8 * n, List.replicate n 0, by simp; omega⟩, ?_, rfl, by simp⟩
  have hw : (8 * n + 7) / 8 = n := by omega
  rw [create]
  simp only [hw]
  rw [if_neg (by omega)]

end Bitmap

end Os161.Kern
