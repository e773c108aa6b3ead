import Mathlib.Data.Nat.Bitwise
import Mathlib.Logic.Function.Basic

/-!
# Sectors

A sector is 512 bytes, and everything on an SFS volume is read and written by
the sector. The kernel overlays C structures on them: arrays of 32-bit words
in big-endian order for inodes and indirect blocks, raw bytes for file data
and for the free map. `Block.word` and `Block.ofWords` are the first view, and
the two lemmas `word_ofWords` and `ofWords_word` say that it loses nothing.
-/

namespace Os161.Kern

/-- SFS_BLOCKSIZE and LHD_SECTSIZE. -/
abbrev blockSize : Nat := 512

def Block : Type := Fin blockSize → UInt8

namespace Block

def byte (b : Block) (i : Nat) : UInt8 :=
  if h : i < blockSize then b ⟨i, h⟩ else 0

def ofFn (f : Nat → UInt8) : Block := fun i => f i

variable {f : Nat → UInt32} {i s k : Nat} {a b : Block} {l : List UInt8}

theorem byte_ofFn {f : Nat → UInt8} (h : i < 512) : (ofFn f).byte i = f i := dif_pos h

theorem ext (h : ∀ i < 512, a.byte i = b.byte i) : a = b := by
  funext i
  have hi := h i i.isLt
  rwa [byte, byte, dif_pos i.isLt, dif_pos i.isLt] at hi

/-- The block of `static char zeros[SFS_BLOCKSIZE]`. -/
def zero : Block := ofFn fun _ => 0

@[simp] theorem byte_zero (i : Nat) : zero.byte i = 0 := by
  unfold byte zero ofFn
  split <;> rfl

/-- `n` bytes from `s` on. -/
def slice (b : Block) (s n : Nat) : List UInt8 :=
  (List.range n).map fun i => b.byte (s + i)

@[simp] theorem length_slice (b : Block) (s n : Nat) : (b.slice s n).length = n := by
  simp [slice]

theorem slice_zero (s n : Nat) : zero.slice s n = List.replicate n 0 := by
  simp only [slice, byte_zero, List.map_const', List.length_range]

theorem getD_slice {n : Nat} (h : i < n) : (b.slice s n).getD i 0 = b.byte (s + i) := by
  simp [slice, List.getD, h]

/-- The bytes `l` stored from `s` on. -/
def patch (b : Block) (s : Nat) (l : List UInt8) : Block :=
  ofFn fun i => if s ≤ i ∧ i < s + l.length then l.getD (i - s) 0 else b.byte i

theorem byte_patch (h : i < 512) : (b.patch s l).byte i =
      if s ≤ i ∧ i < s + l.length then l.getD (i - s) 0 else b.byte i :=
  byte_ofFn h

def ofList (l : List UInt8) : Block := ofFn fun i => l.getD i 0

def toList (b : Block) : List UInt8 := b.slice 0 512

@[simp] theorem length_toList (b : Block) : b.toList.length = 512 := length_slice b 0 512

theorem ofList_toList (b : Block) : ofList b.toList = b := by
  refine ext fun i hi => ?_
  rw [ofList, byte_ofFn hi, toList, getD_slice hi, Nat.zero_add]

theorem byte_ofList (h : i < 512) : (ofList l).byte i = l.getD i 0 := byte_ofFn h

/-- Overwriting the whole block leaves nothing of it. -/
theorem patch_all (h : l.length = 512) : b.patch 0 l = ofList l := by
  refine ext fun i hi => ?_
  rw [byte_patch hi, byte_ofList hi, if_pos (by omega), Nat.sub_zero]

theorem patch_patch {l' : List UInt8} :
    (b.patch s l).patch (s + l.length) l' = b.patch s (l ++ l') := by
  refine ext fun i hi => ?_
  simp only [byte_patch hi, List.length_append, List.getD_eq_getElem?_getD]
  by_cases h : s ≤ i ∧ i < s + l.length
  · rw [if_neg (by omega), if_pos h, if_pos (by omega), List.getElem?_append_left (by omega)]
  · by_cases h' : s + l.length ≤ i ∧ i < s + l.length + l'.length
    · rw [if_pos h', if_pos (by omega), List.getElem?_append_right (by omega),
        show i - (s + l.length) = i - s - l.length by omega]
    · rw [if_neg h', if_neg h, if_neg (by omega)]

/-! ## The word view -/

/-- Four bytes, most significant first. -/
def be32 (a b c d : UInt8) : UInt32 :=
  UInt32.ofNat (a.toNat * 16777216 + b.toNat * 65536 + c.toNat * 256 + d.toNat)

/-- Byte `j` of a word, counted from the most significant one. -/
def wordByte (w : UInt32) (j : Nat) : UInt8 :=
  UInt8.ofNat (w.toNat / 256 ^ (3 - j) % 256)

theorem be32_wordByte (w : UInt32) :
    be32 (wordByte w 0) (wordByte w 1) (wordByte w 2) (wordByte w 3) = w := by
  have hw := w.toNat_lt
  apply UInt32.toNat_inj.mp
  simp only [be32, wordByte, UInt8.toNat_ofNat', UInt32.toNat_ofNat']
  omega

theorem wordByte_be32 (a b c d : UInt8) :
    wordByte (be32 a b c d) 0 = a ∧ wordByte (be32 a b c d) 1 = b ∧
      wordByte (be32 a b c d) 2 = c ∧ wordByte (be32 a b c d) 3 = d := by
  have ha := a.toNat_lt
  have hb := b.toNat_lt
  have hc := c.toNat_lt
  have hd := d.toNat_lt
  refine ⟨?_, ?_, ?_, ?_⟩ <;> apply UInt8.toNat_inj.mp <;>
    simp only [be32, wordByte, UInt8.toNat_ofNat', UInt32.toNat_ofNat'] <;> omega

def word (b : Block) (k : Nat) : UInt32 :=
  be32 (b.byte (4 * k)) (b.byte (4 * k + 1)) (b.byte (4 * k + 2)) (b.byte (4 * k + 3))

def ofWords (f : Nat → UInt32) : Block := ofFn fun i => wordByte (f (i / 4)) (i % 4)

theorem word_ofWords (h : k < 128) : (ofWords f).word k = f k := by
  have hb : ∀ j < 4, (ofWords f).byte (4 * k + j) = wordByte (f k) j := by
    intro j hj
    rw [ofWords, byte_ofFn (by omega), show (4 * k + j) / 4 = k by omega,
      show (4 * k + j) % 4 = j by omega]
  have h0 : (ofWords f).byte (4 * k) = wordByte (f k) 0 := hb 0 (by omega)
  rw [word, h0, hb 1 (by omega), hb 2 (by omega), hb 3 (by omega), be32_wordByte]

theorem ofWords_word (b : Block) : ofWords b.word = b := by
  refine ext fun i hi => ?_
  rw [ofWords, byte_ofFn hi, word]
  obtain ⟨h0, h1, h2, h3⟩ := wordByte_be32 (b.byte (4 * (i / 4)))
    (b.byte (4 * (i / 4) + 1)) (b.byte (4 * (i / 4) + 2)) (b.byte (4 * (i / 4) + 3))
  rcases (by omega : i % 4 = 0 ∨ i % 4 = 1 ∨ i % 4 = 2 ∨ i % 4 = 3) with h | h | h | h
  · rw [h, h0]; congr 1; omega
  · rw [h, h1]; congr 1; omega
  · rw [h, h2]; congr 1; omega
  · rw [h, h3]; congr 1; omega

theorem ofWords_congr {g : Nat → UInt32} (h : ∀ k < 128, f k = g k) : ofWords f = ofWords g := by
  refine ext fun i hi => ?_
  rw [ofWords, byte_ofFn hi, ofWords, byte_ofFn hi, h _ (by omega)]

theorem word_ext (h : ∀ k < 128, a.word k = b.word k) : a = b := by
  rw [← ofWords_word a, ← ofWords_word b]
  exact ofWords_congr h

@[simp] theorem word_zero (k : Nat) : zero.word k = 0 := by
  simp only [word, byte_zero]
  rfl

/-- One word replaced: `idbuf[k] = w`. -/
def setWord (b : Block) (k : Nat) (w : UInt32) : Block :=
  ofWords (Function.update b.word k w)

theorem word_setWord {j : Nat} {w : UInt32} (hj : j < 128) :
    (b.setWord k w).word j = if j = k then w else b.word j := by
  rw [setWord, word_ofWords hj, Function.update_apply]

end Block

end Os161.Kern
