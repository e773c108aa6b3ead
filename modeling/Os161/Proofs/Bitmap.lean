import Mathlib.Order.Bounds.Basic
import Os161.Kern.Bitmap

/-!
# A bitmap is a set

After `bitmap_create` and any calls that keep to the rules, the bits below `nbits` are a
set of numbers, the bits behind them are set, and so `bitmap_alloc` hands out the least
number that is not in the set. Up to `nbits = 2^32 - 8` the number of bytes comes out right
in 32 bits.
-/

namespace Os161.Kern.Bitmap

variable {b b' : Bitmap} {nbits i : Nat} {S : Set Nat}

/-- What a sequence of calls has made of a new bitmap, and of the empty set. -/
inductive Reach (nbits : Nat) : Set Nat → Bitmap → Prop where
  | create {b : Bitmap} : create nbits = some b → Reach nbits ∅ b
  | mark {S : Set Nat} {b b' : Bitmap} {i : Nat} : Reach nbits S b → i < nbits → i ∉ S →
      b.mark i = some b' → Reach nbits (insert i S) b'
  | unmark {S : Set Nat} {b b' : Bitmap} {i : Nat} : Reach nbits S b → i ∈ S →
      b.unmark i = some b' → Reach nbits (S \ {i}) b'
  | alloc {S : Set Nat} {b b' : Bitmap} {i : Nat} : Reach nbits S b →
      b.alloc = some (.ok (i, b')) → Reach nbits (insert i S) b'

/-- The bits are those of the set, and the padding is set. -/
structure Holds (nbits : Nat) (S : Set Nat) (b : Bitmap) : Prop where
  size : b.nbits = nbits
  below : ∀ i ∈ S, i < nbits
  isset : ∀ i < nbits, b.isset i = true ↔ i ∈ S
  padding : ∀ i, nbits ≤ i → i < 8 * b.v.length → b.isset i = true

theorem testBit_leftover {left j : Nat} {w : UInt8} (h : left ≤ 8) (hj : j < 8) :
    (leftover left w).toNat.testBit j = (decide (8 - left ≤ j) || w.toNat.testBit j) := by
  induction left generalizing w with
  | zero =>
    rw [leftover, decide_eq_false (by omega)]
    rfl
  | succ left ih =>
    rw [leftover, ih (by omega), testBit_or_mask (by omega), ← Bool.or_assoc]
    congr 1
    rw [Bool.eq_iff_iff]
    simp only [Bool.or_eq_true, decide_eq_true_eq]
    omega

theorem isset_zeros {n : Nat} {h : (List.replicate n (0 : UInt8)).length = (nbits + 7) / 8} :
    (⟨nbits, List.replicate n 0, h⟩ : Bitmap).isset i = false := by
  rw [isset_eq_testBit, word, List.getD_eq_getElem?_getD, List.getElem?_replicate]
  split <;> exact Nat.zero_testBit _

/-- A new bitmap: the assertions hold, and only the padding is set. -/
theorem create_holds (nbits : Nat) : ∃ b, create nbits = some b ∧ Holds nbits ∅ b := by
  have hempty : ∀ {b : Bitmap}, (∀ i < nbits, b.isset i = false) →
      ∀ i < nbits, b.isset i = true ↔ i ∈ (∅ : Set Nat) := by
    intro b h i hi
    rw [h i hi]
    exact ⟨fun h => absurd h Bool.false_ne_true, fun h => h.elim⟩
  unfold create
  dsimp only
  split
  · next hw =>
    have hover : nbits / 8 = (nbits + 7) / 8 - 1 ∧ 0 < nbits - ((nbits + 7) / 8 - 1) * 8 ∧
        nbits - ((nbits + 7) / 8 - 1) * 8 < 8 := by omega
    rw [if_pos hover]
    have hix : (nbits + 7) / 8 - 1 < (List.replicate ((nbits + 7) / 8) (0 : UInt8)).length := by
      rw [List.length_replicate]
      omega
    refine ⟨_, rfl, rfl, fun i hi => hi.elim, hempty fun i hi => ?_, fun i h1 h2 => ?_⟩
    · have hzero := isset_zeros (i := i) (h := List.length_replicate (n := (nbits + 7) / 8)
        (a := (0 : UInt8)))
      rw [isset_eq_testBit] at hzero ⊢
      rw [word_setWord hix]
      split
      · next hd =>
        rw [testBit_leftover (by omega) (by omega), ← hd, hzero, decide_eq_false (by omega)]
        rfl
      · exact hzero
    · have hlen : i < 8 * ((nbits + 7) / 8) := by
        rwa [show (setWord _ _ _).v.length = (nbits + 7) / 8 by
          rw [setWord, List.length_set, List.length_replicate]] at h2
      rw [isset_eq_testBit, word_setWord hix, if_pos (by omega),
        testBit_leftover (by omega) (by omega), decide_eq_true (by omega)]
      rfl
  · next hw =>
    refine ⟨_, rfl, rfl, fun i hi => hi.elim, hempty fun i hi => isset_zeros, fun i h1 h2 => ?_⟩
    rw [List.length_replicate] at h2
    omega

/-- One bit has changed, and so has the set. -/
theorem Holds.flip {x : Bool} {T : Set Nat} (h : Holds nbits S b) (hf : Flip b b' i x)
    (hi : i < nbits) (hT : ∀ j, j ∈ T ↔ if j = i then x = true else j ∈ S) :
    Holds nbits T b' where
  size := hf.nbits.trans h.size
  below j hj := by
    have hj := (hT j).1 hj
    split at hj
    · next heq => rwa [heq]
    · exact h.below j hj
  isset j hj := by
    rw [hf.isset, hT]
    split
    · rfl
    · exact h.isset j hj
  padding j h1 h2 := by
    have hlen : b'.v.length = b.v.length := by rw [b'.words, b.words, hf.nbits]
    rw [hf.isset, if_neg (by omega)]
    exact h.padding j h1 (hlen ▸ h2)

theorem Holds.mark_ok (h : Holds nbits S b) (hi : i < nbits) (hS : i ∉ S) :
    ∃ b', b.mark i = some b' ∧ Holds nbits (insert i S) b' := by
  have hclear : b.isset i = false := by
    rw [← Bool.not_eq_true, h.isset i hi]
    exact hS
  obtain ⟨b', hm, hf⟩ := mark_some (h.size.symm ▸ hi) hclear
  refine ⟨b', hm, h.flip hf hi fun j => ?_⟩
  by_cases hj : j = i <;> simp [hj]

theorem Holds.unmark_ok (h : Holds nbits S b) (hS : i ∈ S) :
    ∃ b', b.unmark i = some b' ∧ Holds nbits (S \ {i}) b' := by
  have hi := h.below i hS
  obtain ⟨b', hm, hf⟩ := unmark_some (h.size.symm ▸ hi) ((h.isset i hi).2 hS)
  refine ⟨b', hm, h.flip hf hi fun j => ?_⟩
  by_cases hj : j = i <;> simp [hj]

/-- What `bitmap_alloc` answers. -/
theorem Holds.alloc_ok (h : Holds nbits S b) :
    (b.alloc = some (.error .ENOSPC) ∧ ∀ i < nbits, i ∈ S) ∨
      ∃ i b', b.alloc = some (.ok (i, b')) ∧ IsLeast {j | j < nbits ∧ j ∉ S} i ∧
        Flip b b' i true ∧ Holds nbits (insert i S) b' := by
  obtain ⟨hspec, hleast⟩ := alloc_least (b := b) fun i h1 h2 => h.padding i (h.size ▸ h1) h2
  generalize b.alloc = r at hspec hleast
  cases hspec with
  | full hall => exact .inl ⟨rfl, fun i hi => (h.isset i hi).1 (hall i (h.size.symm ▸ hi))⟩
  | found i b' hi hclear hf =>
    rw [h.size] at hi
    have hS : i ∉ S := by
      rw [← h.isset i hi, hclear]
      exact Bool.false_ne_true
    refine .inr ⟨i, b', rfl, ⟨⟨hi, hS⟩, fun j hj => ?_⟩, hf, h.flip hf hi fun j => ?_⟩
    · by_contra hlt
      exact hj.2 ((h.isset j hj.1).1 (hleast i b' rfl j (by omega)))
    · by_cases hj : j = i <;> simp [hj]

theorem Reach.holds (h : Reach nbits S b) : Holds nbits S b := by
  induction h with
  | create hb =>
    obtain ⟨b', hb', hh⟩ := create_holds nbits
    rw [hb] at hb'
    cases hb'
    exact hh
  | mark _ hi hS hm ih =>
    obtain ⟨b', hm', hh⟩ := ih.mark_ok hi hS
    rw [hm] at hm'
    cases hm'
    exact hh
  | unmark _ hS hm ih =>
    obtain ⟨b', hm', hh⟩ := ih.unmark_ok hS
    rw [hm] at hm'
    cases hm'
    exact hh
  | alloc _ ha ih =>
    rcases ih.alloc_ok with ⟨ha', -⟩ | ⟨i, b', ha', -, -, hh⟩
    · rw [ha] at ha'
      cases ha'
    · rw [ha] at ha'
      cases ha'
      exact hh

/-- `bitmap_create` makes a bitmap with the right number of bytes, and after any calls its
bits are a set: no assertion fails, the padding stays set, and `bitmap_alloc` takes the least
number that is free. -/
theorem bitmap_is_set (nbits : Nat) (hn : nbits < 2 ^ 32 - 7) :
    ((UInt32.ofNat nbits + 8 - 1) / 8).toNat = (nbits + 7) / 8 ∧
    (∃ b, create nbits = some b) ∧
    ∀ S b, Reach nbits S b →
      (∀ i < nbits, b.isset i = true ↔ i ∈ S) ∧
      (∀ i, nbits ≤ i → i < 8 * b.v.length → b.isset i = true) ∧
      (∀ i < nbits, i ∉ S → ∃ b', b.mark i = some b') ∧
      (∀ i ∈ S, ∃ b', b.unmark i = some b') ∧
      ∃ r, b.alloc = some r ∧ (r = .error .ENOSPC ↔ ∀ i < nbits, i ∈ S) ∧
        (∀ e, r = .error e → e = .ENOSPC) ∧
        ∀ i b', r = .ok (i, b') → IsLeast {j | j < nbits ∧ j ∉ S} i ∧
          ∀ j, b'.isset j = if j = i then true else b.isset j := by
  refine ⟨?_, (create_holds nbits).imp fun b hb => hb.1, fun S b hr => ?_⟩
  · have hconv : (UInt32.ofNat nbits).toNat = nbits := by
      rw [UInt32.toNat_ofNat']
      omega
    rw [UInt32.toNat_div, UInt32.toNat_sub, UInt32.toNat_add, hconv]
    have h8 : (8 : UInt32).toNat = 8 := rfl
    have h1 : (1 : UInt32).toNat = 1 := rfl
    rw [h8, h1]
    omega
  · have h := hr.holds
    refine ⟨h.isset, h.padding, fun i hi hS => (h.mark_ok hi hS).imp fun b' hb => hb.1,
      fun i hS => (h.unmark_ok hS).imp fun b' hb => hb.1, ?_⟩
    rcases h.alloc_ok with ⟨ha, hall⟩ | ⟨i, b', ha, hleast, hf, -⟩
    · refine ⟨_, ha, ⟨fun _ => hall, fun _ => rfl⟩, fun e he => ?_, fun i b' hb => by cases hb⟩
      cases he
      rfl
    · refine ⟨_, ha, ⟨fun he => ?_, fun hall => ?_⟩, fun e he => ?_, fun j b'' hb => ?_⟩
      · cases he
      · exact absurd (hall i hleast.1.1) hleast.1.2
      · cases he
      · cases hb
        exact ⟨hleast, hf.isset⟩

/-- Ten bits, of which the first has been marked: the next is number one. -/
theorem bitmap_is_set_ten : ∃ b, create 10 = some b ∧ ∃ b', b.mark 0 = some b' ∧
    ∃ i b'', b'.alloc = some (.ok (i, b'')) ∧ i = 1 ∧ ∀ j, 10 ≤ j → j < 16 → b'.isset j = true := by
  refine ⟨_, rfl, _, rfl, 1, _, rfl, rfl, ?_⟩
  have hreach := Reach.mark (i := 0) (.create rfl : Reach 10 ∅ _) (by decide) id rfl
  exact ((bitmap_is_set 10 (by decide)).2.2 _ _ hreach).2.1

end Os161.Kern.Bitmap
