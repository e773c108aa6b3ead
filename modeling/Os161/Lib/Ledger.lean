import Mathlib.Data.Set.Insert
import Mathlib.Logic.Function.Basic

/-!
# Who owns what

An allocator keeps one bit for each of its cells and knows nothing about what
they are used for. A ledger is the relation between that bit and the uses: a
cell is marked exactly if it is set aside for good, or has one owner, or has
been handed out and not been given an owner yet. The last kind is the set
`leak`: a cell goes through it on the way from the allocator to its owner, and
stays there if that way is cut short.

Owners are named by keys, and no cell has two of them. The lemmas are the four
moves: a free cell is taken, a taken one gets an owner, an owner lets go of its
cell, and a taken cell is given back.
-/

namespace Os161.Lib

open Function

variable {K B : Type}

structure Ledger (own : K → Option B) (used fixed : B → Prop) (leak : Set B) : Prop where
  account : ∀ b, used b ↔ fixed b ∨ (∃ k, own k = some b) ∨ b ∈ leak
  inj : ∀ {k k' b}, own k = some b → own k' = some b → k = k'
  owned : ∀ {k b}, own k = some b → ¬ fixed b ∧ b ∉ leak
  spare : ∀ {b}, b ∈ leak → ¬ fixed b

namespace Ledger

variable {own : K → Option B} {used fixed : B → Prop} {leak : Set B} {k : K} {b : B}

section
variable (h : Ledger own used fixed leak)
include h

theorem used_of_own (hk : own k = some b) : used b :=
  (h.account b).2 (.inr (.inl ⟨k, hk⟩))

theorem used_of_leak (hb : b ∈ leak) : used b :=
  (h.account b).2 (.inr (.inr hb))

theorem used_of_fixed (hb : fixed b) : used b :=
  (h.account b).2 (.inl hb)

/-- The marks count, not how they are written down. -/
theorem congr {used' fixed' : B → Prop}
    (hu : ∀ b, used' b ↔ used b) (hf : ∀ b, fixed' b ↔ fixed b) : Ledger own used' fixed' leak :=
  ⟨fun b => (hu b).trans ((h.account b).trans (or_congr (hf b).symm Iff.rfl)), h.inj,
    fun hk => ⟨fun hx => (h.owned hk).1 ((hf _).1 hx), (h.owned hk).2⟩,
    fun hx hx' => h.spare hx ((hf _).1 hx')⟩

/-- A free cell is marked. -/
theorem take (hb : ¬ used b) :
    Ledger own (fun x => x = b ∨ used x) fixed (insert b leak) where
  account x := by
    rw [h.account x, Set.mem_insert_iff]
    constructor
    · rintro (rfl | h | h | h)
      · exact .inr (.inr (.inl rfl))
      · exact .inl h
      · exact .inr (.inl h)
      · exact .inr (.inr (.inr h))
    · rintro (h | h | rfl | h)
      · exact .inr (.inl h)
      · exact .inr (.inr (.inl h))
      · exact .inl rfl
      · exact .inr (.inr (.inr h))
  inj := h.inj
  owned {k x} hk := by
    refine ⟨(h.owned hk).1, ?_⟩
    rintro (rfl | hx)
    · exact hb (h.used_of_own hk)
    · exact (h.owned hk).2 hx
  spare {x} := by
    rintro (rfl | hx) hf
    · exact hb (h.used_of_fixed hf)
    · exact h.spare hx hf

/-- A marked cell without an owner is given back. -/
theorem giveBack (hb : b ∈ leak) :
    Ledger own (fun x => x ≠ b ∧ used x) fixed (leak \ {b}) where
  account x := by
    have hown : ∀ k, own k ≠ some b := fun k hk => (h.owned hk).2 hb
    rw [h.account x]
    constructor
    · rintro ⟨hne, hf | ho | hl⟩
      · exact .inl hf
      · exact .inr (.inl ho)
      · exact .inr (.inr ⟨hl, hne⟩)
    · rintro (hf | ⟨k, hk⟩ | ⟨hl, hne⟩)
      · exact ⟨fun hx => h.spare hb (hx ▸ hf), .inl hf⟩
      · exact ⟨fun hx => hown k (hx ▸ hk), .inr (.inl ⟨k, hk⟩)⟩
      · exact ⟨hne, .inr (.inr hl)⟩
  inj := h.inj
  owned hk := ⟨(h.owned hk).1, fun hx => (h.owned hk).2 hx.1⟩
  spare hx := h.spare hx.1

end

section
variable [DecidableEq K]

theorem own_update {v : Option B} {k' : K} {x : B} : update own k v k' = some x ↔
      (k' = k ∧ v = some x) ∨ (k' ≠ k ∧ own k' = some x) := by
  rw [update_apply]
  split
  · next h => simp [h]
  · next h => simp [h]

/-- A cell that was handed out gets an owner. -/
theorem adopt (h : Ledger own used fixed leak) (hb : b ∈ leak) (hk : own k = none) :
    Ledger (update own k (some b)) used fixed (leak \ {b}) where
  account x := by
    rw [h.account x]
    simp only [own_update, Option.some.injEq, Set.mem_sdiff, Set.mem_singleton_iff]
    constructor
    · rintro (hf | ⟨k', hk'⟩ | hl)
      · exact .inl hf
      · have hne : k' ≠ k := fun he => by simp [he, hk] at hk'
        exact .inr (.inl ⟨k', .inr ⟨hne, hk'⟩⟩)
      · by_cases hx : x = b
        · exact .inr (.inl ⟨k, .inl ⟨rfl, hx.symm⟩⟩)
        · exact .inr (.inr ⟨hl, hx⟩)
    · rintro (hf | ⟨k', ⟨-, rfl⟩ | ⟨-, hk'⟩⟩ | ⟨hl, -⟩)
      · exact .inl hf
      · exact .inr (.inr hb)
      · exact .inr (.inl ⟨k', hk'⟩)
      · exact .inr (.inr hl)
  inj {k1 k2 x} h1 h2 := by
    rw [own_update] at h1 h2
    have hno : ∀ k', own k' ≠ some b := fun k' hk' => (h.owned hk').2 hb
    rcases h1 with ⟨rfl, h1⟩ | ⟨-, h1⟩ <;> rcases h2 with ⟨rfl, h2⟩ | ⟨-, h2⟩
    · rfl
    · exact absurd (h2.trans h1.symm) (hno _)
    · exact absurd (h1.trans h2.symm) (hno _)
    · exact h.inj h1 h2
  owned {k' x} hk' := by
    rcases own_update.1 hk' with ⟨-, hx⟩ | ⟨-, hx⟩
    · obtain rfl := Option.some.inj hx
      exact ⟨h.spare hb, fun hl => hl.2 rfl⟩
    · exact ⟨(h.owned hx).1, fun hl => (h.owned hx).2 hl.1⟩
  spare hx := h.spare hx.1

/-- An owner lets go of its cell. -/
theorem abandon (h : Ledger own used fixed leak) (hk : own k = some b) :
    Ledger (update own k none) used fixed (insert b leak) where
  account x := by
    rw [h.account x]
    simp only [own_update, reduceCtorEq, and_false, false_or, Set.mem_insert_iff]
    constructor
    · rintro (hf | ⟨k', hk'⟩ | hl)
      · exact .inl hf
      · by_cases he : k' = k
        · rw [he, hk] at hk'
          exact .inr (.inr (.inl (Option.some.inj hk').symm))
        · exact .inr (.inl ⟨k', he, hk'⟩)
      · exact .inr (.inr (.inr hl))
    · rintro (hf | ⟨k', -, hk'⟩ | rfl | hl)
      · exact .inl hf
      · exact .inr (.inl ⟨k', hk'⟩)
      · exact .inr (.inl ⟨k, hk⟩)
      · exact .inr (.inr hl)
  inj {k1 k2 x} h1 h2 := by
    rw [own_update] at h1 h2
    rcases h1 with ⟨-, h1⟩ | ⟨-, h1⟩
    · cases h1
    rcases h2 with ⟨-, h2⟩ | ⟨-, h2⟩
    · cases h2
    exact h.inj h1 h2
  owned {k' x} hk' := by
    rcases own_update.1 hk' with ⟨-, hx⟩ | ⟨hne, hx⟩
    · cases hx
    · refine ⟨(h.owned hx).1, ?_⟩
      rintro (rfl | hl)
      · exact hne (h.inj hx hk)
      · exact (h.owned hx).2 hl
  spare {x} := by
    rintro (rfl | hl)
    · exact (h.owned hk).1
    · exact h.spare hl

end

end Ledger

end Os161.Lib
