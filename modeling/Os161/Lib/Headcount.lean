import Mathlib.Data.Set.Card

/-!
# How many threads are where

Each of the threads `ι` is at a place, and `P i x` says whether place `x` counts
for thread `i`. There may be any number of threads, but only so many of them are
at a place that counts. A thread that moves makes one more of them, or one less, or
none of it.
-/

namespace Os161.Lib

open Function

variable {ι α : Type} [DecidableEq ι] {P : ι → α → Prop} {pc pc' : ι → α} {n : ℕ} {i : ι} {x : α}

/-- The places of `n` threads count. -/
def Headcount (P : ι → α → Prop) (pc : ι → α) (n : ℕ) : Prop := {i | P i (pc i)}.encard = n

namespace Headcount

omit [DecidableEq ι] in
theorem congr (h : Headcount P pc n) (hiff : ∀ j, P j (pc' j) ↔ P j (pc j)) :
    Headcount P pc' n := by
  unfold Headcount
  simp only [hiff]
  exact h

/-- A place is left for another one that counts for as much. -/
theorem stays (h : Headcount P pc n) (hx : P i x ↔ P i (pc i)) : Headcount P (update pc i x) n := by
  apply h.congr
  intro j
  by_cases hj : j = i
  · subst hj
    rw [update_self]
    exact hx
  · rw [update_of_ne hj]

theorem enters (h : Headcount P pc n) (hno : ¬ P i (pc i)) (hx : P i x) :
    Headcount P (update pc i x) (n + 1) := by
  have hset : {j | P j (update pc i x j)} = insert i {j | P j (pc j)} := by
    ext j
    by_cases hj : j = i
    · subst hj
      simp [hx]
    · simp [hj]
  unfold Headcount at h ⊢
  have hout : i ∉ {j | P j (pc j)} := hno
  rw [hset, Set.encard_insert_of_notMem hout, h]
  rfl

theorem leaves (h : Headcount P pc n) (hyes : P i (pc i)) (hx : ¬ P i x) :
    Headcount P (update pc i x) (n - 1) := by
  have hset : {j | P j (update pc i x j)} = {j | P j (pc j)} \ {i} := by
    ext j
    by_cases hj : j = i
    · subst hj
      simp [hx]
    · simp [hj]
  unfold Headcount at h ⊢
  have hin : i ∈ {j | P j (pc j)} := hyes
  rw [hset, Set.encard_sdiff_singleton_of_mem hin, h]
  rfl

omit [DecidableEq ι] in
theorem pos (h : Headcount P pc n) (hi : P i (pc i)) : 0 < n := by
  apply Nat.pos_of_ne_zero
  intro h0
  subst h0
  exact Set.notMem_empty i ((Set.encard_eq_zero.1 h) ▸ hi)

omit [DecidableEq ι] in
theorem eq_zero (h : Headcount P pc n) (hno : ∀ i, ¬ P i (pc i)) : n = 0 := by
  have hempty : {i | P i (pc i)} = ∅ := Set.eq_empty_iff_forall_notMem.2 hno
  unfold Headcount at h
  rw [hempty, Set.encard_empty] at h
  exact_mod_cast h.symm

omit [DecidableEq ι] in
theorem zero (hno : ∀ i, ¬ P i (pc i)) : Headcount P pc 0 :=
  Set.encard_eq_zero.2 (Set.eq_empty_iff_forall_notMem.2 hno)

omit [DecidableEq ι] in
omit [DecidableEq ι] in
/-- If there is only one of them, it is this one. -/
theorem unique {j : ι} (h : Headcount P pc 1) (hi : P i (pc i)) (hj : P j (pc j)) : i = j := by
  obtain ⟨k, hk⟩ := Set.encard_eq_one.1 h
  have hik : i ∈ ({k} : Set ι) := hk ▸ hi
  have hjk : j ∈ ({k} : Set ι) := hk ▸ hj
  rw [Set.mem_singleton_iff] at hik hjk
  rw [hik, hjk]

omit [DecidableEq ι] in
/-- Three of them are more than two. -/
theorem two_lt {j k : ι} (h : Headcount P pc n) (hi : P i (pc i)) (hj : P j (pc j))
    (hk : P k (pc k)) (hij : i ≠ j) (hik : i ≠ k) (hjk : j ≠ k) : 2 < n := by
  have hsub : ({i, j, k} : Set ι) ⊆ {l | P l (pc l)} := by
    rintro l (rfl | rfl | rfl)
    · exact hi
    · exact hj
    · exact hk
  have hle := Set.encard_le_encard hsub
  rw [Set.encard_eq_three.2 ⟨i, j, k, hij, hik, hjk, rfl⟩, h] at hle
  exact_mod_cast hle

end Headcount

end Os161.Lib
