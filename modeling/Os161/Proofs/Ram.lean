import Mathlib.Order.CompletePartialOrder
import Mathlib.Order.Interval.Set.Disjoint
import Os161.Vm.Space

/-!
# Handing out physical memory

`Ram.Fits` is the question `ram_stealmem` should ask, on numbers; the code asks
it on words. `Ram.Honest` says when the two come to the same. Along requests
for which they do, every range handed out begins where the one before it ended
(`steals_spec`), so that no two overlap and none leaves the memory there was at
the beginning.
-/

namespace Os161.Vm

/-- The addresses `[p, p + npages * PAGE_SIZE)`, as numbers. -/
def span (paddr npages : Word) : Set Nat :=
  Set.Ico paddr.toNat (paddr.toNat + npages.toNat * 4096)

namespace Ram

variable {ram : Ram} {npages : Word}

/-- There is room for so many pages. -/
def Fits (ram : Ram) (npages : Word) : Prop :=
  ram.firstpaddr.toNat + npages.toNat * 4096 ≤ ram.lastpaddr.toNat

instance (ram : Ram) (npages : Word) : Decidable (ram.Fits npages) :=
  inferInstanceAs (Decidable (_ ≤ _))

/-- A request is answered as its size says: granted from the bottom if it fits,
and otherwise refused with nothing changed. -/
def Right (ram : Ram) (npages : Word) : Prop :=
  (ram.Fits npages → (ramStealmem npages ram).1 = ram.firstpaddr ∧
    (ramStealmem npages ram).2.firstpaddr.toNat =
      ram.firstpaddr.toNat + npages.toNat * 4096 ∧
    (ramStealmem npages ram).2.lastpaddr = ram.lastpaddr) ∧
  (¬ ram.Fits npages → ramStealmem npages ram = (0, ram))

/-- The request fits, or the end of it is beyond the end of memory also when it
is computed in 32 bits. The last case is a request for a multiple of 2^32 bytes
at address zero, where being granted nothing looks like being refused. -/
def Honest (ram : Ram) (npages : Word) : Prop :=
  ram.Fits npages ∨ ram.lastpaddr < ram.firstpaddr + npages * PAGE_SIZE ∨
    (ram.firstpaddr = 0 ∧ npages * PAGE_SIZE = 0)

/-- All of some requests are honest, each at its time. -/
def AllHonest : List Word → Ram → Prop
  | [], _ => True
  | npages :: rest, ram => ram.Honest npages ∧ AllHonest rest (ramStealmem npages ram).2

theorem toNat_end (ram : Ram) (npages : Word) : (ram.firstpaddr + npages * PAGE_SIZE).toNat =
      (ram.firstpaddr.toNat + npages.toNat * 4096) % 4294967296 := by
  simp [PAGE_SIZE, BitVec.toNat_add, BitVec.toNat_mul]

/-- What fits does not go around. -/
theorem Fits.toNat_end (h : ram.Fits npages) : (ram.firstpaddr + npages * PAGE_SIZE).toNat =
      ram.firstpaddr.toNat + npages.toNat * 4096 := by
  have hlast := ram.lastpaddr.isLt
  unfold Fits at h
  rw [Ram.toNat_end, Nat.mod_eq_of_lt (by omega)]

theorem stealmem_granted (h : ¬ ram.lastpaddr < ram.firstpaddr + npages * PAGE_SIZE) :
    ramStealmem npages ram =
      (ram.firstpaddr, { ram with firstpaddr := ram.firstpaddr + npages * PAGE_SIZE }) :=
  if_neg h

theorem stealmem_refused (h : ram.lastpaddr < ram.firstpaddr + npages * PAGE_SIZE) :
    ramStealmem npages ram = (0, ram) := if_pos h

theorem Fits.granted (h : ram.Fits npages) :
    ¬ ram.lastpaddr < ram.firstpaddr + npages * PAGE_SIZE := by
  rw [BitVec.lt_def, h.toNat_end]
  unfold Fits at h
  omega

/-- A request is answered right exactly when it is honest. -/
theorem right_iff_honest : ram.Right npages ↔ ram.Honest npages := by
  by_cases hfits : ram.Fits npages
  · constructor
    · intro _
      exact .inl hfits
    · intro _
      constructor
      · intro _
        rw [stealmem_granted hfits.granted]
        exact ⟨rfl, hfits.toNat_end, rfl⟩
      · intro hn
        exact absurd hfits hn
  · by_cases hover : ram.lastpaddr < ram.firstpaddr + npages * PAGE_SIZE
    · constructor
      · intro _
        exact .inr (.inl hover)
      · intro _
        exact ⟨fun hf => absurd hf hfits, fun _ => stealmem_refused hover⟩
    · -- the sum has gone around: the code grants what does not fit
      have hgrant := stealmem_granted hover
      constructor
      · intro hright
        have hsame := hgrant.symm.trans (hright.2 hfits)
        have hzero : ram.firstpaddr = 0 := congrArg Prod.fst hsame
        have hsize : ram.firstpaddr + npages * PAGE_SIZE = ram.firstpaddr :=
          congrArg (fun a => a.2.firstpaddr) hsame
        exact .inr (.inr ⟨hzero, by simpa [hzero] using hsize⟩)
      · intro hhonest
        rcases hhonest with hf | ho | ⟨hzero, hsize⟩
        · exact absurd hf hfits
        · exact absurd ho hover
        · refine ⟨fun hf => absurd hf hfits, fun _ => ?_⟩
          rw [hgrant, hzero, hsize]
          cases ram
          simp_all

/-- One honest request: what it returns lies between the old and the new
`firstpaddr`. -/
theorem Honest.step (h : ram.Honest npages) (hle : ram.firstpaddr ≤ ram.lastpaddr) :
    ram.firstpaddr ≤ (ramStealmem npages ram).2.firstpaddr ∧
      (ramStealmem npages ram).2.firstpaddr ≤ ram.lastpaddr ∧
      (ramStealmem npages ram).2.lastpaddr = ram.lastpaddr ∧
      ((ramStealmem npages ram).1 ≠ 0 → span (ramStealmem npages ram).1 npages ⊆
        Set.Ico ram.firstpaddr.toNat (ramStealmem npages ram).2.firstpaddr.toNat) := by
  by_cases hfits : ram.Fits npages
  · rw [stealmem_granted hfits.granted]
    have hend := hfits.toNat_end
    unfold Fits at hfits
    simp only [BitVec.le_def, span]
    rw [hend]
    refine ⟨by omega, by omega, trivial, fun _ => Set.Ico_subset_Ico_right ?_⟩
    omega
  · rw [(right_iff_honest.2 h).2 hfits]
    exact ⟨BitVec.le_refl _, hle, rfl, absurd rfl⟩

end Ram

/-- The requests that were granted. -/
def given (answers : List (Word × Word)) : List (Word × Word) :=
  answers.filter fun a => a.2 ≠ 0

theorem ramSteals_cons (npages : Word) (rest : List Word) (ram : Ram) :
    (ramSteals (npages :: rest) ram).1 =
      (npages, (ramStealmem npages ram).1) :: (ramSteals rest (ramStealmem npages ram).2).1 :=
  rfl

/-- Ranges handed out by honest requests, each above the one before. -/
theorem steals_spec {reqs : List Word} {ram : Ram} (hle : ram.firstpaddr ≤ ram.lastpaddr)
    (h : ram.AllHonest reqs) :
    (given (ramSteals reqs ram).1).Pairwise
        (fun a b => Disjoint (span a.2 a.1) (span b.2 b.1)) ∧
      ∀ a ∈ given (ramSteals reqs ram).1,
        span a.2 a.1 ⊆ Set.Ico ram.firstpaddr.toNat ram.lastpaddr.toNat := by
  induction reqs generalizing ram with
  | nil => simp [ramSteals, given]
  | cons npages rest ih =>
    obtain ⟨hone, hrest⟩ := h
    obtain ⟨hlo, hhi, hlast, hspan⟩ := hone.step hle
    obtain ⟨hpair, hin⟩ := ih (by rw [hlast]; exact hhi) hrest
    rw [hlast] at hin
    -- the later ranges lie above `firstpaddr` as this request leaves it
    have hwider : ∀ a ∈ given (ramSteals rest (ramStealmem npages ram).2).1,
        span a.2 a.1 ⊆ Set.Ico ram.firstpaddr.toNat ram.lastpaddr.toNat := by
      intro a ha
      exact (hin a ha).trans (Set.Ico_subset_Ico_left (BitVec.le_def.1 hlo))
    by_cases h0 : (ramStealmem npages ram).1 = 0
    · have heq : given (ramSteals (npages :: rest) ram).1 =
          given (ramSteals rest (ramStealmem npages ram).2).1 := by
        rw [ramSteals_cons]
        exact List.filter_cons_of_neg (by simpa using h0)
      rw [heq]
      exact ⟨hpair, hwider⟩
    · have heq : given (ramSteals (npages :: rest) ram).1 =
          (npages, (ramStealmem npages ram).1) ::
            given (ramSteals rest (ramStealmem npages ram).2).1 := by
        rw [ramSteals_cons]
        exact List.filter_cons_of_pos (by simpa using h0)
      rw [heq]
      constructor
      · refine List.pairwise_cons.2 ⟨fun a ha => ?_, hpair⟩
        exact (Set.Ico_disjoint_Ico_same (a := ram.firstpaddr.toNat)).mono (hspan h0) (hin a ha)
      · intro a ha
        rcases List.mem_cons.1 ha with rfl | ha
        · exact (hspan h0).trans (Set.Ico_subset_Ico_right (BitVec.le_def.1 hhi))
        · exact hwider a ha

/-- A request is answered right, granted if it fits and otherwise refused with
nothing changed, exactly when its end is computed without going around; and
along requests that are, no two ranges overlap and all of them lie in the memory
there was. -/
theorem stealmem_once (ram : Ram) (hle : ram.firstpaddr ≤ ram.lastpaddr) :
    (∀ npages, ram.Right npages ↔ ram.Honest npages) ∧
    ∀ reqs, ram.AllHonest reqs →
      (given (ramSteals reqs ram).1).Pairwise
          (fun a b => Disjoint (span a.2 a.1) (span b.2 b.1)) ∧
        ∀ a ∈ given (ramSteals reqs ram).1,
          span a.2 a.1 ⊆ Set.Ico ram.firstpaddr.toNat ram.lastpaddr.toNat :=
  ⟨fun _ => Ram.right_iff_honest, fun _ h => steals_spec hle h⟩

/-- Four megabytes, the first quarter of one of them taken by the kernel. -/
def smallRam : Ram := ⟨0x40000, 0x400000⟩

theorem stealmem_once_small :
    smallRam.AllHonest [2, 0x1000, 1] ∧
      (ramSteals [2, 0x1000, 1] smallRam).1 = [(2, 0x40000), (0x1000, 0), (1, 0x42000)] ∧
      Disjoint (span 0x40000 2) (span 0x42000 1) := by
  have hhonest : smallRam.AllHonest [2, 0x1000, 1] :=
    ⟨.inl (by decide), .inr (.inl (by decide)), .inl (by decide), trivial⟩
  refine ⟨hhonest, by decide, ?_⟩
  have h := (stealmem_once smallRam (by decide)).2 _ hhonest
  have hgiven : given (ramSteals [2, 0x1000, 1] smallRam).1 = [(2, 0x40000), (1, 0x42000)] := by
    decide
  rw [hgiven] at h
  exact (List.pairwise_cons.1 h.1).1 _ (List.mem_singleton.2 rfl)

/-- A segment of an executable with 0xfffff000 bytes is a region of 0xfffff
pages. The request for them is granted, and takes `firstpaddr` back by one page
into the kernel; the two pages handed out next are not free, and the second of
them is handed out twice. -/
theorem stealmem_twice :
    (Addrspace.zero.defineRegion 0x400000 0xfffff000).map (·.npages1) = .ok 0xfffff ∧
    (ramSteals [0xfffff, 1, 1] smallRam).1 =
      [(0xfffff, 0x40000), (1, 0x3f000), (1, 0x40000)] ∧
    ¬ span 0x3f000 1 ⊆ Set.Ico smallRam.firstpaddr.toNat smallRam.lastpaddr.toNat ∧
    ¬ Disjoint (span 0x40000 0xfffff) (span 0x40000 1) ∧
    ¬ smallRam.Fits 0xfffff := by
  refine ⟨by decide, by decide, ?_, ?_, by decide⟩
  · intro h
    have h1 := h (show 0x3f000 ∈ span 0x3f000 1 from ⟨by decide, by decide⟩)
    exact absurd h1.1 (by decide)
  · intro h
    exact Set.disjoint_left.1 h (show 0x40000 ∈ span 0x40000 0xfffff from ⟨by decide, by decide⟩)
      ⟨by decide, by decide⟩

end Os161.Vm
