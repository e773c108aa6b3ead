import Mathlib.Data.List.Nodup
import Os161.Kern.Kheap
import Os161.Lib.Linked

/-!
# One page of the heap

`PageOk` is what a pageref says about its page, and the page about itself: the
blocks of the page are the free ones and those that were handed out, each of
them once, and the free ones are chained in the order of the list. The three
things that happen to a page keep it: a block is taken from the front of the free
list, a block is put back there, and a new page has all of its blocks on the
list, the last one first.
-/

namespace Os161.Kern.Kheap

open Os161.Lib Os161.Vm Function

/-! ## Addresses -/

/-- A page that `alloc_kpages` may return: it starts at a page boundary and lies
in the segment through which the kernel sees physical memory. -/
structure Kpage (page : Word) : Prop where
  aligned : Aligned 12 page
  lo : 2147483648 ≤ page.toNat
  hi : page.toNat + 4096 ≤ 2684354560

section
variable {page a : Word} {off off' b size : Nat}

namespace Kpage

section
variable (h : Kpage page)
include h

theorem toNat_add (hoff : off < 4096) : (page + BitVec.ofNat 32 off).toNat = page.toNat + off := by
  have hhi := h.hi
  rw [BitVec.toNat_add, BitVec.toNat_ofNat]
  omega

theorem frame_self : page &&& PAGE_FRAME = page := by
  rw [PAGE_FRAME_eq]
  exact and_pageMask_eq_iff.2 h.aligned

/-- The page number of an address in the page. -/
theorem frame (hoff : off < 4096) : (page + BitVec.ofNat 32 off) &&& PAGE_FRAME = page := by
  have hal : page.toNat % 4096 = 0 := h.aligned
  apply BitVec.eq_of_toNat_eq
  rw [PAGE_FRAME_eq, toNat_and_pageMask, h.toNat_add hoff]
  show (page.toNat + off) / 4096 * 4096 = _
  omega

theorem ne_zero (hoff : off < 4096) : page + BitVec.ofNat 32 off ≠ 0 := by
  have hlo := h.lo
  have hnum := h.toNat_add hoff
  intro h0
  rw [h0] at hnum
  simp at hnum
  omega

omit h in
theorem toNat_sub (hoff : off < 4096) : (page + BitVec.ofNat 32 off - page).toNat = off := by
  rw [BitVec.add_comm, BitVec.add_sub_cancel, BitVec.toNat_ofNat]
  omega

omit h in
theorem offset_inj (hoff : off < 4096) (hoff' : off' < 4096)
    (heq : page + BitVec.ofNat 32 off = page + BitVec.ofNat 32 off') : off = off' := by
  rw [← toNat_sub hoff, heq, toNat_sub hoff']

/-- The test of `subpage_kfree` for an address in the page. -/
theorem inPage (hoff : off < 4096) : page ≤ page + BitVec.ofNat 32 off ∧
      page + BitVec.ofNat 32 off < page + PAGE_SIZE := by
  have hhi := h.hi
  have hsize : PAGE_SIZE.toNat = 4096 := rfl
  rw [BitVec.le_def, BitVec.lt_def, h.toNat_add hoff, BitVec.toNat_add, hsize]
  omega

theorem of_inPage (hlo : page ≤ a) (hhi : a < page + PAGE_SIZE) : a &&& PAGE_FRAME = page := by
  have hpage := h.hi
  have hal : page.toNat % 4096 = 0 := h.aligned
  have hsize : PAGE_SIZE.toNat = 4096 := rfl
  rw [BitVec.le_def] at hlo
  rw [BitVec.lt_def, BitVec.toNat_add, hsize] at hhi
  apply BitVec.eq_of_toNat_eq
  rw [PAGE_FRAME_eq, toNat_and_pageMask]
  show a.toNat / 4096 * 4096 = _
  omega

end

end Kpage

theorem sizes_spec (hb : b < NSIZES) :
    16 ≤ sizes b ∧ sizes b ≤ 2048 ∧ 4096 / sizes b * sizes b = 4096 := by
  have hall : ∀ b < NSIZES, 16 ≤ sizes b ∧ sizes b ≤ 2048 ∧ 4096 / sizes b * sizes b = 4096 := by
    decide
  exact hall b hb

/-- `c` is one of the `n` bytes from `a` on. -/
def Within (c a : Word) (n : Nat) : Prop := (c - a).toNat < n

/-- The blocks of a page. -/
def blocksOf (page : Word) (size : Nat) : List Word :=
  (List.range (4096 / size)).map fun k => page + BitVec.ofNat 32 (k * size)

theorem length_blocksOf : (blocksOf page size).length = 4096 / size := by
  simp [blocksOf]

theorem mem_blocksOf (hb : b < NSIZES) : a ∈ blocksOf page (sizes b) ↔
      ∃ off < 4096, sizes b ∣ off ∧ a = page + BitVec.ofNat 32 off := by
  obtain ⟨hlo, _, hdiv⟩ := sizes_spec hb
  simp only [blocksOf, List.mem_map, List.mem_range]
  constructor
  · intro ⟨k, hk, hka⟩
    refine ⟨k * sizes b, ?_, Nat.dvd_mul_left _ _, hka.symm⟩
    calc k * sizes b < 4096 / sizes b * sizes b := Nat.mul_lt_mul_of_pos_right hk (by omega)
      _ = 4096 := hdiv
  · intro ⟨off, hoff, ⟨k, hk⟩, ha⟩
    rw [Nat.mul_comm] at hk
    refine ⟨k, ?_, hk ▸ ha.symm⟩
    apply Nat.lt_of_mul_lt_mul_right (a := sizes b)
    omega

/-- A block ends within its page. -/
theorem block_room (hb : b < NSIZES) (hoff : off < 4096) (hdvd : sizes b ∣ off) :
    off + sizes b ≤ 4096 := by
  obtain ⟨_, _, hdiv⟩ := sizes_spec hb
  obtain ⟨k, rfl⟩ := hdvd
  have hk : k < 4096 / sizes b := by
    apply Nat.lt_of_mul_lt_mul_left (a := sizes b)
    rw [Nat.mul_comm _ (4096 / _)]
    omega
  calc sizes b * k + sizes b = (k + 1) * sizes b := by
        rw [Nat.add_mul, Nat.one_mul, Nat.mul_comm]
    _ ≤ 4096 / sizes b * sizes b := Nat.mul_le_mul_right _ hk
    _ = 4096 := hdiv

theorem nodup_blocksOf (hb : b < NSIZES) : (blocksOf page (sizes b)).Nodup := by
  obtain ⟨hlo, _, hdiv⟩ := sizes_spec hb
  have hbound : ∀ k ∈ List.range (4096 / sizes b), k * sizes b < 4096 := by
    intro k hk
    calc k * sizes b < 4096 / sizes b * sizes b :=
          Nat.mul_lt_mul_of_pos_right (List.mem_range.1 hk) (by omega)
      _ = 4096 := hdiv
  apply List.Nodup.map_on _ List.nodup_range
  intro k hk k' hk' heq
  have hoff := Kpage.offset_inj (hbound k hk) (hbound k' hk') heq
  exact Nat.eq_of_mul_eq_mul_right (by omega) hoff

end

/-! ## What is said about a page -/

/-- A pointer as the links have it. -/
def ptrOf (w : Word) : Option Word := if w = 0 then none else some w

theorem ptrOf_of_ne {w : Word} (h : w ≠ 0) : ptrOf w = some w := if_neg h

theorem ptrOf_eq_some {w a : Word} (h : ptrOf w = some a) : w = a ∧ a ≠ 0 := by
  unfold ptrOf at h
  split at h
  · cases h
  · rename_i h0
    cases h
    exact ⟨rfl, h0⟩

theorem ptrOf_eq_none {w : Word} (h : ptrOf w = none) : w = 0 := by
  unfold ptrOf at h
  split at h
  · assumption
  · cases h

/-- The successor of a free block. -/
def nextFree (mem : Word → Word) (a : Word) : Option Word := ptrOf (mem a)

/-- Where the free list starts. -/
def headOffset (page : Word) : List Word → Nat
  | [] => INVALID_OFFSET
  | a :: _ => (a - page).toNat

structure PageOk (mem : Word → Word) (pr : Pageref) (free held : List Word) : Prop where
  type : pr.blocktype < NSIZES
  kpage : Kpage pr.pageaddr
  blocks : (free ++ held).Perm (blocksOf pr.pageaddr (sizes pr.blocktype))
  chain : Linked (nextFree mem) free.head? free
  offset : pr.freelistOffset = headOffset pr.pageaddr free
  nfree : pr.nfree = free.length

namespace PageOk

variable {mem mem' : Word → Word} {pr : Pageref} {free held : List Word} {a : Word}

section
variable (h : PageOk mem pr free held)
include h

theorem block (ha : a ∈ free ∨ a ∈ held) :
    ∃ off < 4096, sizes pr.blocktype ∣ off ∧ a = pr.pageaddr + BitVec.ofNat 32 off :=
  (mem_blocksOf h.type).1 (h.blocks.mem_iff.1 (List.mem_append.2 ha))

theorem nodup : (free ++ held).Nodup :=
  h.blocks.nodup_iff.2 (nodup_blocksOf h.type)

theorem length : free.length + held.length = 4096 / sizes pr.blocktype := by
  rw [← List.length_append, h.blocks.length_eq, length_blocksOf]

theorem length_le : free.length + held.length ≤ 256 := by
  have hlo := (sizes_spec h.type).1
  rw [h.length]
  calc 4096 / sizes pr.blocktype ≤ 4096 / 16 := Nat.div_le_div_left hlo (by decide)
    _ = 256 := rfl

theorem frame (ha : a ∈ free ∨ a ∈ held) : a &&& PAGE_FRAME = pr.pageaddr := by
  obtain ⟨off, hoff, _, rfl⟩ := h.block ha
  exact h.kpage.frame hoff

end

theorem head (h : PageOk mem pr (a :: free) held) :
    pr.freelistOffset < 4096 ∧ sizes pr.blocktype ∣ pr.freelistOffset ∧
      pr.pageaddr + BitVec.ofNat 32 pr.freelistOffset = a := by
  obtain ⟨off, hoff, hdvd, rfl⟩ := h.block (.inl List.mem_cons_self)
  have hnum : pr.freelistOffset = off := h.offset.trans (Kpage.toNat_sub hoff)
  rw [hnum]
  exact ⟨hoff, hdvd, rfl⟩

/-- Only the memory of the free blocks matters. -/
theorem congr (h : PageOk mem pr free held) (hmem : ∀ a ∈ free, mem' a = mem a) :
    PageOk mem' pr free held := by
  refine { h with chain := h.chain.congr ?_ }
  intro a ha
  unfold nextFree
  rw [hmem a ha]

/-- The links of the pageref are not its page's business. -/
theorem links (h : PageOk mem pr free held) (x y : Option Nat) :
    PageOk mem { pr with nextSamesize := x, nextAll := y } free held :=
  { h with }

/-- The first free block is handed out. -/
theorem take (h : PageOk mem pr (a :: free) held) :
    PageOk mem { pr with nfree := free.length, freelistOffset := headOffset pr.pageaddr free }
      free (a :: held) where
  type := h.type
  kpage := h.kpage
  blocks := List.perm_middle.trans h.blocks
  chain := by
    have hchain := h.chain.2
    rwa [hchain.head_eq] at hchain
  offset := rfl
  nfree := rfl

/-- What stands in the first free block. -/
theorem next (h : PageOk mem pr (a :: free) held) : ptrOf (mem a) = free.head? :=
  h.chain.2.head_eq

/-- A block comes back. -/
theorem put {held' : List Word} (h : PageOk mem pr free held) (ha : held.Perm (a :: held'))
    (hnext : ptrOf (mem' a) = free.head?) (hmem : ∀ b ∈ free, mem' b = mem b) :
    PageOk mem' { pr with nfree := free.length + 1, freelistOffset := (a - pr.pageaddr).toNat }
      (a :: free) held' where
  type := h.type
  kpage := h.kpage
  blocks := (List.perm_middle.symm.trans (ha.symm.append_left free)).trans h.blocks
  chain := by
    refine ⟨rfl, ?_⟩
    rw [nextFree, hnext]
    exact (h.congr hmem).chain
  offset := rfl
  nfree := rfl

end PageOk

/-! ## The memory that is touched -/

theorem fillDeadbeef_of_ne {ptr b : Word} {n : Nat} {mem : Word → Word}
    (h : ∀ i < n, b ≠ ptr + BitVec.ofNat 32 (4 * i)) : fillDeadbeef ptr n mem b = mem b := by
  induction n with
  | zero => rfl
  | succ n ih =>
    rw [fillDeadbeef, update_of_ne (h n (Nat.lt_succ_self n))]
    exact ih fun i hi => h i (Nat.lt_succ_of_lt hi)

namespace PageOk

variable {mem : Word → Word} {pr : Pageref} {free held : List Word} {a b w : Word}

/-- The words of a block are within the page, and apart from its start they are
not the start of any block. -/
theorem words (h : PageOk mem pr free held) (ha : a ∈ free ∨ a ∈ held) {i : Nat}
    (hi : i < sizes pr.blocktype / 4) : (a + BitVec.ofNat 32 (4 * i)) &&& PAGE_FRAME = pr.pageaddr ∧
      ∀ b, b ∈ free ∨ b ∈ held → b = a + BitVec.ofNat 32 (4 * i) → b = a := by
  obtain ⟨off, hoff, hdvd, rfl⟩ := h.block ha
  have hroom := block_room h.type hoff hdvd
  have hadd : pr.pageaddr + BitVec.ofNat 32 off + BitVec.ofNat 32 (4 * i) =
      pr.pageaddr + BitVec.ofNat 32 (off + 4 * i) := by
    rw [BitVec.add_assoc, BitVec.ofNat_add]
  rw [hadd]
  refine ⟨h.kpage.frame (by omega), ?_⟩
  intro b hb heq
  obtain ⟨off', hoff', hdvd', rfl⟩ := h.block hb
  have hsum := Kpage.offset_inj hoff' (by omega) heq
  have hzero : 4 * i = 0 := by
    apply Nat.eq_zero_of_dvd_of_lt _ (show 4 * i < sizes pr.blocktype by omega)
    rw [show 4 * i = off' - off by omega]
    exact Nat.dvd_sub hdvd' hdvd
  rw [hsum, hzero, Nat.add_zero]

/-- A byte in a block says which block it is in. -/
theorem within (h : PageOk mem pr free held) (ha : a ∈ free ∨ a ∈ held)
    (hb : Within b a (sizes pr.blocktype)) :
    b &&& PAGE_FRAME = pr.pageaddr ∧ a = pr.pageaddr + BitVec.ofNat 32
      ((b - pr.pageaddr).toNat / sizes pr.blocktype * sizes pr.blocktype) := by
  obtain ⟨hlo, _, _⟩ := sizes_spec h.type
  obtain ⟨off, hoff, ⟨k, hk⟩, rfl⟩ := h.block ha
  have hroom := block_room h.type hoff ⟨k, hk⟩
  unfold Within at hb
  generalize hi : (b - (pr.pageaddr + BitVec.ofNat 32 off)).toNat = i at hb
  have hbyte : b = pr.pageaddr + BitVec.ofNat 32 (off + i) := by
    rw [← hi, BitVec.ofNat_add, ← BitVec.add_assoc, BitVec.ofNat_toNat, BitVec.setWidth_eq,
      BitVec.add_comm, BitVec.sub_add_cancel]
  rw [hbyte]
  refine ⟨h.kpage.frame (by omega), ?_⟩
  rw [Kpage.toNat_sub (by omega), hk, Nat.mul_add_div (by omega), Nat.div_eq_of_lt hb,
    Nat.add_zero, Nat.mul_comm k]

/-- The memory after a block has been filled and its first word been set. -/
theorem filled (h : PageOk mem pr free held) (ha : a ∈ held) :
    (∀ b ∈ free, update (fillDeadbeef a (sizes pr.blocktype / 4) mem) a w b = mem b) ∧
      ∀ b, b &&& PAGE_FRAME ≠ pr.pageaddr →
        update (fillDeadbeef a (sizes pr.blocktype / 4) mem) a w b = mem b := by
  constructor
  · intro b hb
    have hba : b ≠ a := by
      intro hba
      subst hba
      exact (List.nodup_append.1 h.nodup).2.2 b hb b ha rfl
    rw [update_of_ne hba]
    apply fillDeadbeef_of_ne
    intro i hi heq
    exact hba ((h.words (.inr ha) hi).2 b (.inl hb) heq)
  · intro b hb
    have hba : b ≠ a := by
      intro hba
      subst hba
      exact hb (h.frame (.inr ha))
    rw [update_of_ne hba]
    apply fillDeadbeef_of_ne
    intro i hi heq
    rw [heq] at hb
    exact hb (h.words (.inr ha) hi).1

end PageOk

/-! ## The check -/

section
variable {t : Terms Panic} {h : Heap} {slow : Bool}

theorem awp_walk {page : Word} {size k n : Nat} {fl : Word} {l : List Word} {Q : Nat → Heap → Prop}
    (hp : Kpage page) (hl : Linked (nextFree h.mem) (ptrOf fl) l)
    (hin : ∀ a ∈ l, ∃ off < 4096, size ∣ off ∧ a = page + BitVec.ofNat 32 off) (hk : l.length ≤ k)
    (hQ : Q (n + l.length) h) : awp t (checksubpage.walk page size k fl n) Q h := by
  induction l generalizing fl n k with
  | nil =>
    have h0 := ptrOf_eq_none hl
    cases k with
    | zero =>
      rw [checksubpage.walk, if_pos h0]
      exact hQ
    | succ k =>
      rw [checksubpage.walk, if_pos h0]
      exact hQ
  | cons a l ih =>
    obtain ⟨hfl, h0⟩ := ptrOf_eq_some hl.1
    subst hfl
    obtain ⟨k, rfl⟩ : ∃ j, k = j + 1 := ⟨k - 1, by simp at hk; omega⟩
    rw [checksubpage.walk, if_neg h0]
    obtain ⟨off, hoff, hdvd, hfl⟩ := hin fl List.mem_cons_self
    have hnum := hp.toNat_add hoff
    have hlo := hp.lo
    have hhi := hp.hi
    have h0' : MIPS_KSEG0.toNat = 2147483648 := rfl
    have h1' : MIPS_KSEG1.toNat = 2684354560 := rfl
    refine awp_bind.2 (awp_assert.2 ⟨fun _ => ?_, fun hno => absurd ?_ hno⟩)
    refine awp_bind.2 (awp_assert.2 ⟨fun _ => ?_, fun hno => absurd ?_ hno⟩)
    refine awp_bind.2 (awp_assert.2 ⟨fun _ => ?_, fun hno => absurd ?_ hno⟩)
    refine awp_bind.2 (awp_assert.2 ⟨fun _ => ?_, fun hno => absurd ?_ hno⟩)
    refine awp_bind.2 (awp_mem.2 ?_)
    · apply ih hl.2
      · exact fun b hb => hin b (List.mem_cons_of_mem _ hb)
      · simpa using hk
      · rw [List.length_cons] at hQ
        rw [Nat.add_right_comm]
        exact hQ
    · rw [hfl, BitVec.lt_def, hnum, h1']
      omega
    · rw [hfl, BitVec.le_def, hnum, h0']
      omega
    · rw [hfl, Kpage.toNat_sub hoff]
      exact Nat.mod_eq_zero_of_dvd hdvd
    · rw [hfl]
      exact hp.inPage hoff

theorem awp_checksubpage {p : Nat} {free held : List Word} {Q : Unit → Heap → Prop}
    (hok : PageOk h.mem (h.pagerefs p) free held) (hspl : 0 < h.curspl) (hQ : Q () h) :
    awp t (checksubpage slow p) Q h := by
  unfold checksubpage
  cases slow with
  | false => exact hQ
  | true =>
    rw [if_pos rfl]
    refine awp_bind.2 (awp_mem.2 (awp_bind.2 (awp_assert.2 ⟨fun _ => ?_, fun hno =>
      absurd hspl hno⟩)))
    dsimp only
    cases free with
    | nil =>
      have hoff : (h.pagerefs p).freelistOffset = INVALID_OFFSET := hok.offset
      rw [if_pos hoff]
      exact awp_assert.2 ⟨fun _ => hQ, fun hno => absurd hok.nfree hno⟩
    | cons a free =>
      obtain ⟨hlt, hdvd, ha⟩ := hok.head
      have hinv : (h.pagerefs p).freelistOffset ≠ INVALID_OFFSET := by
        unfold INVALID_OFFSET
        omega
      rw [if_neg hinv]
      refine awp_bind.2 (awp_assert.2 ⟨fun _ => ?_, fun hno => absurd hlt hno⟩)
      refine awp_bind.2 (awp_assert.2 ⟨fun _ => ?_, fun hno =>
        absurd (Nat.mod_eq_zero_of_dvd hdvd) hno⟩)
      rw [ha]
      have ha0 : a ≠ 0 := by
        rw [← ha]
        exact hok.kpage.ne_zero hlt
      refine awp_bind.2 (awp_walk (l := a :: free) hok.kpage ?_ ?_ ?_ ?_)
      · rw [ptrOf_of_ne ha0]
        exact hok.chain
      · exact fun b hb => hok.block (.inl hb)
      · have hle := hok.length_le
        omega
      · rw [Nat.zero_add]
        exact awp_assert.2 ⟨fun _ => hQ, fun hno => absurd hok.nfree.symm hno⟩

end

end Os161.Kern.Kheap
