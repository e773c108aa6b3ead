import Os161.Proofs.Load
import Os161.Vm.Proc

/-!
# Whose memory it is

The memory of an address space is the stretches that were found for it. That
`ram_stealmem` hands out no byte twice (`Separate`) is an assumption here; what
follows from it is that address spaces have no byte in common (`State.Apart`),
because each of them has only what it was given.

`Addrspace.byteAddr` is where a user address ends up, by the computation of
`vm_fault`, and it is always in that memory. `TlbOk` says that the translation
buffer agrees with it.
-/

namespace Os161.Vm

open Os161.Kern Os161.Lib Function

/-! ## Memory that was handed out -/

/-- No stretch goes around, and no two have a byte in common. -/
structure Separate (granted : List (Word × Word)) : Prop where
  fits : ∀ g ∈ granted, g.1.toNat + g.2.toNat * 4096 ≤ 4294967296
  apart : granted.Pairwise fun g h => Disjoint (span g.1 g.2) (span h.1 h.2)

/-- A byte that has been handed out. -/
def Taken (granted : List (Word × Word)) (x : Nat) : Prop := ∃ g ∈ granted, x ∈ span g.1 g.2

theorem Separate.of_append {new granted : List (Word × Word)} (h : Separate (new ++ granted)) :
    Separate new ∧ Separate granted ∧ ∀ x, Taken new x → ¬ Taken granted x := by
  obtain ⟨hnew, hold, hcross⟩ := List.pairwise_append.1 h.apart
  refine ⟨⟨fun g hg => h.fits g (List.mem_append_left _ hg), hnew⟩,
    ⟨fun g hg => h.fits g (List.mem_append_right _ hg), hold⟩, ?_⟩
  intro x ⟨g, hg, hxg⟩ ⟨g', hg', hxg'⟩
  exact Set.disjoint_left.1 (hcross g hg g' hg') hxg hxg'

namespace Addrspace

variable {sp : Addrspace} {va page pa : Word}

/-- The memory of an address space. -/
def Owns (sp : Addrspace) (x : Nat) : Prop := Taken sp.held x

theorem mem_held {g : Word × Word} (hg : g ∈ sp.areas) (h0 : g.1 ≠ 0) : g ∈ sp.held :=
  List.mem_filter.2 ⟨hg, by simpa using h0⟩

/-- There is memory for all of it, and the regions begin at page boundaries. -/
structure Backed (sp : Addrspace) : Prop where
  pbase1 : sp.pbase1 ≠ 0
  pbase2 : sp.pbase2 ≠ 0
  stackpbase : sp.stackpbase ≠ 0
  vbase1 : Lib.Aligned 12 sp.vbase1
  vbase2 : Lib.Aligned 12 sp.vbase2

theorem Ready.backed (h : sp.Ready) : sp.Backed :=
  ⟨h .pbase1 (by decide), h .pbase2 (by decide), h .stackpbase (by decide), h.aligned_vbase1,
    h.aligned_vbase2⟩

/-- Where the byte at a user address is. -/
def byteAddr (sp : Addrspace) (va : Word) : Option Word :=
  (sp.frame (va &&& PAGE_FRAME)).map fun frame => frame + (va &&& ~~~ PAGE_FRAME)

/-- The three places a page may be in: virtual base, physical base and size. -/
def windows (sp : Addrspace) : List (Word × Word × Word) :=
  [(sp.vbase1, sp.pbase1, sp.npages1), (sp.vbase2, sp.pbase2, sp.npages2),
    (stackbase, sp.stackpbase, DUMBVM_STACKPAGES)]

theorem stackbase_end : stackbase + DUMBVM_STACKPAGES * PAGE_SIZE = USERSTACK := by decide

theorem frame_window (h : sp.frame page = some pa) :
    ∃ w ∈ sp.windows, w.1 ≤ page ∧ page < w.1 + w.2.2 * PAGE_SIZE ∧ pa = page - w.1 + w.2.1 := by
  unfold frame at h
  split at h
  · rename_i hin
    exact ⟨_, List.mem_cons_self, hin.1, hin.2, (Option.some.inj h).symm⟩
  · split at h
    · rename_i hin
      exact ⟨_, List.mem_cons_of_mem _ List.mem_cons_self, hin.1, hin.2, (Option.some.inj h).symm⟩
    · split at h
      · rename_i hin
        refine ⟨(stackbase, sp.stackpbase, DUMBVM_STACKPAGES),
          List.mem_cons_of_mem _ (List.mem_cons_of_mem _ List.mem_cons_self), hin.1, ?_,
          (Option.some.inj h).symm⟩
        rw [stackbase_end]
        exact hin.2
      · cases h

end Addrspace

variable {npages dst p src : Word} {sp : Addrspace} {s : State} {mem : Word → UInt8}

/-- Within a window nothing goes around: the offset is less than the size, in
numbers, and at a page boundary there is room for a whole page. -/
theorem window_offset {vbase page : Word} (hv : Lib.Aligned 12 vbase) (hp : Lib.Aligned 12 page)
    (hlo : vbase ≤ page) (hhi : page < vbase + npages * PAGE_SIZE) :
    (page - vbase).toNat + 4096 ≤ npages.toNat * 4096 := by
  unfold Lib.Aligned at hv hp
  rw [BitVec.le_def] at hlo
  rw [BitVec.lt_def, BitVec.toNat_add, BitVec.toNat_mul] at hhi
  rw [BitVec.toNat_sub_of_le (BitVec.le_def.2 hlo)]
  have hsize : PAGE_SIZE.toNat = 4096 := rfl
  rw [hsize] at hhi
  have hpage := page.isLt
  have hbase := vbase.isLt
  omega

theorem window_sum (page vbase pbase off : Word) :
    page - vbase + pbase + off = pbase + (page - vbase + off) := by
  rw [BitVec.add_comm (page - vbase) pbase, BitVec.add_assoc]

theorem offset_lt (va : Word) : (va &&& ~~~ PAGE_FRAME).toNat < 4096 := by
  have hmask : (~~~ PAGE_FRAME : Word).toNat = 4095 := by decide
  rw [BitVec.toNat_and, hmask]
  exact Nat.lt_succ_of_le Nat.and_le_right

namespace Addrspace

variable {sp : Addrspace} {va page pa : Word}

variable {w : Word × Word × Word}

theorem Backed.window (h : sp.Backed) (hw : w ∈ sp.windows) :
    Lib.Aligned 12 w.1 ∧ w.2 ∈ sp.held := by
  simp only [windows, List.mem_cons, List.not_mem_nil, or_false] at hw
  rcases hw with rfl | rfl | rfl
  · exact ⟨h.vbase1, mem_held (by simp [areas]) h.pbase1⟩
  · exact ⟨h.vbase2, mem_held (by simp [areas]) h.pbase2⟩
  · exact ⟨aligned_stackbase, mem_held (by simp [areas]) h.stackpbase⟩

/-- A byte of a page in a window is in the memory behind the window. -/
theorem Backed.window_byte {off : Word} (h : sp.Backed)
    (hsep : Separate sp.held) (hw : w ∈ sp.windows) (hp : Lib.Aligned 12 page)
    (hlo : w.1 ≤ page) (hhi : page < w.1 + w.2.2 * PAGE_SIZE) (hoff : off.toNat < 4096) :
    (w.2.1 + (page - w.1 + off)).toNat ∈ span w.2.1 w.2.2 := by
  obtain ⟨hv, hheld⟩ := h.window hw
  have hroom := window_offset hv hp hlo hhi
  have hfits := hsep.fits w.2 hheld
  have hsum : (w.2.1 + (page - w.1 + off)).toNat =
      w.2.1.toNat + ((page - w.1).toNat + off.toNat) := by
    rw [BitVec.toNat_add, BitVec.toNat_add]
    omega
  rw [hsum]
  exact ⟨by omega, by omega⟩

/-- So is every byte of a frame. -/
theorem Backed.frame_owned {off : Nat} (h : sp.Backed) (hsep : Separate sp.held)
    (hp : Lib.Aligned 12 page) (hframe : sp.frame page = some pa) (hoff : off < 4096) :
    sp.Owns (pa.toNat + off) := by
  obtain ⟨w, hw, hlo, hhi, rfl⟩ := frame_window hframe
  obtain ⟨hv, hheld⟩ := h.window hw
  have hroom := window_offset hv hp hlo hhi
  have hfits := hsep.fits w.2 hheld
  have hsum : (page - w.1 + w.2.1).toNat = (page - w.1).toNat + w.2.1.toNat := by
    rw [BitVec.toNat_add]
    omega
  refine ⟨w.2, hheld, ?_⟩
  rw [hsum]
  exact ⟨by omega, by omega⟩

theorem Backed.byteAddr_owned {x : Word} (h : sp.Backed) (hsep : Separate sp.held)
    (hx : sp.byteAddr va = some x) : sp.Owns x.toNat := by
  obtain ⟨frame, hframe, rfl⟩ := Option.map_eq_some_iff.1 hx
  obtain ⟨w, hw, hlo, hhi, rfl⟩ := frame_window hframe
  refine ⟨w.2, (h.window hw).2, ?_⟩
  rw [window_sum]
  exact h.window_byte hsep hw (aligned_page va) hlo hhi (offset_lt va)

end Addrspace

/-! ## Address spaces have nothing in common -/

structure State.Apart (s : State) : Prop where
  covered : ∀ {a sp x}, s.spaces a = some sp → sp.Owns x → Taken s.granted x
  apart : ∀ {a a' sp sp' x}, s.spaces a = some sp → s.spaces a' = some sp' → sp.Owns x →
    sp'.Owns x → a = a'
  held : ∀ {a sp}, s.spaces a = some sp → Separate sp.held

namespace State.Apart

variable {s s' : State} {a : Addr} {sp : Addrspace}

/-- Only the spaces and the record matter, and the record may get longer. -/
theorem mono (h : s.Apart) (hspaces : s'.spaces = s.spaces)
    (hgr : ∃ new, s'.granted = new ++ s.granted) : s'.Apart where
  covered hsp hx := by
    obtain ⟨new, hnew⟩ := hgr
    rw [hspaces] at hsp
    obtain ⟨g, hg, hxg⟩ := h.covered hsp hx
    exact ⟨g, hnew ▸ List.mem_append_right _ hg, hxg⟩
  apart := by
    rw [hspaces]
    exact h.apart
  held := by
    rw [hspaces]
    exact h.held

theorem destroy (h : s.Apart) (hspaces : s'.spaces = update s.spaces a none)
    (hgr : s'.granted = s.granted) : s'.Apart := by
  have hsub : ∀ b sp', s'.spaces b = some sp' → s.spaces b = some sp' := by
    intro b sp' hb
    rw [hspaces] at hb
    by_cases hba : b = a
    · subst hba
      rw [update_self] at hb
      cases hb
    · rwa [update_of_ne hba] at hb
  constructor
  · intro b sp' x hb hx
    rw [hgr]
    exact h.covered (hsub b sp' hb) hx
  · intro b b' sp' sp'' x hb hb'
    exact h.apart (hsub b sp' hb) (hsub b' sp'' hb')
  · intro b sp' hb
    exact h.held (hsub b sp' hb)

/-- An address space is stored that has nothing but memory just handed out. -/
theorem store (h : s.Apart) (hspaces : s'.spaces = update s.spaces a (some sp))
    (hgr : s'.granted = sp.held ++ s.granted) (hsep : Separate s'.granted) : s'.Apart := by
  rw [hgr] at hsep
  obtain ⟨hnew, _, hcross⟩ := hsep.of_append
  have hcases : ∀ b sp', s'.spaces b = some sp' →
      (b = a ∧ sp' = sp) ∨ (b ≠ a ∧ s.spaces b = some sp') := by
    intro b sp' hb
    rw [hspaces] at hb
    by_cases hba : b = a
    · subst hba
      rw [update_self] at hb
      exact .inl ⟨rfl, (Option.some.inj hb).symm⟩
    · rw [update_of_ne hba] at hb
      exact .inr ⟨hba, hb⟩
  constructor
  · intro b sp' x hb hx
    rw [hgr]
    rcases hcases b sp' hb with ⟨_, rfl⟩ | ⟨_, hb⟩
    · obtain ⟨g, hg, hxg⟩ := hx
      exact ⟨g, List.mem_append_left _ hg, hxg⟩
    · obtain ⟨g, hg, hxg⟩ := h.covered hb hx
      exact ⟨g, List.mem_append_right _ hg, hxg⟩
  · intro b b' sp' sp'' x hb hb' hx hx'
    rcases hcases b sp' hb with ⟨hba, rfl⟩ | ⟨_, hb⟩
    · rcases hcases b' sp'' hb' with ⟨hba', rfl⟩ | ⟨_, hb'⟩
      · exact hba.trans hba'.symm
      · exact absurd (h.covered hb' hx') (hcross x hx)
    · rcases hcases b' sp'' hb' with ⟨_, rfl⟩ | ⟨_, hb'⟩
      · exact absurd (h.covered hb hx) (hcross x hx')
      · exact h.apart hb hb' hx hx'
  · intro b sp' hb
    rcases hcases b sp' hb with ⟨_, rfl⟩ | ⟨_, hb⟩
    · exact hnew
    · exact h.held hb

end State.Apart

/-! ## The translation buffer -/

/-- Every valid line is for a page of the address space, with the frame that
`vm_fault` computes for it, and there is one line for a page. -/
structure TlbOk (sp : Addrspace) (tlb : Fin NUM_TLB → TlbEntry) : Prop where
  line : ∀ i, (tlb i).Valid → sp.Ready ∧
    ∃ page pa, Lib.Aligned 12 page ∧ sp.frame page = some pa ∧ tlb i = entry page pa
  once : ∀ i j, (tlb i).Valid → (tlb j).Valid → (tlb i).ehi = (tlb j).ehi → i = j

theorem TlbOk.of_empty {tlb : Fin NUM_TLB → TlbEntry} (h : ∀ i, ¬ (tlb i).Valid) : TlbOk sp tlb :=
  ⟨fun i hi => absurd hi (h i), fun i _ hi => absurd hi (h i)⟩

theorem invalid_not_valid (i : Fin NUM_TLB) : ¬ (TlbEntry.invalid i).Valid := by
  simp [TlbEntry.invalid, TlbEntry.Valid]

namespace TlbOk

variable {sp : Addrspace} {s : State} {va : Word}

/-- What the buffer answers is what `vm_fault` computes. -/
theorem translate {x : Word} (h : TlbOk sp s.tlb) (hx : s.translate va = some x) :
    sp.Ready ∧ sp.byteAddr va = some x := by
  obtain ⟨i, hi, rfl⟩ := Option.map_eq_some_iff.1 hx
  have hmaps := List.find?_some hi
  simp only [decide_eq_true_eq] at hmaps
  obtain ⟨hready, page, pa, hpage, hframe, hentry⟩ := h.line i hmaps.1
  have hpageva : page = va &&& PAGE_FRAME := by
    have h1 := hmaps.2
    rw [hentry] at h1
    have h2 : page &&& PAGE_FRAME = page := by
      rw [PAGE_FRAME_eq, and_pageMask_eq_iff]
      exact hpage
    exact h2.symm.trans h1
  subst hpageva
  have hpa := hready.aligned_frame hpage hframe
  have helo : (s.tlb i).elo &&& PAGE_FRAME = pa := by
    rw [hentry, PAGE_FRAME_eq]
    show (pa ||| TLBLO_DIRTY ||| TLBLO_VALID) &&& _ = pa
    rw [BitVec.or_assoc]
    exact or_and_pageMask hpa (by decide)
  refine ⟨hready, ?_⟩
  unfold Addrspace.byteAddr
  rw [hframe, Option.map_some, helo, or_eq_add hpa (offset_lt va)]

/-- A page that was not in the buffer has been put into a free line. -/
theorem install {i : Fin NUM_TLB} {pa : Word} (h : TlbOk sp s.tlb) (hready : sp.Ready)
    (hmiss : s.translate va = none) (hfree : ¬ (s.tlb i).Valid)
    (hframe : sp.frame (va &&& PAGE_FRAME) = some pa) :
    TlbOk sp (update s.tlb i (entry (va &&& PAGE_FRAME) pa)) := by
  -- no other valid line has this page
  have hnone : ∀ j, (s.tlb j).Valid → (s.tlb j).ehi ≠ va &&& PAGE_FRAME := by
    intro j hj hehi
    have hmaps : (s.tlb j).Maps va := by
      refine ⟨hj, ?_⟩
      rw [hehi, BitVec.and_assoc, BitVec.and_self]
    have hsome := State.translate_isSome hmaps
    rw [hmiss] at hsome
    cases hsome
  constructor
  · intro j hj
    by_cases hji : j = i
    · subst hji
      rw [update_self]
      exact ⟨hready, _, pa, aligned_page va, hframe, rfl⟩
    · rw [update_of_ne hji] at hj ⊢
      exact h.line j hj
  · intro j l hj hl hehi
    by_cases hji : j = i <;> by_cases hli : l = i
    · rw [hji, hli]
    · rw [hji, update_self, update_of_ne hli] at hehi
      rw [update_of_ne hli] at hl
      exact absurd hehi.symm (hnone l hl)
    · rw [hli, update_self, update_of_ne hji] at hehi
      rw [update_of_ne hji] at hj
      exact absurd hehi (hnone j hj)
    · rw [update_of_ne hji] at hj hehi
      rw [update_of_ne hli] at hl hehi
      exact h.once j l hj hl hehi

end TlbOk

/-- All panics are tolerated, and the allocator may be asked and may refuse. -/
def Terms.free : Terms Panic := ⟨fun _ => True, True, True⟩

/-- An access that comes back has been to the byte that `vm_fault` computes. -/
theorem awpE_access_tlb {as : Addr} {va : Word} {ft : Nat} {Q : Except Errno Word → State → Prop}
    (hs : s.Has as sp) (htlb : TlbOk sp s.tlb) (hft : ft = VM_FAULT_READ ∨ ft = VM_FAULT_WRITE)
    (hok : ∀ tlb x, TlbOk sp tlb → sp.Ready → sp.byteAddr va = some x →
      Q (.ok x) { s with tlb := tlb }) (herr : Q (.error .EFAULT) s) :
    awpE Terms.free (access ft va) Q s := by
  by_cases hready : sp.Ready
  · refine awpE_call_bind.2 (awp_mem.2 ?_)
    cases htr : s.translate va with
    | some x => exact hok s.tlb x htlb hready (htlb.translate htr).2
    | none =>
      refine awpE_call_bind.2 (awpE_vmFault hs hready hft ?_ ?_)
      · intro i pa hfree hframe
        have htlb' := htlb.install hready htr hfree hframe
        refine awpE_call_bind.2 (awp_mem.2 ?_)
        cases htr' : State.translate { s with
            tlb := update s.tlb i (entry (va &&& PAGE_FRAME) pa) } va with
        | none => exact trivial
        | some x => exact hok _ x htlb' hready (TlbOk.translate htlb' htr').2
      · exact herr
  · apply awpE_access_fails (fun _ => trivial) hs hready _ hft
    intro i hi
    exact hready (htlb.line i hi).1

/-! ## Copies -/

/-- The byte at a user address, if there is one. -/
def State.byte (s : State) (sp : Addrspace) (va : Word) : Option UInt8 :=
  (sp.byteAddr va).map s.mem

section
variable (hdst : dst ≠ 0) (hfits : dst.toNat + npages.toNat * 4096 ≤ 4294967296)
include hdst hfits

/-- The test of `memmove`, in numbers. -/
theorem memmove_test : p - dst < npages * PAGE_SIZE ↔ p.toNat ∈ span dst npages := by
  have hpos : 0 < dst.toNat := by
    rcases Nat.eq_zero_or_pos dst.toNat with h0 | h0
    · exact absurd (BitVec.eq_of_toNat_eq h0) hdst
    · exact h0
  have hsize : PAGE_SIZE.toNat = 4096 := rfl
  have hp := p.isLt
  rw [BitVec.lt_def, BitVec.toNat_mul, hsize, BitVec.toNat_sub]
  simp only [span, Set.mem_Ico]
  omega

/-- Bytes elsewhere stay what they are. -/
theorem memmove_of_notMem
    (hp : p.toNat ∉ span dst npages) : memmove mem dst src (npages * PAGE_SIZE) p = mem p :=
  if_neg fun h => hp ((memmove_test hdst hfits).1 h)

theorem memmove_of_mem (hp : p.toNat ∈ span dst npages) :
    memmove mem dst src (npages * PAGE_SIZE) p = mem (src + (p - dst)) :=
  if_pos ((memmove_test hdst hfits).2 hp)

end

namespace Addrspace.Backed

variable {sp : Addrspace} (h : sp.Backed)
include h

theorem held_eq : sp.held = sp.areas := by
  apply List.filter_eq_self.2
  simp only [areas, List.forall_mem_cons, List.not_mem_nil, false_implies, implies_true, and_true,
    decide_eq_true_eq]
  exact ⟨h.stackpbase, h.pbase2, h.pbase1⟩

/-- Its three stretches have nothing in common. -/
theorem areas_apart (hsep : Separate sp.held) :
    Disjoint (span sp.stackpbase DUMBVM_STACKPAGES) (span sp.pbase2 sp.npages2) ∧
      Disjoint (span sp.stackpbase DUMBVM_STACKPAGES) (span sp.pbase1 sp.npages1) ∧
      Disjoint (span sp.pbase2 sp.npages2) (span sp.pbase1 sp.npages1) := by
  have hpair := hsep.apart
  rw [h.held_eq] at hpair
  simp only [areas, List.pairwise_cons, List.forall_mem_cons, List.not_mem_nil, false_implies,
    implies_true, and_true, List.Pairwise.nil] at hpair
  exact ⟨hpair.1.1, hpair.1.2, hpair.2⟩

/-- None of them goes around. -/
theorem fits (hsep : Separate sp.held) : (sp.pbase1.toNat + sp.npages1.toNat * 4096 ≤ 4294967296 ∧
      (sp.pbase1, sp.npages1) ∈ sp.held) ∧
    (sp.pbase2.toNat + sp.npages2.toNat * 4096 ≤ 4294967296 ∧ (sp.pbase2, sp.npages2) ∈ sp.held) ∧
    sp.stackpbase.toNat + DUMBVM_STACKPAGES.toNat * 4096 ≤ 4294967296 ∧
      (sp.stackpbase, DUMBVM_STACKPAGES) ∈ sp.held := by
  have hmem : ∀ g ∈ sp.areas, g.1.toNat + g.2.toNat * 4096 ≤ 4294967296 ∧ g ∈ sp.held := by
    intro g hg
    rw [← h.held_eq] at hg
    exact ⟨hsep.fits g hg, hg⟩
  exact ⟨hmem (sp.pbase1, sp.npages1) (by simp [areas]),
    hmem (sp.pbase2, sp.npages2) (by simp [areas]),
    hmem (sp.stackpbase, DUMBVM_STACKPAGES) (by simp [areas])⟩

end Addrspace.Backed

/-- The three moves of `as_copy`. -/
def copyMem (mem : Word → UInt8) (old new : Addrspace) : Word → UInt8 :=
  memmove (memmove (memmove mem new.pbase1 old.pbase1 (old.npages1 * PAGE_SIZE))
    new.pbase2 old.pbase2 (old.npages2 * PAGE_SIZE))
    new.stackpbase old.stackpbase (DUMBVM_STACKPAGES * PAGE_SIZE)

/-- The same regions, with other memory. -/
structure Addrspace.Copies (new old : Addrspace) : Prop where
  vbase1 : new.vbase1 = old.vbase1
  npages1 : new.npages1 = old.npages1
  vbase2 : new.vbase2 = old.vbase2
  npages2 : new.npages2 = old.npages2

section
variable {mem : Word → UInt8} {old new : Addrspace}

/-- Memory that the copy does not have is not touched. -/
theorem copyMem_of_not_owns {p : Word} (hnew : new.Backed) (hsep : Separate new.held)
    (hsame : new.Copies old) (hp : ¬ new.Owns p.toNat) : copyMem mem old new p = mem p := by
  obtain ⟨⟨hf1, hm1⟩, ⟨hf2, hm2⟩, ⟨hf3, hm3⟩⟩ := hnew.fits hsep
  unfold copyMem
  rw [← hsame.npages1, ← hsame.npages2]
  rw [memmove_of_notMem hnew.stackpbase hf3 fun h => hp ⟨_, hm3, h⟩,
    memmove_of_notMem hnew.pbase2 hf2 fun h => hp ⟨_, hm2, h⟩,
    memmove_of_notMem hnew.pbase1 hf1 fun h => hp ⟨_, hm1, h⟩]

/-- In its own memory it has what the original has at the same offset. -/
theorem copyMem_window {w w' : Word × Word × Word} {off : Word} (hnew : new.Backed)
    (hsep : Separate new.held) (hsame : new.Copies old) (hw : (w, w') ∈ new.windows.zip old.windows)
    (hin : (w.2.1 + off).toNat ∈ span w.2.1 w.2.2) (hout : ¬ new.Owns (w'.2.1 + off).toNat) :
    copyMem mem old new (w.2.1 + off) = mem (w'.2.1 + off) := by
  obtain ⟨h32, h31, h21⟩ := hnew.areas_apart hsep
  obtain ⟨⟨hf1, hm1⟩, ⟨hf2, hm2⟩, ⟨hf3, hm3⟩⟩ := hnew.fits hsep
  have hadd : ∀ base : Word, base + off - base = off := by
    intro base
    rw [BitVec.add_comm, BitVec.add_sub_cancel]
  simp only [Addrspace.windows, List.zip_cons_cons, List.zip_nil_right, List.mem_cons,
    List.not_mem_nil, or_false, Prod.mk.injEq] at hw
  unfold copyMem
  rw [← hsame.npages1, ← hsame.npages2]
  rcases hw with ⟨rfl, rfl⟩ | ⟨rfl, rfl⟩ | ⟨rfl, rfl⟩
  · dsimp only at hin hout ⊢
    rw [memmove_of_notMem hnew.stackpbase hf3 (Set.disjoint_right.1 h31 hin),
      memmove_of_notMem hnew.pbase2 hf2 (Set.disjoint_right.1 h21 hin),
      memmove_of_mem hnew.pbase1 hf1 hin, hadd]
  · dsimp only at hin hout ⊢
    rw [memmove_of_notMem hnew.stackpbase hf3 (Set.disjoint_right.1 h32 hin),
      memmove_of_mem hnew.pbase2 hf2 hin, hadd,
      memmove_of_notMem hnew.pbase1 hf1 fun h => hout ⟨_, hm1, h⟩]
  · dsimp only at hin hout ⊢
    rw [memmove_of_mem hnew.stackpbase hf3 hin, hadd,
      memmove_of_notMem hnew.pbase2 hf2 fun h => hout ⟨_, hm2, h⟩,
      memmove_of_notMem hnew.pbase1 hf1 fun h => hout ⟨_, hm1, h⟩]

/-- A page is in the same window of both, or in none. -/
theorem Addrspace.Copies.frame (hsame : new.Copies old) (page : Word) :
    (∃ w w', (w, w') ∈ new.windows.zip old.windows ∧ w.1 = w'.1 ∧ w.2.2 = w'.2.2 ∧
      w.1 ≤ page ∧ page < w.1 + w.2.2 * PAGE_SIZE ∧ new.frame page = some (page - w.1 + w.2.1) ∧
      old.frame page = some (page - w'.1 + w'.2.1)) ∨
    (new.frame page = none ∧ old.frame page = none) := by
  unfold Addrspace.frame Addrspace.vtop1 Addrspace.vtop2
  rw [hsame.vbase1, hsame.vbase2, hsame.npages1, hsame.npages2]
  by_cases h1 : old.vbase1 ≤ page ∧ page < old.vbase1 + old.npages1 * PAGE_SIZE
  · left
    refine ⟨(new.vbase1, new.pbase1, new.npages1), (old.vbase1, old.pbase1, old.npages1), ?_,
      hsame.vbase1, hsame.npages1, ?_, ?_, ?_, if_pos h1⟩
    · simp [Addrspace.windows]
    · rw [hsame.vbase1]
      exact h1.1
    · rw [hsame.vbase1, hsame.npages1]
      exact h1.2
    · rw [if_pos h1, hsame.vbase1]
  · rw [if_neg h1, if_neg h1]
    by_cases h2 : old.vbase2 ≤ page ∧ page < old.vbase2 + old.npages2 * PAGE_SIZE
    · left
      refine ⟨(new.vbase2, new.pbase2, new.npages2), (old.vbase2, old.pbase2, old.npages2), ?_,
        hsame.vbase2, hsame.npages2, ?_, ?_, ?_, if_pos h2⟩
      · simp [Addrspace.windows]
      · rw [hsame.vbase2]
        exact h2.1
      · rw [hsame.vbase2, hsame.npages2]
        exact h2.2
      · rw [if_pos h2, hsame.vbase2]
    · rw [if_neg h2, if_neg h2]
      by_cases h3 : Addrspace.stackbase ≤ page ∧ page < USERSTACK
      · left
        refine ⟨(Addrspace.stackbase, new.stackpbase, DUMBVM_STACKPAGES),
          (Addrspace.stackbase, old.stackpbase, DUMBVM_STACKPAGES), ?_, rfl, rfl, h3.1, ?_,
          if_pos h3, if_pos h3⟩
        · simp [Addrspace.windows]
        · dsimp only
          rw [Addrspace.stackbase_end]
          exact h3.2
      · exact .inr ⟨if_neg h3, if_neg h3⟩

/-- Every byte of the copy is that of the original. -/
theorem copy_bytes (hold : old.Backed) (hnew : new.Backed) (hsepold : Separate old.held)
    (hsep : Separate new.held) (hsame : new.Copies old)
    (hapart : ∀ x, old.Owns x → ¬ new.Owns x) (va : Word) :
    (new.byteAddr va).map (copyMem mem old new) = (old.byteAddr va).map mem := by
  unfold Addrspace.byteAddr
  rcases hsame.frame (va &&& PAGE_FRAME) with
    ⟨w, w', hzip, hv, hn, hlo, hhi, hfnew, hfold⟩ | ⟨hfnew, hfold⟩
  · obtain ⟨hw, hw'⟩ := List.of_mem_zip hzip
    have hoff := offset_lt va
    rw [hfnew, hfold]
    simp only [Option.map_some, window_sum, Option.some.injEq]
    rw [← hv]
    apply copyMem_window hnew hsep hsame hzip
    · exact hnew.window_byte hsep hw (aligned_page va) hlo hhi hoff
    · apply hapart
      rw [hv]
      exact ⟨w'.2, (hold.window hw').2, hold.window_byte hsepold hw' (aligned_page va)
        (hv ▸ hlo) (hn ▸ hv ▸ hhi) hoff⟩
  · rw [hfnew, hfold]
    rfl

end

/-- `as_copy`: a copy with memory of its own, or nothing. -/
theorem awpE_asCopy {old new : Addr} {Q : Except Errno Addr → State → Prop}
    (hold : s.spaces old = some sp) (hnew : s.spaces new = none)
    (hok : ∀ ram sp', sp'.Copies sp → sp'.pbase1 ≠ 0 ∧ sp'.pbase2 ≠ 0 ∧ sp'.stackpbase ≠ 0 →
      Q (.ok new) { s with
        ram := ram
        granted := sp'.held ++ s.granted
        spaces := update s.spaces new (some sp')
        mem := copyMem s.mem sp sp' })
    (herr : ∀ ram more, Q (.error .ENOMEM) { s with
        ram := ram
        granted := more ++ s.granted
        spaces := update s.spaces new none }) : awpE Terms.free (asCopy old new) Q s := by
  have hne : old ≠ new := by
    intro h
    rw [h, hnew] at hold
    cases hold
  refine awpE_call_bind.2 (awp_bind.2 ⟨trivial, ?_, fun _ => ?_⟩)
  · refine awp_bind.2 ((awp_modify _).2 ?_)
    have hold' : update s.spaces new (some Addrspace.zero) old = some sp := by
      rw [update_of_ne hne, hold]
    refine awpE_call_bind.2 (awp_space hold' ?_)
    refine awpE_call_bind.2 ((awp_modify _).2 ?_)
    refine awpE_call_bind.2 (awpE_asPrepareLoad (update_self ..) ⟨rfl, rfl, rfl⟩ ?_ ?_)
    · intro ram p1 p2 p3 sp' hp1 hp2 hp3 hsp' _ _
      refine awpE_call_bind.2 (awp_space (update_self ..) ?_)
      have h0 : sp'.pbase1 ≠ 0 ∧ sp'.pbase2 ≠ 0 ∧ sp'.stackpbase ≠ 0 := by
        subst hsp'
        exact ⟨hp1, hp2, hp3⟩
      refine awpE_call_bind.2 (awp_assert.2 ⟨fun _ => ?_, absurd h0⟩)
      refine awpE_call_bind.2 ((awp_modify _).2 (awpE_call_bind.2 ((awp_modify _).2
        (awpE_call_bind.2 ((awp_modify _).2 ?_)))))
      have hcopies : sp'.Copies sp := by
        subst hsp'
        exact ⟨rfl, rfl, rfl, rfl⟩
      have h := hok ram sp' hcopies h0
      simpa [State.withSpace, copyMem] using h
    · intro ram sp' _
      refine awpE_call_bind.2 ((awp_modify _).2 ?_)
      have h := herr ram sp'.held
      simpa [State.withSpace] using h
  · have h := herr s.ram []
    rw [← hnew, update_eq_self] at h
    exact h

end Os161.Vm
