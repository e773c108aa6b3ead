import Os161.Vm.Load

/-!
# Page faults

`vm_fault` asserts that the address space has been set up: two regions and a
stack, none of them empty, all at page boundaries (`Addrspace.Ready`). For such
an address space it puts the page into a free line of the translation buffer, or
returns an error and changes nothing. For any other it stops the machine.

An access to user memory is at most one fault, since the line just written
answers the second lookup.
-/

namespace Os161.Vm

open Os161.Kern Os161.Lib Function

/-- All the assertions on the structure pass. -/
def Addrspace.Ready (sp : Addrspace) : Prop := ∀ c ∈ checks, sp.Passes c

instance (sp : Addrspace) : Decidable sp.Ready := inferInstanceAs (Decidable (∀ _ ∈ _, _))

section
variable {t : Terms Panic} {s : State} {sp : Addrspace} {as : Addr} {va : Word}

/-! ## The assertions -/

variable {cs : List Check} {Q : Unit → State → Prop} {i : Fin NUM_TLB} {ft : Nat}

theorem awp_assertSpace (h : ∀ c ∈ cs, sp.Passes c) (hQ : Q () s) :
    awp t (assertSpace sp cs) Q s := by
  induction cs with
  | nil => exact hQ
  | cons c rest ih =>
    refine awp_bind.2 (awp_assert.2 ⟨fun _ => ?_, fun hn => absurd (h c List.mem_cons_self) hn⟩)
    exact ih fun d hd => h d (List.mem_cons_of_mem c hd)

/-- One of them fails, and nothing comes after it. -/
theorem awp_assertSpace_fails (ht : ∀ f, t.fails f) (h : ¬ ∀ c ∈ cs, sp.Passes c) :
    awp t (assertSpace sp cs) Q s := by
  induction cs with
  | nil => exact absurd (by simp) h
  | cons c rest ih =>
    refine awp_bind.2 (awp_assert_of (ht _) fun hc => ih fun hrest => h ?_)
    exact List.forall_mem_cons.2 ⟨hc, hrest⟩

theorem Addrspace.aligned_stackbase : Aligned 12 stackbase := by
  unfold Aligned
  decide

namespace Addrspace.Ready

variable (h : sp.Ready)
include h

theorem aligned_vbase1 : Aligned 12 sp.vbase1 := by
  rw [← and_pageMask_eq_iff, ← PAGE_FRAME_eq]
  exact h .vbase1Frame (by decide)

theorem aligned_pbase1 : Aligned 12 sp.pbase1 := by
  rw [← and_pageMask_eq_iff, ← PAGE_FRAME_eq]
  exact h .pbase1Frame (by decide)

theorem aligned_vbase2 : Aligned 12 sp.vbase2 := by
  rw [← and_pageMask_eq_iff, ← PAGE_FRAME_eq]
  exact h .vbase2Frame (by decide)

theorem aligned_pbase2 : Aligned 12 sp.pbase2 := by
  rw [← and_pageMask_eq_iff, ← PAGE_FRAME_eq]
  exact h .pbase2Frame (by decide)

theorem aligned_stackpbase : Aligned 12 sp.stackpbase := by
  rw [← and_pageMask_eq_iff, ← PAGE_FRAME_eq]
  exact h .stackpbaseFrame (by decide)

/-- The frame of a page begins at a page boundary. -/
theorem aligned_frame {pa : Word} (hva : Aligned 12 va) (hpa : sp.frame va = some pa) :
    Aligned 12 pa := by
  unfold frame at hpa
  split at hpa
  · cases hpa
    exact (hva.sub (by decide) h.aligned_vbase1).add (by decide) h.aligned_pbase1
  · split at hpa
    · cases hpa
      exact (hva.sub (by decide) h.aligned_vbase2).add (by decide) h.aligned_pbase2
    · split at hpa
      · cases hpa
        exact (hva.sub (by decide) aligned_stackbase).add (by decide) h.aligned_stackpbase
      · cases hpa

end Addrspace.Ready

theorem aligned_page (va : Word) : Aligned 12 (va &&& PAGE_FRAME) := by
  rw [PAGE_FRAME_eq]
  exact aligned_and_pageMask va 12

/-! ## The fault -/

/-- The line of the translation buffer for a page and its frame. -/
def entry (page frame : Word) : TlbEntry := ⟨page, frame ||| TLBLO_DIRTY ||| TLBLO_VALID⟩

theorem freeEntry_not_valid {tlb : Fin NUM_TLB → TlbEntry} (h : freeEntry tlb = some i) :
    ¬ (tlb i).Valid := by
  have hi := List.find?_some h
  simpa using hi

/-- The current thread has this address space. -/
structure State.Has (s : State) (as : Addr) (sp : Addrspace) : Prop where
  cur : s.tVmspace s.curthread = some as
  space : s.spaces as = some sp

theorem awp_space {Q : Addrspace → State → Prop} (h : s.spaces as = some sp) (hQ : Q sp s) :
    awp t (space as) Q s := by
  refine awp_bind.2 (awp_mem.2 ?_)
  rw [h]
  exact hQ

variable {Q : Except Errno Unit → State → Prop}

/-- A fault of a program in an address space that is ready. -/
theorem awpE_vmFault (hs : s.Has as sp) (hready : sp.Ready)
    (hft : ft = VM_FAULT_READ ∨ ft = VM_FAULT_WRITE)
    (hok : ∀ i pa, ¬ (s.tlb i).Valid → sp.frame (va &&& PAGE_FRAME) = some pa →
      Q (.ok ()) { s with tlb := update s.tlb i (entry (va &&& PAGE_FRAME) pa) })
    (herr : Q (.error .EFAULT) s) : awpE t (vmFault ft va) Q s := by
  have hne : ft ≠ VM_FAULT_READONLY := by
    rcases hft with rfl | rfl <;> decide
  refine awpE_call_bind.2 (awp_bind.2 (awp_mem.2 (awp_bind.2 ((awp_put _).2 ?_))))
  simp only [if_neg hne, if_pos hft]
  refine awpE_call_bind.2 (awp_mem.2 ?_)
  simp only [hs.cur]
  refine awpE_call_bind.2 (awp_space hs.space ?_)
  refine awpE_call_bind.2 (awp_assertSpace hready ?_)
  cases hpa : sp.frame (va &&& PAGE_FRAME) with
  | none => exact awpE_call_bind.2 ((awp_modify _).2 herr)
  | some pa =>
    have halign : pa &&& PAGE_FRAME = pa := by
      rw [PAGE_FRAME_eq, and_pageMask_eq_iff]
      exact hready.aligned_frame (aligned_page va) hpa
    refine awpE_call_bind.2 (awp_assert.2 ⟨fun _ => ?_, absurd halign⟩)
    refine awpE_call_bind.2 (awp_mem.2 ?_)
    cases hfree : freeEntry s.tlb with
    | none =>
      exact awpE_call_bind.2 ((awp_modify _).2 herr)
    | some i =>
      refine awpE_call_bind.2 ((awp_put _).2 (awpE_call.2 ((awp_modify _).2 ?_)))
      exact hok i pa (freeEntry_not_valid hfree) hpa

/-- In any other one the machine stops. -/
theorem awpE_vmFault_fails (ht : ∀ f, t.fails f) (hs : s.Has as sp) (hready : ¬ sp.Ready)
    (hft : ft = VM_FAULT_READ ∨ ft = VM_FAULT_WRITE) : awpE t (vmFault ft va) Q s := by
  have hne : ft ≠ VM_FAULT_READONLY := by
    rcases hft with rfl | rfl <;> decide
  refine awpE_call_bind.2 (awp_bind.2 (awp_mem.2 (awp_bind.2 ((awp_put _).2 ?_))))
  simp only [if_neg hne, if_pos hft]
  refine awpE_call_bind.2 (awp_mem.2 ?_)
  simp only [hs.cur]
  refine awpE_call_bind.2 (awp_space hs.space ?_)
  exact awpE_call_bind.2 (awp_assertSpace_fails ht hready)

/-! ## The translation buffer -/

/-- A line for the page of an address. -/
def TlbEntry.Maps (e : TlbEntry) (va : Word) : Prop :=
  e.Valid ∧ e.ehi &&& PAGE_FRAME = va &&& PAGE_FRAME

theorem entry_valid (page frame : Word) : (entry page frame).Valid := by
  unfold TlbEntry.Valid entry
  intro h0
  have hbit := congrArg (fun w => w.getLsbD 9) h0
  simp [TLBLO_VALID, TLBLO_DIRTY] at hbit

theorem entry_maps (va frame : Word) : (entry (va &&& PAGE_FRAME) frame).Maps va := by
  refine ⟨entry_valid _ _, ?_⟩
  show va &&& PAGE_FRAME &&& PAGE_FRAME = va &&& PAGE_FRAME
  rw [BitVec.and_assoc, BitVec.and_self]

theorem State.translate_isSome (h : (s.tlb i).Maps va) : (s.translate va).isSome := by
  unfold State.translate
  rw [Option.isSome_map, List.find?_isSome]
  exact ⟨i, List.mem_finRange i, by simpa [TlbEntry.Maps] using h⟩

/-- With no valid line there is no translation. -/
theorem State.translate_eq_none (h : ∀ i, ¬ (s.tlb i).Valid) : s.translate va = none := by
  unfold State.translate
  rw [Option.map_eq_none_iff, List.find?_eq_none]
  intro i _
  simp [h i]

/-! ## Access to user memory -/

variable {Q : Except Errno Word → State → Prop}

/-- What an access may leave behind: the translation buffer apart, everything is
as it was. -/
theorem awpE_access (hs : s.Has as sp) (hready : sp.Ready)
    (hft : ft = VM_FAULT_READ ∨ ft = VM_FAULT_WRITE) (hQ : ∀ r tlb, Q r { s with tlb := tlb }) :
    awpE t (access ft va) Q s := by
  refine awpE_call_bind.2 (awp_mem.2 ?_)
  cases htr : s.translate va with
  | some pa => exact hQ (.ok pa) s.tlb
  | none =>
    refine awpE_call_bind.2 (awpE_vmFault hs hready hft ?_ ?_)
    · intro i pa _ _
      refine awpE_call_bind.2 (awp_mem.2 ?_)
      have hsome : State.translate { s with
          tlb := update s.tlb i (entry (va &&& PAGE_FRAME) pa) } va |>.isSome := by
        apply State.translate_isSome (i := i)
        show (update s.tlb i _ i).Maps va
        rw [update_self]
        exact entry_maps va pa
      obtain ⟨pa', hpa'⟩ := Option.isSome_iff_exists.1 hsome
      rw [hpa']
      exact hQ (.ok pa') _
    · exact hQ (.error .EFAULT) s.tlb

theorem awpE_access_fails (ht : ∀ f, t.fails f)
    (hs : s.Has as sp) (hready : ¬ sp.Ready) (htlb : ∀ i, ¬ (s.tlb i).Valid)
    (hft : ft = VM_FAULT_READ ∨ ft = VM_FAULT_WRITE) : awpE t (access ft va) Q s := by
  refine awpE_call_bind.2 (awp_mem.2 ?_)
  rw [State.translate_eq_none htlb]
  exact awpE_call_bind.2 (awpE_vmFault_fails ht hs hready hft)

end

end Os161.Vm
