import Os161.Proofs.Fault
import Os161.Proofs.Ram

/-!
# Executables that stop the kernel

`load_elf` makes one pass over the segment headers to define the regions, gets
the memory for them, and copies the segments in with a second pass. The regions
are a function of the file (`Vnode.plan`); with both of them defined the address
space is ready for `vm_fault` from then on. With one of them missing it is not,
and nobody looks before the first access: one of the copies of the second pass
or, if there is nothing to copy, the first instruction of the program. What saves
the kernel then is that there is no memory for the regions, or that the second
pass gives up before it has stored a byte; whether it does is a function of the
file again (`Vnode.stores`).

`Keeps` is the rule for the second pass: whatever the routines between
`load_elf` and the store into user memory do, they do it by such stores, so a
property of the state that a store keeps is kept by all of them.
-/

namespace Os161.Vm

open Os161.Kern Os161.Lib Function

section
variable {α β : Type} {t : Terms Panic} {I : State → Prop}

/-- The routine keeps `I`, and what it returns satisfies `R`. -/
def Keeps (t : Terms Panic) (I : State → Prop) (p : VmM α) (R : α → Prop) : Prop :=
  ∀ s, I s → awpE t p (fun r s' => I s' ∧ ∀ x, r = .ok x → R x) s

variable {R : α → Prop}

theorem Keeps.pure {x : α} (hx : R x) : Keeps t I (Pure.pure x : VmM α) R := by
  intro s hs
  refine ⟨hs, fun y hy => ?_⟩
  cases hy
  exact hx

theorem Keeps.throw {e : Errno} : Keeps t I (MonadExcept.throw e : VmM α) R := by
  intro s hs
  refine ⟨hs, fun y hy => ?_⟩
  cases hy

theorem Keeps.bind {p : VmM α} {f : α → VmM β} {R' : β → Prop}
    (hp : Keeps t I p R) (hf : ∀ x, R x → Keeps t I (f x) R') : Keeps t I (p >>= f) R' := by
  intro s hs
  apply awpE_bind_of (hp s hs)
  · intro x s' h
    exact hf x (h.2 x rfl) s' h.1
  · intro e s' h
    refine ⟨h.1, fun y hy => ?_⟩
    cases hy

theorem Keeps.mono {p : VmM α} {R R' : α → Prop} (hp : Keeps t I p R) (h : ∀ x, R x → R' x) :
    Keeps t I p R' := by
  intro s hs
  refine awpE_mono (hp s hs) fun r s' hr => ⟨hr.1, fun x hx => h x (hr.2 x hx)⟩

/-! ## From a store to a segment -/

theorem filesize_le (memsize filesize : Word) :
    (if memsize < filesize then memsize else filesize).toNat ≤ memsize.toNat := by
  split
  · exact le_rfl
  · rename_i hnot
    exact Nat.not_lt.1 hnot

section Copies

variable (hstore : ∀ va b, Keeps t I (user.store va b) fun _ => True)
include hstore

theorem Keeps.memcpyOut (data : List UInt8) (dest : Word) :
    Keeps t I (memcpyOut user data dest) fun _ => True := by
  induction data generalizing dest with
  | nil => exact .pure trivial
  | cons b rest ih => exact (hstore dest b).bind fun _ _ => ih (dest + 1)

theorem Keeps.copyout (data : List UInt8) (dest : Word) :
    Keeps t I (copyout user data dest) fun _ => True := by
  unfold Kern.copyout
  cases copycheck dest (BitVec.ofNat 32 data.length) with
  | error e => exact .throw
  | ok stoplen =>
    dsimp only
    split
    · exact .throw
    · exact Keeps.memcpyOut hstore data dest

variable {u : UserUio}

/-- As long as the buffer is as large as the residue, a move moves everything
it is given. -/
theorem Keeps.uiomove {data : List UInt8} (hdata : data.length ≤ u.resid)
    (hlen : u.resid ≤ u.iovLen) :
    Keeps t I (uiomove data u) fun u' =>
      u'.resid + data.length = u.resid ∧ u'.iovLen + data.length = u.iovLen := by
  suffices hloop : ∀ fuel, data.length ≤ fuel → Keeps t I (uiomove.loop fuel data u) fun u' =>
      u'.resid + data.length = u.resid ∧ u'.iovLen + data.length = u.iovLen from
    hloop _ le_rfl
  intro fuel
  induction fuel generalizing data u with
  | zero =>
    intro hfuel
    exact .pure (by omega)
  | succ fuel ih =>
    intro hfuel
    rw [uiomove.loop]
    split
    · exact .pure (by omega)
    · have hsize : min u.iovLen data.length = data.length := by omega
      rw [hsize]
      intro s hs
      refine awpE_call_bind.2 (awp_assert.2 ⟨fun _ => ?_, fun hn => absurd (by omega) hn⟩)
      refine Keeps.bind (Keeps.copyout hstore _ _) (fun _ _ => ?_) s hs
      refine (ih ?_ ?_ ?_).mono fun u' hu' => ?_
      · simp
      · simpa using Nat.sub_le_sub_right hlen _
      · simp
      · simp only [List.length_drop, Nat.sub_self, Nat.add_zero] at hu'
        omega

theorem Keeps.uiomovezeros {n : Nat} (hn : n ≤ u.resid) (hlen : u.resid ≤ u.iovLen) :
    Keeps t I (uiomovezeros n u) fun _ => True := by
  suffices hloop : ∀ fuel, Keeps t I (uiomovezeros.loop fuel n u) fun _ => True from hloop n
  intro fuel
  induction fuel generalizing n u with
  | zero => exact .pure trivial
  | succ fuel ih =>
    rw [uiomovezeros.loop]
    split
    · exact .pure trivial
    · have hzeros : (List.replicate (min 16 n) (0 : UInt8)).length = min 16 n :=
        List.length_replicate
      refine (Keeps.uiomove hstore ?_ hlen).bind fun u' hu' => ih ?_ ?_
      · omega
      · omega
      · omega

theorem Keeps.moveChunks {chunks : List (List UInt8)}
    (hdata : chunks.flatten.length ≤ u.resid) (hlen : u.resid ≤ u.iovLen) :
    Keeps t I (moveChunks chunks u) fun u' => u'.resid + u.iovLen = u'.iovLen + u.resid := by
  induction chunks generalizing u with
  | nil => exact .pure (Nat.add_comm _ _)
  | cons chunk rest ih =>
    rw [List.flatten_cons, List.length_append] at hdata
    refine (Keeps.uiomove hstore ?_ hlen).bind fun u' hu' => ?_
    · omega
    · refine (ih ?_ ?_).mono fun u'' hu'' => ?_
      · omega
      · omega
      · omega

theorem Keeps.vopRead (v : Vnode) (offset : Word) (hlen : u.resid ≤ u.iovLen) :
    Keeps t I (vopRead v offset u) fun u' => u'.resid + u.iovLen = u'.iovLen + u.resid := by
  refine (Keeps.moveChunks hstore (v.le _ _) hlen).bind fun u' hu' => ?_
  cases (v.read offset u.resid).2 with
  | some e => exact .throw
  | none => exact .pure hu'

theorem Keeps.loadSegment (v : Vnode) (offset vaddr memsize filesize : Word) :
    Keeps t I (loadSegment v offset vaddr memsize filesize) fun _ => True := by
  have hle := filesize_le memsize filesize
  unfold Vm.loadSegment
  dsimp only
  generalize (if memsize < filesize then memsize else filesize) = filesize at hle ⊢
  refine (Keeps.vopRead hstore v offset hle).bind fun u hu => ?_
  dsimp only at hu
  split
  · exact .throw
  · rename_i hres
    split
    · refine (Keeps.uiomovezeros hstore ?_ ?_).bind fun _ _ =>
        Keeps.pure (R := fun _ => True) trivial
      · exact Nat.le_add_left _ _
      · dsimp only
        omega
    · exact Keeps.pure (R := fun _ => True) trivial

end Copies

theorem Keeps.eachSegment {v : Vnode} {eh : Ehdr} {f : Phdr → VmM Unit}
    (hf : ∀ ph, Keeps t I (f ph) fun _ => True) (n i : Nat) :
    Keeps t I (eachSegment v eh f n i) fun _ => True := by
  induction n generalizing i with
  | zero => exact .pure trivial
  | succ n ih =>
    rw [Vm.eachSegment]
    cases v.phdr eh i with
    | error e => exact .throw
    | ok ph =>
      cases ph with
      | none => exact ih (i + 1)
      | some ph => exact (hf ph).bind fun _ _ => ih (i + 1)

end

/-! ## The regions -/

namespace Vnode

/-- The regions that the first pass defines, from segment header `i` on. -/
def regions (v : Vnode) (eh : Ehdr) : Nat → Nat → Addrspace → Except Errno Addrspace
  | 0, _, sp => .ok sp
  | n + 1, i, sp =>
    match v.phdr eh i with
    | .error e => .error e
    | .ok none => regions v eh n (i + 1) sp
    | .ok (some ph) =>
      match sp.defineRegion ph.vaddr ph.memsz with
      | .error e => .error e
      | .ok sp => regions v eh n (i + 1) sp

/-- What the file makes of a new address space before any memory is found for
it. -/
def plan (v : Vnode) : Except Errno Addrspace :=
  match v.ehdr with
  | .error e => .error e
  | .ok eh => regions v eh eh.phnum 0 .zero

end Vnode

/-- Whether `copyout` comes to its first byte, or gives up before it. -/
def storesAt (dest : Word) (len : Nat) : Except Errno Bool :=
  match copycheck dest (BitVec.ofNat 32 len) with
  | .error e => .error e
  | .ok stoplen => if stoplen ≠ BitVec.ofNat 32 len then .error .EFAULT else .ok true

/-- What comes after `r`, if that has neither stored nor failed. -/
def storesThen (r next : Except Errno Bool) : Except Errno Bool :=
  match r with
  | .ok false => next
  | r => r

def chunksStore (dest : Word) : List (List UInt8) → Except Errno Bool
  | [] => .ok false
  | chunk :: rest =>
    storesThen (if chunk = [] then .ok false else storesAt dest chunk.length)
      (chunksStore dest rest)

namespace Vnode

/-- Whether `load_segment` stores a byte (`true`), ends without having one to store, or fails
before. -/
def segmentStores (v : Vnode) (ph : Phdr) : Except Errno Bool :=
  let filesz := (if ph.memsz < ph.filesz then ph.memsz else ph.filesz).toNat
  let (chunks, err) := v.read ph.offset filesz
  storesThen (storesThen (chunksStore ph.vaddr chunks) (err.elim (.ok false) .error))
    (if filesz ≠ 0 then .error .ENOEXEC
      else if 0 < ph.memsz.toNat then storesAt ph.vaddr (min 16 ph.memsz.toNat) else .ok false)

/-- The same for the second pass, from segment header `i` on. -/
def passStores (v : Vnode) (eh : Ehdr) : Nat → Nat → Except Errno Bool
  | 0, _ => .ok false
  | n + 1, i =>
    match v.phdr eh i with
    | .error e => .error e
    | .ok none => passStores v eh n (i + 1)
    | .ok (some ph) => storesThen (v.segmentStores ph) (passStores v eh n (i + 1))

/-- The second pass over the file stores a byte, has none to store, or fails before. -/
def stores (v : Vnode) : Except Errno Bool :=
  match v.ehdr with
  | .error e => .error e
  | .ok eh => passStores v eh eh.phnum 0

end Vnode

namespace Addrspace

/-- Both regions are there: they do not begin on page zero, and they are not
empty. -/
def Defined (sp : Addrspace) : Prop :=
  sp.vbase1 ≠ 0 ∧ sp.npages1 ≠ 0 ∧ sp.vbase2 ≠ 0 ∧ sp.npages2 ≠ 0

instance (sp : Addrspace) : Decidable sp.Defined := inferInstanceAs (Decidable (_ ∧ _))

/-- No memory yet, and the regions begin at page boundaries. -/
structure Planned (sp : Addrspace) : Prop where
  pbase1 : sp.pbase1 = 0
  pbase2 : sp.pbase2 = 0
  stackpbase : sp.stackpbase = 0
  vbase1 : sp.vbase1 &&& PAGE_FRAME = sp.vbase1
  vbase2 : sp.vbase2 &&& PAGE_FRAME = sp.vbase2

theorem Planned.zero : Addrspace.zero.Planned := by
  constructor <;> decide

theorem Planned.defineRegion {sp sp' : Addrspace} {vaddr sz : Word} (h : sp.Planned)
    (hsp : sp.defineRegion vaddr sz = .ok sp') : sp'.Planned := by
  have hpage : vaddr &&& PAGE_FRAME &&& PAGE_FRAME = vaddr &&& PAGE_FRAME := by
    rw [BitVec.and_assoc, BitVec.and_self]
  unfold Addrspace.defineRegion at hsp
  dsimp only at hsp
  split at hsp
  · cases hsp
    exact ⟨h.pbase1, h.pbase2, h.stackpbase, hpage, h.vbase2⟩
  · split at hsp
    · cases hsp
      exact ⟨h.pbase1, h.pbase2, h.stackpbase, h.vbase1, hpage⟩
    · cases hsp

end Addrspace

section
variable {t : Terms Panic} {s : State} {as : Addr} {sp : Addrspace} {v : Vnode}

variable {eh : Ehdr} {n i : Nat} {sp' : Addrspace} {Q : Except Errno Unit → State → Prop}

theorem Vnode.regions_planned (h : sp.Planned) (hsp : v.regions eh n i sp = .ok sp') :
    sp'.Planned := by
  induction n generalizing i sp with
  | zero =>
    cases hsp
    exact h
  | succ n ih =>
    rw [Vnode.regions] at hsp
    split at hsp
    · cases hsp
    · exact ih h hsp
    · split at hsp
      · cases hsp
      · rename_i hdef
        exact ih (h.defineRegion hdef) hsp

/-- Store through the pointer to the address space. -/
def State.withSpace (s : State) (as : Addr) (sp : Addrspace) : State :=
  { s with spaces := update s.spaces as (some sp) }

theorem State.Has.withSpace (h : s.Has as sp) : (s.withSpace as sp').Has as sp' :=
  ⟨h.cur, update_self ..⟩

/-- The first pass computes the regions. -/
theorem awpE_defineRegions (hs : s.Has as sp)
    (hok : ∀ sp', v.regions eh n i sp = .ok sp' → Q (.ok ()) (s.withSpace as sp'))
    (herr : ∀ e s', v.regions eh n i sp = .error e → Q (.error e) s') :
    awpE t (eachSegment v eh (fun ph => asDefineRegion as ph.vaddr ph.memsz) n i) Q s := by
  induction n generalizing i s sp with
  | zero =>
    have h := hok sp rfl
    rw [State.withSpace, ← hs.space, update_eq_self] at h
    exact h
  | succ n ih =>
    rw [eachSegment]
    rw [Vnode.regions] at hok herr
    cases hph : v.phdr eh i with
    | error e =>
      rw [hph] at herr
      exact herr e s rfl
    | ok ph =>
      rw [hph] at hok herr
      cases ph with
      | none => exact ih hs hok herr
      | some ph =>
        refine awpE_bind.2 (awpE_call_bind.2 (awp_space hs.space ?_))
        dsimp only at hok herr ⊢
        cases hdef : sp.defineRegion ph.vaddr ph.memsz with
        | error e =>
          rw [hdef] at herr
          exact herr e s rfl
        | ok sp1 =>
          rw [hdef] at hok herr
          refine awpE_call.2 ((awp_modify _).2 ?_)
          have hs1 : (s.withSpace as sp1).Has as sp1 := hs.withSpace
          apply ih hs1
          · intro sp' hsp'
            have h := hok sp' hsp'
            simpa [State.withSpace] using h
          · exact herr

/-! ## Memory for the regions -/

/-- The stretches of memory an address space has room for. -/
def Addrspace.areas (sp : Addrspace) : List (Word × Word) :=
  [(sp.stackpbase, DUMBVM_STACKPAGES), (sp.pbase2, sp.npages2), (sp.pbase1, sp.npages1)]

/-- Those it has, in the order in which they are asked for, newest first. -/
def Addrspace.held (sp : Addrspace) : List (Word × Word) := sp.areas.filter fun g => g.1 ≠ 0

theorem Addrspace.held_eq (sp : Addrspace) : sp.held =
    (if sp.stackpbase = 0 then [] else [(sp.stackpbase, DUMBVM_STACKPAGES)]) ++
      ((if sp.pbase2 = 0 then [] else [(sp.pbase2, sp.npages2)]) ++
        if sp.pbase1 = 0 then [] else [(sp.pbase1, sp.npages1)]) := by
  unfold Addrspace.held Addrspace.areas
  rw [List.filter_cons, List.filter_cons, List.filter_cons, List.filter_nil]
  by_cases h3 : sp.stackpbase = 0 <;> by_cases h2 : sp.pbase2 = 0 <;>
    by_cases h1 : sp.pbase1 = 0 <;> simp only [h1, h2, h3, if_true, if_false, ne_eq,
      not_true_eq_false, not_false_eq_true, decide_true, decide_false, Bool.false_eq_true,
      List.nil_append, List.cons_append]

theorem awp_getppages (npages : Word) {Q : Word → State → Prop}
    (h : ∀ pa ram, ramStealmem npages s.ram = (pa, ram) → Q pa { s with
        ram := ram
        granted := if pa = 0 then s.granted else (pa, npages) :: s.granted }) :
    awp t (getppages npages) Q s := by
  refine awp_bind.2 (awp_bind.2 (awp_mem.2 (awp_bind.2 ((awp_put _).2 ?_))))
  exact h _ _ rfl

/-- The first free page begins at a page boundary. -/
def Ram.Aligned (ram : Ram) : Prop := Lib.Aligned 12 ram.firstpaddr

theorem Ram.Aligned.steal {ram ram' : Ram} {npages pa : Word} (h : ram.Aligned)
    (hsteal : ramStealmem npages ram = (pa, ram')) : Lib.Aligned 12 pa ∧ ram'.Aligned := by
  unfold ramStealmem at hsteal
  dsimp only at hsteal
  split at hsteal
  · cases hsteal
    exact ⟨aligned_zero, h⟩
  · cases hsteal
    exact ⟨h, Lib.Aligned.add (by decide) h (Lib.Aligned.mul_pow (by decide) npages)⟩

/-- One of the requests gets no memory. -/
def Ram.Refuses (ram : Ram) (requests : List Word) : Prop :=
  ∃ g ∈ (ramSteals requests ram).1, g.2 = 0

theorem Ram.refuses_nil {ram : Ram} : ¬ ram.Refuses [] := by
  rintro ⟨g, hg, -⟩
  exact List.not_mem_nil hg

theorem Ram.refuses_cons {ram ram' : Ram} {npages pa : Word} {rest : List Word}
    (h : ramStealmem npages ram = (pa, ram')) :
    ram.Refuses (npages :: rest) ↔ pa = 0 ∨ ram'.Refuses rest := by
  simp only [Ram.Refuses, ramSteals_cons, h, List.mem_cons, exists_eq_or_imp]

/-- What `as_prepare_load` asks for. -/
def Addrspace.requests (sp : Addrspace) : List Word :=
  [sp.npages1, sp.npages2, DUMBVM_STACKPAGES]

/-- `as_prepare_load` of an address space without memory: three times memory is
found, or it is given up with what has been found. -/
theorem awpE_asPrepareLoad (hsp : s.spaces as = some sp)
    (hz : sp.pbase1 = 0 ∧ sp.pbase2 = 0 ∧ sp.stackpbase = 0)
    (hok : ∀ ram p1 p2 p3 sp', p1 ≠ 0 → p2 ≠ 0 → p3 ≠ 0 →
      sp' = { sp with pbase1 := p1, pbase2 := p2, stackpbase := p3 } →
      (s.ram.Aligned → Lib.Aligned 12 p1 ∧ Lib.Aligned 12 p2 ∧ Lib.Aligned 12 p3) →
      ¬ s.ram.Refuses sp.requests →
      Q (.ok ()) (State.withSpace { s with ram := ram, granted := sp'.held ++ s.granted } as sp'))
    (herr : ∀ ram sp', s.ram.Refuses sp.requests → Q (.error .ENOMEM)
      (State.withSpace { s with ram := ram, granted := sp'.held ++ s.granted } as sp')) :
    awpE t (asPrepareLoad as) Q s := by
  rw [Addrspace.requests] at hok herr
  obtain ⟨hz1, hz2, hz3⟩ := hz
  refine awpE_call_bind.2 (awp_space hsp ?_)
  refine awpE_call_bind.2 (awp_assert.2 ⟨fun _ => ?_, fun hn => absurd ⟨hz1, hz2, hz3⟩ hn⟩)
  refine awpE_call_bind.2 (awp_getppages _ fun p1 ram1 h1 => ?_)
  refine awpE_call_bind.2 ((awp_modify _).2 ?_)
  by_cases hp1 : p1 = 0
  · have h := herr ram1 { sp with pbase1 := p1 } ((Ram.refuses_cons h1).2 (.inl hp1))
    simp only [Addrspace.held_eq, if_pos hp1, if_pos hz2, if_pos hz3, List.nil_append] at h
    simp only [if_pos hp1]
    exact h
  · simp only [if_neg hp1]
    refine awpE_call_bind.2 (awp_getppages _ fun p2 ram2 h2 => ?_)
    refine awpE_call_bind.2 ((awp_modify _).2 ?_)
    by_cases hp2 : p2 = 0
    · have h := herr ram2 { sp with pbase1 := p1, pbase2 := p2 }
        ((Ram.refuses_cons h1).2 (.inr ((Ram.refuses_cons h2).2 (.inl hp2))))
      simp only [Addrspace.held_eq, if_neg hp1, if_pos hp2, if_pos hz3, List.nil_append,
        List.cons_append] at h
      simp only [if_pos hp2, update_idem]
      exact h
    · simp only [if_neg hp2]
      rw [awpE_call_bind]
      -- a number here would be computed with
      have hheld := Addrspace.held_eq
      generalize DUMBVM_STACKPAGES = stackpages at hheld hok herr ⊢
      refine awp_getppages stackpages fun p3 ram3 h3 => ?_
      refine awpE_call_bind.2 ((awp_modify _).2 ?_)
      by_cases hp3 : p3 = 0
      · have h := herr ram3 { sp with pbase1 := p1, pbase2 := p2, stackpbase := p3 }
          ((Ram.refuses_cons h1).2 (.inr ((Ram.refuses_cons h2).2
            (.inr ((Ram.refuses_cons h3).2 (.inl hp3))))))
        simp only [hheld, if_neg hp1, if_neg hp2, if_pos hp3, List.nil_append,
          List.cons_append] at h
        simp only [if_pos hp3, update_idem]
        exact h
      · have h := hok ram3 p1 p2 p3 _ hp1 hp2 hp3 rfl ?_ ?_
        · simp only [hheld, if_neg hp1, if_neg hp2, if_neg hp3, List.nil_append,
            List.cons_append] at h
          simp only [if_neg hp3, update_idem]
          exact h
        · intro hram
          obtain ⟨hal1, hram1⟩ := hram.steal h1
          obtain ⟨hal2, hram2⟩ := Ram.Aligned.steal hram1 h2
          exact ⟨hal1, hal2, (Ram.Aligned.steal hram2 h3).1⟩
        · rw [Ram.refuses_cons h1, Ram.refuses_cons h2, Ram.refuses_cons h3]
          rintro (hno | hno | hno | hno)
          · exact hp1 hno
          · exact hp2 hno
          · exact hp3 hno
          · exact Ram.refuses_nil hno

/-- With memory for its regions, an address space is ready if both regions are
defined. -/
theorem Addrspace.Planned.ready_iff {p1 p2 p3 : Word} (h : sp.Planned) (hp1 : p1 ≠ 0) (hp2 : p2 ≠ 0)
    (hp3 : p3 ≠ 0) (h1 : Lib.Aligned 12 p1) (h2 : Lib.Aligned 12 p2) (h3 : Lib.Aligned 12 p3) :
    Addrspace.Ready { sp with pbase1 := p1, pbase2 := p2, stackpbase := p3 } ↔ sp.Defined := by
  have hv1 := h.vbase1
  have hv2 := h.vbase2
  rw [← and_pageMask_eq_iff, ← PAGE_FRAME_eq] at h1 h2 h3
  simp only [Addrspace.Ready, checks, List.forall_mem_cons, Addrspace.Passes]
  simp [Addrspace.Defined, h1, h2, h3, hv1, hv2]
  tauto

end

/-! ## The whole of it -/

/-- A thread with a new address space, which has just been activated. -/
structure State.Fresh (s : State) : Prop where
  has : ∃ as, s.Has as .zero
  tlb : ∀ i, ¬ (s.tlb i).Valid
  ram : s.ram.Aligned

/-- Nothing may go wrong, and the allocator is not asked. -/
def Terms.strict : Terms Panic := ⟨fun _ => False, False, True⟩

/-- Anything may go wrong. -/
def Terms.lax : Terms Panic := ⟨fun _ => True, False, True⟩

section
variable {t : Terms Panic} {s : State} {v : Vnode}

/-- The thread has an address space that is ready. -/
def State.IsReady (s : State) : Prop := ∃ as sp, s.Has as sp ∧ sp.Ready

/-- It has one that is not, and has not touched it. -/
structure State.IsTrap (s : State) (as : Addr) (sp : Addrspace) : Prop where
  has : s.Has as sp
  trap : ¬ sp.Ready
  tlb : ∀ i, ¬ (s.tlb i).Valid

variable {sp : Addrspace}

theorem keeps_store_ready {as : Addr} (hready : sp.Ready) (va : Word)
    (b : UInt8) : Keeps t (fun s => s.Has as sp) (user.store va b) fun _ => True := by
  intro s hs
  refine awpE_bind.2 (awpE_access hs hready (.inr rfl) fun r tlb => ?_)
  cases r with
  | error e => exact ⟨⟨hs.cur, hs.space⟩, fun _ _ => trivial⟩
  | ok pa => exact awpE_call.2 ((awp_modify _).2 ⟨⟨hs.cur, hs.space⟩, fun _ _ => trivial⟩)

/-- The part of `load_elf` that is the same for every file: up to the memory for
the regions. -/
theorem awpE_loadElf {Q : Except Errno Word → State → Prop} (hs : s.Fresh)
    (hplan : ∀ e s', v.plan = .error e → Q (.error e) s')
    (hmem : ∀ sp s', v.plan = .ok sp → s.ram.Refuses sp.requests → Q (.error .ENOMEM) s')
    (hload : ∀ eh as sp sp' s', v.ehdr = .ok eh → v.plan = .ok sp →
      ¬ s.ram.Refuses sp.requests → (sp'.Ready ↔ sp.Defined) → s'.Has as sp' → s'.tlb = s.tlb →
      awpE t (eachSegment v eh (fun ph => loadSegment v ph.offset ph.vaddr ph.memsz ph.filesz)
        eh.phnum 0) (fun r s' => Q (r.map fun _ => eh.entry) s') s') :
    awpE t (loadElf v) Q s := by
  obtain ⟨as, has⟩ := hs.has
  have hregions : ∀ {eh}, v.ehdr = .ok eh → v.plan = v.regions eh eh.phnum 0 .zero := by
    intro eh heh
    rw [Vnode.plan, heh]
  unfold loadElf
  cases heh : v.ehdr with
  | error e =>
    refine hplan e s ?_
    rw [Vnode.plan, heh]
  | ok eh =>
    refine awpE_call_bind.2 (awp_mem.2 ?_)
    rw [has.cur]
    refine awpE_bind.2 (awpE_defineRegions has (fun sp hsp => ?_)
      fun e s' he => hplan e s' ((hregions heh).trans he))
    have hok : v.plan = .ok sp := (hregions heh).trans hsp
    have hplanned := Vnode.regions_planned .zero hsp
    refine awpE_bind.2 (awpE_asPrepareLoad (has.withSpace).space
      ⟨hplanned.pbase1, hplanned.pbase2, hplanned.stackpbase⟩ ?_ ?_)
    · intro ram p1 p2 p3 sp' hp1 hp2 hp3 hsp' hal hnot
      subst hsp'
      obtain ⟨h1, h2, h3⟩ := hal hs.ram
      exact awpE_bind_of (hload eh as sp _ _ heh hok hnot
        (hplanned.ready_iff hp1 hp2 hp3 h1 h2 h3) ⟨has.cur, update_self ..⟩ rfl)
        (fun _ _ h => h) fun _ _ h => h
    · intro ram sp' hrefuses
      exact hmem sp _ hok hrefuses

theorem awpE_loadElf_defined (hs : s.Fresh) (hdef : ∀ sp, v.plan = .ok sp → sp.Defined) :
    awpE Terms.strict (loadElf v) (fun r s' => ∀ x, r = .ok x → s'.IsReady) s := by
  apply awpE_loadElf hs
  · intro e s' _ x hx
    cases hx
  · intro sp s' _ _ x hx
    cases hx
  · intro eh as sp sp' s' _ hplan _ hready hs' _
    have hr := hready.2 (hdef sp hplan)
    refine awpE_mono (Keeps.eachSegment (fun ph => Keeps.loadSegment (keeps_store_ready hr) v
      _ _ _ _)
      _ _ s' hs') fun r s'' h x _ => ⟨as, sp', h.1, hr⟩

/-! ## The second pass without the regions -/

/-- In state `s` the routine fails as `r` says or returns `x`, and `s` is left as it is; or it stops
the kernel, if it stores a byte. -/
def Tries {α : Type} (t : Terms Panic) (s : State) (p : VmM α) (r : Except Errno Bool) (x : α) :
    Prop :=
  ∀ Q : Except Errno α → State → Prop, (∀ e, r = .error e → Q (.error e) s) →
    (r = .ok false → Q (.ok x) s) → (r = .ok true → ∀ f, t.fails f) → awpE t p Q s

section Trap

variable {α β : Type} {p : VmM α} {f : α → VmM β} {r r' : Except Errno Bool} {x : α} {y : β}
  {as : Addr} {data : List UInt8} {u : UserUio}

theorem Tries.pure : Tries t s (Pure.pure x) (.ok false) x := fun _ _ h _ => h rfl

theorem Tries.throw {e : Errno} : Tries t s (MonadExcept.throw e) (.error e) x :=
  fun _ h _ _ => h e rfl

theorem Tries.bind (hp : Tries t s p r x) (hf : r = .ok false → Tries t s (f x) r' y) :
    Tries t s (p >>= f) (storesThen r r') y := by
  intro Q herr hskip hstore
  refine awpE_bind.2 (hp _ (fun e he => ?_) (fun he => ?_) fun he => ?_)
  · subst he
    exact herr e rfl
  · subst he
    exact hf rfl Q herr hskip hstore
  · subst he
    exact hstore rfl

/-- What stores or fails is not followed by anything. -/
theorem Tries.only (hp : Tries t s p r x) (hr : r ≠ .ok false) : Tries t s (p >>= f) r y := by
  intro Q herr _ hstore
  exact awpE_bind.2 (hp _ herr (fun hno => absurd hno hr) hstore)

theorem storesAt_ne (dest : Word) (len : Nat) : storesAt dest len ≠ .ok false := by
  unfold storesAt
  split
  · nofun
  · split <;> nofun

theorem State.IsTrap.tries_copyout (h : s.IsTrap as sp) (hne : data ≠ []) (dest : Word) :
    Tries t s (copyout user data dest) (storesAt dest data.length) () := by
  intro Q herr _ hstore
  unfold Kern.copyout
  unfold storesAt at herr hstore
  cases hc : copycheck dest (BitVec.ofNat 32 data.length) with
  | error e =>
    rw [hc] at herr
    exact herr e rfl
  | ok stoplen =>
    rw [hc] at herr hstore
    dsimp only
    split
    · next hshort => exact herr _ (if_pos hshort)
    · next hall =>
      obtain ⟨b, rest, rfl⟩ := List.exists_cons_of_ne_nil hne
      exact awpE_bind.2 (awpE_bind.2
        (awpE_access_fails (hstore (if_neg hall)) h.has h.trap h.tlb (.inr rfl)))

/-- Data is moved with a store, or not at all. -/
theorem State.IsTrap.tries_uiomove (h : s.IsTrap as sp) (hne : data ≠ [])
    (hdata : data.length ≤ u.resid) (hlen : u.resid ≤ u.iovLen) (u' : UserUio) :
    Tries t s (uiomove data u) (storesAt u.ubase data.length) u' := by
  intro Q herr hskip hstore
  have hpos := List.length_pos_iff.2 hne
  obtain ⟨n, hn⟩ := Nat.exists_eq_add_one_of_ne_zero hpos.ne'
  have hsize : min u.iovLen data.length = data.length := by omega
  rw [uiomove, hn, uiomove.loop, if_neg (by omega), hsize]
  dsimp only
  rw [List.take_length]
  refine awpE_call_bind.2 (awp_assert.2 ⟨fun _ => ?_, fun hn => absurd hpos.ne' hn⟩)
  exact (h.tries_copyout hne u.ubase).only (storesAt_ne _ _) Q herr hskip hstore

theorem State.IsTrap.tries_moveChunks (h : s.IsTrap as sp) {chunks : List (List UInt8)}
    (hdata : chunks.flatten.length ≤ u.resid) (hlen : u.resid ≤ u.iovLen) :
    Tries t s (moveChunks chunks u) (chunksStore u.ubase chunks) u := by
  induction chunks with
  | nil => exact .pure
  | cons chunk rest ih =>
    rw [List.flatten_cons, List.length_append] at hdata
    refine Tries.bind ?_ fun _ => ih (by omega)
    split
    · next hnil =>
      rw [hnil]
      exact .pure
    · next hne => exact h.tries_uiomove hne (by omega) hlen u

theorem State.IsTrap.tries_uiomovezeros (h : s.IsTrap as sp) {n : Nat} (hn : 0 < n)
    (hresid : n ≤ u.resid) (hlen : u.resid ≤ u.iovLen) (u' : UserUio) :
    Tries t s (uiomovezeros n u) (storesAt u.ubase (min 16 n)) u' := by
  have hzeros : (List.replicate (min 16 n) (0 : UInt8)).length = min 16 n := List.length_replicate
  obtain ⟨k, rfl⟩ := Nat.exists_eq_add_one_of_ne_zero hn.ne'
  rw [uiomovezeros, uiomovezeros.loop, if_neg hn.ne']
  have hne : List.replicate (min 16 (k + 1)) (0 : UInt8) ≠ [] :=
    List.length_pos_iff.1 (hzeros.symm ▸ by omega)
  have hmove := h.tries_uiomove (t := t) hne (hzeros.trans_le (by omega)) hlen u'
  rw [hzeros] at hmove
  exact hmove.only (storesAt_ne _ _)

theorem State.IsTrap.tries_loadSegment (h : s.IsTrap as sp) (ph : Phdr) :
    Tries t s (loadSegment v ph.offset ph.vaddr ph.memsz ph.filesz) (v.segmentStores ph) () := by
  have hle := filesize_le ph.memsz ph.filesz
  unfold Vm.loadSegment Vnode.segmentStores
  dsimp only
  generalize (if ph.memsz < ph.filesz then ph.memsz else ph.filesz) = filesz at hle ⊢
  refine Tries.bind (x := ⟨ph.vaddr, ph.memsz.toNat, filesz.toNat⟩)
    (Tries.bind (h.tries_moveChunks (v.le _ _) hle) fun _ => ?_) fun _ => ?_
  · cases (v.read ph.offset filesz.toNat).2 with
    | some e => exact .throw
    | none => exact .pure
  · dsimp only
    split
    · exact .throw
    · next hfile =>
      rw [not_not] at hfile
      rw [hfile, Nat.sub_zero, Nat.zero_add]
      split
      · next hmem =>
        exact (h.tries_uiomovezeros hmem le_rfl le_rfl ⟨0, 0, 0⟩).only (storesAt_ne _ _)
      · exact .pure

theorem State.IsTrap.tries_eachSegment (h : s.IsTrap as sp) (eh : Ehdr) (n i : Nat) :
    Tries t s (eachSegment v eh (fun ph => loadSegment v ph.offset ph.vaddr ph.memsz ph.filesz)
      n i) (v.passStores eh n i) () := by
  induction n generalizing i with
  | zero => exact .pure
  | succ n ih =>
    rw [Vm.eachSegment, Vnode.passStores]
    cases v.phdr eh i with
    | error e => exact .throw
    | ok ph =>
      cases ph with
      | none => exact ih (i + 1)
      | some ph => exact (h.tries_loadSegment ph).bind fun _ => ih (i + 1)

end Trap

/-- `load_elf` of a file that does not define both regions. It stops the kernel if there is memory
and a byte to be stored. -/
theorem awpE_loadElf_undefined (hs : s.Fresh) (hplan : v.plan = .ok sp) (hundef : ¬ sp.Defined)
    (hstore : ¬ s.ram.Refuses sp.requests → v.stores = .ok true → ∀ f, t.fails f) :
    awpE t (loadElf v) (fun r s' =>
      (∃ e, r = .error e ∧ (s.ram.Refuses sp.requests ∨ v.stores = .error e)) ∨
      ∃ x, r = .ok x ∧ v.stores = .ok false ∧ ¬ s.ram.Refuses sp.requests ∧
        ∃ as sp', s'.IsTrap as sp') s := by
  have hsame : ∀ {sp1}, v.plan = .ok sp1 → sp = sp1 := fun h => Except.ok.inj (hplan.symm.trans h)
  apply awpE_loadElf hs
  · intro e s' he
    rw [hplan] at he
    cases he
  · intro sp1 s' hplan' hrefuses
    obtain rfl := hsame hplan'
    exact .inl ⟨_, rfl, .inl hrefuses⟩
  · intro eh as sp1 sp' s' heh hplan' hnot hready hs' htlb
    obtain rfl := hsame hplan'
    have htrap : s'.IsTrap as sp' :=
      ⟨hs', fun hr => hundef (hready.1 hr), fun i => htlb ▸ hs.tlb i⟩
    have hpass : v.stores = v.passStores eh eh.phnum 0 := by
      rw [Vnode.stores, heh]
    rw [hpass] at hstore ⊢
    refine htrap.tries_eachSegment eh _ 0 _ (fun e he => ?_) (fun he => ?_) (hstore hnot)
    · exact .inl ⟨e, rfl, .inr he⟩
    · exact .inr ⟨_, rfl, he, hnot, as, sp', htrap⟩

/-! ## Programs that run -/

theorem touchType_eq (write : Bool) :
    touchType write = VM_FAULT_READ ∨ touchType write = VM_FAULT_WRITE := by
  cases write <;> decide

theorem awp_touches (hs : s.IsReady) (ts : List (Bool × Word)) :
    awp t (touches ts) (fun _ s' => s'.IsReady) s := by
  induction ts generalizing s with
  | nil => exact hs
  | cons x rest ih =>
    obtain ⟨as, sp, has, hready⟩ := hs
    refine awp_bind.2 (awpE_access has hready (touchType_eq x.1) fun r tlb => ?_)
    exact ih ⟨as, sp, ⟨has.cur, has.space⟩, hready⟩

end

/-- A machine on which nothing but the processor works. -/
abbrev Cpu := Machine State Empty Unit Empty

/-- A fault is settled: the page is in the translation buffer, or an error is
returned and the buffer is as it was. -/
def Settled (m : Cpu) (faulttype : Nat) (va : Word) : Prop :=
  ∃ r m', Prog.run (vmFault faulttype va).run m = (.done r, m') ∧
    (r = .ok () → (m'.mem.translate va).isSome) ∧
    ∀ e, r = .error e → m'.mem.tlb = m.mem.tlb

/-- The file does not stop the kernel: not while it is loaded, not when the stack
is defined, and not by what the program touches afterwards. -/
def Harmless (v : Vnode) (m : Cpu) : Prop :=
  (∀ f, (Prog.run (loadElf v).run m).1 ≠ .crash f) ∧
  ∀ entry m', Prog.run (loadElf v).run m = (.done (.ok entry), m') →
    ∃ as, m'.mem.tVmspace m'.mem.curthread = some as ∧
      (∀ f, (Prog.run (asDefineStack as).run m').1 ≠ .crash f) ∧
      ∀ ts : List (Bool × Word), (∀ x ∈ ts, x.2 < USERTOP) →
        ∃ m'', Prog.run (touches ts) m' = (.done (), m'') ∧
          ∀ write va, va < USERTOP → Settled m'' (touchType write) va

section
variable {v : Vnode} {m : Cpu}

theorem admits_strict (m : Cpu) : Terms.strict.Admits m.script := fun _ => trivial

theorem admits_lax (m : Cpu) : Terms.lax.Admits m.script := fun _ => trivial

theorem State.IsReady.settled (h : m.mem.IsReady) (write : Bool) (va : Word) :
    Settled m (touchType write) va := by
  obtain ⟨as, sp, has, hready⟩ := h
  have hfault : awp Terms.strict (vmFault (touchType write) va).run
      (fun r s' => (r = .ok () → (s'.translate va).isSome) ∧
        ∀ e, r = .error e → s'.tlb = m.mem.tlb) m.mem := by
    refine awpE_vmFault has hready (touchType_eq write) ?_ ?_
    · intro i pa _ _
      constructor
      · intro _
        apply State.translate_isSome (i := i)
        show (update m.mem.tlb i _ i).Maps va
        rw [update_self]
        exact entry_maps va pa
      · intro e he
        cases he
    · exact ⟨fun h => (by cases h), fun _ _ => rfl⟩
  obtain ⟨r, m', hrun, hpost⟩ := awp_run_done (fun _ h => h) (admits_strict m) hfault
  exact ⟨r, m', hrun, hpost⟩

theorem Addrspace.Ready.awpE_asDefineStack {as : Addr} {sp : Addrspace} {s : State}
    (hready : sp.Ready) (has : s.Has as sp) :
    awpE Terms.strict (asDefineStack as) (fun _ _ => True) s := by
  refine awpE_call_bind.2 (awp_space has.space ?_)
  exact awpE_call_bind.2 (awp_assert.2 ⟨fun _ => trivial,
    fun hn => absurd (hready .stackpbase (by decide)) hn⟩)

/-- From a state that is ready on, nothing goes wrong. -/
theorem State.IsReady.harmless (h : m.mem.IsReady) :
    ∃ as, m.mem.tVmspace m.mem.curthread = some as ∧
      (∀ f, (Prog.run (asDefineStack as).run m).1 ≠ .crash f) ∧
      ∀ ts : List (Bool × Word), (∀ x ∈ ts, x.2 < USERTOP) →
        ∃ m', Prog.run (touches ts) m = (.done (), m') ∧
          ∀ write va, va < USERTOP → Settled m' (touchType write) va := by
  obtain ⟨as, sp, has, hready⟩ := h
  refine ⟨as, has.cur, fun f => ?_, fun ts _ => ?_⟩
  · exact (awp_run (admits_strict m) (hready.awpE_asDefineStack has)).ne_crash fun hf => hf
  · obtain ⟨x, m', hrun, hpost⟩ := awp_run_done (fun _ h => h) (admits_strict m)
      (awp_touches ⟨as, sp, has, hready⟩ ts)
    exact ⟨m', hrun, fun write va _ => hpost.settled write va⟩

/-- The first touch of an address space that is not ready. -/
theorem State.IsTrap.crashes {as : Addr} {sp : Addrspace} (h : m.mem.IsTrap as sp) :
    ∃ f m', Prog.run (touches [(false, 0)]) m = (.crash f, m') := by
  have hawp : awp Terms.lax (touches [(false, 0)]) (fun _ _ => False) m.mem :=
    awp_bind.2 (awpE_access_fails (fun _ => trivial) h.has h.trap h.tlb (.inl rfl))
  have hends := awp_run (admits_lax m) hawp
  cases hr : Prog.run (touches [(false, 0)]) m with
  | mk o m' =>
    rw [hr] at hends
    cases o with
    | done x => exact absurd hends.1 id
    | crash f => exact ⟨f, m', rfl⟩

end

/-! ## Files -/

/-- A file with these bytes, read in one piece. -/
def fileVnode (file : List UInt8) : Vnode where
  read offset n := ([(file.drop offset.toNat).take n], none)
  le offset n := by simp

/-- The header of an executable for this machine. -/
def elfHeader (phnum : UInt8) : List UInt8 :=
  [0x7f, 0x45, 0x4c, 0x46, 1, 2, 1, 0, 0, 0, 0, 0, 0, 0, 0, 0, 0, 2, 0, 8, 0, 0, 0, 1,
    0, 0x40, 0, 0, 0, 0, 0, 52, 0, 0, 0, 0, 0, 0, 0, 0, 0, 52, 0, 32, 0, phnum, 0, 0, 0, 0, 0, 0]

/-- The header of a segment of four bytes at `page * 0x10000`, to be found at
`offset` of the file. -/
def elfSegment (page offset : UInt8) : List UInt8 :=
  [0, 0, 0, 1, 0, 0, 0, offset, 0, page, 0, 0, 0, 0, 0, 0, 0, 0, 0, 4, 0, 0, 0, 4,
    0, 0, 0, 7, 0, 0, 0, 0]

/-- A program of one instruction. -/
def oneSegment : List UInt8 := elfHeader 1 ++ elfSegment 0x40 84 ++ [0, 0, 0, 12]

/-- The same with a word of data. -/
def twoSegments : List UInt8 :=
  elfHeader 2 ++ elfSegment 0x40 116 ++ elfSegment 0x50 120 ++ [0, 0, 0, 12, 1, 2, 3, 4]

/-- One thread with a new address space. -/
def freshCpu : Cpu where
  mem :=
    { ram := smallRam
      granted := []
      mem := fun _ => 0
      tlb := TlbEntry.invalid
      spaces := update (fun _ => none) 1 (some .zero)
      tVmspace := update (fun _ => none) 1 (some 1)
      curthread := 1
      curspl := 0 }
  disk a := a.elim

theorem freshCpu_fresh : freshCpu.mem.Fresh where
  has := ⟨1, rfl, rfl⟩
  tlb i := by simp [freshCpu, TlbEntry.invalid, TlbEntry.Valid]
  ram := by
    unfold Ram.Aligned Lib.Aligned
    decide

end Os161.Vm
