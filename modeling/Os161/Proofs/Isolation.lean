import Os161.Proofs.Areas

/-!
# Address spaces are isolated

`System.Inv` holds between the steps of all processes: address spaces have no
memory in common, each of them belongs to one thread at most, and the
translation buffer has lines of the current thread's address space only. A
thread without one may find lines of somebody else there; before it can run a
program it has to get an address space, and that empties the buffer.

What a step does to the state is read off its program once (the lemmas of the
first section). Everything that is then left to show about a step is what became
of the one thread whose address spaces it changed (`System.Inv.change`).
-/

namespace Os161.Vm

open Os161.Kern Os161.Lib Function

/-! ## What the pieces do -/

theorem Ends.post {α : Type} {p : VProg α} {s s' : State} {x : α} {Q : α → State → Prop}
    (h : Ends p s x s') (hp : awp Terms.free p Q s) : Q x s' := by
  obtain ⟨m, m', rfl, rfl, hrun⟩ := h
  have hends := awp_run (fun _ => trivial) hp
  rw [hrun] at hends
  exact hends.1

section
variable {s s' : State}

theorem Ends.miSwitch {next : Addr} (h : Ends (miSwitch next) s () s') :
    s' = { s with
      curthread := next
      tlb := if (s.tVmspace next).isSome then TlbEntry.invalid else s.tlb } := by
  apply h.post (Q := fun _ s' => s' = _)
  refine awp_bind.2 ((awp_modify _).2 (awp_bind.2 (awp_mem.2 ?_)))
  cases hv : s.tVmspace next with
  | none => exact rfl
  | some a => exact rfl

variable {new as : Addr} {sp : Addrspace} {old : Option Addr}

theorem Ends.enter {r : Except Errno (Option Addr)} (h : Ends (loadexec.enter new).run s r s') :
    (r = .error .ENOMEM ∧ s' = s) ∨
      (r = .ok (s.tVmspace s.curthread) ∧ s' = { s with
        spaces := update s.spaces new (some .zero)
        tVmspace := update s.tVmspace s.curthread (some new)
        tlb := TlbEntry.invalid }) := by
  apply h.post (Q := fun r s' => (r = .error .ENOMEM ∧ s' = s) ∨ _)
  refine awpE_call_bind.2 (awp_bind.2 ⟨trivial, ?_, fun _ => ?_⟩)
  · exact .inr ⟨rfl, rfl⟩
  · exact .inl ⟨rfl, rfl⟩

theorem Ends.defineRegion {vaddr sz : Word}
    (h : Ends (asDefineRegion as vaddr sz).run s (.ok ()) s') (hsp : s.spaces as = some sp) :
    ∃ sp', sp.defineRegion vaddr sz = .ok sp' ∧ s' = s.withSpace as sp' := by
  apply h.post (Q := fun r s' => r = .ok () →
    ∃ sp', sp.defineRegion vaddr sz = .ok sp' ∧ s' = s.withSpace as sp') _ rfl
  refine awpE_call_bind.2 (awp_space hsp ?_)
  cases hdef : sp.defineRegion vaddr sz with
  | ok sp' => exact fun _ => ⟨sp', rfl, rfl⟩
  | error e =>
    intro he
    cases he

theorem Ends.restore (h : Ends (loadexec.restore old as) s () s') :
    s' = { s with
      tVmspace := update s.tVmspace s.curthread old
      tlb := TlbEntry.invalid
      spaces := update s.spaces as none } :=
  h.post (Q := fun _ s' => s' = _) rfl

theorem Addrspace.Planned.held_eq (h : sp.Planned) : sp.held = [] := by
  rw [Addrspace.held_eq, if_pos h.pbase1, if_pos h.pbase2, if_pos h.stackpbase]
  rfl

/-- The address spaces when one of them, or none, has been destroyed. -/
def freed (spaces : Addr → Option Addrspace) : Option Addr → Addr → Option Addrspace
  | some as => update spaces as none
  | none => spaces

theorem freed_of_ne {spaces : Addr → Option Addrspace} {a : Addr} (h : old ≠ some a) :
    freed spaces old a = spaces a := by
  cases old with
  | none => rfl
  | some o =>
    apply update_of_ne
    intro hao
    exact h (hao ▸ rfl)

theorem State.Apart.freed (h : s.Apart) (hspaces : s'.spaces = freed s.spaces old)
    (hgr : s'.granted = s.granted) : s'.Apart := by
  cases old with
  | none => exact h.mono hspaces ⟨[], hgr⟩
  | some a => exact h.destroy hspaces hgr

theorem Ends.threadExit (h : Ends threadExit s () s') :
    s' = { s with
      tVmspace := update s.tVmspace s.curthread none
      spaces := freed s.spaces (s.tVmspace s.curthread) } := by
  apply h.post (Q := fun _ s' => s' = _)
  refine awp_bind.2 (awp_mem.2 ?_)
  cases has : s.tVmspace s.curthread with
  | none =>
    have hsame : update s.tVmspace s.curthread none = s.tVmspace := by
      rw [← has, update_eq_self]
    rw [hsame]
    rfl
  | some as => exact rfl

theorem Ends.finish {x : Word} (h : Ends (loadexec.finish old as).run s (.ok x) s')
    (hsp : s.spaces as = some sp) : s' = { s with spaces := freed s.spaces old } := by
  apply h.post (Q := fun _ s' => s' = { s with spaces := freed s.spaces old })
  refine awpE_bind.2 (awpE_call_bind.2 (awp_space hsp ?_))
  refine awpE_call_bind.2 (awp_assert_of trivial fun _ => ?_)
  cases old with
  | none => exact rfl
  | some o => exact rfl

/-- What `as_prepare_load` does to an address space that has no memory yet. -/
theorem Ends.prepareLoad {r : Except Errno Unit} (h : Ends (asPrepareLoad as).run s r s')
    (hsp : s.spaces as = some sp) (hplan : sp.Planned) :
    ∃ ram sp', s' = State.withSpace { s with ram := ram, granted := sp'.held ++ s.granted } as sp' ∧
      (r = .ok () → sp'.Backed) := by
  apply h.post (Q := fun r s' => ∃ ram sp', s' = State.withSpace
    { s with ram := ram, granted := sp'.held ++ s.granted } as sp' ∧ (r = .ok () → sp'.Backed))
  apply awpE_asPrepareLoad hsp ⟨hplan.pbase1, hplan.pbase2, hplan.stackpbase⟩
  · intro ram p1 p2 p3 sp' hp1 hp2 hp3 hsp' _ _
    subst hsp'
    refine ⟨ram, _, rfl, fun _ => ⟨hp1, hp2, hp3, ?_, ?_⟩⟩
    · exact and_pageMask_eq_iff.1 hplan.vbase1
    · exact and_pageMask_eq_iff.1 hplan.vbase2
  · intro ram sp' _
    refine ⟨ram, sp', rfl, fun hr => ?_⟩
    cases hr

theorem Addrspace.Backed.copy {sp' : Addrspace} (h : sp.Backed) (hcopy : sp'.Copies sp)
    (h0 : sp'.pbase1 ≠ 0 ∧ sp'.pbase2 ≠ 0 ∧ sp'.stackpbase ≠ 0) : sp'.Backed :=
  ⟨h0.1, h0.2.1, h0.2.2, hcopy.vbase1 ▸ h.vbase1, hcopy.vbase2 ▸ h.vbase2⟩

theorem Ends.copy {copy : Addr} (h : Ends (asCopy as new).run s (.ok copy) s')
    (hsp : s.spaces as = some sp) (hnew : s.spaces new = none) (hback : sp.Backed) :
    copy = new ∧ ∃ ram sp', sp'.Copies sp ∧ sp'.Backed ∧ s' = { s with
      ram := ram
      granted := sp'.held ++ s.granted
      spaces := update s.spaces new (some sp')
      mem := copyMem s.mem sp sp' } := by
  apply h.post (Q := fun r s' => r = .ok copy → copy = new ∧ ∃ ram sp', sp'.Copies sp ∧
    sp'.Backed ∧ s' = { s with
      ram := ram
      granted := sp'.held ++ s.granted
      spaces := update s.spaces new (some sp')
      mem := copyMem s.mem sp sp' }) _ rfl
  apply awpE_asCopy hsp hnew
  · intro ram sp' hcopy h0 hr
    cases hr
    exact ⟨rfl, ram, sp', hcopy, hback.copy hcopy h0, rfl⟩
  · intro ram more hr
    cases hr

theorem Ends.copyFails {e : Errno} (h : Ends (asCopy as new).run s (.error e) s')
    (hsp : s.spaces as = some sp) (hnew : s.spaces new = none) :
    ∃ ram more, s' = { s with ram := ram, granted := more ++ s.granted } := by
  apply h.post (Q := fun r s' => r = .error e → ∃ ram more, s' =
    { s with ram := ram, granted := more ++ s.granted }) _ rfl
  apply awpE_asCopy hsp hnew
  · intro ram sp' _ _ hr
    cases hr
  · intro ram more _
    rw [← hnew, update_eq_self]
    exact ⟨ram, more, rfl⟩

theorem Ends.destroy (h : Ends (asDestroy as) s () s') :
    s' = { s with spaces := update s.spaces as none } :=
  h.post (Q := fun _ s' => s' = _) rfl

theorem Ends.allocKpages {npages va : Word} (h : Ends (allocKpages npages) s va s') :
    ∃ ram more, s' = { s with ram := ram, granted := more ++ s.granted } := by
  apply h.post (Q := fun _ s' => ∃ ram more, s' =
    { s with ram := ram, granted := more ++ s.granted })
  refine awp_bind.2 (awp_getppages npages fun pa ram _ => ?_)
  have hgr : ∃ more, (if pa = 0 then s.granted else (pa, npages) :: s.granted) =
      more ++ s.granted := by
    split
    · exact ⟨[], rfl⟩
    · exact ⟨[(pa, npages)], rfl⟩
  obtain ⟨more, hmore⟩ := hgr
  rw [hmore]
  split <;> exact ⟨ram, more, rfl⟩

end

/-! ## Between the steps -/

/-- What `loadexec` keeps to go back to. -/
def Phase.old : Phase → Option Addr
  | .defining old => old
  | .loading old => old
  | .failing old => old
  | .dead => none
  | .kernel => none
  | .user => none

namespace System

/-- The address spaces a thread has: its `t_vmspace`, and the one it will go
back to. -/
def own (σ : System) (t : Addr) : Bool → Option Addr
  | false => σ.vm.tVmspace t
  | true => (σ.phase t).old

structure Inv (σ : System) : Prop where
  apart : σ.vm.Apart
  live : ∀ {t b a}, σ.own t b = some a → ∃ sp, σ.vm.spaces a = some sp
  inj : ∀ {t b t' b' a}, σ.own t b = some a → σ.own t' b' = some a → t = t' ∧ b = b'
  idle : ∀ {t}, σ.phase t = .dead ∨ σ.phase t = .kernel → σ.vm.tVmspace t = none
  active : ∀ {t}, σ.phase t ≠ .dead → σ.phase t ≠ .kernel → ∃ a, σ.vm.tVmspace t = some a
  planned : ∀ {t old a sp}, σ.phase t = .defining old → σ.vm.tVmspace t = some a →
    σ.vm.spaces a = some sp → sp.Planned
  backed : ∀ {t b a sp}, (b = false → σ.phase t = .user ∨ ∃ old, σ.phase t = .loading old) →
    σ.own t b = some a → σ.vm.spaces a = some sp → sp.Backed
  tlb : ∀ {a sp}, σ.vm.Has a sp → TlbOk sp σ.vm.tlb
  empty : ∀ {old}, σ.now = .defining old ∨ σ.now = .failing old → ∀ i, ¬ (σ.vm.tlb i).Valid

/-- A step changed the address spaces of thread `t` only. Those it has now it
had before, or they are new. -/
structure Change (σ σ' : System) (t : Addr) : Prop where
  phase : ∀ u, u ≠ t → σ'.phase u = σ.phase u
  vm : ∀ u, u ≠ t → σ'.vm.tVmspace u = σ.vm.tVmspace u
  spaces : ∀ a, (∀ b, σ.own t b ≠ some a) → (∃ sp, σ.vm.spaces a = some sp) →
    σ'.vm.spaces a = σ.vm.spaces a
  own : ∀ b a, σ'.own t b = some a → (∃ sp, σ'.vm.spaces a = some sp) ∧
    ((∃ b', σ.own t b' = some a) ∨ σ.vm.spaces a = none)
  two : ∀ a, σ'.own t false = some a → σ'.own t true ≠ some a
  idle : σ'.phase t = .dead ∨ σ'.phase t = .kernel → σ'.vm.tVmspace t = none
  active : σ'.phase t ≠ .dead → σ'.phase t ≠ .kernel → ∃ a, σ'.vm.tVmspace t = some a
  planned : ∀ old a sp, σ'.phase t = .defining old → σ'.vm.tVmspace t = some a →
    σ'.vm.spaces a = some sp → sp.Planned
  backed : ∀ b a sp, (b = false → σ'.phase t = .user ∨ ∃ old, σ'.phase t = .loading old) →
    σ'.own t b = some a → σ'.vm.spaces a = some sp → sp.Backed
  apart : σ'.vm.Apart
  tlb : ∀ a sp, σ'.vm.Has a sp → TlbOk sp σ'.vm.tlb
  empty : ∀ old, σ'.now = .defining old ∨ σ'.now = .failing old → ∀ i, ¬ (σ'.vm.tlb i).Valid

namespace Inv

variable {σ σ' : System} {t : Addr}

/-- What another thread has is not `t`'s, and so it has not been touched. -/
theorem other {u : Addr} {b : Bool} {a : Addr} (h : σ.Inv) (hc : Change σ σ' t) (hu : u ≠ t)
    (ha : σ.own u b = some a) : σ'.vm.spaces a = σ.vm.spaces a :=
  hc.spaces a (fun _ hb' => hu (h.inj ha hb').1) (h.live ha)

theorem change (h : σ.Inv) (hc : Change σ σ' t) : σ'.Inv := by
  have hsame : ∀ u, u ≠ t → ∀ b, σ'.own u b = σ.own u b := by
    intro u hu b
    cases b with
    | false => exact hc.vm u hu
    | true => exact congrArg Phase.old (hc.phase u hu)
  have hfresh : ∀ u, u ≠ t → ∀ b b' a, σ.own u b = some a → σ'.own t b' ≠ some a := by
    intro u hu b b' a ha hb'
    rcases (hc.own b' a hb').2 with ⟨b'', hb''⟩ | hnone
    · exact hu (h.inj ha hb'').1
    · obtain ⟨sp, hsp⟩ := h.live ha
      rw [hnone] at hsp
      cases hsp
  constructor
  · exact hc.apart
  · intro u b a ha
    by_cases hu : u = t
    · subst hu
      exact (hc.own b a ha).1
    · rw [hsame u hu] at ha
      rw [h.other hc hu ha]
      exact h.live ha
  · intro u b u' b' a ha ha'
    by_cases hu : u = t <;> by_cases hu' : u' = t
    · subst hu hu'
      refine ⟨rfl, ?_⟩
      cases b <;> cases b'
      · rfl
      · exact absurd ha' (hc.two a ha)
      · exact absurd ha (hc.two a ha')
      · rfl
    · subst hu
      rw [hsame u' hu'] at ha'
      exact absurd ha (hfresh u' hu' b' b a ha')
    · subst hu'
      rw [hsame u hu] at ha
      exact absurd ha' (hfresh u hu b b' a ha)
    · rw [hsame u hu] at ha
      rw [hsame u' hu'] at ha'
      exact h.inj ha ha'
  · intro u hu'
    by_cases hu : u = t
    · subst hu
      exact hc.idle hu'
    · rw [hc.phase u hu] at hu'
      rw [hc.vm u hu]
      exact h.idle hu'
  · intro u hd hk
    by_cases hu : u = t
    · subst hu
      exact hc.active hd hk
    · rw [hc.phase u hu] at hd hk
      rw [hc.vm u hu]
      exact h.active hd hk
  · intro u old a sp hp hv hsp
    by_cases hu : u = t
    · subst hu
      exact hc.planned old a sp hp hv hsp
    · rw [hc.phase u hu] at hp
      rw [hc.vm u hu] at hv
      rw [h.other hc (b := false) hu hv] at hsp
      exact h.planned hp hv hsp
  · intro u b a sp hp ha hsp
    by_cases hu : u = t
    · subst hu
      exact hc.backed b a sp hp ha hsp
    · rw [hsame u hu] at ha
      rw [h.other hc hu ha] at hsp
      rw [hc.phase u hu] at hp
      exact h.backed hp ha hsp
  · exact fun {a sp} => hc.tlb a sp
  · exact fun {old} => hc.empty old

/-- The thread that runs has an address space if its phase says so. -/
theorem hasSpace (h : σ.Inv) (hd : σ.now ≠ .dead) (hk : σ.now ≠ .kernel) :
    ∃ a sp, σ.vm.Has a sp := by
  obtain ⟨a, ha⟩ := h.active hd hk
  obtain ⟨sp, hsp⟩ := h.live (b := false) ha
  exact ⟨a, sp, ha, hsp⟩

end Inv

/-- Nobody's address spaces have changed. -/
theorem Change.same {σ : System} {s : State} (h : σ.Inv) (hvm : s.tVmspace = σ.vm.tVmspace)
    (hspaces : s.spaces = σ.vm.spaces) (hgr : ∃ more, s.granted = more ++ σ.vm.granted)
    (htlb : ∀ a sp, s.Has a sp → TlbOk sp s.tlb)
    (hempty : ∀ old, σ.phase s.curthread = .defining old ∨ σ.phase s.curthread = .failing old →
      ∀ i, ¬ (s.tlb i).Valid) : Change σ { σ with vm := s } σ.vm.curthread := by
  have hown : ∀ u b, System.own { σ with vm := s } u b = σ.own u b := by
    intro u b
    cases b with
    | false => exact congrFun hvm u
    | true => rfl
  constructor
  · exact fun _ _ => rfl
  · exact fun u _ => congrFun hvm u
  · exact fun a _ _ => congrFun hspaces a
  · intro b a ha
    rw [hown] at ha
    exact ⟨hspaces ▸ h.live ha, .inl ⟨b, ha⟩⟩
  · intro a ha hb
    rw [hown] at ha hb
    exact absurd (h.inj ha hb).2 (by decide)
  · intro hp
    exact (congrFun hvm _).trans (h.idle hp)
  · intro hd hk
    obtain ⟨a, ha⟩ := h.active hd hk
    exact ⟨a, (congrFun hvm _).trans ha⟩
  · intro old a sp hp ha hsp
    exact h.planned hp ((congrFun hvm _).symm.trans ha) (hspaces ▸ hsp)
  · intro b a sp hp ha hsp
    rw [hown] at ha
    exact h.backed hp ha (hspaces ▸ hsp)
  · exact h.apart.mono hspaces hgr
  · exact htlb
  · exact hempty

/-! ## What a step leaves alone -/

/-- The memory of every address space but the current one, and the address
spaces of the other threads. -/
structure Spares (σ σ' : System) : Prop where
  mem : ∀ {a sp} {x : Word}, σ.vm.spaces a = some sp →
    σ.vm.tVmspace σ.vm.curthread ≠ some a → sp.Owns x.toNat → σ'.vm.mem x = σ.vm.mem x
  others : ∀ {t a}, t ≠ σ.vm.curthread → σ.vm.tVmspace t = some a →
    σ'.vm.tVmspace t = some a ∧ σ'.vm.spaces a = σ.vm.spaces a

theorem Spares.of_change {σ σ' : System} {t : Addr} (h : σ.Inv) (hc : Change σ σ' t)
    (ht : t = σ.vm.curthread ∨ σ.vm.tVmspace t = none)
    (hmem : ∀ {a sp} {x : Word}, σ.vm.spaces a = some sp →
      σ.vm.tVmspace σ.vm.curthread ≠ some a → sp.Owns x.toNat → σ'.vm.mem x = σ.vm.mem x) :
    Spares σ σ' where
  mem := hmem
  others {u a} hu ha := by
    have hut : u ≠ t := by
      rcases ht with rfl | hnone
      · exact hu
      · intro hut
        rw [hut, hnone] at ha
        cases ha
    exact ⟨(hc.vm u hut).trans ha, h.other hc (b := false) hut ha⟩

/-- Both at once, for a step whose change is known. -/
theorem Inv.steps {σ σ' : System} {t : Addr} (h : σ.Inv) (hc : Change σ σ' t)
    (ht : t = σ.vm.curthread ∨ σ.vm.tVmspace t = none)
    (hmem : ∀ {a sp} {x : Word}, σ.vm.spaces a = some sp →
      σ.vm.tVmspace σ.vm.curthread ≠ some a → sp.Owns x.toNat → σ'.vm.mem x = σ.vm.mem x) :
    σ'.Inv ∧ Spares σ σ' :=
  ⟨h.change hc, Spares.of_change h hc ht hmem⟩

end System

section
variable {s s' : State} {as : Addr} {sp : Addrspace} {va : Word}

theorem Ends.load {r : Except Errno UInt8} (h : Ends (user.load va).run s r s')
    (hs : s.Has as sp) (htlb : TlbOk sp s.tlb) :
    (∃ tlb, TlbOk sp tlb ∧ s' = { s with tlb := tlb }) ∧
      ∀ b, r = .ok b → s.byte sp va = some b := by
  apply h.post (Q := fun r s' => (∃ tlb, TlbOk sp tlb ∧ s' = { s with tlb := tlb }) ∧
    ∀ b, r = .ok b → s.byte sp va = some b)
  refine awpE_bind.2 (awpE_access_tlb hs htlb (.inl rfl) ?_ ?_)
  · intro tlb x htlb' _ hx
    refine awpE_call_bind.2 (awp_mem.2 ⟨⟨tlb, htlb', rfl⟩, ?_⟩)
    intro b hb
    cases hb
    unfold State.byte
    rw [hx]
    rfl
  · refine ⟨⟨s.tlb, htlb, rfl⟩, ?_⟩
    intro b hb
    cases hb

theorem Ends.store {b : UInt8} {r : Except Errno Unit} (h : Ends (user.store va b).run s r s')
    (hs : s.Has as sp) (htlb : TlbOk sp s.tlb) :
    s' = s ∨ ∃ tlb x, TlbOk sp tlb ∧ sp.Ready ∧ sp.byteAddr va = some x ∧
      s' = { s with tlb := tlb, mem := update s.mem x b } := by
  apply h.post (Q := fun _ s' => s' = s ∨ ∃ tlb x, TlbOk sp tlb ∧ sp.Ready ∧
    sp.byteAddr va = some x ∧ s' = { s with tlb := tlb, mem := update s.mem x b })
  refine awpE_bind.2 (awpE_access_tlb hs htlb (.inr rfl) ?_ ?_)
  · intro tlb x htlb' hready hx
    exact awpE_call.2 ((awp_modify _).2 (.inr ⟨tlb, x, htlb', hready, hx, rfl⟩))
  · exact .inl rfl

end

namespace System

variable {σ : System}

/-- A phase in which user memory is touched. -/
def Touches (p : Phase) : Prop := p = .user ∨ ∃ old, p = .loading old

theorem Touches.has (h : σ.Inv) (hp : Touches σ.now) : ∃ a sp, σ.vm.Has a sp := by
  apply h.hasSpace
  · rcases hp with hp | ⟨old, hp⟩ <;> simp [hp]
  · rcases hp with hp | ⟨old, hp⟩ <;> simp [hp]

variable {old v : Option Addr} {p : Phase} {s s' : State} {a new as child : Addr}
  {sp sp' : Addrspace} {va x : Word} {e : Errno}

theorem Touches.not_empty (hp : Touches p) : ¬ (p = .defining old ∨ p = .failing old) := by
  rcases hp with rfl | ⟨old, rfl⟩ <;> simp

/-- The thread that runs keeps its address space, and the buffer agrees with it. -/
theorem Inv.touched (h : σ.Inv) (hp : Touches σ.now) (hs : σ.vm.Has a sp) (htlb : TlbOk sp s.tlb)
    (hvm : s.tVmspace = σ.vm.tVmspace) (hcur : s.curthread = σ.vm.curthread)
    (hspaces : s.spaces = σ.vm.spaces) (hgr : s.granted = σ.vm.granted) :
    Change σ { σ with vm := s } σ.vm.curthread := by
  apply Change.same h hvm hspaces ⟨[], hgr⟩
  · intro a' sp' hs'
    obtain ⟨hcur', hsp'⟩ := hs'
    rw [hcur, hvm, hs.cur] at hcur'
    cases hcur'
    rw [hspaces, hs.space] at hsp'
    cases hsp'
    exact htlb
  · intro old hold
    rw [hcur] at hold
    exact absurd hold hp.not_empty

theorem Inv.load {r : Except Errno UInt8} (h : σ.Inv) (hp : Touches σ.now)
    (he : Ends (user.load va).run σ.vm r s) :
    Inv { σ with vm := s } ∧ Spares σ { σ with vm := s } := by
  obtain ⟨a, sp, hs⟩ := hp.has h
  obtain ⟨⟨tlb, htlb, rfl⟩, _⟩ := he.load hs (h.tlb hs)
  exact h.steps (h.touched hp hs htlb rfl rfl rfl rfl) (.inl rfl) fun _ _ _ => rfl

theorem Inv.store {r : Except Errno Unit} {b : UInt8} (h : σ.Inv) (hp : Touches σ.now)
    (he : Ends (user.store va b).run σ.vm r s) :
    Inv { σ with vm := s } ∧ Spares σ { σ with vm := s } := by
  obtain ⟨a, sp, hs⟩ := hp.has h
  rcases he.store hs (h.tlb hs) with rfl | ⟨tlb, x, htlb, hready, hx, rfl⟩
  · exact h.steps (h.touched hp hs (h.tlb hs) rfl rfl rfl rfl) (.inl rfl) fun _ _ _ => rfl
  · refine h.steps (h.touched hp hs htlb rfl rfl rfl rfl) (.inl rfl) ?_
    intro a' sp' y ha' hne hy
    -- the byte is in the memory of the current address space
    have hown := hready.backed.byteAddr_owned (h.apart.held hs.space) hx
    apply update_of_ne
    intro hyx
    subst hyx
    apply hne
    rw [hs.cur, h.apart.apart hs.space ha' hown hy]

theorem Inv.switch {next : Addr} (h : σ.Inv) (he : Ends (miSwitch next) σ.vm () s) :
    Inv { σ with vm := s } ∧ Spares σ { σ with vm := s } := by
  rw [he.miSwitch]
  have hflush : ∀ a, σ.vm.tVmspace next = some a → ∀ i, ¬ TlbEntry.Valid
      ((if (σ.vm.tVmspace next).isSome then TlbEntry.invalid else σ.vm.tlb) i) := by
    intro a ha i
    simp only [ha, Option.isSome_some, if_true]
    exact invalid_not_valid i
  refine h.steps (Change.same h rfl rfl ⟨[], rfl⟩ ?_ ?_) (.inl rfl) fun _ _ _ => rfl
  · intro a sp hs
    exact TlbOk.of_empty (hflush a hs.cur)
  · intro old hold
    have hnext : ∃ a, σ.vm.tVmspace next = some a := by
      apply h.active
      · rcases hold with hold | hold <;> simp [hold]
      · rcases hold with hold | hold <;> simp [hold]
    obtain ⟨a, ha⟩ := hnext
    exact hflush a ha

theorem Inv.pages {npages : Word} (h : σ.Inv) (he : Ends (allocKpages npages) σ.vm va s) :
    Inv { σ with vm := s } ∧ Spares σ { σ with vm := s } := by
  obtain ⟨ram, more, rfl⟩ := he.allocKpages
  refine h.steps (Change.same h rfl rfl ⟨more, rfl⟩ ?_ ?_) (.inl rfl) fun _ _ _ => rfl
  · exact fun a sp hs => h.tlb ⟨hs.cur, hs.space⟩
  · exact fun old hold => h.empty hold

section
variable {t : Addr} (hvm : s.tVmspace = update σ.vm.tVmspace t v)
    (hspaces : ∀ a, (∀ b, σ.own t b ≠ some a) → (∃ sp, σ.vm.spaces a = some sp) →
      s.spaces a = σ.vm.spaces a)
    (hown : ∀ a, v = some a ∨ p.old = some a → (∃ sp, s.spaces a = some sp) ∧
      ((∃ b, σ.own t b = some a) ∨ σ.vm.spaces a = none))
    (htwo : ∀ a, v = some a → p.old ≠ some a) (hnone : p = .dead ∨ p = .kernel ↔ v = none)
    (hplanned : ∀ old a sp, p = .defining old → v = some a → s.spaces a = some sp → sp.Planned)
    (hbacked : ∀ a sp, (Touches p ∧ v = some a) ∨ p.old = some a → s.spaces a = some sp →
      sp.Backed) (hapart : s.Apart)
include hvm hspaces hown htwo hnone hplanned hbacked hapart

/-- A thread has gone on to phase `p`, with `v` for its address space. -/
theorem Change.at (htlb : ∀ a sp, s.Has a sp → TlbOk sp s.tlb)
    (hempty : ∀ old, update σ.phase t p s.curthread = .defining old ∨
      update σ.phase t p s.curthread = .failing old → ∀ i, ¬ (s.tlb i).Valid) :
    Change σ ⟨s, update σ.phase t p⟩ t := by
  have hvmt : s.tVmspace t = v := by rw [hvm, update_self]
  have hpt : (⟨s, update σ.phase t p⟩ : System).phase t = p := update_self ..
  have hold : System.own ⟨s, update σ.phase t p⟩ t true = p.old :=
    congrArg Phase.old hpt
  constructor
  · exact fun u hu => update_of_ne hu _ _
  · intro u hu
    show s.tVmspace u = _
    rw [hvm, update_of_ne hu]
  · exact hspaces
  · intro b a ha
    cases b with
    | false => exact hown a (.inl (hvmt.symm.trans ha))
    | true => exact hown a (.inr (hold.symm.trans ha))
  · intro a ha hb
    exact htwo a (hvmt.symm.trans ha) (hold.symm.trans hb)
  · intro hp
    rw [hpt] at hp
    exact hvmt.trans (hnone.1 hp)
  · intro hd hk
    rw [hpt] at hd hk
    show ∃ a, s.tVmspace t = some a
    rw [hvmt]
    apply Option.ne_none_iff_exists'.1
    intro h
    rcases hnone.2 h with h | h
    · exact hd h
    · exact hk h
  · intro old a sp hp ha hsp
    rw [hpt] at hp
    exact hplanned old a sp hp (hvmt.symm.trans ha) hsp
  · intro b a sp hp ha hsp
    rw [hpt] at hp
    cases b with
    | false => exact hbacked a sp (.inl ⟨hp rfl, hvmt.symm.trans ha⟩) hsp
    | true => exact hbacked a sp (.inr (hold.symm.trans ha)) hsp
  · exact hapart
  · exact htlb
  · exact hempty

/-- The same for the thread that runs, when the buffer has been emptied or suits
the address space. -/
theorem Change.goes (ht : σ.vm.curthread = t) (hcur : s.curthread = t)
    (htlb : ∀ a sp, v = some a → s.spaces a = some sp → TlbOk sp s.tlb)
    (hempty : ∀ old, p = .defining old ∨ p = .failing old → ∀ i, ¬ (s.tlb i).Valid) :
    Change σ (σ.goes s p) t := by
  subst ht
  apply Change.at hvm hspaces hown htwo hnone hplanned hbacked hapart
  · intro a sp hs
    have ha := hs.cur
    rw [hcur, hvm, update_self] at ha
    exact htlb a sp ha hs.space
  · rw [hcur, update_self]
    exact hempty

end

theorem Inv.enter (h : σ.Inv) (hp : σ.now = .user ∨ σ.now = .kernel) (hnew : σ.vm.spaces new = none)
    (he : Ends (loadexec.enter new).run σ.vm (.ok old) s) (hsep : Separate s.granted) :
    Inv (σ.goes s (.defining old)) ∧ Spares σ (σ.goes s (.defining old)) := by
  rcases he.enter with ⟨hr, _⟩ | ⟨hr, rfl⟩
  · cases hr
  cases hr
  have hne : ∀ a sp, σ.vm.spaces a = some sp → a ≠ new := by
    intro a sp ha han
    rw [han, hnew] at ha
    cases ha
  refine h.steps (Change.goes (v := some new) rfl ?_ ?_ ?_ ?_ ?_ ?_ ?_ rfl rfl ?_ ?_) (.inl rfl)
    fun _ _ _ => rfl
  · intro a _ ⟨sp, hsp⟩
    exact update_of_ne (hne a sp hsp) _ _
  · intro a ha
    rcases ha with ha | ha
    · cases ha
      exact ⟨⟨_, update_self ..⟩, .inr hnew⟩
    · obtain ⟨sp, hsp⟩ := h.live (b := false) ha
      refine ⟨⟨sp, ?_⟩, .inl ⟨false, ha⟩⟩
      exact (update_of_ne (hne a sp hsp) _ _).trans hsp
  · intro a ha hold
    cases ha
    obtain ⟨sp, hsp⟩ := h.live (b := false) hold
    exact hne _ sp hsp rfl
  · simp
  · intro old a sp _ ha hsp
    cases ha
    dsimp only at hsp
    rw [update_self] at hsp
    cases hsp
    exact .zero
  · intro a sp ha hsp
    rcases ha with ⟨ht, _⟩ | ha
    · exact absurd (.inl rfl) ht.not_empty
    · obtain ⟨sp', hsp'⟩ := h.live (b := false) ha
      dsimp only at hsp
      rw [update_of_ne (hne a sp' hsp')] at hsp
      apply h.backed (t := σ.vm.curthread) (b := false) _ ha hsp
      intro _
      rcases hp with hp | hp
      · exact .inl hp
      · have hno := h.idle (.inr hp)
        rw [show σ.vm.tVmspace σ.vm.curthread = some a from ha] at hno
        cases hno
  · apply h.apart.store rfl _ hsep
    rw [Addrspace.Planned.zero.held_eq]
    rfl
  · exact fun a sp _ _ => TlbOk.of_empty invalid_not_valid
  · exact fun _ _ => invalid_not_valid

/-- What `loadexec` will go back to is not the new address space. -/
theorem Inv.old_ne (h : σ.Inv) (hold : σ.own σ.vm.curthread true = old)
    (has : σ.vm.tVmspace σ.vm.curthread = some as) : old ≠ some as := by
  intro ho
  have htwo := h.inj (hold.trans ho) (show σ.own σ.vm.curthread false = some as from has)
  exact absurd htwo.2 (by decide)

/-- `load_elf` stores into the new address space, which gets the memory that was
found for it. -/
theorem Inv.stores {ram : Ram} (h : σ.Inv) (hnow : σ.now = .defining old)
    (has : σ.vm.tVmspace σ.vm.curthread = some as)
    (hs : s = State.withSpace { σ.vm with ram := ram, granted := sp'.held ++ σ.vm.granted } as sp')
    (hp : p = .defining old ∨ p = .loading old ∨ p = .failing old)
    (hplanned : p = .defining old → sp'.Planned) (hbacked : p = .loading old → sp'.Backed)
    (hsep : Separate s.granted) : Inv (σ.goes s p) ∧ Spares σ (σ.goes s p) := by
  have hself : s.spaces as = some sp' := hs ▸ update_self ..
  have hother : ∀ a, a ≠ as → s.spaces a = σ.vm.spaces a := by
    intro a ha
    rw [hs]
    exact update_of_ne ha _ _
  have hpold : p.old = old := by
    rcases hp with rfl | rfl | rfl <;> rfl
  have hold : σ.own σ.vm.curthread true = old := congrArg Phase.old hnow
  have hne : ∀ a, old = some a → a ≠ as := by
    intro a ha haas
    exact h.old_ne hold has (haas ▸ ha)
  have htlb : ∀ i, ¬ (s.tlb i).Valid := by
    rw [hs]
    exact h.empty (.inl hnow)
  have hcur : s.curthread = σ.vm.curthread := by
    rw [hs]
    rfl
  refine h.steps (Change.goes (v := some as) ?_ ?_ ?_ ?_ ?_ ?_ ?_ ?_ rfl hcur ?_ ?_) (.inl rfl) ?_
  · rw [hs, ← has, update_eq_self]
    rfl
  · intro a ha _
    apply hother
    intro haas
    exact ha false (haas ▸ has)
  · intro a ha
    rcases ha with ha | ha
    · cases ha
      exact ⟨⟨sp', hself⟩, .inl ⟨false, has⟩⟩
    · rw [hpold] at ha
      rw [hother a (hne a ha)]
      exact ⟨h.live (hold.trans ha), .inl ⟨true, hold.trans ha⟩⟩
  · intro a ha hold'
    cases ha
    rw [hpold] at hold'
    exact hne _ hold' rfl
  · rcases hp with rfl | rfl | rfl <;> simp
  · intro old' a sp hp' ha hsp
    cases ha
    rw [hself] at hsp
    cases hsp
    subst hp'
    exact hplanned (congrArg Phase.defining hpold)
  · intro a sp ha hsp
    rcases ha with ⟨ht, ha⟩ | ha
    · cases ha
      rw [hself] at hsp
      cases hsp
      rcases hp with hp | hp | hp
      · exact absurd (.inl hp) ht.not_empty
      · exact hbacked hp
      · exact absurd (.inr hp) ht.not_empty
    · rw [hpold] at ha
      rw [hother a (hne a ha)] at hsp
      exact h.backed (b := true) (by simp) (hold.trans ha) hsp
  · subst hs
    exact h.apart.store rfl rfl hsep
  · exact fun a sp _ _ => TlbOk.of_empty htlb
  · exact fun _ _ => htlb
  · intro a sp x _ _ _
    rw [hs]
    rfl

/-- A phase that is not left. -/
theorem goes_now (s : State) : σ.goes s σ.now = { σ with vm := s } := by
  unfold goes now
  rw [update_eq_self]

section
variable (h : σ.Inv) (has : σ.vm.tVmspace σ.vm.curthread = some as)
  (hnew : σ.vm.spaces new = none)
include h

include has in
theorem Inv.define {vaddr sz : Word} (hnow : σ.now = .defining old)
    (he : Ends (asDefineRegion as vaddr sz).run σ.vm (.ok ()) s) (hsep : Separate s.granted) :
    Inv { σ with vm := s } ∧ Spares σ { σ with vm := s } := by
  obtain ⟨sp, hsp⟩ := h.live (b := false) has
  obtain ⟨sp', hdef, hs⟩ := he.defineRegion hsp
  have hplanned := (h.planned hnow has hsp).defineRegion hdef
  rw [← goes_now, hnow]
  apply h.stores hnow has _ (.inl rfl) (fun _ => hplanned) _ hsep
  · exact σ.vm.ram
  · rw [hs, hplanned.held_eq]
    rfl
  · nofun

include has in
theorem Inv.prepare {r : Except Errno Unit} (hnow : σ.now = .defining old)
    (hp : p = .loading old ∧ r = .ok () ∨ p = .failing old)
    (he : Ends (asPrepareLoad as).run σ.vm r s) (hsep : Separate s.granted) :
    Inv (σ.goes s p) ∧ Spares σ (σ.goes s p) := by
  obtain ⟨sp, hsp⟩ := h.live (b := false) has
  obtain ⟨ram, sp', hs, hback⟩ := he.prepareLoad hsp (h.planned hnow has hsp)
  rcases hp with ⟨rfl, hr⟩ | rfl
  · exact h.stores hnow has hs (.inr (.inl rfl)) nofun (fun _ => hback hr) hsep
  · exact h.stores hnow has hs (.inr (.inr rfl)) nofun nofun hsep

include has in
theorem Inv.restore (hnow : σ.now = .defining old ∨ σ.now = .loading old ∨ σ.now = .failing old)
    (he : Ends (loadexec.restore old as) σ.vm () s) :
    Inv (σ.goes s (returned old)) ∧ Spares σ (σ.goes s (returned old)) := by
  rw [he.restore]
  have hold : σ.own σ.vm.curthread true = old := by
    rcases hnow with hnow | hnow | hnow <;> exact congrArg Phase.old hnow
  have hlast : (returned old).old = none := by
    cases old <;> rfl
  have hne : ∀ a, old = some a → a ≠ as := by
    intro a ha haas
    exact h.old_ne hold has (haas ▸ ha)
  refine h.steps (Change.goes (v := old) rfl ?_ ?_ ?_ ?_ ?_ ?_ ?_ rfl rfl ?_ ?_) (.inl rfl)
    fun _ _ _ => rfl
  · intro a ha _
    apply update_of_ne
    intro haas
    exact ha false (haas ▸ has)
  · intro a ha
    rw [hlast] at ha
    rcases ha with ha | ha
    · obtain ⟨sp, hsp⟩ := h.live (hold.trans ha)
      refine ⟨⟨sp, ?_⟩, .inl ⟨true, hold.trans ha⟩⟩
      exact (update_of_ne (hne a ha) _ _).trans hsp
    · cases ha
  · intro a _
    rw [hlast]
    simp
  · cases old <;> simp [returned]
  · intro old' a sp hp
    cases old <;> cases hp
  · intro a sp ha hsp
    rw [hlast] at ha
    rcases ha with ⟨_, ha⟩ | ha
    · dsimp only at hsp
      rw [update_of_ne (hne a ha)] at hsp
      exact h.backed (b := true) (by simp) (hold.trans ha) hsp
    · cases ha
  · exact h.apart.destroy rfl rfl
  · exact fun _ _ _ _ => TlbOk.of_empty invalid_not_valid
  · exact fun _ _ => invalid_not_valid

include has in
theorem Inv.finish (hnow : σ.now = .loading old)
    (he : Ends (loadexec.finish old as).run σ.vm (.ok x) s) :
    Inv (σ.goes s .user) ∧ Spares σ (σ.goes s .user) := by
  obtain ⟨sp, hsp⟩ := h.live (b := false) has
  rw [he.finish hsp]
  have hold : σ.own σ.vm.curthread true = old := congrArg Phase.old hnow
  have hkept : freed σ.vm.spaces old as = σ.vm.spaces as := freed_of_ne (h.old_ne hold has)
  refine h.steps (Change.goes (v := some as) ?_ ?_ ?_ ?_ ?_ ?_ ?_ ?_ rfl rfl ?_ ?_) (.inl rfl)
    fun _ _ _ => rfl
  · rw [← has, update_eq_self]
  · intro a ha _
    apply freed_of_ne
    intro ho
    exact ha true (hold.trans ho)
  · intro a ha
    rcases ha with ha | ha
    · cases ha
      exact ⟨⟨sp, hkept.trans hsp⟩, .inl ⟨false, has⟩⟩
    · cases ha
  · intro a _ ha
    cases ha
  · simp
  · intro old' a sp' hp
    cases hp
  · intro a sp' ha hsp'
    rcases ha with ⟨_, ha⟩ | ha
    · cases ha
      exact h.backed (b := false) (fun _ => .inr ⟨old, hnow⟩) has (hkept.symm.trans hsp')
    · cases ha
  · exact h.apart.freed rfl rfl
  · intro a sp' ha hsp'
    cases ha
    exact h.tlb ⟨has, hkept.symm.trans hsp'⟩
  · intro old' hp
    rcases hp with hp | hp <;> cases hp

theorem Inv.exit (he : Ends threadExit σ.vm () s) :
    Inv (σ.goes s .dead) ∧ Spares σ (σ.goes s .dead) := by
  rw [he.threadExit]
  refine h.steps (Change.goes (v := none) rfl ?_ ?_ ?_ ?_ ?_ ?_ ?_ rfl rfl ?_ ?_) (.inl rfl)
    fun _ _ _ => rfl
  · intro a ha _
    exact freed_of_ne (ha false)
  · intro a ha
    rcases ha with ha | ha <;> cases ha
  · intro a ha
    cases ha
  · simp
  · intro old a sp hp
    cases hp
  · intro a sp ha
    rcases ha with ⟨_, ha⟩ | ha <;> cases ha
  · exact h.apart.freed rfl rfl
  · intro a sp ha
    cases ha
  · intro old hp
    rcases hp with hp | hp <;> cases hp

/-- A thread that does not exist has nothing, and is not the one that runs. -/
theorem Inv.spawn (hchild : σ.phase child = .dead) : let σ' : System :=
    ⟨{ σ.vm with tVmspace := update σ.vm.tVmspace child none },
      update σ.phase child .kernel⟩
    Inv σ' ∧ Spares σ σ' := by
  have hidle := h.idle (.inl hchild)
  refine h.steps (Change.at (v := none) rfl ?_ ?_ ?_ ?_ ?_ ?_ ?_ ?_ ?_) (.inr hidle)
    fun _ _ _ => rfl
  · exact fun _ _ _ => rfl
  · intro a ha
    rcases ha with ha | ha <;> cases ha
  · intro a ha
    cases ha
  · simp
  · intro old a sp hp
    cases hp
  · intro a sp ha
    rcases ha with ⟨_, ha⟩ | ha <;> cases ha
  · exact h.apart.mono rfl ⟨[], rfl⟩
  · intro a sp hs
    have hsame : update σ.vm.tVmspace child none = σ.vm.tVmspace := by
      rw [← hidle, update_eq_self]
    have hcur := hs.cur
    dsimp only at hcur
    rw [hsame] at hcur
    exact h.tlb ⟨hcur, hs.space⟩
  · intro old hp
    by_cases hc : σ.vm.curthread = child
    · dsimp only at hp
      rw [hc, update_self] at hp
      rcases hp with hp | hp <;> cases hp
    · dsimp only at hp
      rw [update_of_ne hc] at hp
      exact h.empty hp

/-- Memory that some address space has is not touched by the copying. -/
theorem Inv.copied {spa : Addrspace} (hcopy : sp'.Copies sp) (hback : sp'.Backed)
    (hsep : Separate (sp'.held ++ σ.vm.granted)) (ha : σ.vm.spaces a = some spa)
    (hx : spa.Owns x.toNat) : copyMem σ.vm.mem sp sp' x = σ.vm.mem x := by
  obtain ⟨hheld, _, hcross⟩ := hsep.of_append
  apply copyMem_of_not_owns hback hheld hcopy
  intro hx'
  exact hcross _ hx' (h.apart.covered ha hx)

/-- A program that runs has memory for all of its address space. -/
theorem Inv.userBacked (hnow : σ.now = .user) (hs : σ.vm.Has as sp) : sp.Backed :=
  h.backed (b := false) (fun _ => .inl hnow) hs.cur hs.space

include has hnew in
theorem Inv.fork {copy : Addr} {attach : Bool} (hnow : σ.now = .user)
    (hchild : σ.phase child = .dead) (he : Ends (asCopy as new).run σ.vm (.ok copy) s)
    (hsep : Separate s.granted) : let σ' : System :=
      ⟨{ s with tVmspace := update s.tVmspace child (if attach then some copy else none) },
        update σ.phase child (if attach then .user else .kernel)⟩
    Inv σ' ∧ Spares σ σ' := by
  obtain ⟨sp, hsp⟩ := h.live (b := false) has
  have hback := h.userBacked hnow ⟨has, hsp⟩
  obtain ⟨rfl, ram, sp', hcopy, hback', rfl⟩ := he.copy hsp hnew hback
  have hidle := h.idle (.inl hchild)
  have hcur : σ.vm.curthread ≠ child := by
    intro hc
    rw [hc, hidle] at has
    cases has
  have hne : ∀ a spa, σ.vm.spaces a = some spa → a ≠ copy := by
    intro a spa ha hac
    rw [hac, hnew] at ha
    cases ha
  have hv : ∀ a, (if attach then some copy else none) = some a → a = copy := by
    intro a ha
    split at ha
    · exact (Option.some.inj ha).symm
    · cases ha
  have hlast : (if attach then Phase.user else Phase.kernel).old = none := by
    split <;> rfl
  refine h.steps (Change.at (v := if attach then some copy else none) rfl ?_ ?_ ?_ ?_ ?_ ?_
    ?_ ?_ ?_)
    (.inr hidle) ?_
  · intro a _ ⟨spa, ha⟩
    exact update_of_ne (hne a spa ha) _ _
  · intro a ha
    rw [hlast] at ha
    rcases ha with ha | ha
    · rw [hv a ha]
      exact ⟨⟨sp', update_self ..⟩, .inr hnew⟩
    · cases ha
  · intro a _
    rw [hlast]
    simp
  · cases attach <;> simp
  · intro old a spa hp
    cases attach <;> cases hp
  · intro a spa ha hspa
    rw [hlast] at ha
    rcases ha with ⟨_, ha⟩ | ha
    · rw [hv a ha] at hspa
      dsimp only at hspa
      rw [update_self] at hspa
      cases hspa
      exact hback'
    · cases ha
  · exact h.apart.store rfl rfl hsep
  · intro a spa hs
    obtain ⟨hsc, hss⟩ := hs
    dsimp only at hsc hss
    rw [update_of_ne hcur] at hsc
    obtain ⟨spb, hspb⟩ := h.live (b := false) hsc
    rw [update_of_ne (hne a spb hspb)] at hss
    exact h.tlb ⟨hsc, hss⟩
  · intro old hp
    dsimp only at hp
    rw [update_of_ne hcur] at hp
    exact h.empty hp
  · exact fun ha _ hx => h.copied hcopy hback' hsep ha hx

include has hnew in
theorem Inv.copyFails (he : Ends (asCopy as new).run σ.vm (.error e) s) :
    Inv { σ with vm := s } ∧ Spares σ { σ with vm := s } := by
  obtain ⟨sp, hsp⟩ := h.live (b := false) has
  obtain ⟨ram, more, rfl⟩ := he.copyFails hsp hnew
  refine h.steps (Change.same h rfl rfl ⟨more, rfl⟩ ?_ ?_) (.inl rfl) fun _ _ _ => rfl
  · exact fun a sp hs => h.tlb ⟨hs.cur, hs.space⟩
  · exact fun old hold => h.empty hold

include has hnew in
theorem Inv.forkFails {copy : Addr} (hnow : σ.now = .user)
    (he : Ends (asCopy as new).run σ.vm (.ok copy) s) (hd : Ends (asDestroy copy) s () s')
    (hsep : Separate s'.granted) : Inv { σ with vm := s' } ∧ Spares σ { σ with vm := s' } := by
  obtain ⟨sp, hsp⟩ := h.live (b := false) has
  have hback := h.userBacked hnow ⟨has, hsp⟩
  obtain ⟨rfl, ram, sp', hcopy, hback', rfl⟩ := he.copy hsp hnew hback
  have hs' := hd.destroy
  dsimp only at hs'
  rw [update_idem, ← hnew, update_eq_self] at hs'
  subst hs'
  refine h.steps (Change.same h rfl rfl ⟨sp'.held, rfl⟩ ?_ ?_) (.inl rfl) ?_
  · exact fun a sp hs => h.tlb ⟨hs.cur, hs.space⟩
  · exact fun old hold => h.empty hold
  · exact fun ha _ hx => h.copied hcopy hback' hsep ha hx

/-! ## Runs -/

/-- Nothing was done. -/
theorem Inv.enterFails (he : Ends (loadexec.enter new).run σ.vm (.error e) s) :
    Inv { σ with vm := s } ∧ Spares σ { σ with vm := s } := by
  rcases he.enter with ⟨_, rfl⟩ | ⟨hr, _⟩
  · exact ⟨h, fun _ _ _ => rfl, fun _ ha => ⟨ha, rfl⟩⟩
  · cases hr

theorem Inv.step {σ' : System} (hstep : Step σ σ') (hsep : Separate σ'.vm.granted) :
    σ'.Inv ∧ Spares σ σ' := by
  cases hstep with
  | load hp _ he => exact h.load hp he
  | store hp _ he => exact h.store hp he
  | switch _ he => exact h.switch he
  | enter hp hnew he => exact h.enter hp hnew he hsep
  | enterFails _ _ he => exact h.enterFails he
  | define hnow has he => exact h.define has hnow he hsep
  | prepare hnow has he => exact h.prepare has hnow (.inl ⟨rfl, rfl⟩) he hsep
  | prepareFails hnow has he => exact h.prepare has hnow (.inr rfl) he hsep
  | restore hnow has he => exact h.restore has hnow he
  | finish hnow has he => exact h.finish has hnow he
  | fork hnow has hnew hchild he => exact h.fork has hnew hnow hchild he hsep
  | copyFails _ has hnew he => exact h.copyFails has hnew he
  | forkFails hnow has hnew he hd => exact h.forkFails has hnew hnow he hd hsep
  | spawn hchild => exact h.spawn hchild
  | exit _ he => exact h.exit he
  | pages he => exact h.pages he

end

/-- A run in which `ram_stealmem` hands out no byte twice. -/
inductive Run : System → System → Prop where
  | refl (σ : System) : Run σ σ
  | tail {σ σ' σ'' : System} : Run σ σ' → Step σ' σ'' → Separate σ''.vm.granted → Run σ σ''

theorem Booted.inv (h : σ.Booted) : σ.Inv := by
  have hown : ∀ t b, σ.own t b = none := by
    intro t b
    cases b with
    | false => exact h.vmspace t
    | true =>
      show (σ.phase t).old = none
      rcases h.phase t with hp | hp <;> rw [hp] <;> rfl
  constructor
  · constructor
    · intro a sp x hsp
      rw [h.spaces a] at hsp
      cases hsp
    · intro a a' sp sp' x hsp
      rw [h.spaces a] at hsp
      cases hsp
    · intro a sp hsp
      rw [h.spaces a] at hsp
      cases hsp
  · intro t b a ha
    rw [hown] at ha
    cases ha
  · intro t b t' b' a ha
    rw [hown] at ha
    cases ha
  · intro t _
    exact h.vmspace t
  · intro t hd hk
    rcases h.phase t with hp | hp
    · exact absurd hp hk
    · exact absurd hp hd
  · intro t old a sp _ ha
    rw [h.vmspace t] at ha
    cases ha
  · intro t b a sp _ ha
    rw [hown] at ha
    cases ha
  · intro a sp hs
    have hcur := hs.cur
    rw [h.vmspace] at hcur
    cases hcur
  · intro old hp
    rcases h.phase σ.vm.curthread with hk | hk
    · simp [now, hk] at hp
    · simp [now, hk] at hp

theorem Run.inv {σ₀ : System} (h₀ : σ₀.Booted) (hrun : Run σ₀ σ) : σ.Inv := by
  induction hrun with
  | refl => exact h₀.inv
  | tail _ hstep hsep ih => exact (ih.step hstep hsep).1

/-! ## Isolation -/

/-- What a program can see and change while it runs. -/
structure Isolated (σ : System) : Prop where
  /-- A valid line maps a page of the thread's own address space to the frame that
  `vm_fault` computes for it, and no other address space has a byte of that frame. -/
  line : σ.now = .user → ∃ as sp, σ.vm.Has as sp ∧ ∀ i, (σ.vm.tlb i).Valid →
    ∃ page pa, sp.frame page = some pa ∧ σ.vm.tlb i = entry page pa ∧ ∀ off < 4096,
      sp.Owns (pa.toNat + off) ∧ ∀ as' sp', σ.vm.spaces as' = some sp' →
        sp'.Owns (pa.toNat + off) → as' = as
  /-- No two valid lines have the same page. -/
  once : σ.now = .user → ∀ i j, (σ.vm.tlb i).Valid → (σ.vm.tlb j).Valid →
    (σ.vm.tlb i).ehi = (σ.vm.tlb j).ehi → i = j
  /-- Address spaces are not shared. -/
  alone : ∀ t t' as, σ.vm.tVmspace t = some as → σ.vm.tVmspace t' = some as → t = t'
  /-- What a program reads is the byte of its address space. -/
  reads : ∀ as sp va b s, σ.now = .user → σ.vm.Has as sp →
    Ends (user.load va).run σ.vm (.ok b) s → σ.vm.byte sp va = some b
  /-- Whatever the current thread does, no byte of another address space changes,
  and no other thread's address space becomes another. -/
  step : ∀ σ', Step σ σ' → Separate σ'.vm.granted →
    (∀ as sp va, σ.vm.spaces as = some sp → sp.Backed →
      σ.vm.tVmspace σ.vm.curthread ≠ some as → σ'.vm.byte sp va = σ.vm.byte sp va) ∧
    ∀ t as, t ≠ σ.vm.curthread → σ.vm.tVmspace t = some as →
      σ'.vm.tVmspace t = some as ∧ σ'.vm.spaces as = σ.vm.spaces as
  /-- A copy is another address space with the same regions and the same bytes. -/
  copy : ∀ as new copy s, σ.now = .user → σ.vm.tVmspace σ.vm.curthread = some as →
    σ.vm.spaces new = none → Ends (asCopy as new).run σ.vm (.ok copy) s → Separate s.granted →
    copy ≠ as ∧ ∃ sp sp', σ.vm.spaces as = some sp ∧ s.spaces as = some sp ∧
      s.spaces copy = some sp' ∧ sp.Backed ∧ sp'.Backed ∧ sp'.Copies sp ∧
      ∀ va, s.byte sp' va = σ.vm.byte sp va ∧ s.byte sp va = σ.vm.byte sp va

/-- Memory that is not touched is read as before. -/
theorem byte_eq (hback : sp.Backed) (hsep : Separate sp.held)
    (hmem : ∀ x : Word, sp.Owns x.toNat → s'.mem x = s.mem x) (va : Word) :
    s'.byte sp va = s.byte sp va := by
  unfold State.byte
  cases hx : sp.byteAddr va with
  | none => rfl
  | some x =>
    rw [Option.map_some, Option.map_some, hmem x (hback.byteAddr_owned hsep hx)]

theorem Inv.line (h : σ.Inv) (hnow : σ.now = .user) : ∃ as sp, σ.vm.Has as sp ∧
    ∀ i, (σ.vm.tlb i).Valid → ∃ page pa, sp.frame page = some pa ∧ σ.vm.tlb i = entry page pa ∧
      ∀ off < 4096, sp.Owns (pa.toNat + off) ∧ ∀ as' sp', σ.vm.spaces as' = some sp' →
        sp'.Owns (pa.toNat + off) → as' = as := by
  obtain ⟨as, sp, hs⟩ := Touches.has h (.inl hnow)
  refine ⟨as, sp, hs, ?_⟩
  intro i hi
  obtain ⟨hready, page, pa, hpage, hframe, hentry⟩ := (h.tlb hs).line i hi
  refine ⟨page, pa, hframe, hentry, ?_⟩
  intro off hoff
  have hown := hready.backed.frame_owned (h.apart.held hs.space) hpage hframe hoff
  exact ⟨hown, fun as' sp' has' hown' => h.apart.apart has' hs.space hown' hown⟩

theorem Inv.copy {copy : Addr} (h : σ.Inv) (hnow : σ.now = .user)
    (has : σ.vm.tVmspace σ.vm.curthread = some as)
    (hnew : σ.vm.spaces new = none) (he : Ends (asCopy as new).run σ.vm (.ok copy) s)
    (hsep : Separate s.granted) :
    copy ≠ as ∧ ∃ sp sp', σ.vm.spaces as = some sp ∧ s.spaces as = some sp ∧
      s.spaces copy = some sp' ∧ sp.Backed ∧ sp'.Backed ∧ sp'.Copies sp ∧
      ∀ va, s.byte sp' va = σ.vm.byte sp va ∧ s.byte sp va = σ.vm.byte sp va := by
  obtain ⟨sp, hsp⟩ := h.live (b := false) has
  have hback := h.userBacked hnow ⟨has, hsp⟩
  obtain ⟨rfl, ram, sp', hcopy, hback', rfl⟩ := he.copy hsp hnew hback
  have hne : copy ≠ as := by
    intro hc
    rw [← hc, hnew] at hsp
    cases hsp
  obtain ⟨hheld, _, hcross⟩ := hsep.of_append
  have hapart : ∀ x, sp.Owns x → ¬ sp'.Owns x := by
    intro x hx hx'
    exact hcross x hx' (h.apart.covered hsp hx)
  refine ⟨hne, sp, sp', hsp, ?_, update_self .., hback, hback', hcopy, ?_⟩
  · exact (update_of_ne hne.symm _ _).trans hsp
  · intro va
    constructor
    · exact copy_bytes hback hback' (h.apart.held hsp) hheld hcopy hapart va
    · apply byte_eq hback (h.apart.held hsp)
      exact fun x hx => h.copied hcopy hback' hsep hsp hx

/-- Processes are isolated from each other, however they run. -/
theorem address_spaces_isolated {σ₀ σ : System} (h₀ : σ₀.Booted) (hrun : Run σ₀ σ) :
    σ.Isolated := by
  have h := hrun.inv h₀
  constructor
  · exact h.line
  · intro hnow
    obtain ⟨as, sp, hs⟩ := Touches.has h (.inl hnow)
    exact (h.tlb hs).once
  · intro t t' as ht ht'
    have hown : σ.own t' false = some as := ht'
    exact (h.inj (b := false) ht hown).1
  · intro as sp va b s hnow hs he
    exact (he.load hs (h.tlb hs)).2 b rfl
  · intro σ' hstep hsep
    have hspare := (h.step hstep hsep).2
    constructor
    · intro as sp va hsp hback hcur
      apply byte_eq hback (h.apart.held hsp)
      exact fun x hx => hspare.mem hsp hcur hx
    · exact fun t as ht has => hspare.others ht has
  · intro as new copy s hnow has hnew he hsep
    exact h.copy hnow has hnew he hsep

/-! A program that was loaded and has stored one byte. -/

def bootState : State where
  ram := smallRam
  granted := []
  mem _ := 0
  tlb := TlbEntry.invalid
  spaces _ := none
  tVmspace _ := none
  curthread := 1
  curspl := 0

def bootSystem : System := ⟨bootState, update (fun _ => .dead) 1 .kernel⟩

theorem bootSystem_booted : bootSystem.Booted where
  phase t := by
    unfold bootSystem
    by_cases ht : t = 1
    · simp [ht]
    · simp [update_of_ne ht]
  vmspace _ := rfl
  spaces _ := rfl

/-- The state a program leaves when the allocator refuses nothing. -/
def after {α : Type} (σ : System) (p : VProg α) : State := (p.run ⟨σ.vm, fun a => a.elim, {}⟩).2.mem

theorem ends_after {α : Type} {p : VProg α} {x : α}
    (h : (p.run ⟨σ.vm, fun a => a.elim, {}⟩).1 = .done x) : Ends p σ.vm x (after σ p) :=
  ⟨_, _, rfl, rfl, Prod.ext h rfl⟩

def entered : System := bootSystem.goes (after bootSystem (loadexec.enter 7).run) (.defining none)

def withText : System := { entered with vm := after entered (asDefineRegion 7 0x400000 4).run }

def withData : System := { withText with vm := after withText (asDefineRegion 7 0x500000 4).run }

def prepared : System := withData.goes (after withData (asPrepareLoad 7).run) (.loading none)

def running : System := prepared.goes (after prepared (loadexec.finish none 7).run) .user

def oneStore : System := { running with vm := after running (user.store 0x500000 5).run }

theorem separate_of_granted :
    Separate [] ∧ Separate [(0x42000, 12), (0x41000, 1), (0x40000, 1)] := by
  refine ⟨⟨by simp, .nil⟩, by simp, ?_⟩
  simp only [List.pairwise_cons, List.forall_mem_cons, List.not_mem_nil, false_implies,
    implies_true, and_true, List.Pairwise.nil]
  refine ⟨⟨?_, ?_⟩, ?_⟩ <;>
  · apply Set.disjoint_left.2
    intro x hx hx'
    simp [span] at hx hx'
    omega

theorem oneStore_run : Run bootSystem oneStore := by
  obtain ⟨hnil, hall⟩ := separate_of_granted
  have h1 : Run bootSystem entered :=
    .tail (.refl _) (.enter (.inr rfl) rfl (ends_after rfl)) hnil
  have h2 : Run bootSystem withText := .tail h1 (.define rfl rfl (ends_after rfl)) hnil
  have h3 : Run bootSystem withData := .tail h2 (.define rfl rfl (ends_after rfl)) hnil
  have h4 : Run bootSystem prepared := .tail h3 (.prepare rfl rfl (ends_after rfl)) hall
  have h5 : Run bootSystem running := .tail h4 (.finish rfl rfl (ends_after rfl)) hall
  exact .tail h5 (.store (.inl rfl) (by decide) (ends_after rfl)) hall

theorem address_spaces_isolated_store :
    oneStore.now = .user ∧ (oneStore.vm.tlb ⟨0, by decide⟩).Valid ∧ oneStore.Isolated :=
  ⟨rfl, by decide, address_spaces_isolated bootSystem_booted oneStore_run⟩

end System

end Os161.Vm
