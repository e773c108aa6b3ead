import Os161.Proofs.Refs
import Os161.Userprog.Loadexec

/-!
# `loadexec` is all or nothing

Whatever fails, and wherever, a thread that comes back from `loadexec` with an error has
its old address space, its old name, and nothing in hand: the file is closed, and the new
address space, if there was one, has been destroyed after the old one was activated.
Without an error it is the old one that has been destroyed.
-/

namespace Os161.Userprog

open Os161.Kern Os161.Lib Os161.Vfs Function

variable {σ : Type} {s s0 : ExecState σ} {O : Ops σ} {L : Loader σ}
  {kept opened held : List Vnode} {new : Addr} {path : CString}

def ExecState.machine (s : ExecState σ) (script : Script Empty) :
    Machine (ExecState σ) Empty Unit Empty :=
  ⟨s, fun _ => (), script⟩

/-- The thread is as it was. -/
structure Undone (s : ExecState σ) (new : Addr) (s' : ExecState σ) : Prop where
  tVmspace : s'.vm.tVmspace = s.vm.tVmspace
  tName : s'.tName = s.tName
  spaces : s'.vm.spaces = s.vm.spaces
  calls : s'.calls = s.calls ∨
    s'.calls = s.calls ++
      [.create new, .activate (some new), .activate s.vmspace, .destroy new]

/-- The thread has the new address space and the new name. -/
structure Replaced (s : ExecState σ) (new : Addr) (newname : CString) (s' : ExecState σ) :
    Prop where
  tVmspace : s'.vm.tVmspace = update s.vm.tVmspace s.vm.curthread (some new)
  tName : s'.tName = update s.tName s.vm.curthread newname
  spaces : ∀ a, a ≠ new → s'.vm.spaces a = if s.vmspace = some a then none else s.vm.spaces a
  calls : s'.calls = s.calls ++
    ([.create new, .activate (some new)] ++ s.vmspace.toList.map .destroy)

/-- What is to hold when `loadexec` returns. -/
def Exec (s : ExecState σ) (new : Addr) (path : CString) (r : Except Errno (Vm.Word × Vm.Word))
    (s' : ExecState σ) : Prop :=
  SameCounts s.vfs.vnodes s'.vfs.vnodes ∧
    match r with
    | .error _ => Undone s new s'
    | .ok _ => Replaced s new path s'

/-- The allocator may refuse; nothing else may go wrong. -/
def execTerms : Terms ExecPanic := ⟨fun _ => False, True, True⟩

theorem Terms.none_le_exec : Terms.none.Le (execTerms.zoom .vfs) where
  fails _ hf := hf
  asks _ := trivial
  refuses _ := trivial

theorem awp_inVfs {α : Type} {p : Vfs.VProg σ α} {Q : α → ExecState σ → Prop}
    (h : awp Terms.none p (fun x v => Q x { s with vfs := v }) s.vfs) :
    awp execTerms (inVfs p) Q s :=
  awp_zoom.2 (awp_terms Terms.none_le_exec h)

/-- The state after `as_activate`. -/
def ExecState.activated (s : ExecState σ) (as : Option Addr) : ExecState σ :=
  { s with
    vm := { s.vm with
      tVmspace := update s.vm.tVmspace s.vm.curthread as
      tlb := Vm.TlbEntry.invalid }
    calls := s.calls ++ [.activate as] }

/-- The state after `as_destroy`. -/
def ExecState.destroyed (s : ExecState σ) (as : Addr) : ExecState σ :=
  { s with
    vm := { s.vm with spaces := update s.vm.spaces as none }
    calls := s.calls ++ [.destroy as] }

theorem awp_vmActivate {t : Terms Vm.Panic} {vm : Vm.State} {Q : Unit → Vm.State → Prop}
    (hQ : Q () { vm with tlb := Vm.TlbEntry.invalid }) : awp t Vm.asActivate Q vm := by
  refine awp_bind.2 (awp_bind.2 ?_)
  rw [awp_mem]
  refine awp_bind.2 ?_
  rw [awp_put]
  refine (awp_ret _).2 (awp_bind.2 ?_)
  rw [awp_modify, Vm.splx, awp_modify]
  exact hQ

variable {Q : Unit → ExecState σ → Prop} {t : Terms ExecPanic} {as a : Addr} {s' : ExecState σ}

theorem awp_switchVmspace {as : Option Addr} (hQ : Q () (s.activated as)) :
    awp t (switchVmspace as) Q s := by
  refine awp_bind.2 (awp_zoom.2 ?_)
  rw [Vm.setVmspace, awp_modify]
  refine awp_bind.2 (awp_zoom.2 (awp_vmActivate ?_))
  rw [noteCall, awp_modify]
  dsimp only [ExecState.vmPart, ExecState.activated] at hQ ⊢
  exact hQ

theorem awp_asDestroy (hQ : Q () (s.destroyed as)) : awp t (asDestroy as) Q s := by
  refine awp_bind.2 (awp_zoom.2 ?_)
  rw [Vm.asDestroy, awp_modify, noteCall, awp_modify]
  dsimp only [ExecState.vmPart, ExecState.destroyed] at hQ ⊢
  exact hQ

theorem awp_asCreate {Q : Option Addr → ExecState σ → Prop}
    (hok : Q (some new) { s with
        vm := { s.vm with spaces := update s.vm.spaces new (some .zero) }
        calls := s.calls ++ [.create new] })
    (hno : Q none s) : awp execTerms (asCreate new) Q s := by
  refine awp_bind.2 (awp_zoom.2 (awp_bind.2 (awp_kmalloc.2 ⟨trivial, ?_, fun _ => ?_⟩)))
  · rw [if_pos rfl]
    exact hok
  · rw [if_neg (by decide)]
    exact hno

variable {v : Vnode} {Q : Except Errno Vm.Word → ExecState σ → Prop}

theorem awp_loadElf (hQ : Q (L.loadElf v as (s.vm, s.vfs.vnodes)).1 { s with
        vm := (L.loadElf v as (s.vm, s.vfs.vnodes)).2.1
        vfs := { s.vfs with vnodes := (L.loadElf v as (s.vm, s.vfs.vnodes)).2.2 } }) :
    awp t (loadElf L v as) Q s :=
  awp_bind.2 (awp_bind.2 hQ)

theorem awp_asDefineStack
    (hQ : Q (L.asDefineStack as s.vm).1 { s with vm := (L.asDefineStack as s.vm).2 }) :
    awp t (asDefineStack L as) Q s :=
  awp_bind.2 (awp_bind.2 hQ)

/-- Between `as_create` and the return: the new address space is in place, and the VFS
layer's state is some other. -/
structure Switched (s : ExecState σ) (new : Addr) (s' : ExecState σ) : Prop where
  tVmspace : s'.vm.tVmspace = update s.vm.tVmspace s.vm.curthread (some new)
  curthread : s'.vm.curthread = s.vm.curthread
  tName : s'.tName = s.tName
  spaces : ∀ a, a ≠ new → s'.vm.spaces a = s.vm.spaces a
  calls : s'.calls = s.calls ++ [.create new, .activate (some new)]

namespace Switched

theorem vfs (h : Switched s0 new s) (v : Vfs.State σ) : Switched s0 new { s with vfs := v } :=
  ⟨h.tVmspace, h.curthread, h.tName, h.spaces, h.calls⟩

theorem onlySpace (h : Switched s0 new s) {vm : Vm.State} (hvm : OnlySpace new s.vm vm) :
    Switched s0 new { s with vm := vm } where
  tVmspace := hvm.tVmspace.trans h.tVmspace
  curthread := hvm.curthread.trans h.curthread
  tName := h.tName
  spaces a ha := (hvm.spaces a ha).trans (h.spaces a ha)
  calls := h.calls

theorem undo (h : Switched s0 new s) (hnew : s0.vm.spaces new = none)
    (hsame : SameCounts s0.vfs.vnodes s.vfs.vnodes) (e : Errno) :
    awpE execTerms (loadexec.undo s0.vmspace new e) (Exec s0 new path) s := by
  refine awpE_call_bind.2 (awp_switchVmspace (awpE_call_bind.2 (awp_asDestroy ?_)))
  dsimp only [ExecState.destroyed, ExecState.activated]
  refine ⟨hsame, ⟨?_, h.tName, ?_, .inr ?_⟩⟩
  · show update s.vm.tVmspace s.vm.curthread _ = _
    rw [h.tVmspace, h.curthread, update_idem]
    exact update_eq_self ..
  · show update s.vm.spaces new none = _
    funext a
    by_cases ha : a = new
    · rw [ha, update_self, hnew]
    · rw [update_of_ne ha, h.spaces a ha]
  · show s.calls ++ [_] ++ [_] = _
    rw [h.calls]
    simp only [List.append_assoc, List.cons_append, List.nil_append]

theorem commit (h : Switched s0 new s) (hsame : SameCounts s0.vfs.vnodes s.vfs.vnodes)
    (entrypoint stackptr : Vm.Word) : awp execTerms (loadexec.commit s0.vmspace path)
      (fun _ => Exec s0 new path (.ok (entrypoint, stackptr))) s := by
  cases hold : s0.vmspace with
  | none =>
    refine ⟨hsame, ⟨h.tVmspace, ?_, fun a ha => ?_, ?_⟩⟩
    · show update s.tName s.vm.curthread path = _
      rw [h.tName, h.curthread]
    · rw [hold, if_neg (by simp)]
      exact h.spaces a ha
    · rw [hold]
      exact h.calls
  | some old =>
    refine awp_bind.2 (awp_asDestroy ?_)
    rw [awp_modify]
    dsimp only [ExecState.destroyed]
    refine ⟨hsame, ⟨h.tVmspace, ?_, fun a ha => ?_, ?_⟩⟩
    · show update s.tName s.vm.curthread path = _
      rw [h.tName, h.curthread]
    · show update s.vm.spaces old none a = _
      rw [hold]
      by_cases hao : a = old
      · rw [hao, update_self, if_pos rfl]
      · rw [update_of_ne hao, h.spaces a ha, if_neg]
        intro heq
        exact hao (Option.some.inj heq).symm
    · show s.calls ++ [_] = _
      rw [hold, h.calls]
      simp only [List.append_assoc, List.cons_append, List.nil_append, Option.toList_some,
        List.map_cons, List.map_nil]

theorem close (hO : O.Accounts) (h : Switched s0 new s)
    (hvfs : Vfs.Sound kept s0.vfs opened held) {n : Vnodes σ} (hs : s.vfs = s0.vfs.withVnodes n)
    (hn : Vfs.Sound kept (s0.vfs.withVnodes n) (v :: opened) held) :
    awp execTerms (inVfs (vfsClose O v))
      (fun _ s' => Switched s0 new s' ∧ SameCounts s0.vfs.vnodes s'.vfs.vnodes) s := by
  refine awp_inVfs ?_
  rw [hs]
  refine awp_mono (awp_vfsClose hO hn) ?_
  rintro _ _ ⟨n', rfl, hn'⟩
  exact ⟨h.vfs _, hvfs.same_of hn'⟩

/-- `loadexec` from where the new address space is in place. -/
theorem load (hO : O.Accounts) (h : Switched s0 new s) (hnew : s0.vm.spaces new = none)
    (hvfs : Vfs.Sound kept s0.vfs opened held) {n : Vnodes σ} (hs : s.vfs = s0.vfs.withVnodes n)
    (hn : Vfs.Sound kept (s0.vfs.withVnodes n) (v :: opened) held) :
    awpE execTerms (loadexec.load O L v s0.vmspace new path) (Exec s0 new path) s := by
  refine awpE_call_bind.2 (awp_loadElf ?_)
  -- the file has been read, and its counts are the same
  have hload := (h.onlySpace (L.load_space v new s.vm s.vfs.vnodes)).vfs
    { s.vfs with vnodes := (L.loadElf v new (s.vm, s.vfs.vnodes)).2.2 }
  have hvnodes : SameCounts n (L.loadElf v new (s.vm, s.vfs.vnodes)).2.2 := by
    have hvn : s.vfs.vnodes = n := by rw [hs]; rfl
    rw [hvn]
    exact ⟨L.load_refcount v new s.vm n, L.load_opencount v new s.vm n⟩
  have hclose := hload.close hO hvfs (by dsimp only; rw [hs]; rfl) (hn.same hvnodes)
  generalize (L.loadElf v new (s.vm, s.vfs.vnodes)).1 = r at *
  cases r with
  | error e =>
    refine awpE_call_bind.2 (awp_mono hclose ?_)
    rintro _ s1 ⟨h1, hsame⟩
    exact h1.undo hnew hsame e
  | ok entrypoint =>
    refine awpE_call_bind.2 (awp_mono hclose ?_)
    rintro _ s1 ⟨h1, hsame⟩
    refine awpE_call_bind.2 (awp_asDefineStack ?_)
    have h2 := h1.onlySpace (L.stack_space new s1.vm)
    generalize (L.asDefineStack new s1.vm).1 = r at *
    cases r with
    | error e => exact h2.undo hnew hsame e
    | ok stackptr => exact awpE_call_bind.2 (h2.commit hsame entrypoint stackptr)

end Switched

theorem awpE_loadexec (hO : O.Accounts) (h : Vfs.Sound kept s.vfs opened held)
    (hnew : s.vm.spaces new = none) (L : Loader σ) (path : CString) :
    awpE execTerms (loadexec O L new path) (Exec s new path) s := by
  refine awpE_call_bind.2 (awp_kmalloc.2 ⟨trivial, ?_, fun _ => ?_⟩)
  · rw [if_pos rfl]
    refine awpE_call_bind.2 (awp_inVfs (awpE_vfsOpen hO h _ _ (fun v n hn => ?_) fun e n hn => ?_))
    · refine awpE_call_bind.2 (awp_asCreate ?_ ?_)
      · refine awpE_call_bind.2 ?_
        rw [awp_mem]
        refine awpE_call_bind.2 (awp_switchVmspace ?_)
        dsimp only [ExecState.activated]
        refine Switched.load hO ?_ hnew h rfl hn
        exact ⟨rfl, rfl, rfl, fun a ha => update_of_ne ha .., List.append_assoc ..⟩
      · refine awpE_call_bind.2 (awp_inVfs (awp_mono (awp_vfsClose hO hn) ?_))
        rintro _ _ ⟨n', rfl, hn'⟩
        exact ⟨h.same_of hn', rfl, rfl, rfl, .inl rfl⟩
    · exact ⟨h.same_of hn, rfl, rfl, rfl, .inl rfl⟩
  · rw [if_neg (by decide)]
    exact ⟨⟨rfl, rfl⟩, rfl, rfl, rfl, .inl rfl⟩

/-- How often `as_destroy` has been called on an address space. -/
def ExecState.destructions (s : ExecState σ) (as : Addr) : Nat := s.calls.count (.destroy as)

theorem Undone.destructions (h : Undone s new s') (ha : a ≠ new) :
    s'.destructions a = s.destructions a := by
  have hne : AsCall.destroy new ≠ .destroy a := fun he => ha (AsCall.destroy.inj he).symm
  rw [ExecState.destructions, ExecState.destructions]
  rcases h.calls with hc | hc
  · rw [hc]
  · rw [hc, List.count_append]
    simp [hne]

theorem Replaced.destructions (h : Replaced s new path s') (ha : s.vmspace = some a) :
    s'.destructions a = s.destructions a + 1 := by
  rw [ExecState.destructions, h.calls, ha, ExecState.destructions, List.count_append]
  simp

/-- `loadexec` is all or nothing. If it returns an error the thread is as it was, and its
old address space has not been destroyed; otherwise that has been destroyed, once. -/
theorem loadexec_all_or_nothing (hO : O.Accounts) (h : Vfs.Sound kept s.vfs opened held)
    (hnew : s.vm.spaces new = none) (hold : ∀ a, s.vmspace = some a → s.vm.spaces a ≠ none)
    (L : Loader σ) (path : CString) (script : Script Empty) :
    ∃ r m, (loadexec O L new path).run.run (s.machine script) = (.done r, m) ∧
      Exec s new path r m.mem ∧
      ∀ a, s.vmspace = some a →
        m.mem.destructions a = s.destructions a + if r.toBool then 1 else 0 := by
  obtain ⟨r, m, hrun, hex⟩ := awp_run_done (s := s.machine script) (fun _ hf => hf)
    (fun _ => trivial) (awpE_loadexec hO h hnew L path)
  refine ⟨r, m, hrun, hex, fun a ha => ?_⟩
  cases r with
  | error e =>
    refine Undone.destructions hex.2 ?_
    rintro rfl
    exact hold _ ha hnew
  | ok x => exact Replaced.destructions hex.2 ha

/-! ### A thread with a program -/

/-- A loader that has nothing to do. -/
def emptyLoader : Loader Unit where
  loadElf _ _ x := (.ok 0, x)
  asDefineStack _ s := (.ok 0, s)
  load_space _ _ _ _ := ⟨rfl, rfl, fun _ _ => rfl⟩
  load_refcount _ _ _ _ := rfl
  load_opencount _ _ _ _ := rfl
  stack_space _ _ := ⟨rfl, rfl, fun _ _ => rfl⟩

/-- Thread 0 has address space 1. -/
def oneProgram : ExecState Unit where
  vfs := oneDev
  vm :=
    { ram := ⟨0, 0⟩
      granted := []
      mem := fun _ => 0
      tlb := Vm.TlbEntry.invalid
      spaces := fun a => if a = 1 then some .zero else none
      tVmspace := fun t => if t = 0 then some 1 else none
      curthread := 0
      curspl := 0 }
  tName := fun _ => lhd0
  calls := []

/-- The program gives way to another one. -/
theorem loadexec_next_program :
    ∃ r m, (loadexec (rootOnly fun _ => none) emptyLoader 2 (lhd0.strcat colonString)).run.run
        (oneProgram.machine {}) = (.done r, m) ∧
      Exec oneProgram 2 (lhd0.strcat colonString) r m.mem ∧
      ∀ a, oneProgram.vmspace = some a →
        m.mem.destructions a = oneProgram.destructions a + if r.toBool then 1 else 0 :=
  loadexec_all_or_nothing (rootOnly_accounts _) oneDev_sound rfl
    (fun _ ha => by cases ha; decide) emptyLoader _ {}

end Os161.Userprog
