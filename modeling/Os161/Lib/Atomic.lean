import Os161.Lib.Prog

/-!
# Sections that keep the processor

With interrupts off a thread neither waits for a device nor is it taken off the
processor, and nobody else sees the memory before the section is over. `awp`
is the weakest precondition for such a section: there is only the memory to
talk about, and a transfer is out of the question.

The terms `t` say which panics are tolerated, whether the section may ask the
allocator at all, and whether the allocator may refuse. A section that holds to
its postcondition under terms that forbid asking leaves the allocator alone
(`awp_run_script`).
-/

namespace Os161.Lib

variable {M A B E F X Y : Type}

structure Terms (F : Type) where
  fails : F → Prop
  asks : Prop
  refuses : Prop

def awp (t : Terms F) : Prog M A B E F X → (X → M → Prop) → M → Prop
  | .ret x, Q, m => Q x m
  | .fail f, _, _ => t.fails f
  | .get k, Q, m => awp t (k m) Q m
  | .set m k, Q, _ => awp t k Q m
  | .malloc k, Q, m => t.asks ∧ awp t (k true) Q m ∧ (t.refuses → awp t (k false) Q m)
  | .rd _ _, _, _ => False
  | .wr _ _ _, _, _ => False

/-! ## Rules -/

section
variable {t : Terms F} {m : M} {Q : X → M → Prop}

@[simp] theorem awp_ret (x : X) : awp t (.ret x : Prog M A B E F X) Q m ↔ Q x m := Iff.rfl

@[simp] theorem awp_pure (x : X) : awp t (pure x : Prog M A B E F X) Q m ↔ Q x m := Iff.rfl

@[simp] theorem awp_mem {Q : M → M → Prop} :
    awp t (Prog.mem : Prog M A B E F M) Q m ↔ Q m m := Iff.rfl

@[simp] theorem awp_put {Q : Unit → M → Prop} (m' : M) :
    awp t (Prog.put m' : Prog M A B E F Unit) Q m ↔ Q () m' := Iff.rfl

@[simp] theorem awp_modify {Q : Unit → M → Prop} (f : M → M) :
    awp t (Prog.modify f : Prog M A B E F Unit) Q m ↔ Q () (f m) := Iff.rfl

@[simp] theorem awp_kmalloc {Q : Bool → M → Prop} :
    awp t (Prog.kmalloc : Prog M A B E F Bool) Q m ↔
      t.asks ∧ Q true m ∧ (t.refuses → Q false m) := Iff.rfl

variable {p : Prog M A B E F X} {f : X → Prog M A B E F Y} {Q' : X → M → Prop} {P : Prop}

theorem awp_bind {Q : Y → M → Prop} :
    awp t (p >>= f) Q m ↔ awp t p (fun x m' => awp t (f x) Q m') m := by
  show awp t (p.bind f) Q m ↔ _
  induction p generalizing m with
  | ret x => exact Iff.rfl
  | fail e => exact Iff.rfl
  | get k ih => exact ih _
  | set m k ih => exact ih
  | malloc k ih => exact and_congr_right' (and_congr (ih _) (imp_congr_right fun _ => ih _))
  | rd a k ih => exact Iff.rfl
  | wr a src k ih => exact Iff.rfl

theorem awp_mono (h : awp t p Q m) (hQ : ∀ x m', Q x m' → Q' x m') : awp t p Q' m := by
  induction p generalizing m with
  | ret x => exact hQ _ _ h
  | fail e => exact h
  | get k ih => exact ih _ h
  | set m k ih => exact ih h
  | malloc k ih => exact ⟨h.1, ih _ h.2.1, fun hr => ih _ (h.2.2 hr)⟩
  | rd a k ih => exact h
  | wr a src k ih => exact h

/-- Two things that hold in the end hold together; the second may be known on any
terms under which the allocator refuses as often. -/
theorem awp_and {t' : Terms F} (h : awp t p Q m) (h' : awp t' p Q' m)
    (hr : t.refuses → t'.refuses) : awp t p (fun x m' => Q x m' ∧ Q' x m') m := by
  induction p generalizing m with
  | ret x => exact ⟨h, h'⟩
  | fail e => exact h
  | get k ih => exact ih _ h h'
  | set m k ih => exact ih h h'
  | malloc k ih => exact ⟨h.1, ih _ h.2.1 h'.2.1, fun hf => ih _ (h.2.2 hf) (h'.2.2 (hr hf))⟩
  | rd a k ih => exact h
  | wr a src k ih => exact h

/-- Where every panic is tolerated and there is no device, a program cannot go
wrong. -/
theorem awp_true (hf : ∀ f, t.fails f) (ha : t.asks) (p : Prog M Empty B E F X) :
    awp t p (fun _ _ => True) m := by
  induction p generalizing m with
  | ret x => trivial
  | fail e => exact hf e
  | get k ih => exact ih _
  | set m k ih => exact ih
  | malloc k ih => exact ⟨ha, ih _, fun _ => ih _⟩
  | rd a k ih => exact a.elim
  | wr a src k ih => exact a.elim

/-- Sequencing, with the first program's result weakened to what the second
one needs. -/
theorem awp_bind_of {R : X → M → Prop} {Q : Y → M → Prop} (hp : awp t p R m)
    (hf : ∀ x m', R x m' → awp t (f x) Q m') : awp t (p >>= f) Q m :=
  awp_bind.2 (awp_mono hp hf)

theorem awp_assert [Decidable P] {f : F} {Q : Unit → M → Prop} :
    awp t (Prog.assert P f : Prog M A B E F Unit) Q m ↔ (P → Q () m) ∧ (¬ P → t.fails f) := by
  rw [Prog.assert]
  split
  · next h => exact ⟨fun hq => ⟨fun _ => hq, fun hn => absurd h hn⟩, fun hq => hq.1 h⟩
  · next h => exact ⟨fun hq => ⟨fun hp => absurd hp h, fun _ => hq⟩, fun hq => hq.2 h⟩

/-- A panic that is tolerated makes the assertion free. -/
theorem awp_assert_of [Decidable P] {f : F} {Q : Unit → M → Prop} (hf : t.fails f)
    (hQ : P → Q () m) : awp t (Prog.assert P f : Prog M A B E F Unit) Q m :=
  awp_assert.2 ⟨hQ, fun _ => hf⟩

end

/-! ## Routines that return an error code -/

section
variable {t : Terms F} {m : M} {R : Type} {Q : Except R X → M → Prop}

/-- `awp` for a routine that hands errors on to its caller. -/
def awpE (t : Terms F) (p : ExceptT R (Prog M A B E F) X) (Q : Except R X → M → Prop)
    (m : M) : Prop :=
  awp t p.run Q m

variable {p : ExceptT R (Prog M A B E F) X} {f : X → ExceptT R (Prog M A B E F) Y}

theorem awp_run_iff : awp t p.run Q m ↔ awpE t p Q m := Iff.rfl

@[simp] theorem awpE_pure (x : X) :
    awpE t (pure x : ExceptT R (Prog M A B E F) X) Q m ↔ Q (.ok x) m := Iff.rfl

@[simp] theorem awpE_throw (e : R) :
    awpE t (throw e : ExceptT R (Prog M A B E F) X) Q m ↔ Q (.error e) m := Iff.rfl

theorem awpE_call {p : Prog M A B E F X} : awpE t (call p : ExceptT R (Prog M A B E F) X) Q m ↔
      awp t p (fun x m' => Q (.ok x) m') m := by
  show awp t (Prog.bind p fun x => .ret (.ok x)) Q m ↔ _
  exact awp_bind (p := p) (f := fun x => .ret (Except.ok x))

theorem awpE_mono {Q' : Except R X → M → Prop} (h : awpE t p Q m) (hQ : ∀ r m', Q r m' → Q' r m') :
    awpE t p Q' m :=
  awp_mono h hQ

theorem awpE_bind {Q : Except R Y → M → Prop} :
    awpE t (p >>= f) Q m ↔
      awpE t p (fun r m' => match r with
        | .ok x => awpE t (f x) Q m' | .error e => Q (.error e) m') m := by
  show awp t (p.run >>= ExceptT.bindCont f) Q m ↔ awp t p.run _ m
  rw [awp_bind]
  constructor <;> intro h <;> refine awp_mono h fun r m' hr => ?_ <;> cases r <;> exact hr

theorem awpE_call_bind {p : Prog M A B E F X} {Q : Except R Y → M → Prop} :
    awpE t (call p >>= f) Q m ↔ awp t p (fun x m' => awpE t (f x) Q m') m := by
  rw [awpE_bind, awpE_call]

/-- Sequencing: errors of the first routine are passed on. -/
theorem awpE_bind_of {S : Except R X → M → Prop} {Q : Except R Y → M → Prop} (hp : awpE t p S m)
    (hok : ∀ x m', S (.ok x) m' → awpE t (f x) Q m')
    (herr : ∀ e m', S (.error e) m' → Q (.error e) m') : awpE t (p >>= f) Q m := by
  refine awpE_bind.2 (awpE_mono hp fun r m' hr => ?_)
  cases r with
  | ok x => exact hok x m' hr
  | error e => exact herr e m' hr

end

/-! ## Runs -/

/-- The refusals that a script announces are within the terms. -/
def Terms.Admits (t : Terms F) (c : Script E) : Prop := false ∈ c.mem → t.refuses

variable {t : Terms F} {s : Machine M A B E} {Q : X → M → Prop} {p : Prog M A B E F X}

theorem Terms.Admits.popMem (h : t.Admits s.script) : t.Admits s.popMem.2.script :=
  fun hf => h (List.mem_of_mem_tail hf)

theorem Terms.Admits.refuses (h : t.Admits s.script) (hb : s.popMem.1 = false) : t.refuses := by
  refine h ?_
  cases hm : s.script.mem with
  | nil =>
    rw [Machine.popMem, hm] at hb
    cases hb
  | cons b l =>
    rw [Machine.popMem, hm] at hb
    exact hb ▸ List.mem_cons_self

/-- What a finished section has to satisfy: the postcondition, or a tolerated
panic. -/
def Terms.Ends (t : Terms F) (Q : X → M → Prop) :
    Outcome F X × Machine M A B E → Prop
  | (.done x, s) => Q x s.mem ∧ t.Admits s.script
  | (.crash f, _) => t.fails f

theorem Terms.Ends.ne_crash {f : F} {r : Outcome F X × Machine M A B E} (h : t.Ends Q r)
    (hf : ¬ t.fails f) : r.1 ≠ .crash f := by
  obtain ⟨o, s⟩ := r
  rintro rfl
  exact hf h

variable [DecidableEq A]

theorem awp_run (hs : t.Admits s.script) (h : awp t p Q s.mem) : t.Ends Q (p.run s) := by
  induction p generalizing s with
  | ret x => exact ⟨h, hs⟩
  | fail e => exact h
  | get k ih => exact ih _ hs h
  | set m k ih => exact ih hs h
  | malloc k ih =>
    rw [Prog.run]
    cases hb : s.popMem.1 with
    | true => exact ih _ hs.popMem h.2.1
    | false => exact ih _ hs.popMem (h.2.2 (hs.refuses hb))
  | rd a k ih => exact h.elim
  | wr a src k ih => exact h.elim

/-- Under terms that tolerate no panic the section comes to its end. -/
theorem awp_run_done (ht : ∀ f, ¬ t.fails f) (hs : t.Admits s.script) (h : awp t p Q s.mem) :
    ∃ x s', p.run s = (.done x, s') ∧ Q x s'.mem := by
  have hends := awp_run hs h
  cases hr : p.run s with
  | mk o s' =>
    rw [hr] at hends
    cases o with
    | done x => exact ⟨x, s', rfl, hends.1⟩
    | crash f => exact absurd hends (ht f)

/-- A section that has no way to its end stops in the one panic it may stop in. -/
theorem awp_run_crash {f : F} (h : awp ⟨fun g => g = f, True, True⟩ p (fun _ _ => False) s.mem) :
    (p.run s).1 = .crash f := by
  have hends := awp_run (fun _ => trivial) h
  cases hr : p.run s with
  | mk o s' =>
    rw [hr] at hends
    cases o with
    | done x => exact hends.1.elim
    | crash g => exact congrArg Outcome.crash hends

/-- A section that may not ask takes no answer from the allocator. -/
theorem awp_run_script (ht : ¬ t.asks) (h : awp t p Q s.mem) : (p.run s).2.script = s.script := by
  induction p generalizing s with
  | ret x => rfl
  | fail e => rfl
  | get k ih => exact ih _ h
  | set m k ih => exact ih (s := { s with mem := m }) h
  | malloc k ih => exact absurd h.1 ht
  | rd a k ih => exact h.elim
  | wr a src k ih => exact h.elim

end Os161.Lib
