import Os161.Lib.Prog

/-!
# What a program guarantees

`wp c p Q w` says that `p`, started in `w`, does not panic and ends with `Q`,
whatever the device, the allocator and the other threads do within the bounds
that the context `c` sets.

Other threads appear in two places only. A thread that has not had the device
yet may find it taken and then waits for its release; what may have happened
by then is `c.acq`. Once it has had the device nobody takes it away between two
transfers, and the only thing a thread waits for is the completion of a
transfer of its own; what may happen meanwhile is `c.wait`. In exchange it has
to leave `c.atAcq` and `c.atWait` behind at these points. A thread alone is the
context whose two relations are equality and whose two duties are void
(`Ctx.seq`), and there `wp` talks about `Prog.run` (`wp_run`).

`World.ghost` is written by nobody but the environment's relations; it is how
an assertion remembers what the others have done.
-/

namespace Os161.Lib

/-- What an assertion talks about: memory, device, whether the thread has had
the device already, and the environment's own record. -/
structure World (M A B G : Type) where
  mem : M
  disk : A → B
  started : Bool
  ghost : G

structure Ctx (M A B E F G : Type) where
  fails : F → Prop
  rdErr : E → Prop
  wrErr : E → Prop
  noMem : Prop
  acq : World M A B G → World M A B G → Prop
  wait : World M A B G → World M A B G → Prop
  atAcq : World M A B G → Prop
  atWait : World M A B G → Prop

variable {M A B E F G X Y : Type}

namespace World

/-- Memory replaced, everything else as it was. -/
def withMem (w : World M A B G) (m : M) : World M A B G := { w with mem := m }

/-- A block stored, everything else as it was. -/
def store [DecidableEq A] (w : World M A B G) (a : A) (b : B) : World M A B G :=
  { w with disk := Function.update w.disk a b }

@[simp] theorem withMem_mem (w : World M A B G) (m : M) : (w.withMem m).mem = m := rfl
@[simp] theorem withMem_disk (w : World M A B G) (m : M) :
    (w.withMem m).disk = w.disk := rfl
section
variable [DecidableEq A]

@[simp] theorem store_disk (w : World M A B G) (a : A) (b : B) :
    (w.store a b).disk = Function.update w.disk a b := rfl
end

end World

namespace Ctx

/-- The device has been granted: at once to a thread that had it before, after
an environment step to one that did not. -/
def Grant (c : Ctx M A B E F G) (w w' : World M A B G) : Prop :=
  (w.started = true ∧ w' = w) ∨
    (w.started = false ∧ ∃ v, c.acq w v ∧ w' = { v with started := true })

theorem Grant.eq_of_started {c : Ctx M A B E F G} {w w' : World M A B G}
    (h : c.Grant w w') (hs : w.started = true) : w' = w := by
  rcases h with ⟨-, he⟩ | ⟨hn, -⟩
  · exact he
  · rw [hs] at hn
    cases hn

/-- A thread alone: no interference, no duties, no faults, no panics. -/
def seq : Ctx M A B E F G where
  fails _ := False
  rdErr _ := False
  wrErr _ := False
  noMem := False
  acq w w' := w' = w
  wait w w' := w' = w
  atAcq _ := True
  atWait _ := True

/-- Nobody interferes and nothing fails. -/
structure Quiet (c : Ctx M A B E F G) : Prop where
  acq : ∀ {w w'}, c.acq w w' → w' = w
  wait : ∀ {w w'}, c.wait w w' → w' = w
  rd : ∀ {e}, ¬ c.rdErr e
  wr : ∀ {e}, ¬ c.wrErr e
  mem : ¬ c.noMem

theorem Quiet.grant {c : Ctx M A B E F G} (hq : c.Quiet) {w w' : World M A B G}
    (h : c.Grant w w') : w'.mem = w.mem ∧ w'.disk = w.disk := by
  rcases h with ⟨-, rfl⟩ | ⟨-, v, ha, rfl⟩
  · exact ⟨rfl, rfl⟩
  · rw [hq.acq ha]
    exact ⟨rfl, rfl⟩

end Ctx

/-! ## Scripts that a context expects -/

/-- The faults that a script announces are among those that `c` expects. -/
structure Ctx.Admits (c : Ctx M A B E F G) (t : Script E) : Prop where
  rd : ∀ e, some e ∈ t.rd → c.rdErr e
  wr : ∀ e, some e ∈ t.wr → c.wrErr e
  mem : false ∈ t.mem → c.noMem

theorem Ctx.admits_good (c : Ctx M A B E F G) : c.Admits (Script.good : Script E) :=
  ⟨fun _ h => by simp [Script.good] at h, fun _ h => by simp [Script.good] at h,
    fun h => by simp [Script.good] at h⟩

private theorem head_getD_mem {α : Type} {l : List (Option α)} {e : α}
    (h : l.head?.getD none = some e) : some e ∈ l := by
  cases l with
  | nil => cases h
  | cons x xs => exact h ▸ List.mem_cons_self

private theorem head_getD_false {l : List Bool}
    (h : l.head?.getD true = false) : false ∈ l := by
  cases l with
  | nil => cases h
  | cons x xs => exact h ▸ List.mem_cons_self

variable {c : Ctx M A B E F G} {s : Machine M A B E}

theorem Ctx.Admits.popRd (h : c.Admits s.script) : c.Admits s.popRd.2.script :=
  ⟨fun e he => h.rd e (List.mem_of_mem_tail he), h.wr, h.mem⟩

theorem Ctx.Admits.popWr (h : c.Admits s.script) : c.Admits s.popWr.2.script :=
  ⟨h.rd, fun e he => h.wr e (List.mem_of_mem_tail he), h.mem⟩

theorem Ctx.Admits.popMem (h : c.Admits s.script) : c.Admits s.popMem.2.script :=
  ⟨h.rd, h.wr, fun he => h.mem (List.mem_of_mem_tail he)⟩

/-- The world of a thread that has the machine to itself. -/
def Machine.world (s : Machine M A B E) (g : G) : World M A B G :=
  ⟨s.mem, s.disk, true, g⟩

/-- What a finished run has to satisfy: the postcondition, or a tolerated
panic. -/
def Ctx.Ends (c : Ctx M A B E F G) (Q : X → World M A B G → Prop) (g : G) :
    Outcome F X × Machine M A B E → Prop
  | (.done x, s) => Q x (s.world g)
  | (.crash f, _) => c.fails f

/-! ## Weakest preconditions -/

variable [DecidableEq A]

def wp (c : Ctx M A B E F G) :
    Prog M A B E F X → (X → World M A B G → Prop) → World M A B G → Prop
  | .ret x, Q, w => Q x w
  | .fail f, _, _ => c.fails f
  | .get k, Q, w => wp c (k w.mem) Q w
  | .set m k, Q, w => wp c k Q (w.withMem m)
  | .malloc k, Q, w => wp c (k true) Q w ∧ (c.noMem → wp c (k false) Q w)
  | .rd a k, Q, w =>
    (w.started = false → c.atAcq w) ∧
    ∀ w₁, c.Grant w w₁ → c.atWait w₁ ∧ ∀ w₂, c.wait w₁ w₂ →
      wp c (k (.ok (w₁.disk a))) Q w₂ ∧
      ∀ e, c.rdErr e → wp c (k (.error e)) Q w₂
  | .wr a src k, Q, w =>
    (w.started = false → c.atAcq w) ∧
    ∀ w₁, c.Grant w w₁ →
      (c.atWait (w₁.store a (src w₁.mem)) ∧
        ∀ w₂, c.wait (w₁.store a (src w₁.mem)) w₂ → wp c (k (.ok ())) Q w₂) ∧
      ∀ e, c.wrErr e → c.atWait w₁ ∧
        ∀ w₂, c.wait w₁ w₂ → wp c (k (.error e)) Q w₂

/-! ## Rules -/

section
variable {c : Ctx M A B E F G} {w : World M A B G} {Q : X → World M A B G → Prop}

@[simp] theorem wp_pure (x : X) : wp c (pure x) Q w ↔ Q x w := Iff.rfl

@[simp] theorem wp_mem {Q : M → World M A B G → Prop} :
    wp c Prog.mem Q w ↔ Q w.mem w := Iff.rfl

@[simp] theorem wp_put {Q : Unit → World M A B G → Prop} (m : M) :
    wp c (Prog.put m) Q w ↔ Q () (w.withMem m) := Iff.rfl

@[simp] theorem wp_modify {Q : Unit → World M A B G → Prop} (f : M → M) :
    wp c (Prog.modify f) Q w ↔ Q () (w.withMem (f w.mem)) := Iff.rfl

@[simp] theorem wp_kmalloc {Q : Bool → World M A B G → Prop} :
    wp c Prog.kmalloc Q w ↔ Q true w ∧ (c.noMem → Q false w) := Iff.rfl

theorem wp_bind (p : Prog M A B E F X) (f : X → Prog M A B E F Y) (Q : Y → World M A B G → Prop)
    (w : World M A B G) : wp c (p >>= f) Q w ↔ wp c p (fun x w' => wp c (f x) Q w') w := by
  show wp c (p.bind f) Q w ↔ _
  induction p generalizing w with
  | ret x => exact Iff.rfl
  | fail e => exact Iff.rfl
  | get k ih => exact ih _ _
  | set m k ih => exact ih _
  | malloc k ih => exact and_congr (ih _ _) (imp_congr_right fun _ => ih _ _)
  | rd a k ih => simp only [Prog.bind, wp, ih]
  | wr a src k ih => simp only [Prog.bind, wp, ih]

theorem wp_mono {p : Prog M A B E F X} {Q Q' : X → World M A B G → Prop}
    {w : World M A B G} (h : wp c p Q w) (hQ : ∀ x w', Q x w' → Q' x w') : wp c p Q' w := by
  induction p generalizing w with
  | ret x => exact hQ _ _ h
  | fail e => exact h
  | get k ih => exact ih _ h
  | set m k ih => exact ih h
  | malloc k ih => exact ⟨ih _ h.1, fun hm => ih _ (h.2 hm)⟩
  | rd a k ih =>
    refine ⟨h.1, fun w₁ h1 => ⟨(h.2 w₁ h1).1, fun w₂ h2 => ?_⟩⟩
    have hk := (h.2 w₁ h1).2 w₂ h2
    exact ⟨ih _ hk.1, fun e he => ih _ (hk.2 e he)⟩
  | wr a src k ih =>
    refine ⟨h.1, fun w₁ h1 => ?_⟩
    obtain ⟨⟨ha, hok⟩, herr⟩ := h.2 w₁ h1
    exact ⟨⟨ha, fun w₂ h2 => ih _ (hok w₂ h2)⟩, fun e he =>
      ⟨(herr e he).1, fun w₂ h2 => ih _ ((herr e he).2 w₂ h2)⟩⟩

theorem wp_assert_of {P : Prop} [Decidable P] {f : F}
    {Q : Unit → World M A B G → Prop} (h : P) (hQ : Q () w) : wp c (Prog.assert P f) Q w := by
  rw [Prog.assert, if_pos h]
  exact hQ

end

/-! ## Routines that return an error code -/

/-- `wp` for a routine that hands errors on to its caller. -/
def wpE (c : Ctx M A B E F G) {R : Type} (p : ExceptT R (Prog M A B E F) X)
    (Q : Except R X → World M A B G → Prop) (w : World M A B G) : Prop :=
  wp c p.run Q w

section
variable {c : Ctx M A B E F G} {w : World M A B G} {R : Type}
  {Q : Except R X → World M A B G → Prop}

variable {p : ExceptT R (Prog M A B E F) X} {f : X → ExceptT R (Prog M A B E F) Y}

theorem wp_run_iff : wp c p.run Q w ↔ wpE c p Q w := Iff.rfl

@[simp] theorem wpE_pure (x : X) :
    wpE c (pure x : ExceptT R (Prog M A B E F) X) Q w ↔ Q (.ok x) w := Iff.rfl

theorem wpE_mk {p : Prog M A B E F (Except R X)} :
    wpE c (ExceptT.mk p) Q w ↔ wp c p Q w := Iff.rfl

@[simp] theorem wpE_call {p : Prog M A B E F X} :
    wpE c (call p : ExceptT R (Prog M A B E F) X) Q w ↔ wp c p (fun x w' => Q (.ok x) w') w := by
  show wp c (Prog.bind p fun x => .ret (.ok x)) Q w ↔ _
  exact wp_bind p (fun x => .ret (.ok x)) Q w

theorem wpE_mono {Q Q' : Except R X → World M A B G → Prop} (h : wpE c p Q w)
    (hQ : ∀ r w', Q r w' → Q' r w') : wpE c p Q' w :=
  wp_mono h hQ

theorem wpE_bind {Q : Except R Y → World M A B G → Prop} :
    wpE c (p >>= f) Q w ↔
      wpE c p (fun r w' => match r with
        | .ok x => wpE c (f x) Q w' | .error e => Q (.error e) w') w := by
  show wp c (p.run >>= ExceptT.bindCont f) Q w ↔ wp c p.run _ w
  rw [wp_bind]
  constructor <;> intro h <;> refine wp_mono h fun r w' hr => ?_ <;>
    cases r <;> exact hr

theorem wpE_call_bind {p : Prog M A B E F X} {Q : Except R Y → World M A B G → Prop} :
    wpE c (call p >>= f) Q w ↔ wp c p (fun x w' => wpE c (f x) Q w') w := by
  rw [wpE_bind, wpE_call]

theorem wpE_result_bind {f : Except R X → ExceptT R (Prog M A B E F) Y}
    {Q : Except R Y → World M A B G → Prop} :
    wpE c (result p >>= f) Q w ↔ wpE c p (fun r w' => wpE c (f r) Q w') w :=
  wpE_call_bind

/-- Sequencing, with the first routine's result weakened to what is needed: its
errors are passed on. -/
theorem wpE_bind_of {S : Except R X → World M A B G → Prop} {Q : Except R Y → World M A B G → Prop}
    (hp : wpE c p S w) (hok : ∀ x w', S (.ok x) w' → wpE c (f x) Q w')
    (herr : ∀ e w', S (.error e) w' → Q (.error e) w') : wpE c (p >>= f) Q w := by
  refine wpE_bind.2 (wpE_mono hp fun r w' hr => ?_)
  cases r with
  | ok x => exact hok x w' hr
  | error e => exact herr e w' hr

end

/-! ## A thread alone

A context without interference is sound for `Prog.run`: the run ends without a
panic that the context does not tolerate, in a state that satisfies the
postcondition. The script may contain only faults that the context expects. -/

theorem wp_run {p : Prog M A B E F X} {Q : X → World M A B G → Prop} {g : G} (hw : ∀ w, c.wait w w)
    (ht : c.Admits s.script) (h : wp c p Q (s.world g)) : c.Ends Q g (p.run s) := by
  induction p generalizing s with
  | ret x => exact h
  | fail e => exact h
  | get k ih => exact ih _ ht h
  | set m k ih => exact ih ht h
  | malloc k ih =>
    rw [Prog.run]
    cases hb : s.popMem.1 with
    | true => exact ih _ ht.popMem h.1
    | false => exact ih _ ht.popMem (h.2 (ht.mem (head_getD_false hb)))
  | rd a k ih =>
    have hk := (h.2 _ (.inl ⟨rfl, rfl⟩)).2 _ (hw _)
    rw [Prog.run]
    split
    · next e he => exact ih _ ht.popRd (hk.2 e (ht.rd e (head_getD_mem he)))
    · exact ih _ ht.popRd hk.1
  | wr a src k ih =>
    have hk := h.2 _ (.inl ⟨rfl, rfl⟩)
    rw [Prog.run]
    split
    · next e he =>
      exact ih _ ht.popWr ((hk.2 e (ht.wr e (head_getD_mem he))).2 _ (hw _))
    · exact ih _ ht.popWr (hk.1.2 _ (hw _))

theorem Ctx.Admits.run {p : Prog M A B E F X} (h : c.Admits s.script) :
    c.Admits (p.run s).2.script := by
  induction p generalizing s with
  | ret x => exact h
  | fail e => exact h
  | get k ih => exact ih _ h
  | set m k ih => exact ih h
  | malloc k ih => exact ih _ h.popMem
  | rd a k ih =>
    rw [Prog.run]
    split <;> exact ih _ h.popRd
  | wr a src k ih =>
    rw [Prog.run]
    split <;> exact ih _ h.popWr

/-- Where no panic is tolerated the run returns. -/
theorem wp_run_done {p : Prog M A B E F X} {Q : X → World M A B G → Prop} {g : G}
    (hw : ∀ w, c.wait w w) (ht : c.Admits s.script) (hf : ∀ f, ¬ c.fails f)
    (h : wp c p Q (s.world g)) : ∃ x s', p.run s = (.done x, s') ∧ Q x (s'.world g) := by
  have hr := wp_run hw ht h
  revert hr
  obtain ⟨o, s'⟩ := p.run s
  cases o with
  | done x => exact fun hr => ⟨x, s', rfl, hr⟩
  | crash e => exact fun hr => absurd hr (hf e)

end Os161.Lib
