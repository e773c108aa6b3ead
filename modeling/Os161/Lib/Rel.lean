import Os161.Lib.Wp

/-!
# Two runs side by side

Programs are deterministic once the device and the allocator have been
scripted, so two runs can be compared directly. `rel p q Q s t` says that `p`
from `s` and `q` from `t` either both end, in results and machines that `Q`
relates, or both stop with the same panic. The rules are those of `wp`, with
one more degree of freedom: a step may be taken on one side only.

On a machine where nothing fails a transfer is a plain assignment
(`run_read_good`, `run_write_good`).
-/

namespace Os161.Lib

variable {M A B E F X Y Z X' Y' : Type}

/-- Both runs end as `Q` says, or both stop with the same panic. -/
def Both (Q : X → Machine M A B E → Y → Machine M A B E → Prop) :
    Outcome F X × Machine M A B E → Outcome F Y × Machine M A B E → Prop
  | (.done x, s), (.done y, t) => Q x s y t
  | (.crash f, _), (.crash g, _) => f = g
  | _, _ => False

variable [DecidableEq A]

def rel (p : Prog M A B E F X) (q : Prog M A B E F Y)
    (Q : X → Machine M A B E → Y → Machine M A B E → Prop) (s t : Machine M A B E) : Prop :=
  Both Q (p.run s) (q.run t)

section
variable {p : Prog M A B E F X} {q : Prog M A B E F Y} {s t : Machine M A B E}
  {Q : X → Machine M A B E → Y → Machine M A B E → Prop}

variable {x : X} {y : Y} {Q' : X → Machine M A B E → Y → Machine M A B E → Prop}
  {f : X → Prog M A B E F X'} {g : Y → Prog M A B E F Y'} {s' : Machine M A B E}

theorem rel_mono (h : rel p q Q s t) (hQ : ∀ x s' y t', Q x s' y t' → Q' x s' y t') :
    rel p q Q' s t := by
  unfold rel Both at *
  split <;> simp_all

/-- Both programs go on. -/
theorem rel_bind {R : X' → Machine M A B E → Y' → Machine M A B E → Prop} (h : rel p q Q s t)
    (hf : ∀ x s' y t', Q x s' y t' → rel (f x) (g y) R s' t') : rel (p >>= f) (q >>= g) R s t := by
  show Both R ((p.bind f).run s) ((q.bind g).run t)
  rw [Prog.run_bind, Prog.run_bind]
  revert h
  unfold rel
  generalize p.run s = a
  generalize q.run t = b
  obtain ⟨_ | _, s'⟩ := a <;> obtain ⟨_ | _, t'⟩ := b <;> intro h
  · exact hf _ _ _ _ h
  · exact h.elim
  · exact h.elim
  · exact h

/-- The first program goes on alone. -/
theorem rel_left {Q : X' → Machine M A B E → Y → Machine M A B E → Prop}
    (hp : p.run s = (.done x, s')) (h : rel (f x) q Q s' t) : rel (p >>= f) q Q s t := by
  show Both Q ((p.bind f).run s) (q.run t)
  rw [Prog.run_bind, hp]
  exact h

/-- The second program goes on alone. -/
theorem rel_right {t' : Machine M A B E} {Q : X → Machine M A B E → Y' → Machine M A B E → Prop}
    (hq : q.run t = (.done y, t')) (h : rel p (g y) Q s t') : rel p (q >>= g) Q s t := by
  show Both Q (p.run s) ((q.bind g).run t)
  rw [Prog.run_bind, hq]
  exact h

theorem rel_mem_bind {f : M → Prog M A B E F X} {g : M → Prog M A B E F Y}
    (h : rel (f s.mem) (g t.mem) Q s t) : rel (Prog.mem >>= f) (Prog.mem >>= g) Q s t := h

theorem rel_put_bind {m m' : M} {f : Unit → Prog M A B E F X} {g : Unit → Prog M A B E F Y}
    (h : rel (f ()) (g ()) Q { s with mem := m } { t with mem := m' }) :
    rel (Prog.put m >>= f) (Prog.put m' >>= g) Q s t := h

/-- One program, twice from the same machine. -/
theorem rel_self (p : Prog M A B E F X) (s : Machine M A B E) :
    rel p p (fun x s' y t' => y = x ∧ t' = s' ∧ p.run s = (.done x, s')) s s := by
  unfold rel
  cases h : p.run s with
  | mk o s' =>
    cases o with
    | done x => exact ⟨rfl, rfl, rfl⟩
    | crash f => rfl

theorem rel_trans {r : Prog M A B E F Z} {u : Machine M A B E}
    {P : Y → Machine M A B E → Z → Machine M A B E → Prop}
    {R : X → Machine M A B E → Z → Machine M A B E → Prop} (h : rel p q Q s t) (h' : rel q r P t u)
    (hR : ∀ x s' y t' z u', Q x s' y t' → P y t' z u' → R x s' z u') : rel p r R s u := by
  revert h h'
  unfold rel
  generalize p.run s = a
  generalize q.run t = b
  generalize r.run u = c
  obtain ⟨_ | _, s'⟩ := a <;> obtain ⟨_ | _, t'⟩ := b <;> obtain ⟨_ | _, u'⟩ := c <;> intro h h'
  · exact hR _ _ _ _ _ _ h h'
  all_goals first
    | exact h.elim
    | exact h'.elim
    | exact Eq.trans h h'

theorem rel_symm (h : rel p q Q s t) : rel q p (fun y t' x s' => Q x s' y t') t s := by
  revert h
  unfold rel
  generalize p.run s = a
  generalize q.run t = b
  obtain ⟨_ | _, s'⟩ := a <;> obtain ⟨_ | _, t'⟩ := b <;> intro h
  · exact h
  · exact h.elim
  · exact h.elim
  · exact Eq.symm h

/-- What the second run comes to, if the first one has been computed. -/
theorem rel_run (h : rel p q Q s t) (hp : p.run s = (.done x, s')) :
    ∃ y t', q.run t = (.done y, t') ∧ Q x s' y t' := by
  revert h
  unfold rel
  rw [hp]
  obtain ⟨_ | _, t'⟩ := q.run t <;> intro h
  · exact ⟨_, t', rfl, h⟩
  · exact h.elim

/-- Both programs return, and `Q` relates what they return and leave. -/
def Return (p : Prog M A B E F X) (q : Prog M A B E F Y)
    (Q : X → Machine M A B E → Y → Machine M A B E → Prop) (s t : Machine M A B E) : Prop :=
  ∃ x s' y t', p.run s = (.done x, s') ∧ q.run t = (.done y, t') ∧ Q x s' y t'

theorem rel_return (h : rel p q Q s t) (hp : p.run s = (.done x, s'))
    (hQ : ∀ {y t'}, Q x s' y t' → Q' x s' y t') : Return p q Q' s t := by
  obtain ⟨y, t', hq, hxy⟩ := rel_run h hp
  exact ⟨x, s', y, t', hp, hq, hQ hxy⟩

/-- What is known of the first run may be added. -/
theorem rel_and_left (h : rel p q Q s t) (hp : p.run s = (.done x, s')) :
    rel p q (fun x1 s1 y t' => Q x1 s1 y t' ∧ x1 = x ∧ s1 = s') s t := by
  revert h
  unfold rel
  rw [hp]
  generalize q.run t = b
  obtain ⟨_ | _, t'⟩ := b <;> intro h
  · exact ⟨h, rfl, rfl⟩
  · exact h.elim

end

/-! ## Routines that return an error code

Here the two results are the same, and `N` relates the machines. -/

section
variable {R : Type} {s t : Machine M A B E}

def relE (p q : ExceptT R (Prog M A B E F) X)
    (N : Except R X → Machine M A B E → Machine M A B E → Prop) (s t : Machine M A B E) : Prop :=
  rel p.run q.run (fun r s' r' t' => r' = r ∧ N r s' t') s t

variable {N : Except R X → Machine M A B E → Machine M A B E → Prop} {p : Prog M A B E F X}
  {f g : Unit → ExceptT R (Prog M A B E F) X}

theorem relE_pure {x : X} (h : N (.ok x) s t) :
    relE (pure x : ExceptT R (Prog M A B E F) X) (pure x) N s t :=
  ⟨rfl, h⟩

theorem relE_throw {e : R} (h : N (.error e) s t) :
    relE (throw e : ExceptT R (Prog M A B E F) X) (throw e) N s t :=
  ⟨rfl, h⟩

theorem relE_bind {p q : ExceptT R (Prog M A B E F) X} {f g : X → ExceptT R (Prog M A B E F) Y}
    {K : Except R Y → Machine M A B E → Machine M A B E → Prop} (h : relE p q N s t)
    (hok : ∀ x s' t', N (.ok x) s' t' → relE (f x) (g x) K s' t')
    (herr : ∀ e s' t', N (.error e) s' t' → K (.error e) s' t') :
    relE (p >>= f) (q >>= g) K s t := by
  refine rel_bind h fun r s' r' t' hr => ?_
  obtain ⟨rfl, hN⟩ := hr
  cases r' with
  | ok x => exact hok x s' t' hN
  | error e => exact ⟨rfl, herr e s' t' hN⟩

theorem relE_call_bind {q : Prog M A B E F Y} {f : X → ExceptT R (Prog M A B E F) Z}
    {g : Y → ExceptT R (Prog M A B E F) Z} {Q : X → Machine M A B E → Y → Machine M A B E → Prop}
    {K : Except R Z → Machine M A B E → Machine M A B E → Prop} (h : rel p q Q s t)
    (hf : ∀ x s' y t', Q x s' y t' → relE (f x) (g y) K s' t') :
    relE (call p >>= f) (call q >>= g) K s t := by
  show rel ((p.bind fun x => .ret (.ok x)).bind (ExceptT.bindCont f))
    ((q.bind fun y => .ret (.ok y)).bind (ExceptT.bindCont g)) _ s t
  rw [Prog.bind_assoc, Prog.bind_assoc]
  exact rel_bind h hf

theorem relE_call {q : Prog M A B E F X}
    (h : rel p q (fun x s' y t' => y = x ∧ N (.ok x) s' t') s t) :
    relE (call p : ExceptT R (Prog M A B E F) X) (call q) N s t := by
  refine rel_bind h fun x s' y t' hr => ?_
  obtain ⟨rfl, hN⟩ := hr
  exact ⟨rfl, hN⟩

theorem relE_mem_bind {f g : M → ExceptT R (Prog M A B E F) X}
    (h : relE (f s.mem) (g t.mem) N s t) : relE (call Prog.mem >>= f) (call Prog.mem >>= g) N
      s t := h

theorem relE_put_bind {m m' : M}
    (h : relE (f ()) (g ()) N { s with mem := m } { t with mem := m' }) :
    relE (call (Prog.put m) >>= f) (call (Prog.put m') >>= g) N s t := h

theorem relE_modify_bind {u v : M → M}
    (h : relE (f ()) (g ()) N { s with mem := u s.mem } { t with mem := v t.mem }) :
    relE (call (Prog.modify u) >>= f) (call (Prog.modify v) >>= g) N s t := h

theorem relE_panic {f : F} :
    relE (call (Prog.panic f) : ExceptT R (Prog M A B E F) X) (call (Prog.panic f)) N s t :=
  rfl

end

/-! ## Where nothing fails -/

section
variable {s : Machine M A B E} (hs : s.script = Script.good)
include hs

theorem run_read_good (a : A) :
    (Prog.read a : Prog M A B E F _).run s = (.done (.ok (s.disk a)), s) := by
  obtain ⟨m, d, c⟩ := s
  obtain rfl := hs
  rfl

theorem run_write_good (a : A) (src : M → B) : (Prog.write a src : Prog M A B E F _).run s =
      (.done (.ok ()), s.store a (src s.mem)) := by
  obtain ⟨m, d, c⟩ := s
  obtain rfl := hs
  rfl

/-- Nothing starts to fail either. -/
theorem run_script_good (p : Prog M A B E F X) : (p.run s).2.script = Script.good := by
  induction p generalizing s with
  | ret x => exact hs
  | fail f => exact hs
  | get k ih => exact ih _ hs
  | set m k ih => exact ih hs
  | malloc k ih =>
    refine ih _ ?_
    rw [Machine.popMem, hs]
    rfl
  | rd a k ih =>
    rw [Prog.run]
    split <;> refine ih _ ?_ <;> rw [Machine.popRd, hs] <;> rfl
  | wr a src k ih =>
    rw [Prog.run]
    split <;> refine ih _ ?_ <;> simp only [Machine.store, Machine.popWr, hs] <;> rfl

end

end Os161.Lib
