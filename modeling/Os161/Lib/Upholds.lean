import Os161.Lib.Prog

/-!
# What a program never breaks

`Upholds I p Q` says that `p` leaves an invariant `I` of the shared memory
standing whenever it writes to it, and that every result it returns satisfies
`Q`. Nothing is asked of the device or the allocator, which may answer as they
like, or of other threads beyond that they keep `I` too; and nothing is said
about a program that panics. It is the rule for facts that depend on no more
than what a program writes, such as that it leaves a field alone.
-/

namespace Os161.Lib

variable {M A B E F X Y : Type}

def Upholds (I : M → Prop) : Prog M A B E F X → (X → Prop) → Prop
  | .ret x, Q => Q x
  | .fail _, _ => True
  | .get k, Q => ∀ m, I m → Upholds I (k m) Q
  | .set m k, Q => I m ∧ Upholds I k Q
  | .malloc k, Q => ∀ b, Upholds I (k b) Q
  | .rd _ k, Q => ∀ r, Upholds I (k r) Q
  | .wr _ _ k, Q => ∀ r, Upholds I (k r) Q

variable {I : M → Prop}

variable {p : Prog M A B E F X} {Q R : X → Prop}

/-- The run of one thread. -/
theorem Upholds.run [DecidableEq A] (h : Upholds I p Q) {s s' : Machine M A B E} {x : X}
    (hs : I s.mem) (hrun : p.run s = (.done x, s')) : Q x ∧ I s'.mem := by
  induction p generalizing s with
  | ret y =>
    cases hrun
    exact ⟨h, hs⟩
  | fail f => cases hrun
  | get k ih => exact ih _ (h _ hs) hs hrun
  | set m k ih => exact ih h.2 h.1 hrun
  | malloc k ih => exact ih _ (h _) (s := s.popMem.2) hs hrun
  | rd a k ih =>
    rw [Prog.run] at hrun
    split at hrun
    · exact ih _ (h _) (s := s.popRd.2) hs hrun
    · exact ih _ (h _) (s := s.popRd.2) hs hrun
  | wr a src k ih =>
    rw [Prog.run] at hrun
    split at hrun
    · exact ih _ (h _) (s := s.popWr.2) hs hrun
    · exact ih _ (h _) (s := s.popWr.2.store a (src s.mem)) hs hrun

/-! ## Rules -/

theorem upholds_bind {f : X → Prog M A B E F Y} {Q : Y → Prop} (hp : Upholds I p R)
    (hf : ∀ x, R x → Upholds I (f x) Q) : Upholds I (p >>= f) Q := by
  show Upholds I (p.bind f) Q
  induction p with
  | ret x => exact hf x hp
  | fail e => trivial
  | get k ih => exact fun m hm => ih m (hp m hm)
  | set m k ih => exact ⟨hp.1, ih hp.2⟩
  | malloc k ih => exact fun b => ih b (hp b)
  | rd a k ih => exact fun r => ih r (hp r)
  | wr a src k ih => exact fun r => ih r (hp r)

theorem Upholds.mono (h : Upholds I p Q) (hQ : ∀ x, Q x → R x) : Upholds I p R := by
  induction p with
  | ret x => exact hQ x h
  | fail e => trivial
  | get k ih => exact fun m hm => ih m (h m hm)
  | set m k ih => exact ⟨h.1, ih h.2⟩
  | malloc k ih => exact fun b => ih b (h b)
  | rd a k ih => exact fun r => ih r (h r)
  | wr a src k ih => exact fun r => ih r (h r)

section
variable {Q : X → Prop}

theorem upholds_pure {x : X} (h : Q x) : Upholds I (pure x : Prog M A B E F X) Q := h

theorem upholds_panic (f : F) : Upholds I (Prog.panic f : Prog M A B E F X) Q := trivial

theorem upholds_mem_bind {f : M → Prog M A B E F X} (h : ∀ m, I m → Upholds I (f m) Q) :
    Upholds I (Prog.mem >>= f) Q := h

theorem upholds_put {m : M} {Q : Unit → Prop} (hm : I m) (h : Q ()) :
    Upholds I (Prog.put m : Prog M A B E F Unit) Q := ⟨hm, h⟩

theorem upholds_modify {u : M → M} {Q : Unit → Prop} (hu : ∀ m, I m → I (u m)) (h : Q ()) :
    Upholds I (Prog.modify u : Prog M A B E F Unit) Q := fun m hm => ⟨hu m hm, h⟩

theorem upholds_assert {P : Prop} [Decidable P] {e : F} :
    Upholds I (Prog.assert P e : Prog M A B E F Unit) fun _ => P := by
  unfold Prog.assert
  split
  · next hP => exact hP
  · trivial

end

/-! ## Routines that return an error code -/

section
variable {R : Type}

/-- `Upholds` for a routine that hands errors on to its caller: `Q` is what is
known of the value it returns. -/
def UpholdsE (I : M → Prop) (p : ExceptT R (Prog M A B E F) X) (Q : X → Prop) : Prop :=
  Upholds I p.run fun r => ∀ x, r = .ok x → Q x

variable {Q : X → Prop} {p : ExceptT R (Prog M A B E F) X}

theorem upholdsE_pure {x : X} (h : Q x) : UpholdsE I (pure x : ExceptT R (Prog M A B E F) X) Q := by
  intro y hy
  cases hy
  exact h

theorem upholdsE_throw (e : R) : UpholdsE I (throw e : ExceptT R (Prog M A B E F) X) Q := by
  intro y hy
  cases hy

theorem upholdsE_call {p : Prog M A B E F X} (h : Upholds I p Q) :
    UpholdsE I (call p : ExceptT R (Prog M A B E F) X) Q := by
  show Upholds I (p >>= fun x => Prog.ret (Except.ok x)) _
  refine upholds_bind h fun x hx => ?_
  exact upholdsE_pure (R := R) hx

theorem upholdsE_bind {f : X → ExceptT R (Prog M A B E F) Y} {S : X → Prop} {Q : Y → Prop}
    (hp : UpholdsE I p S) (hf : ∀ x, S x → UpholdsE I (f x) Q) : UpholdsE I (p >>= f) Q := by
  show Upholds I (p.run >>= ExceptT.bindCont f) _
  refine upholds_bind hp fun r hr => ?_
  cases r with
  | ok x => exact hf x (hr x rfl)
  | error e => exact upholdsE_throw e

theorem upholdsE_mem_bind {f : M → ExceptT R (Prog M A B E F) X}
    (h : ∀ m, I m → UpholdsE I (f m) Q) :
    UpholdsE I ((call Prog.mem : ExceptT R (Prog M A B E F) M) >>= f) Q := h

theorem UpholdsE.mono {Q' : X → Prop} (h : UpholdsE I p Q) (hQ : ∀ x, Q x → Q' x) :
    UpholdsE I p Q' :=
  Upholds.mono h fun _ hr x hx => hQ x (hr x hx)

end

end Os161.Lib
