import Os161.Lib.Wp

/-!
# Routines that keep a record

A routine may carry a value `S` of its own along that is not part of the shared
memory: what it has counted, or what has happened on the way. The record is
there after an error as well. `wpR` is `wp` for such routines, with the record
next to the world; a routine that knows nothing of the record is called with
`Rec.call` and `Rec.callE`, and its record is the one of before.
-/

namespace Os161.Lib

variable {M A B E F G R S X Y : Type}

/-- A routine that returns an error code and keeps a record. -/
abbrev Rec (S R M A B E F : Type) : Type → Type := ExceptT R (StateT S (Prog M A B E F))

namespace Rec

/-- Call a routine that cannot fail. -/
def call (p : Prog M A B E F X) : Rec S R M A B E F X := ExceptT.lift (StateT.lift p)

/-- Call a routine that returns an error code, and pass the error on. -/
def callE (p : ExceptT R (Prog M A B E F) X) : Rec S R M A B E F X :=
  ExceptT.mk (StateT.lift p.run)

/-- `result = f(...)`, for the caller to look at. -/
def result (p : Rec S R M A B E F X) : Rec S R M A B E F (Except R X) := ExceptT.lift p.run

/-- Look at the record. -/
def look : Rec S R M A B E F S := ExceptT.lift StateT.get

/-- Change the record. -/
def note (u : S → S) : Rec S R M A B E F Unit :=
  ExceptT.lift (StateT.modifyGet fun s => ((), u s))

end Rec

/-! ## What such a routine guarantees -/

variable [DecidableEq A]

/-- `wp` for a routine with a record. -/
def wpR (c : Ctx M A B E F G) (p : Rec S R M A B E F X)
    (Q : Except R X → S → World M A B G → Prop) (s : S) (w : World M A B G) : Prop :=
  wp c (p.run.run s) (fun r w' => Q r.1 r.2 w') w

section
variable {c : Ctx M A B E F G} {w : World M A B G} {s : S}
  {Q : Except R X → S → World M A B G → Prop}

variable {p : Rec S R M A B E F X} {f : X → Rec S R M A B E F Y} {u : S → S}

theorem wpR_mono {Q Q' : Except R X → S → World M A B G → Prop} (h : wpR c p Q s w)
    (hQ : ∀ r s' w', Q r s' w' → Q' r s' w') : wpR c p Q' s w :=
  wp_mono h fun r w' hr => hQ r.1 r.2 w' hr

theorem wpR_bind {Q : Except R Y → S → World M A B G → Prop} :
    wpR c (p >>= f) Q s w ↔
      wpR c p (fun r s' w' => match r with
        | .ok x => wpR c (f x) Q s' w' | .error e => Q (.error e) s' w') s w := by
  show wp c (p.run.run s >>= fun r => ExceptT.bindCont f r.1 r.2) _ w ↔ wp c (p.run.run s) _ w
  rw [wp_bind]
  constructor
  · intro h
    refine wp_mono h fun r w' hr => ?_
    obtain ⟨r | r, s'⟩ := r
    · exact hr
    · exact hr
  · intro h
    refine wp_mono h fun r w' hr => ?_
    obtain ⟨r | r, s'⟩ := r
    · exact hr
    · exact hr

theorem wpR_call {p : Prog M A B E F X} :
    wpR c (Rec.call p : Rec S R M A B E F X) Q s w ↔ wp c p (fun x w' => Q (.ok x) s w') w := by
  show wp c ((p >>= fun x => pure (x, s)) >>=
    fun r => pure ((Except.ok r.1 : Except R X), r.2)) _ w ↔ _
  rw [wp_bind, wp_bind]
  exact Iff.rfl

theorem wpR_callE {p : ExceptT R (Prog M A B E F) X} :
    wpR c (Rec.callE p : Rec S R M A B E F X) Q s w ↔ wpE c p (fun r w' => Q r s w') w := by
  show wp c (p.run >>= fun r => pure (r, s)) _ w ↔ _
  rw [wp_bind]
  exact Iff.rfl

theorem wpR_result {Q : Except R (Except R X) → S → World M A B G → Prop} :
    wpR c (Rec.result p) Q s w ↔ wpR c p (fun r s' w' => Q (.ok r) s' w') s w := by
  show wp c (p.run.run s >>= fun r => pure ((Except.ok r.1 : Except R (Except R X)), r.2)) _ w ↔ _
  rw [wp_bind]
  exact Iff.rfl

theorem wpR_look {Q : Except R S → S → World M A B G → Prop} :
    wpR c (Rec.look : Rec S R M A B E F S) Q s w ↔ Q (.ok s) s w := Iff.rfl

theorem wpR_note {Q : Except R Unit → S → World M A B G → Prop} :
    wpR c (Rec.note u : Rec S R M A B E F Unit) Q s w ↔ Q (.ok ()) (u s) w := Iff.rfl

theorem wpR_call_bind {p : Prog M A B E F X} {Q : Except R Y → S → World M A B G → Prop} :
    wpR c (Rec.call p >>= f) Q s w ↔ wp c p (fun x w' => wpR c (f x) Q s w') w := by
  rw [wpR_bind, wpR_call]

theorem wpR_result_bind {f : Except R X → Rec S R M A B E F Y}
    {Q : Except R Y → S → World M A B G → Prop} :
    wpR c (Rec.result p >>= f) Q s w ↔ wpR c p (fun r s' w' => wpR c (f r) Q s' w') s w := by
  rw [wpR_bind, wpR_result]

end

end Os161.Lib
