import Os161.Lib.Atomic

/-!
# A program on a part of the memory

A routine that was written for a memory of its own can be called from one whose
memory is larger. `Lens` says where in the larger memory the smaller one is, and
`Prog.zoom` is the routine there. What holds of the routine holds of it there as
well, and the rest of the memory is not touched (`awp_zoom`).
-/

namespace Os161.Lib

variable {M N A B E F G X : Type}

/-- `M` is a part of `N`. -/
structure Lens (N M : Type) where
  get : N → M
  set : M → N → N
  get_set : ∀ m n, get (set m n) = m
  set_get : ∀ n, set (get n) n = n
  set_set : ∀ m m' n, set m (set m' n) = set m n

/-- The program on that part, with its panics under another name. -/
def Prog.zoom (L : Lens N M) (g : F → G) : Prog M A B E F X → Prog N A B E G X
  | .ret x => .ret x
  | .fail f => .fail (g f)
  | .get k => .get fun n => (k (L.get n)).zoom L g
  | .set m k => .get fun n => .set (L.set m n) (k.zoom L g)
  | .malloc k => .malloc fun b => (k b).zoom L g
  | .rd a k => .rd a fun r => (k r).zoom L g
  | .wr a src k => .wr a (fun n => src (L.get n)) fun r => (k r).zoom L g

/-- A routine that returns an error code. -/
def zoomE {R : Type} (L : Lens N M) (g : F → G) (p : ExceptT R (Prog M A B E F) X) :
    ExceptT R (Prog N A B E G) X :=
  ExceptT.mk (p.run.zoom L g)

/-- The terms for the program on its own memory. -/
def Terms.zoom (t : Terms G) (g : F → G) : Terms F := ⟨fun f => t.fails (g f), t.asks, t.refuses⟩

variable {L : Lens N M} {g : F → G} {t : Terms G} {p : Prog M A B E F X} {n : N}

theorem awp_zoom {Q : X → N → Prop} :
    awp t (p.zoom L g) Q n ↔ awp (t.zoom g) p (fun x m => Q x (L.set m n)) (L.get n) := by
  induction p generalizing n with
  | ret x =>
    rw [awp_ret, L.set_get]
    exact Iff.rfl
  | fail f => exact Iff.rfl
  | get k ih => exact ih _
  | set m k ih =>
    refine Iff.trans ih ?_
    rw [L.get_set]
    simp only [L.set_set]
    exact Iff.rfl
  | malloc k ih => exact and_congr_right' (and_congr (ih _) (imp_congr_right fun _ => ih _))
  | rd a k ih => exact Iff.rfl
  | wr a src k ih => exact Iff.rfl

theorem awpE_zoom {R : Type} {p : ExceptT R (Prog M A B E F) X} {Q : Except R X → N → Prop} :
    awpE t (zoomE L g p) Q n ↔ awpE (t.zoom g) p (fun x m => Q x (L.set m n)) (L.get n) :=
  awp_zoom

/-- Terms that allow more. -/
structure Terms.Le (t t' : Terms F) : Prop where
  fails : ∀ f, t.fails f → t'.fails f
  asks : t.asks → t'.asks
  refuses : t'.refuses → t.refuses

theorem awp_terms {t t' : Terms F} (ht : t.Le t') {Q : X → M → Prop} {m : M} (h : awp t p Q m) :
    awp t' p Q m := by
  induction p generalizing m with
  | ret x => exact h
  | fail f => exact ht.fails f h
  | get k ih => exact ih _ h
  | set m k ih => exact ih h
  | malloc k ih => exact ⟨ht.asks h.1, ih _ h.2.1, fun hr => ih _ (h.2.2 (ht.refuses hr))⟩
  | rd a k ih => exact h
  | wr a src k ih => exact h

end Os161.Lib
