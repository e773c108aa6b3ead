import Mathlib.Data.Set.Card
import Os161.Asst1.Catlock

/-!
# Cats and mice at the dishes

Two invariants, one above the other. `Kitchen.Ok` is about the shared variables
alone: while it is the turn of one animal, the other's `eat_count` is zero, its
own counts the busy dishes, and the places still open with the places taken are
at most two. The waiting counts have no part in it, so that they may go around.
`Laid` ties the variables to the threads: a dish is busy when some thread eats
from it, and no two threads eat from one dish.

A thread that comes to a dish finds a free one because there is a place left in
its turn, and the turn changes only when the last of the eaters leaves.
-/

namespace Os161.Asst1

open Function

theorem int_eq {x : Int} (h : -2147483648 ≤ x ∧ x < 2147483648) : int x = x := by
  unfold int
  rw [Int.bmod_def]
  split <;> omega

theorem Animal.turn_injective {a b : Animal} (h : a.turn = b.turn) : a = b := by
  cases a <;> cases b <;> first | rfl | cases h

/-- One animal's variables, when `eating` dishes are busy and it is its turn
or not. -/
structure Counts.Fit (c : Counts) (own : Prop) (eating : Int) : Prop where
  rest : ¬ own → c.eatCount = 0
  eat : own → c.eatCount = eating
  room : own → 0 ≤ c.inThisTurn ∧ c.inThisTurn + c.eatCount ≤ 2

namespace Kitchen

section
variable (k : Kitchen)
include k

@[simp] theorem modify_turnType (a : Animal) (f : Counts → Counts) :
    (k.modify a f).turnType = k.turnType := rfl

@[simp] theorem modify_dish1Busy (a : Animal) (f : Counts → Counts) :
    (k.modify a f).dish1Busy = k.dish1Busy := rfl

@[simp] theorem modify_dish2Busy (a : Animal) (f : Counts → Counts) :
    (k.modify a f).dish2Busy = k.dish2Busy := rfl

@[simp] theorem modify_counts_self (a : Animal) (f : Counts → Counts) :
    (k.modify a f).counts a = f (k.counts a) := by
  simp [modify]

theorem modify_counts_of_ne {a b : Animal} (f : Counts → Counts) (h : b ≠ a) :
    (k.modify a f).counts b = k.counts b := by
  simp [modify, h]

@[simp] theorem giveTurn_turnType (a : Animal) :
    (k.giveTurn a).turnType = a.turn := rfl

@[simp] theorem giveTurn_dish1Busy (a : Animal) :
    (k.giveTurn a).dish1Busy = k.dish1Busy := rfl

@[simp] theorem giveTurn_dish2Busy (a : Animal) :
    (k.giveTurn a).dish2Busy = k.dish2Busy := rfl

end

/-! ## The shared variables -/

structure Ok (k : Kitchen) : Prop where
  dish1 : k.dish1Busy = 0 ∨ k.dish1Busy = 1
  dish2 : k.dish2Busy = 0 ∨ k.dish2Busy = 1
  empty : k.turnType = .nocatmouse → k.dish1Busy + k.dish2Busy = 0
  fit : ∀ a, (k.counts a).Fit (k.turnType = a.turn) (k.dish1Busy + k.dish2Busy)

variable {k : Kitchen} {a : Animal}

/-- The variables of one animal are changed, and the others' fit as they did. -/
theorem Ok.modify (h : k.Ok) {f : Counts → Counts}
    (hf : (f (k.counts a)).Fit (k.turnType = a.turn) (k.dish1Busy + k.dish2Busy)) :
    (k.modify a f).Ok where
  dish1 := h.dish1
  dish2 := h.dish2
  empty := h.empty
  fit b := by
    by_cases hb : b = a
    · subst hb
      simpa using hf
    · rw [modify_counts_of_ne k f hb]
      exact h.fit b

/-- Within a turn only the animal whose turn it is has anything to fit. -/
theorem Ok.within (h : k.Ok) {k' : Kitchen} (hturn : k.turnType = a.turn)
    (hturn' : k'.turnType = a.turn) (h1 : k'.dish1Busy = 0 ∨ k'.dish1Busy = 1)
    (h2 : k'.dish2Busy = 0 ∨ k'.dish2Busy = 1)
    (hothers : ∀ b, b ≠ a → k'.counts b = k.counts b)
    (heat : (k'.counts a).eatCount = k'.dish1Busy + k'.dish2Busy)
    (hroom : 0 ≤ (k'.counts a).inThisTurn ∧
      (k'.counts a).inThisTurn + (k'.counts a).eatCount ≤ 2) : k'.Ok where
  dish1 := h1
  dish2 := h2
  empty := by
    rw [hturn']
    intro hno
    cases a <;> cases hno
  fit b := by
    by_cases hb : b = a
    · subst hb
      exact ⟨absurd hturn', fun _ => heat, fun _ => hroom⟩
    · have hne : k'.turnType ≠ b.turn := by
        rw [hturn']
        exact fun hab => hb (Animal.turn_injective hab).symm
      have hne' : k.turnType ≠ b.turn := hturn ▸ hturn' ▸ hne
      rw [hothers b hb]
      exact ⟨fun _ => (h.fit b).rest hne', fun ho => absurd ho hne, fun ho => absurd ho hne⟩

theorem Ok.eatCount_of_empty (h : k.Ok) (h0 : k.dish1Busy + k.dish2Busy = 0) (a : Animal) :
    (k.counts a).eatCount = 0 := by
  by_cases ha : k.turnType = a.turn
  · rw [(h.fit a).eat ha, h0]
  · exact (h.fit a).rest ha

/-- With no dish busy the turn may be anybody's. -/
theorem Ok.giveTurn (h : k.Ok) (h0 : k.dish1Busy + k.dish2Busy = 0) (a : Animal) :
    (k.giveTurn a).Ok where
  dish1 := h.dish1
  dish2 := h.dish2
  empty := fun _ => h0
  fit b := by
    have heat := h.eatCount_of_empty h0 b
    by_cases hb : b = a
    · subst hb
      constructor <;> intro _ <;> simp [Kitchen.giveTurn, heat, h0]
    · have hne : a.turn ≠ b.turn := fun hab => hb (Animal.turn_injective hab).symm
      constructor <;> intro hown <;>
        simp_all [Kitchen.giveTurn, Kitchen.modify]

/-- `change_turn` is called when no dish is busy. -/
theorem Ok.changeTurn (h : k.Ok) (h0 : k.dish1Busy + k.dish2Busy = 0) : k.changeTurn.1.Ok := by
  unfold Kitchen.changeTurn
  split
  · exact h.giveTurn h0 .mouse
  · split
    · exact h.giveTurn h0 .cat
    · have hne : ∀ a : Animal, Turn.nocatmouse ≠ a.turn := by
        intro a
        cases a <;> decide
      exact ⟨h.dish1, h.dish2, fun _ => h0,
        fun a => ⟨fun _ => h.eatCount_of_empty h0 a, fun ho => absurd ho (hne a),
          fun ho => absurd ho (hne a)⟩⟩

theorem changeTurn_dishes (k : Kitchen) :
    k.changeTurn.1.dish1Busy = k.dish1Busy ∧ k.changeTurn.1.dish2Busy = k.dish2Busy := by
  unfold Kitchen.changeTurn
  split
  · exact ⟨rfl, rfl⟩
  · split <;> exact ⟨rfl, rfl⟩

theorem takeDish_first (h : k.dish1Busy = 0) :
    k.takeDish = (1, { k with dish1Busy := 1 }) := if_pos h

theorem takeDish_second (h : k.dish1Busy ≠ 0) :
    k.takeDish = (2, { k with dish2Busy := 1 }) := if_neg h

end Kitchen

/-! ## One step -/

/-- The flag of a dish. -/
def Kitchen.busy (k : Kitchen) (d : Int) : Int := if d = 1 then k.dish1Busy else k.dish2Busy

/-- `mydish` is one of the two. -/
def IsDish (d : Int) : Prop := d = 1 ∨ d = 2

/-- Nothing has happened at the dishes. The turn may have been given to
somebody when it was nobody's. -/
structure Kitchen.Stays (k k' : Kitchen) : Prop where
  ok : k'.Ok
  busy : ∀ d, k'.busy d = k.busy d
  turn : k'.turnType = k.turnType ∨ k.turnType = .nocatmouse

/-- A dish has been taken in `a`'s turn. -/
structure Kitchen.Sits (a : Animal) (d : Int) (k k' : Kitchen) : Prop where
  ok : k'.Ok
  isDish : IsDish d
  free : k.busy d = 0
  taken : k'.busy d = 1
  busy : ∀ e, IsDish e → e ≠ d → k'.busy e = k.busy e
  turn : k'.turnType = a.turn
  before : k.turnType = a.turn ∨ k.turnType = .nocatmouse

/-- A dish has been given back. The turn is another's only when the other dish
is not busy. -/
structure Kitchen.Rises (d : Int) (k k' : Kitchen) : Prop where
  ok : k'.Ok
  freed : k'.busy d = 0
  busy : ∀ e, IsDish e → e ≠ d → k'.busy e = k.busy e
  turn : k'.turnType = k.turnType ∨ ∀ e, k'.busy e = 0

section Regions

variable {a : Animal} {k : Kitchen}

/-- Two busy dishes leave no place in the turn, so a free one is found. -/
theorem Animal.tryEat_spec (h : k.Ok) : a.tryEat k = (.waiting, k) ∨
      ∃ d k', a.tryEat k = (.eating d, k') ∧ k.Sits a d k' := by
  unfold Animal.tryEat
  split
  · exact .inl rfl
  · rename_i hgo
    obtain ⟨hturn, hroom⟩ := not_or.1 hgo
    have hturn : k.turnType = a.turn := not_not.1 hturn
    have heat := (h.fit a).eat hturn
    obtain ⟨hr0, hr2⟩ := (h.fit a).room hturn
    have h1 := h.dish1
    have h2 := h.dish2
    right
    have hless : int ((k.counts a).inThisTurn - 1) = (k.counts a).inThisTurn - 1 :=
      int_eq (by omega)
    have hmore : int ((k.counts a).eatCount + 1) = (k.counts a).eatCount + 1 :=
      int_eq (by omega)
    dsimp only
    by_cases hfree : k.dish1Busy = 0
    · rw [Kitchen.takeDish_first (k := k.modify a _) hfree]
      refine ⟨_, _, rfl, ?_, .inl rfl, hfree, rfl, ?_, hturn, .inl hturn⟩
      · apply h.within hturn
        · exact hturn
        · exact .inr rfl
        · exact h2
        · intro b hb
          dsimp only
          exact Kitchen.modify_counts_of_ne k _ hb
        · simp [hmore]
          omega
        · simp [hless, hmore]
          omega
      · intro e _ hne
        simp [Kitchen.busy, hne]
    · have hfree2 : k.dish2Busy = 0 := by omega
      rw [Kitchen.takeDish_second (k := k.modify a _) hfree]
      refine ⟨_, _, rfl, ?_, .inr rfl, hfree2, rfl, ?_, hturn, .inl hturn⟩
      · apply h.within hturn
        · exact hturn
        · exact h1
        · exact .inr rfl
        · intro b hb
          dsimp only
          exact Kitchen.modify_counts_of_ne k _ hb
        · simp [hmore]
          omega
        · simp [hless, hmore]
          omega
      · intro e he hne
        have he1 : e = 1 := he.resolve_right hne
        simp [Kitchen.busy, he1]

/-- What comes before the loop does nothing to the dishes. -/
theorem Animal.arrive_spec (h : k.Ok) : (∃ k', a.arrive k = (.waiting, k') ∧ k.Stays k') ∨
      ∃ d k', a.arrive k = (.eating d, k') ∧ k.Sits a d k' := by
  have hok : (k.modify a fun c => { c with waitCount := int (c.waitCount + 1) }).Ok :=
    h.modify ⟨(h.fit a).rest, (h.fit a).eat, (h.fit a).room⟩
  by_cases hno : k.turnType = .nocatmouse
  · rw [show a.arrive k = a.tryEat (Kitchen.giveTurn _ a) from if_pos hno]
    have hgive := hok.giveTurn (h.empty hno) a
    obtain hwait | ⟨d, k', heq, hs⟩ := Animal.tryEat_spec (a := a) hgive
    · exact .inl ⟨_, hwait, hgive, fun _ => rfl, .inr hno⟩
    · exact .inr ⟨d, k', heq, hs.ok, hs.isDish, hs.free, hs.taken, hs.busy, hs.turn, .inr hno⟩
  · rw [show a.arrive k = a.tryEat _ from if_neg hno]
    obtain hwait | ⟨d, k', heq, hs⟩ := Animal.tryEat_spec (a := a) hok
    · exact .inl ⟨_, hwait, hok, fun _ => rfl, .inl rfl⟩
    · exact .inr ⟨d, k', heq, hs.ok, hs.isDish, hs.free, hs.taken, hs.busy, hs.turn, hs.before⟩

theorem Kitchen.busy_changeTurn (k : Kitchen) (d : Int) : k.changeTurn.1.busy d = k.busy d := by
  unfold Kitchen.busy
  rw [k.changeTurn_dishes.1, k.changeTurn_dishes.2]

theorem Kitchen.Ok.busy_of_empty (h : k.Ok) (h0 : k.dish1Busy + k.dish2Busy = 0) (d : Int) :
    k.busy d = 0 := by
  have h1 := h.dish1
  have h2 := h.dish2
  unfold Kitchen.busy
  split <;> omega

theorem Kitchen.busy_freeDish (k : Kitchen) {d e : Int} (he : IsDish e) (hd : IsDish d) :
    (k.freeDish d).busy e = if e = d then 0 else k.busy e := by
  obtain rfl | rfl := he <;> obtain rfl | rfl := hd <;> simp [Kitchen.freeDish, Kitchen.busy]

/-- The counts after a dish has been given back. -/
def Counts.Left (c c' : Counts) : Prop :=
  c'.eatCount = int (c.eatCount - 1) ∧
    (c'.inThisTurn = c.inThisTurn ∨ c'.inThisTurn = int (c.inThisTurn + 1))

/-- Up to `change_turn`: the dish is free, and the next of the same kind may
have been called in. -/
theorem Animal.callNext_spec (a : Animal) (d : Int) (k : Kitchen) :
    let k' := (a.callNext ((k.freeDish d).modify a fun c =>
      { c with eatCount := int (c.eatCount - 1), waitCount := int (c.waitCount - 1) })).1
    (∀ e, k'.busy e = (k.freeDish d).busy e) ∧ k'.turnType = k.turnType ∧
      (∀ b, b ≠ a → k'.counts b = k.counts b) ∧ (k.counts a).Left (k'.counts a) := by
  have hturn : (k.freeDish d).turnType = k.turnType := by
    unfold Kitchen.freeDish
    split <;> rfl
  have hcounts : (k.freeDish d).counts = k.counts := by
    unfold Kitchen.freeDish
    split <;> rfl
  unfold Animal.callNext
  split
  · refine ⟨fun _ => rfl, hturn, ?_, ?_⟩
    · intro b hb
      rw [Kitchen.modify_counts_of_ne _ _ hb, Kitchen.modify_counts_of_ne _ _ hb, hcounts]
    · simp [Counts.Left, hcounts]
  · refine ⟨fun _ => rfl, hturn, ?_, ?_⟩
    · intro b hb
      rw [Kitchen.modify_counts_of_ne _ _ hb, hcounts]
    · simp [Counts.Left, hcounts]

theorem Kitchen.Ok.freed {d : Int} {k' : Kitchen} (h : k.Ok) (hturn : k.turnType = a.turn)
    (hd : IsDish d) (hbusy : k.busy d = 1) (hdish : ∀ e, k'.busy e = (k.freeDish d).busy e)
    (hturn' : k'.turnType = k.turnType) (hothers : ∀ b, b ≠ a → k'.counts b = k.counts b)
    (hleft : (k.counts a).Left (k'.counts a)) : k'.Ok := by
  have heat0 := (h.fit a).eat hturn
  obtain ⟨hr0, hr2⟩ := (h.fit a).room hturn
  have hd1 := h.dish1
  have hd2 := h.dish2
  have h1 : k'.dish1Busy = (k.freeDish d).dish1Busy := hdish 1
  have h2 : k'.dish2Busy = (k.freeDish d).dish2Busy := hdish 2
  have hone : (k.freeDish d).dish1Busy + (k.freeDish d).dish2Busy =
      k.dish1Busy + k.dish2Busy - 1 ∧
      ((k.freeDish d).dish1Busy = 0 ∨ (k.freeDish d).dish1Busy = 1) ∧
      ((k.freeDish d).dish2Busy = 0 ∨ (k.freeDish d).dish2Busy = 1) := by
    obtain rfl | rfl := hd <;> simp [Kitchen.busy, Kitchen.freeDish] at hbusy ⊢ <;> omega
  obtain ⟨heat, hroom⟩ := hleft
  rw [int_eq (by omega)] at heat hroom
  apply h.within hturn (hturn'.trans hturn)
  · rw [h1]
    exact hone.2.1
  · rw [h2]
    exact hone.2.2
  · exact hothers
  · rw [heat, h1, h2]
    omega
  · omega

/-- The last to leave finds both dishes free. -/
theorem Animal.leave_spec {d : Int} (h : k.Ok) (hturn : k.turnType = a.turn) (hd : IsDish d)
    (hbusy : k.busy d = 1) : k.Rises d (a.leave d k).1 := by
  obtain ⟨hdish, hturn', hothers, hleft⟩ := a.callNext_spec d k
  have hok := h.freed hturn hd hbusy hdish hturn' hothers hleft
  unfold Animal.leave
  dsimp only
  split
  · rename_i hlast
    have h0 := ((hok.fit a).eat (hturn'.trans hturn)).symm.trans hlast
    refine ⟨hok.changeTurn h0, ?_, ?_, .inr ?_⟩
    · rw [Kitchen.busy_changeTurn, hok.busy_of_empty h0]
    · intro e he hne
      rw [Kitchen.busy_changeTurn, hdish, k.busy_freeDish he hd, if_neg hne]
    · intro e
      rw [Kitchen.busy_changeTurn, hok.busy_of_empty h0]
  · refine ⟨hok, ?_, ?_, .inl hturn'⟩
    · rw [hdish, k.busy_freeDish hd hd, if_pos rfl]
    · intro e he hne
      rw [hdish, k.busy_freeDish he hd, if_neg hne]

end Regions

/-! ## All threads -/

/-- The dishes and the threads that eat from them: `eats i d` when thread `i`
eats from dish `d`. -/
structure Laid {ι : Type} (kind : ι → Animal) (k : Kitchen) (eats : ι → Int → Prop) : Prop where
  isDish : ∀ {i d}, eats i d → IsDish d
  busy : ∀ d, IsDish d → (k.busy d = 1 ↔ ∃ i, eats i d)
  alone : ∀ {i j d}, eats i d → eats j d → i = j
  turn : ∀ {i d}, eats i d → k.turnType = (kind i).turn

section Threads

variable {ι : Type} [DecidableEq ι] {kind : ι → Animal} {k k' : Kitchen} {pc pc' : ι → Pc}

omit [DecidableEq ι] in
/-- Nobody has moved from or to a dish. -/
theorem Laid.stays (h : Laid kind k fun i d => pc i = .eating d)
    (hpc : ∀ i d, pc' i = .eating d ↔ pc i = .eating d) (hok : k.Ok) (hs : k.Stays k') :
    Laid kind k' fun i d => pc' i = .eating d where
  isDish he := h.isDish ((hpc _ _).1 he)
  busy d hd := by
    rw [hs.busy, h.busy d hd]
    exact exists_congr fun i => (hpc i d).symm
  alone hi hj := h.alone ((hpc _ _).1 hi) ((hpc _ _).1 hj)
  turn {i d} he := by
    have hi := (hpc i d).1 he
    rcases hs.turn with heq | hno
    · exact heq.trans (h.turn hi)
    · have hbusy := (h.busy d (h.isDish hi)).2 ⟨i, hi⟩
      rw [hok.busy_of_empty (hok.empty hno)] at hbusy
      exact absurd hbusy (by decide)

variable {i : ι} {d : Int} {ws : List Wake} {s : System ι}

theorem Laid.sits (h : Laid kind k fun i d => pc i = .eating d) (hok : k.Ok)
    (hi : ∀ e, pc i ≠ .eating e) (hs : k.Sits (kind i) d k') :
    Laid kind k' fun j e => update pc i (.eating d) j = .eating e := by
  -- an eater is thread `i` at dish `d`, or another one at the other dish
  have hother : ∀ j e, update pc i (.eating d) j = .eating e ↔
      (j = i ∧ e = d) ∨ (j ≠ i ∧ pc j = .eating e) := by
    intro j e
    by_cases hj : j = i
    · subst hj
      simp [eq_comm]
    · simp [hj]
  have hne : ∀ j, pc j ≠ .eating d := by
    intro j hj
    have hbusy := (h.busy d hs.isDish).2 ⟨j, hj⟩
    rw [hs.free] at hbusy
    exact absurd hbusy (by decide)
  simp only [hother]
  constructor
  · intro j e he
    rcases he with ⟨-, rfl⟩ | ⟨-, he⟩
    · exact hs.isDish
    · exact h.isDish he
  · intro e he
    by_cases hed : e = d
    · subst hed
      simp [hs.taken]
    · rw [hs.busy e he hed, h.busy e he]
      constructor
      · intro ⟨j, hj⟩
        exact ⟨j, .inr ⟨fun hji => hi e (hji ▸ hj), hj⟩⟩
      · intro ⟨j, hj⟩
        rcases hj with ⟨-, rfl⟩ | ⟨-, hj⟩
        · exact absurd rfl hed
        · exact ⟨j, hj⟩
  · intro j l e hj hl
    rcases hj with ⟨rfl, rfl⟩ | ⟨-, hj⟩
    · rcases hl with ⟨rfl, -⟩ | ⟨-, hl⟩
      · rfl
      · exact absurd hl (hne l)
    · rcases hl with ⟨rfl, rfl⟩ | ⟨-, hl⟩
      · exact absurd hj (hne j)
      · exact h.alone hj hl
  · intro j e hj
    rcases hj with ⟨rfl, -⟩ | ⟨-, hj⟩
    · exact hs.turn
    · rcases hs.before with hturn | hno
      · rw [hs.turn, ← hturn]
        exact h.turn hj
      · have hbusy := (h.busy e (h.isDish hj)).2 ⟨j, hj⟩
        rw [hok.busy_of_empty (hok.empty hno)] at hbusy
        exact absurd hbusy (by decide)

theorem Laid.rises (h : Laid kind k fun i d => pc i = .eating d) (hi : pc i = .eating d)
    (hs : k.Rises d k') : Laid kind k' fun j e => update pc i .left j = .eating e := by
  have hother : ∀ j e, update pc i .left j = .eating e ↔ j ≠ i ∧ pc j = .eating e := by
    intro j e
    by_cases hj : j = i
    · subst hj
      simp
    · simp [hj]
  -- whoever is left eats from the other dish
  have hne : ∀ j e, j ≠ i → pc j = .eating e → e ≠ d := by
    intro j e hj he hed
    subst hed
    exact hj (h.alone he hi)
  simp only [hother]
  have hbusy : ∀ e, IsDish e → (k'.busy e = 1 ↔ ∃ j, j ≠ i ∧ pc j = .eating e) := by
    intro e he
    by_cases hed : e = d
    · subst hed
      rw [hs.freed]
      constructor
      · intro h01
        exact absurd h01 (by decide)
      · intro ⟨j, hj, hje⟩
        exact absurd rfl (hne j e hj hje)
    · rw [hs.busy e he hed, h.busy e he]
      constructor
      · intro ⟨j, hj⟩
        refine ⟨j, ?_, hj⟩
        intro hji
        subst hji
        rw [hi] at hj
        exact hed (Pc.eating.inj hj).symm
      · intro ⟨j, _, hj⟩
        exact ⟨j, hj⟩
  constructor
  · intro j e he
    exact h.isDish he.2
  · exact hbusy
  · intro j l e hj hl
    exact h.alone hj.2 hl.2
  · intro j e hj
    rcases hs.turn with hturn | hnone
    · exact hturn.trans (h.turn hj.2)
    · have h1 := (hbusy e (h.isDish hj.2)).2 ⟨j, hj⟩
      rw [hnone] at h1
      exact absurd h1 (by decide)

/-- A wake puts nobody to a dish and takes nobody from it. -/
theorem Wake.Does.eating {w : Wake} (h : w.Does kind pc pc') (i : ι) (d : Int) :
    pc' i = .eating d ↔ pc i = .eating d := by
  cases h with
  | signal j hj =>
    by_cases hij : i = j
    · subst hij
      simp [hj.1]
    · simp [hij]
  | nobody => exact Iff.rfl
  | @broadcast cv _ _ hin hout =>
    by_cases hi : Sleeps kind cv pc i
    · simp [hin i hi, hi.1]
    · rw [hout i hi]

theorem Wakes.eating (h : Wakes kind ws pc pc') (i : ι) (d : Int) :
    pc' i = .eating d ↔ pc i = .eating d := by
  induction h with
  | nil => exact Iff.rfl
  | cons hw _ ih => exact ih.trans (hw.eating i d)

/-- What holds between the steps. -/
structure System.Inv (kind : ι → Animal) (s : System ι) : Prop where
  ok : s.kitchen.Ok
  laid : Laid kind s.kitchen fun i d => s.pc i = .eating d

omit [DecidableEq ι] in
theorem System.Inv.initial : System.Inv kind (System.initial : System ι) where
  ok := by
    constructor
    · exact .inl rfl
    · exact .inl rfl
    · intro _
      rfl
    · intro a
      cases a <;> constructor <;> simp [System.initial, Animal.turn]
  laid := by
    constructor
    · intro i d he
      cases he
    · intro d _
      simp [System.initial, Kitchen.busy]
    · intro i j d he
      cases he
    · intro i d he
      cases he

theorem Animal.thread_eq (a : Animal) : a.thread = a.lock := by
  cases a <;> rfl

/-- What a thread does while it has the lock. -/
inductive Animal.Acts (a : Animal) (k : Kitchen) : Pc → Pc → Kitchen → List Wake → Prop
  | arrives : Acts a k .start (a.arrive k).1 (a.arrive k).2 []
  | tries : Acts a k .woken (a.tryEat k).1 (a.tryEat k).2 []
  | leaves (d : Int) : Acts a k (.eating d) .left (a.leave d k).1 (a.leave d k).2
  | ends : Acts a k .left .finished (k.modify a fun c => { c with done := int (c.done + 1) }) []

theorem Animal.acts {a : Animal} {k k' : Kitchen} {pc pc' : Pc} {ws : List Wake}
    (h : a.thread pc k = some (pc', k', ws)) : a.Acts k pc pc' k' ws := by
  rw [Animal.thread_eq] at h
  cases pc <;> simp only [Animal.lock, Option.some.injEq, Prod.mk.injEq, reduceCtorEq] at h <;>
    obtain ⟨rfl, rfl, rfl⟩ := h <;> constructor

/-- The threads may be woken after a step without harm. -/
theorem System.Inv.woken (h : s.Inv kind) (hw : Wakes kind ws s.pc pc') :
    System.Inv kind ⟨s.kitchen, pc'⟩ where
  ok := h.ok
  laid := h.laid.stays hw.eating h.ok ⟨h.ok, fun _ => rfl, .inl rfl⟩

/-- A thread goes on to a place where it does not eat, and has not eaten. -/
theorem System.Inv.moves {pc : Pc} (h : s.Inv kind) (hi : ∀ e, s.pc i ≠ .eating e)
    (hpc : ∀ e, pc ≠ .eating e) (hs : s.kitchen.Stays k') :
    System.Inv kind ⟨k', update s.pc i pc⟩ where
  ok := hs.ok
  laid := by
    apply h.laid.stays _ h.ok hs
    intro j e
    by_cases hj : j = i
    · subst hj
      simp [hi, hpc]
    · simp [hj]

theorem System.Inv.step {s' : System ι} (h : s.Inv kind) (hstep : s.Step kind s') :
    s'.Inv kind := by
  cases hstep with | @mk i pc k ws pcs hrun hw =>
  have hact := Animal.acts hrun
  -- the threads woken in the step come after it
  suffices hinv : System.Inv kind ⟨k, update s.pc i pc⟩ from hinv.woken hw
  generalize hpc : s.pc i = p at hact
  cases hact with
  | arrives =>
    have hi : ∀ e, s.pc i ≠ .eating e := by simp [hpc]
    obtain ⟨k', heq, hs⟩ | ⟨d, k', heq, hs⟩ := Animal.arrive_spec (a := kind i) h.ok
    · rw [heq]
      exact h.moves hi (by simp) hs
    · rw [heq]
      exact ⟨hs.ok, h.laid.sits h.ok hi hs⟩
  | tries =>
    have hi : ∀ e, s.pc i ≠ .eating e := by simp [hpc]
    obtain heq | ⟨d, k', heq, hs⟩ := Animal.tryEat_spec (a := kind i) h.ok
    · rw [heq]
      exact h.moves hi (by simp) ⟨h.ok, fun _ => rfl, .inl rfl⟩
    · rw [heq]
      exact ⟨hs.ok, h.laid.sits h.ok hi hs⟩
  | leaves d =>
    have hd := h.laid.isDish hpc
    have hs := Animal.leave_spec h.ok (h.laid.turn hpc) hd ((h.laid.busy d hd).2 ⟨i, hpc⟩)
    exact ⟨hs.ok, h.laid.rises hpc hs⟩
  | ends =>
    have hfit := h.ok.fit (kind i)
    exact h.moves (by simp [hpc]) (by simp)
      ⟨h.ok.modify ⟨hfit.rest, hfit.eat, hfit.room⟩, fun _ => rfl, .inl rfl⟩

theorem System.Inv.of_reachable (h : s.Reachable kind) : s.Inv kind := by
  induction h with
  | refl => exact System.Inv.initial
  | tail _ hstep ih => exact ih.step hstep

end Threads

/-! ## What the kitchen is for -/

section Safety

variable {ι : Type} [DecidableEq ι] {kind : ι → Animal}

omit [DecidableEq ι] in
/-- Two at most, because each eats from a dish of its own. -/
theorem Laid.encard_le_two {k : Kitchen} {eats : ι → Int → Prop} (h : Laid kind k eats) :
    {i | ∃ d, eats i d}.encard ≤ 2 := by
  have hone : ∀ d, {i | eats i d}.encard ≤ 1 := by
    intro d
    rw [Set.encard_le_one_iff]
    intro i j hi hj
    exact h.alone hi hj
  have hsub : {i | ∃ d, eats i d} ⊆ {i | eats i 1} ∪ {i | eats i 2} := by
    intro i ⟨d, hd⟩
    rcases h.isDish hd with rfl | rfl
    · exact .inl hd
    · exact .inr hd
  calc {i | ∃ d, eats i d}.encard
      ≤ ({i | eats i 1} ∪ {i | eats i 2}).encard := Set.encard_le_encard hsub
    _ ≤ {i | eats i 1}.encard + {i | eats i 2}.encard := Set.encard_union_le _ _
    _ ≤ 1 + 1 := add_le_add (hone 1) (hone 2)
    _ = 2 := one_add_one_eq_two

/-- In every state of every run: no cat eats while a mouse eats, at most two
animals eat, each from a dish of its own, and a dish is marked busy exactly when
somebody eats from it. -/
theorem kitchen_safe {s : System ι} (h : s.Reachable kind) :
    (∀ i j d e, kind i = .cat → kind j = .mouse → s.Eats i d → ¬ s.Eats j e) ∧
    {i | ∃ d, s.Eats i d}.encard ≤ 2 ∧
    (∀ i j d e, i ≠ j → s.Eats i d → s.Eats j e → d ≠ e) ∧
    (s.kitchen.dish1Busy = 1 ↔ ∃ i, s.Eats i 1) ∧
    (s.kitchen.dish2Busy = 1 ↔ ∃ i, s.Eats i 2) ∧
    ∀ i d, s.Eats i d → d = 1 ∨ d = 2 := by
  have hlaid := (System.Inv.of_reachable h).laid
  refine ⟨?_, hlaid.encard_le_two, ?_, hlaid.busy 1 (.inl rfl), hlaid.busy 2 (.inr rfl),
    fun i d he => hlaid.isDish he⟩
  · intro i j d e hcat hmouse hi hj
    have hturn := (hlaid.turn hi).symm.trans (hlaid.turn hj)
    rw [hcat, hmouse] at hturn
    cases hturn
  · intro i j d e hij hi hj hde
    subst hde
    exact hij (hlaid.alone hi hj)

end Safety

/-- Threads 0 and 1 are cats, the others mice. -/
def twoCats (i : Nat) : Animal := if i < 2 then .cat else .mouse

/-- Two cats come in, and a mouse that comes after them has to wait. -/
theorem kitchen_safe_two_cats :
    ∃ s : System Nat, s.Reachable twoCats ∧ s.Eats 0 1 ∧ s.Eats 1 2 ∧ s.pc 2 = .waiting ∧
      ∀ e, ¬ s.Eats 2 e := by
  have h : ∃ s : System Nat, s.Reachable twoCats ∧ s.Eats 0 1 ∧ s.Eats 1 2 ∧
      s.pc 2 = .waiting := by
    refine ⟨_, ((Relation.ReflTransGen.refl.tail (.mk (i := 0) rfl (.nil _))).tail
      (.mk (i := 1) rfl (.nil _))).tail (.mk (i := 2) rfl (.nil _)), ?_, ?_, ?_⟩
    all_goals rfl
  obtain ⟨s, hs, h0, h1, h2⟩ := h
  exact ⟨s, hs, h0, h1, h2, fun e => (kitchen_safe hs).1 0 2 1 e rfl rfl h0⟩

end Os161.Asst1
