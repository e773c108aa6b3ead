import Mathlib.Data.Fin.VecNotation
import Os161.Lib.Headcount
import Os161.Proofs.Catlock

/-!
# Nobody sleeps for ever

The counts of waiting animals are exact as long as they are counts at all: an `int`
that goes over its largest value has no value in C, so `System.Runs` is a run in
which none of them does. `Woken` is then what keeps the kitchen going. As long as
somebody eats there is a departure to come, and `change_turn` at the last one of a
turn either finds an animal of the kind whose turn it is, all of them awake, or
nobody at all.

The second half counts how many animals of one kind come in while one of the other
kind waits.
-/

namespace Os161.Asst1

open Os161.Lib Function

/-! ## The waiting counts -/

/-- `cats_wait_count` and `mice_wait_count`. -/
def Kitchen.wait (k : Kitchen) (a : Animal) : Int := (k.counts a).waitCount

namespace Kitchen

variable {k : Kitchen} {a : Animal}

variable {f : Counts → Counts}

/-- A variable that is not the one changed. -/
theorem modify_proj (g : Counts → Int) (h : g (f (k.counts a)) = g (k.counts a)) (b : Animal) :
    g ((k.modify a f).counts b) = g (k.counts b) := by
  by_cases hb : b = a
  · subst hb
    rw [modify_counts_self, h]
  · rw [modify_counts_of_ne k f hb]

theorem wait_modify
    (h : (f (k.counts a)).waitCount = (k.counts a).waitCount) : (k.modify a f).wait = k.wait :=
  funext (modify_proj Counts.waitCount h)

theorem wait_update : (k.modify a f).wait = update k.wait a (f (k.counts a)).waitCount := by
  funext b
  by_cases hb : b = a
  · subst hb
    rw [update_self, wait, modify_counts_self]
  · rw [update_of_ne hb, wait, modify_counts_of_ne k f hb, wait]

theorem wait_giveTurn : (k.giveTurn a).wait = k.wait :=
  wait_modify (k := { k with turnType := a.turn }) rfl

theorem counts_takeDish : k.takeDish.2.counts = k.counts := by
  unfold takeDish
  split <;> rfl

theorem turnType_takeDish : k.takeDish.2.turnType = k.turnType := by
  unfold takeDish
  split <;> rfl

theorem counts_freeDish {d : Int} : (k.freeDish d).counts = k.counts := by
  unfold freeDish
  split <;> rfl

theorem turnType_freeDish {d : Int} : (k.freeDish d).turnType = k.turnType := by
  unfold freeDish
  split <;> rfl

theorem wait_changeTurn : k.changeTurn.1.wait = k.wait := by
  unfold changeTurn
  split
  · exact wait_giveTurn
  · split
    · exact wait_giveTurn
    · rfl

end Kitchen

section Regions

variable {k : Kitchen} {a : Animal}

theorem Animal.wait_tryEat : (a.tryEat k).2.wait = k.wait := by
  unfold Animal.tryEat
  split
  · rfl
  · dsimp only
    unfold Kitchen.wait
    rw [Kitchen.counts_takeDish]
    exact Kitchen.wait_modify (f := fun c => { c with inThisTurn := _, eatCount := _ }) rfl

theorem Animal.wait_arrive : (a.arrive k).2.wait = update k.wait a (int (k.wait a + 1)) := by
  unfold Animal.arrive
  dsimp only
  split
  · rw [wait_tryEat, Kitchen.wait_giveTurn, Kitchen.wait_update]
    rfl
  · rw [wait_tryEat, Kitchen.wait_update]
    rfl

theorem Animal.wait_callNext : (a.callNext k).1.wait = k.wait := by
  unfold Animal.callNext
  split
  · dsimp only
    apply Kitchen.wait_modify
    rfl
  · rfl

theorem Animal.wait_leave {d : Int} :
    (a.leave d k).1.wait = update k.wait a (int (k.wait a - 1)) := by
  have hfree : ((k.freeDish d).modify a fun c =>
      { c with eatCount := int (c.eatCount - 1), waitCount := int (c.waitCount - 1) }).wait =
      update k.wait a (int (k.wait a - 1)) := by
    rw [Kitchen.wait_update]
    unfold Kitchen.wait
    rw [Kitchen.counts_freeDish]
  unfold Animal.leave
  dsimp only
  split
  · rw [Kitchen.wait_changeTurn, wait_callNext, hfree]
  · rw [wait_callNext, hfree]

/-- Whoever comes either waits or eats. -/
theorem Animal.tryEat_pc : (a.tryEat k).1 = .waiting ∨ ∃ d, (a.tryEat k).1 = .eating d := by
  unfold Animal.tryEat
  split
  · exact .inl rfl
  · exact .inr ⟨_, rfl⟩

theorem Animal.arrive_pc : (a.arrive k).1 = .waiting ∨ ∃ d, (a.arrive k).1 = .eating d := by
  unfold Animal.arrive
  dsimp only
  split <;> exact tryEat_pc

theorem Animal.tryEat_waits (h : (a.tryEat k).1 = .waiting) :
    (k.turnType ≠ a.turn ∨ (k.counts a).inThisTurn = 0) ∧ (a.tryEat k).2 = k := by
  by_cases hwait : k.turnType ≠ a.turn ∨ (k.counts a).inThisTurn = 0
  · exact ⟨hwait, congrArg Prod.snd (if_pos hwait)⟩
  · rw [show a.tryEat k = _ from if_neg hwait] at h
    cases h

/-- Nobody waits in a kitchen that is nobody's. -/
theorem Animal.arrive_waits (h : (a.arrive k).1 = .waiting) : k.turnType ≠ .nocatmouse ∧
      (a.arrive k).2 = k.modify a fun c => { c with waitCount := int (c.waitCount + 1) } := by
  by_cases hno : k.turnType = .nocatmouse
  · have heq : a.arrive k = a.tryEat (Kitchen.giveTurn _ a) := if_pos hno
    rw [heq] at h
    rcases (tryEat_waits h).1 with hturn | hroom
    · exact absurd rfl hturn
    · rw [Kitchen.giveTurn, Kitchen.modify_counts_self] at hroom
      cases hroom
  · have heq : a.arrive k = a.tryEat _ := if_neg hno
    rw [heq] at h ⊢
    exact ⟨hno, (tryEat_waits h).2⟩

/-- The mice are looked at first. -/
theorem Kitchen.changeTurn_cases (k : Kitchen) :
    (∃ a, k.wait a ≠ 0 ∧ (a = .cat → k.wait .mouse = 0) ∧
      k.changeTurn = (k.giveTurn a, [.broadcast a.cv])) ∨
    (∀ a, k.wait a = 0) ∧ k.changeTurn = ({ k with turnType := .nocatmouse }, []) := by
  unfold Kitchen.changeTurn
  by_cases hmouse : (k.counts .mouse).waitCount ≠ 0
  · rw [if_pos hmouse]
    exact .inl ⟨.mouse, hmouse, nofun, rfl⟩
  · rw [if_neg hmouse]
    by_cases hcat : (k.counts .cat).waitCount ≠ 0
    · rw [if_pos hcat]
      exact .inl ⟨.cat, hcat, fun _ => not_not.1 hmouse, rfl⟩
    · rw [if_neg hcat]
      refine .inr ⟨?_, rfl⟩
      intro a
      cases a
      · exact not_not.1 hcat
      · exact not_not.1 hmouse

/-- When the last one leaves the turn is passed on. -/
theorem Animal.leave_last {d : Int} (h : k.Ok) (hturn : k.turnType = a.turn) (hd : IsDish d)
    (hbusy : k.busy d = 1) (hlast : ∀ e, (a.leave d k).1.busy e = 0) :
    ∃ (k1 : Kitchen) (ws : List Wake), a.leave d k = (k1.changeTurn.1, ws ++ k1.changeTurn.2) ∧
      k1.wait = update k.wait a (int (k.wait a - 1)) := by
  obtain ⟨hdish, hturn', hothers, hleft⟩ := a.callNext_spec d k
  have hok := h.freed hturn hd hbusy hdish hturn' hothers hleft
  have heat := (hok.fit a).eat (hturn'.trans hturn)
  have hwait := wait_leave (a := a) (d := d) (k := k)
  unfold Animal.leave at hlast hwait ⊢
  dsimp only at hlast hwait ⊢
  split at hlast
  · rename_i h0
    rw [if_pos h0] at hwait ⊢
    rw [Kitchen.wait_changeTurn] at hwait
    exact ⟨_, _, rfl, hwait⟩
  · rename_i hmore
    refine absurd ?_ hmore
    rw [heat]
    exact congrArg₂ (· + ·) (hlast 1) (hlast 2)

/-- It stays `b`'s turn, and whoever comes to a dish takes one of its places. -/
def Animal.Seats (b : Animal) (k : Kitchen) (r : Pc × Kitchen) : Prop :=
  r.2.turnType = b.turn ∧
    ((r.2.counts b).inThisTurn = (k.counts b).inThisTurn ∧ (∀ d, r.1 ≠ .eating d) ∨
      (r.2.counts b).inThisTurn = (k.counts b).inThisTurn - 1)

theorem Animal.tryEat_seats {b : Animal} (h : k.Ok) (hturn : k.turnType = b.turn) :
    b.Seats k (a.tryEat k) := by
  unfold Animal.tryEat
  by_cases hwait : k.turnType ≠ a.turn ∨ (k.counts a).inThisTurn = 0
  · rw [if_pos hwait]
    exact ⟨hturn, .inl ⟨rfl, nofun⟩⟩
  · obtain rfl : a = b :=
      Animal.turn_injective ((not_not.1 (not_or.1 hwait).1).symm.trans hturn)
    obtain ⟨hr0, hr2⟩ := (h.fit a).room hturn
    have heat := (h.fit a).eat hturn
    have hd1 := h.dish1
    have hd2 := h.dish2
    rw [if_neg hwait]
    refine ⟨?_, .inr ?_⟩
    · dsimp only
      rw [Kitchen.turnType_takeDish]
      exact hturn
    · dsimp only
      rw [Kitchen.counts_takeDish, Kitchen.modify_counts_self]
      exact int_eq (by omega)

theorem Animal.arrive_seats {b : Animal} (h : k.Ok) (hturn : k.turnType = b.turn) :
    b.Seats k (a.arrive k) := by
  have hsome : k.turnType ≠ .nocatmouse := by
    rw [hturn]
    cases b <;> decide
  have hok : (k.modify a fun c => { c with waitCount := int (c.waitCount + 1) }).Ok :=
    h.modify ⟨(h.fit a).rest, (h.fit a).eat, (h.fit a).room⟩
  have heq : a.arrive k = a.tryEat _ := if_neg hsome
  rw [heq]
  obtain ⟨hturn', hroom⟩ := tryEat_seats (a := a) hok hturn
  rw [Kitchen.modify_proj Counts.inThisTurn rfl] at hroom
  exact ⟨hturn', hroom⟩

/-- With an animal of the other kind inside, nobody is called in, and the turn is
passed on by the last one only. -/
theorem Animal.leave_waited {d : Int} (h : k.Ok) (hturn : k.turnType = a.turn)
    (hother : k.wait a.other ≠ 0) : ((a.leave d k).1.turnType = k.turnType ∧
      ((a.leave d k).1.counts a).inThisTurn = (k.counts a).inThisTurn) ∨
    (k.counts a).eatCount = 1 ∧ ∃ k1 : Kitchen, (a.leave d k).1 = k1.changeTurn.1 ∧
      k1.wait = update k.wait a (int (k.wait a - 1)) := by
  have hwait := wait_leave (a := a) (d := d) (k := k)
  have heat := (h.fit a).eat hturn
  obtain ⟨hr0, hr2⟩ := (h.fit a).room hturn
  have hd1 := h.dish1
  have hd2 := h.dish2
  have hne : a.other ≠ a := by cases a <;> decide
  unfold Animal.leave at hwait ⊢
  dsimp only at hwait ⊢
  have hcall : ∀ f, a.callNext ((k.freeDish d).modify a f) = ((k.freeDish d).modify a f, []) := by
    intro f
    refine if_neg ?_
    rw [Kitchen.modify_counts_of_ne _ _ hne, Kitchen.counts_freeDish]
    exact fun hno => hother hno.1
  rw [hcall] at hwait ⊢
  split
  · rename_i h0
    rw [if_pos h0, Kitchen.wait_changeTurn] at hwait
    rw [Kitchen.modify_counts_self, Kitchen.counts_freeDish] at h0
    dsimp only at h0
    rw [int_eq (by omega)] at h0
    exact .inr ⟨by omega, _, rfl, hwait⟩
  · refine .inl ⟨Kitchen.turnType_freeDish, ?_⟩
    rw [Kitchen.modify_counts_self, Kitchen.counts_freeDish]

end Regions

/-- Between the first `lock_acquire` and the second: the thread is in its kind's
waiting count. -/
def Pc.Inside : Pc → Prop
  | .waiting => True
  | .woken => True
  | .eating _ => True
  | _ => False

/-- One of the animals that `wait a` counts. -/
def InsideOf {ι : Type} (kind : ι → Animal) (a : Animal) (i : ι) (pc : Pc) : Prop :=
  kind i = a ∧ pc.Inside

section Threads

variable {ι : Type} [DecidableEq ι] {kind : ι → Animal} {s s' : System ι} {pc pc' : ι → Pc}

/-- A wake changes nothing but the state of threads that sleep. -/
theorem Wake.Does.woken {w : Wake} (h : w.Does kind pc pc') (i : ι) :
    pc' i = pc i ∨ pc i = .waiting ∧ pc' i = .woken := by
  cases h with
  | signal j hj =>
    by_cases hij : i = j
    · subst hij
      exact .inr ⟨hj.1, update_self ..⟩
    · exact .inl (update_of_ne hij _ _)
  | nobody => exact .inl rfl
  | @broadcast cv _ _ hin hout =>
    by_cases hi : Sleeps kind cv pc i
    · exact .inr ⟨hi.1, hin i hi⟩
    · exact .inl (hout i hi)

variable {ws : List Wake} {i : ι} {x : Pc} {k k1 : Kitchen} {a : Animal} {d : Int}

theorem Wakes.woken (h : Wakes kind ws pc pc') (i : ι) :
    pc' i = pc i ∨ pc i = .waiting ∧ pc' i = .woken := by
  induction h with
  | nil => exact .inl rfl
  | cons hw _ ih =>
    rcases hw.woken i with heq | ⟨hwait, hwoken⟩
    · rw [← heq]
      exact ih
    · refine .inr ⟨hwait, ?_⟩
      rcases ih with heq | ⟨hwait', _⟩
      · rw [heq, hwoken]
      · rw [hwoken] at hwait'
        cases hwait'

theorem Wakes.inside (h : Wakes kind ws pc pc') (i : ι) : (pc' i).Inside ↔ (pc i).Inside := by
  rcases h.woken i with heq | ⟨hwait, hwoken⟩
  · rw [heq]
  · rw [hwait, hwoken]
    exact .rfl

/-- A broadcast leaves nobody asleep on its condition variable. -/
theorem Wakes.broadcast {cv : Cv} (h : Wakes kind (ws ++ [.broadcast cv]) pc pc') (i : ι) :
    ¬ Sleeps kind cv pc' i := by
  induction ws generalizing pc with
  | nil =>
    cases h with | cons hw hrest =>
    cases hrest
    cases hw with | broadcast hin hout =>
    intro hs
    by_cases hi : Sleeps kind cv pc i
    · rw [Sleeps, hin i hi] at hs
      cases hs.1
    · rw [Sleeps, hout i hi] at hs
      exact hi hs
  | cons w ws ih =>
    cases h with | cons _ hrest =>
    exact ih hrest

/-- The waiting counts are right, and within the range of an `int`. -/
def System.Counted (kind : ι → Animal) (s : System ι) : Prop :=
  ∀ a, ∃ n : ℕ, Headcount (InsideOf kind a) s.pc n ∧ s.kitchen.wait a = n ∧ n < 2147483648

/-- The animals inside of each kind can be counted with an `int`. -/
def System.Fits (kind : ι → Animal) (s : System ι) : Prop :=
  ∀ a, {i | InsideOf kind a i (s.pc i)}.encard < 2147483648

/-- A step in which no `int` goes over. -/
def System.Move (kind : ι → Animal) (s s' : System ι) : Prop := s.Step kind s' ∧ s'.Fits kind

def System.Runs (kind : ι → Animal) : System ι → Prop :=
  Relation.ReflTransGen (System.Move kind) System.initial

omit [DecidableEq ι] in
/-- So they can when there are fewer than `2 ^ 31` threads of each kind. -/
theorem System.Fits.of_few (hfew : ∀ a, {i | kind i = a}.encard < 2147483648) (s : System ι) :
    s.Fits kind := by
  intro a
  refine lt_of_le_of_lt (Set.encard_le_encard ?_) (hfew a)
  intro i hi
  exact hi.1

theorem System.Runs.of_few (hfew : ∀ a, {i | kind i = a}.encard < 2147483648)
    (h : s.Reachable kind) : s.Runs kind :=
  Relation.ReflTransGen.mono (fun _ s' hstep => ⟨hstep, .of_few hfew s'⟩) _ _ h

theorem System.Runs.reachable (h : s.Runs kind) : s.Reachable kind :=
  Relation.ReflTransGen.mono (fun _ _ hstep => hstep.1) _ _ h

omit [DecidableEq ι] in
theorem System.Counted.initial : System.Counted kind (System.initial : System ι) := by
  intro a
  exact ⟨0, Headcount.zero fun _ h => h.2, rfl, by decide⟩

/-- How one kind's count goes along with a thread of that kind. -/
theorem System.Counted.goes {w : Int} (h : s.Counted kind)
    (hk : k.wait = update s.kitchen.wait (kind i) w)
    (hi : ∀ n : ℕ, Headcount (InsideOf kind (kind i)) s.pc n → s.kitchen.wait (kind i) = n →
      n < 2147483648 → ∃ m : ℕ, Headcount (InsideOf kind (kind i)) (update s.pc i x) m ∧ w = m ∧
          m < 2147483648) : System.Counted kind ⟨k, update s.pc i x⟩ := by
  intro a
  obtain ⟨n, hn, hwait, hlt⟩ := h a
  by_cases ha : a = kind i
  · subst ha
    rw [hk, update_self]
    exact hi n hn hwait hlt
  · refine ⟨n, hn.stays ?_, ?_, hlt⟩
    · exact ⟨fun h => absurd h.1.symm ha, fun h => absurd h.1.symm ha⟩
    · rw [hk, update_of_ne ha, hwait]

/-- A thread that stays inside, or outside, and a count that stays with it. -/
theorem System.Counted.stays (h : s.Counted kind) (hk : k.wait = s.kitchen.wait)
    (hi : x.Inside ↔ (s.pc i).Inside) : System.Counted kind ⟨k, update s.pc i x⟩ := by
  refine h.goes (hk.trans (update_eq_self _ _).symm) ?_
  intro n hn hwait hlt
  exact ⟨n, hn.stays (and_congr_right fun _ => hi), hwait, hlt⟩

theorem System.Counted.step (h : s.Counted kind) (hstep : s.Step kind s') (hfits : s'.Fits kind) :
    s'.Counted kind := by
  cases hstep with | @mk i x k ws pcs hrun hw =>
  have hact := Animal.acts hrun
  suffices hc : System.Counted kind ⟨k, update s.pc i x⟩ by
    intro a
    obtain ⟨n, hn, hrest⟩ := hc a
    exact ⟨n, hn.congr fun j => and_congr_right fun _ => hw.inside j, hrest⟩
  generalize hpc : s.pc i = p at hact
  cases hact with
  | arrives =>
    have hin : InsideOf kind (kind i) i ((kind i).arrive s.kitchen).1 := by
      refine ⟨rfl, ?_⟩
      rcases Animal.arrive_pc (a := kind i) (k := s.kitchen) with hx | ⟨d, hx⟩ <;> rw [hx] <;>
        trivial
    refine h.goes Animal.wait_arrive ?_
    intro n hn hnwait hlt
    have hmore := hn.enters (fun hno => (hpc ▸ hno.2 : Pc.Inside .start)) hin
    have hlt' : n + 1 < 2147483648 := by
      have hlt' := hfits (kind i)
      have hcard : {j | InsideOf kind (kind i) j (pcs j)}.encard = (n + 1 : ℕ) :=
        hmore.congr fun j => and_congr_right fun _ => hw.inside j
      rw [hcard] at hlt'
      exact_mod_cast hlt'
    refine ⟨n + 1, hmore, ?_, hlt'⟩
    rw [hnwait, int_eq (by omega)]
    rfl
  | tries =>
    refine h.stays Animal.wait_tryEat ?_
    rcases Animal.tryEat_pc (a := kind i) (k := s.kitchen) with hx | ⟨d, hx⟩ <;>
      rw [hx, hpc] <;> exact .rfl
  | leaves d =>
    refine h.goes Animal.wait_leave ?_
    intro n hn hnwait hlt
    have hin : InsideOf kind (kind i) i (s.pc i) := ⟨rfl, by rw [hpc]; trivial⟩
    have hpos := hn.pos hin
    refine ⟨n - 1, hn.leaves hin fun hout => hout.2, ?_⟩
    rw [hnwait, int_eq (by omega)]
    omega
  | ends =>
    refine h.stays (Kitchen.wait_modify rfl) ?_
    rw [hpc]
    exact .rfl

/-! ## Somebody goes on -/

omit [DecidableEq ι] in
/-- The count of a kind is zero when none of them is inside, and only then. -/
theorem System.Counted.wait_eq_zero (h : s.Counted kind) :
    s.kitchen.wait a = 0 ↔ ∀ i, kind i = a → ¬ (s.pc i).Inside := by
  obtain ⟨n, hn, hwait, -⟩ := h a
  constructor
  · intro h0 i hi hin
    have hpos := hn.pos (i := i) ⟨hi, hin⟩
    omega
  · intro hno
    have h0 := hn.eq_zero fun i hi => hno i hi.1 hi.2
    omega

/-- With no turn given nobody is inside. With the turn given and nobody eating,
there is a place left and somebody awake to take it. -/
structure System.Woken (kind : ι → Animal) (s : System ι) : Prop where
  nobody : s.kitchen.turnType = .nocatmouse → ∀ i, ¬ (s.pc i).Inside
  somebody : ∀ a : Animal, s.kitchen.turnType = a.turn → (∀ i d, s.pc i ≠ .eating d) →
    (s.kitchen.counts a).inThisTurn ≠ 0 ∧ ∃ i, kind i = a ∧ s.pc i = .woken

omit [DecidableEq ι] in
theorem System.Woken.initial : System.Woken kind (System.initial : System ι) where
  nobody _ _ h := h
  somebody a hturn := by
    cases a <;> cases hturn

omit [DecidableEq ι] in
/-- As long as somebody eats there is nothing to show. -/
theorem System.Woken.of_eats (h : s.Inv kind) (hi : s.pc i = .eating d) : s.Woken kind where
  nobody hno := by
    have hturn := h.laid.turn hi
    rw [hno] at hturn
    cases hkind : kind i <;> rw [hkind] at hturn <;> cases hturn
  somebody _ _ hnone := absurd hi (hnone i d)

omit [DecidableEq ι] in
/-- With nobody at the dishes none of them is busy. -/
theorem System.Inv.none_busy (h : s.Inv kind) (hnone : ∀ i d, s.pc i ≠ .eating d) (d : Int) :
    s.kitchen.busy d = 0 := by
  have h1 : s.kitchen.dish1Busy ≠ 1 := fun hbusy =>
    have ⟨i, hi⟩ := (h.laid.busy 1 (.inl rfl)).1 hbusy
    hnone i 1 hi
  have h2 : s.kitchen.dish2Busy ≠ 1 := fun hbusy =>
    have ⟨i, hi⟩ := (h.laid.busy 2 (.inr rfl)).1 hbusy
    hnone i 2 hi
  have hd1 := h.ok.dish1
  have hd2 := h.ok.dish2
  exact h.ok.busy_of_empty (by omega) d

/-- A thread has gone to sleep, or on its way out, that nobody counts on. -/
theorem System.Woken.moves (h : s.Woken kind) (hnone : ∀ j d, s.pc j ≠ .eating d)
    (hturn : k.turnType = s.kitchen.turnType)
    (hroom : ∀ a, (k.counts a).inThisTurn = (s.kitchen.counts a).inThisTurn)
    (hin : k.turnType = .nocatmouse → ¬ x.Inside)
    (hi : k.turnType = (kind i).turn → s.pc i ≠ .woken) :
    System.Woken kind ⟨k, update s.pc i x⟩ where
  nobody hno j := by
    by_cases hj : j = i
    · subst hj
      dsimp only
      rw [update_self]
      exact hin hno
    · dsimp only
      rw [update_of_ne hj]
      exact h.nobody (hturn ▸ hno) j
  somebody a ha _ := by
    obtain ⟨hplace, j, hj, hwoken⟩ := h.somebody a (hturn ▸ ha) hnone
    refine ⟨(hroom a).symm ▸ hplace, j, hj, ?_⟩
    have hji : j ≠ i := by
      intro hji
      subst hji
      exact hi (hj ▸ ha) hwoken
    dsimp only
    rw [update_of_ne hji]
    exact hwoken

/-- The last one leaves: everybody of the kind that gets the turn is awake. -/
theorem System.Woken.passed (hc : s'.Counted kind) (hk : s'.kitchen = k1.changeTurn.1)
    (hnone : ∀ i d, s'.pc i ≠ .eating d) (hw : Wakes kind (ws ++ k1.changeTurn.2) pc s'.pc) :
    s'.Woken kind := by
  have hwait : s'.kitchen.wait = k1.wait := hk ▸ Kitchen.wait_changeTurn
  obtain ⟨a, hpos, -, heq⟩ | ⟨hzero, heq⟩ := k1.changeTurn_cases
  · rw [heq] at hk hw
    refine ⟨?_, ?_⟩
    · intro hno
      rw [hk] at hno
      cases a <;> cases hno
    · intro b hb _
      rw [hk] at hb
      obtain rfl : a = b := Animal.turn_injective hb
      have hsome : ¬ ∀ i, kind i = a → ¬ (s'.pc i).Inside := by
        rw [← hc.wait_eq_zero, hwait]
        exact hpos
      simp only [not_forall, not_not] at hsome
      obtain ⟨i, hi, hin⟩ := hsome
      refine ⟨?_, i, hi, ?_⟩
      · rw [hk]
        simp [Kitchen.giveTurn]
      · have hawake := hw.broadcast i
        cases hpc : s'.pc i with
        | woken => rfl
        | waiting => exact absurd ⟨hpc, congrArg Animal.cv hi⟩ hawake
        | eating d => exact absurd hpc (hnone i d)
        | start => rw [hpc] at hin; exact hin.elim
        | left => rw [hpc] at hin; exact hin.elim
        | finished => rw [hpc] at hin; exact hin.elim
  · refine ⟨?_, ?_⟩
    · intro _ i
      refine hc.wait_eq_zero.1 ?_ i rfl
      rw [hwait]
      exact hzero (kind i)
    · intro a ha
      rw [hk, heq] at ha
      cases a <;> cases ha

theorem System.Woken.step (h : s.Woken kind) (hinv : s.Inv kind) (hc : s'.Counted kind)
    (hstep : s.Step kind s') : s'.Woken kind := by
  have hinv' := hinv.step hstep
  by_cases heats : ∃ i d, s'.pc i = .eating d
  · obtain ⟨i, d, hi⟩ := heats
    exact .of_eats hinv' hi
  have hnone' : ∀ i d, s'.pc i ≠ .eating d := fun i d hi => heats ⟨i, d, hi⟩
  cases hstep with | @mk i x k ws pcs hrun hw =>
  have hact := Animal.acts hrun
  -- if the thread has not been at a dish, nobody has
  have hnone : (∀ d, s.pc i ≠ .eating d) → ∀ j d, s.pc j ≠ .eating d := by
    intro hi j d hj
    refine hnone' j d ((hw.eating j d).2 ?_)
    have hji : j ≠ i := by
      intro hji
      exact hi d (hji ▸ hj)
    rw [update_of_ne hji]
    exact hj
  have hx : ∀ d, x ≠ .eating d := by
    intro d hx
    refine hnone' i d ((hw.eating i d).2 ?_)
    rw [update_self, hx]
  generalize hpc : s.pc i = p at hact
  cases hact with
  | arrives =>
    cases hw
    have hwait := Animal.arrive_pc.resolve_right fun heats => heats.elim hx
    obtain ⟨hturn, hk⟩ := Animal.arrive_waits hwait
    rw [hk, hwait]
    exact h.moves (hnone (by simp [hpc])) rfl (Kitchen.modify_proj Counts.inThisTurn rfl)
      (absurd · hturn) (by simp [hpc])
  | tries =>
    cases hw
    have hwait := Animal.tryEat_pc.resolve_right fun heats => heats.elim hx
    obtain ⟨hgo, hk⟩ := Animal.tryEat_waits hwait
    rw [hk, hwait]
    have hnone := hnone (by simp [hpc])
    refine h.moves hnone rfl (fun _ => rfl) ?_ ?_
    · intro hno
      exact absurd (by rw [hpc]; trivial) (h.nobody hno i)
    · intro hturn
      exact absurd hgo (not_or.2 ⟨not_not.2 hturn, (h.somebody _ hturn hnone).1⟩)
  | leaves d =>
    have hd := hinv.laid.isDish hpc
    obtain ⟨k1, ws', hleave, -⟩ := Animal.leave_last hinv.ok (hinv.laid.turn hpc) hd
      ((hinv.laid.busy d hd).2 ⟨i, hpc⟩) (hinv'.none_busy hnone')
    rw [hleave] at hw
    have hk : ((kind i).leave d s.kitchen).1 = k1.changeTurn.1 := by rw [hleave]
    exact .passed hc hk hnone' hw
  | ends =>
    cases hw
    exact h.moves (hnone (by simp [hpc])) rfl (Kitchen.modify_proj Counts.inThisTurn rfl)
      (fun _ hin => hin) (by simp [hpc])

theorem System.Runs.counted (h : s.Runs kind) : s.Counted kind := by
  induction h with
  | refl => exact .initial
  | tail _ hstep ih => exact ih.step hstep.1 hstep.2

theorem System.Runs.woken (h : s.Runs kind) : s.Woken kind := by
  induction h with
  | refl => exact .initial
  | tail hrun hstep ih =>
    exact ih.step (.of_reachable (System.Runs.reachable hrun))
      (System.Runs.counted (hrun.tail hstep)) hstep.1

/-- Between its first `lock_acquire` and its end. -/
def System.Underway (s : System ι) (i : ι) : Prop := s.pc i ≠ .start ∧ s.pc i ≠ .finished

/-- Some threads have started and not finished, and all of them are asleep. -/
def System.Deadlocked (kind : ι → Animal) (s : System ι) : Prop :=
  (∃ i, s.Underway i) ∧ ∀ i, s.Underway i → ∃ cv, Sleeps kind cv s.pc i

/-- In no state of any run are all the threads asleep that are underway. -/
theorem not_deadlocked (h : s.Runs kind) : ¬ s.Deadlocked kind := by
  rintro ⟨⟨i, hi⟩, hall⟩
  have hwait : ∀ j, s.Underway j → s.pc j = .waiting := by
    intro j hj
    obtain ⟨_, hsleep⟩ := hall j hj
    exact hsleep.1
  have hnone : ∀ j d, s.pc j ≠ .eating d := by
    intro j d hj
    have hw := hwait j ⟨by simp [hj], by simp [hj]⟩
    rw [hj] at hw
    cases hw
  -- whoever has the turn has somebody awake
  have hturn : ∀ a : Animal, s.kitchen.turnType ≠ a.turn := by
    intro a ha
    obtain ⟨-, j, -, hj⟩ := h.woken.somebody a ha hnone
    have hw := hwait j ⟨by simp [hj], by simp [hj]⟩
    rw [hj] at hw
    cases hw
  cases hno : s.kitchen.turnType with
  | nocatmouse =>
    refine h.woken.nobody hno i ?_
    rw [hwait i hi]
    trivial
  | cats => exact hturn .cat hno
  | mice => exact hturn .mouse hno

/-! ## Whose turn it is next -/

/-- The thread has come to a dish in this step. -/
def System.Enters (s s' : System ι) (i : ι) : Prop := (∀ d, ¬ s.Eats i d) ∧ ∃ d, s'.Eats i d

/-- Along steps of `R`, `n` animals of the other kind come in from `s₀` on, and it is
not `a`'s turn yet. -/
inductive System.Bypassed (kind : ι → Animal) (R : System ι → System ι → Prop) (a : Animal)
    (s₀ : System ι) : ℕ → System ι → Prop where
  | refl : System.Bypassed kind R a s₀ 0 s₀
  | enters {n : ℕ} {s s' : System ι} {i : ι} : System.Bypassed kind R a s₀ n s → R s s' →
      kind i = a.other → s.Enters s' i → s'.kitchen.turnType ≠ a.turn →
      System.Bypassed kind R a s₀ (n + 1) s'
  | other {n : ℕ} {s s' : System ι} : System.Bypassed kind R a s₀ n s → R s s' →
      (∀ i, kind i = a.other → ¬ s.Enters s' i) → s'.kitchen.turnType ≠ a.turn →
      System.Bypassed kind R a s₀ n s'

/-- When the last mouse at the dishes leaves and a cat waits, no other mouse does. Nothing
is asked of the cats. -/
def System.Yields (kind : ι → Animal) (a : Animal) (s s' : System ι) : Prop :=
  a = .cat → ∀ i d, kind i = .mouse → s.Eats i d → s'.pc i = .left →
    (s.kitchen.counts .mouse).eatCount = 1 →
    s.kitchen.wait .cat ≠ 0 → s.kitchen.wait .mouse = 1

omit [DecidableEq ι] in
/-- The turn passes to the kind that waits. -/
theorem System.Yields.turn (hyield : s.Yields kind a s') (hi : kind i = a.other)
    (heats : s.Eats i d) (hleft : s'.pc i = .left)
    (hlast : (s.kitchen.counts a.other).eatCount = 1) (hwait : s.kitchen.wait a ≠ 0)
    (hk : k1.wait = update s.kitchen.wait a.other (int (s.kitchen.wait a.other - 1))) :
    k1.changeTurn.1.turnType = a.turn := by
  have hne : a ≠ a.other := by cases a <;> decide
  have hwait1 : k1.wait a ≠ 0 := by
    rw [hk, update_of_ne hne]
    exact hwait
  obtain ⟨b, hpos, hmice, heq⟩ | ⟨hzero, -⟩ := k1.changeTurn_cases
  · rw [heq]
    cases a with
    | mouse =>
      cases b with
      | mouse => rfl
      | cat => exact absurd (hmice rfl) hwait1
    | cat =>
      cases b with
      | cat => rfl
      | mouse =>
        -- the mouse that leaves was the only one
        have hone := hyield rfl i d hi heats hleft hlast hwait
        refine absurd ?_ hpos
        rw [hk, show Animal.other .cat = .mouse from rfl, update_self, hone]
        rfl
  · exact absurd (hzero a) hwait1

/-- What one step leaves of the places in the turn, with `j` inside and not of the kind
whose turn it is. -/
theorem System.Step.bypass {j : ι} (hinv : s.Inv kind) (hc : s.Counted kind)
    (hturn : s.kitchen.turnType = a.other.turn) (hj : kind j = a) (hin : (s.pc j).Inside)
    (hstep : s.Step kind s') (hyield : s.Yields kind a s')
    (hturn' : s'.kitchen.turnType ≠ a.turn) :
    s'.kitchen.turnType = a.other.turn ∧ (s'.pc j).Inside ∧
      ((s'.kitchen.counts a.other).inThisTurn = (s.kitchen.counts a.other).inThisTurn ∧
          (∀ i, ¬ s.Enters s' i) ∨
        (s'.kitchen.counts a.other).inThisTurn = (s.kitchen.counts a.other).inThisTurn - 1) := by
  have hwait : s.kitchen.wait a ≠ 0 := fun h0 => hc.wait_eq_zero.1 h0 j hj hin
  cases hstep with | @mk i x k ws pcs hrun hw =>
  have hact := Animal.acts hrun
  -- only thread `i` can have come in
  have henters : (∀ d, x ≠ .eating d) → ∀ l, ¬ s.Enters ⟨k, pcs⟩ l := by
    rintro hx l ⟨hno, d, hd⟩
    have hl := (hw.eating l d).1 hd
    by_cases hli : l = i
    · subst hli
      rw [update_self] at hl
      exact hx d hl
    · rw [update_of_ne hli] at hl
      exact hno d hl
  have hinside : (i = j → x.Inside) → (pcs j).Inside := by
    intro hx
    rw [hw.inside j]
    by_cases hji : j = i
    · subst hji
      rw [update_self]
      exact hx rfl
    · rw [update_of_ne hji]
      exact hin
  suffices hseats : a.other.Seats s.kitchen (x, k) ∧ (i = j → x.Inside) by
    obtain ⟨⟨hturn, hroom⟩, hx⟩ := hseats
    exact ⟨hturn, hinside hx, hroom.imp_left fun h => ⟨h.1, henters h.2⟩⟩
  generalize hpc : s.pc i = p at hact
  cases hact with
  | arrives =>
    refine ⟨Animal.arrive_seats hinv.ok hturn, fun hij => ?_⟩
    rw [← hij, hpc] at hin
    exact hin.elim
  | tries =>
    refine ⟨Animal.tryEat_seats hinv.ok hturn, fun _ => ?_⟩
    rcases Animal.tryEat_pc (a := kind i) (k := s.kitchen) with hx | ⟨d, hx⟩ <;> rw [hx] <;>
      trivial
  | leaves d =>
    have hkind : a.other = kind i := Animal.turn_injective (hturn.symm.trans (hinv.laid.turn hpc))
    have hleft : pcs i = .left := by
      rcases hw.woken i with heq | ⟨hsleep, -⟩
      · rw [heq, update_self]
      · rw [update_self] at hsleep
        cases hsleep
    have hback : a.other.other = a := by cases a <;> rfl
    rw [← hkind] at hturn' hyield ⊢
    refine ⟨?_, fun hij => ?_⟩
    · rcases Animal.leave_waited (a := a.other) hinv.ok hturn (hback.symm ▸ hwait) with
        ⟨hsame, hroom⟩ | ⟨hlast, k1, hk, hw1⟩
      · exact ⟨hsame.trans hturn, .inl ⟨hroom, by simp⟩⟩
      · refine absurd ?_ hturn'
        rw [hk]
        exact hyield.turn hkind.symm hpc hleft hlast hwait hw1
    · rw [hij, hj] at hkind
      cases a <;> cases hkind
  | ends =>
    refine ⟨⟨hturn, .inl ⟨?_, by simp⟩⟩, fun hij => ?_⟩
    · dsimp only
      apply Kitchen.modify_proj Counts.inThisTurn
      rfl
    · rw [← hij, hpc] at hin
      exact hin.elim

/-- A step in which the other kind lets `a` in. -/
def System.Polite (kind : ι → Animal) (a : Animal) (s s' : System ι) : Prop :=
  s.Move kind s' ∧ s.Yields kind a s'

/-- Once an animal is inside while the other kind has the turn, the places left in that turn
are all that the other kind gets. -/
theorem bypassed_le_two {a : Animal} {i : ι} {n : ℕ} {s₀ : System ι}
    (hrun : s₀.Runs kind) (hi : kind i = a) (hwaits : s₀.pc i = .waiting ∨ s₀.pc i = .woken)
    (hturn : s₀.kitchen.turnType = a.other.turn)
    (h : System.Bypassed kind (System.Polite kind a) a s₀ n s) : n ≤ 2 := by
  have hin0 : (s₀.pc i).Inside := by
    rcases hwaits with hw | hw <;> rw [hw] <;> trivial
  have hroom : ∀ {s : System ι}, s.Inv kind → s.kitchen.turnType = a.other.turn →
      0 ≤ (s.kitchen.counts a.other).inThisTurn ∧ (s.kitchen.counts a.other).inThisTurn ≤ 2 := by
    intro s hinv hturn
    obtain ⟨hr0, hr2⟩ := (hinv.ok.fit a.other).room hturn
    have heat := (hinv.ok.fit a.other).eat hturn
    have hd1 := hinv.ok.dish1
    have hd2 := hinv.ok.dish2
    omega
  -- the entries and the places left are never more than the places at the start
  suffices hinv : s.Runs kind ∧ s.kitchen.turnType = a.other.turn ∧ (s.pc i).Inside ∧
      n + (s.kitchen.counts a.other).inThisTurn ≤ 2 by
    obtain ⟨hs, hturn, -, hle⟩ := hinv
    have := (hroom (.of_reachable hs.reachable) hturn).1
    omega
  induction h with
  | refl =>
    refine ⟨hrun, hturn, hin0, ?_⟩
    have := (hroom (.of_reachable hrun.reachable) hturn).2
    omega
  | enters _ hstep hk hent hturn' ih =>
    obtain ⟨hs, hturn, hin, hle⟩ := ih
    obtain ⟨hsame, hin', hrest⟩ := hstep.1.1.bypass (.of_reachable hs.reachable)
      hs.counted hturn hi hin hstep.2 hturn'
    refine ⟨hs.tail hstep.1, hsame, hin', ?_⟩
    rcases hrest with ⟨-, hno⟩ | hless
    · exact absurd hent (hno _)
    · omega
  | other _ hstep hno hturn' ih =>
    obtain ⟨hs, hturn, hin, hle⟩ := ih
    obtain ⟨hsame, hin', hrest⟩ := hstep.1.1.bypass (.of_reachable hs.reachable)
      hs.counted hturn hi hin hstep.2 hturn'
    refine ⟨hs.tail hstep.1, hsame, hin', ?_⟩
    rcases hrest with ⟨heq, -⟩ | hless <;> omega

end Threads

/-! ## A cat among mice -/

/-- Thread 0 is a cat, the others are mice. -/
def oneCat {n : ℕ} (i : Fin (n + 1)) : Animal := if i = 0 then .cat else .mouse

theorem few_of_fin {n : ℕ} (kind : Fin n → Animal) (hn : n < 2147483648) (a : Animal) :
    {i | kind i = a}.encard < 2147483648 := by
  refine lt_of_le_of_lt (Set.encard_le_encard (Set.subset_univ _)) ?_
  rw [Set.encard_univ, ENat.card_eq_coe_fintype_card, Fintype.card_fin]
  exact_mod_cast hn

section Schedule

variable {ι : Type} [DecidableEq ι] {kind : ι → Animal} {s s' : System ι} {i : ι}

def Pc.isEating : Pc → Bool
  | .eating _ => true
  | _ => false

omit [DecidableEq ι] in
theorem System.enters_iff :
    s.Enters s' i ↔ (s.pc i).isEating = false ∧ (s'.pc i).isEating = true := by
  unfold System.Enters System.Eats
  cases s.pc i <;> cases s'.pc i <;> simp [Pc.isEating]

instance : Decidable (s.Enters s' i) := decidable_of_iff _ System.enters_iff.symm

instance {cv : Cv} {pc : ι → Pc} : Decidable (Sleeps kind cv pc i) :=
  inferInstanceAs (Decidable (_ ∧ _))

/-- The broadcasts of a step; a signal is taken to find nobody. -/
def wakeAll (kind : ι → Animal) : List Wake → (ι → Pc) → ι → Pc
  | [], pc => pc
  | .signal _ :: ws, pc => wakeAll kind ws pc
  | .broadcast cv :: ws, pc =>
    wakeAll kind ws fun i => if Sleeps kind cv pc i then .woken else pc i

/-- Thread `i` runs next. -/
def System.after (kind : ι → Animal) (s : System ι) (i : ι) : System ι :=
  match (kind i).thread (s.pc i) s.kitchen with
  | some (x, k, ws) => ⟨k, wakeAll kind ws (update s.pc i x)⟩
  | none => s

/-- It can, and gives no signal. -/
def System.canRun (kind : ι → Animal) (s : System ι) (i : ι) : Bool :=
  match (kind i).thread (s.pc i) s.kitchen with
  | some (_, _, ws) => ws.all fun w => w ≠ .signal .turn ∧ w ≠ .signal .done
  | none => false

theorem wakes_wakeAll {ws : List Wake} (h : ∀ w ∈ ws, w ≠ .signal .turn ∧ w ≠ .signal .done)
    (pc : ι → Pc) : Wakes kind ws pc (wakeAll kind ws pc) := by
  induction ws generalizing pc with
  | nil => exact .nil pc
  | cons w ws ih =>
    have hrest : ∀ w ∈ ws, _ := fun w hw => h w (List.mem_cons_of_mem _ hw)
    cases w with
    | signal cv => cases cv <;> simp at h
    | broadcast cv =>
      exact .cons (.broadcast (fun _ hi => if_pos hi) fun _ hi => if_neg hi) (ih hrest _)

theorem System.Step.after (h : s.canRun kind i = true) : s.Step kind (s.after kind i) := by
  unfold System.canRun at h
  unfold System.after
  split at h
  · rename_i x k ws heq
    refine .mk heq (wakes_wakeAll ?_ _)
    simpa using h
  · cases h

end Schedule

theorem not_deadlocked_one_cat :
    ∃ s : System (Fin 2), s.Runs oneCat ∧ s.pc 0 = .waiting ∧ ¬ s.Deadlocked oneCat := by
  have h : ∃ s : System (Fin 2), s.Runs oneCat ∧ s.pc 0 = .waiting := by
    refine ⟨_, .of_few (few_of_fin oneCat (by decide))
      ((Relation.ReflTransGen.refl.tail (.mk (i := 1) rfl (.nil _))).tail
        (.mk (i := 0) rfl (.nil _))), rfl⟩
  obtain ⟨s, hs, h0⟩ := h
  exact ⟨s, hs, h0, not_deadlocked hs⟩

/-- One cat inside. -/
def catCounts (mice : Counts) : Animal → Counts
  | .cat => ⟨1, 0, 0, 0⟩
  | .mouse => mice

/-- It is the mice's turn and the cat waits. -/
def miceTurn (dish1Busy dish2Busy : Int) (mice : Counts) (pc : Fin 4 → Pc) : System (Fin 5) where
  kitchen := ⟨.mice, dish1Busy, dish2Busy, catCounts mice⟩
  pc := Fin.cons .waiting pc

theorem System.Move.mice {s : System (Fin 5)} (i : Fin 5) {d1 d2 : Int} {c : Counts}
    {pc : Fin 4 → Pc} (h : s.canRun oneCat i = true ∧ ((s.after oneCat i).kitchen.turnType = .mice ∧
        (s.after oneCat i).kitchen.dish1Busy = d1 ∧ (s.after oneCat i).kitchen.dish2Busy = d2) ∧
      (s.after oneCat i).kitchen.counts .cat = ⟨1, 0, 0, 0⟩ ∧
      (s.after oneCat i).kitchen.counts .mouse = c ∧
      ∀ j, (s.after oneCat i).pc j = (Fin.cons .waiting pc : Fin 5 → Pc) j) :
    s.Move oneCat (miceTurn d1 d2 c pc) := by
  obtain ⟨hrun, ⟨hturn, hd1, hd2⟩, hcat, hmice, hpc⟩ := h
  have hcounts : (s.after oneCat i).kitchen.counts = catCounts c := by
    funext a
    cases a
    · exact hcat
    · exact hmice
  have heq : s.after oneCat i = miceTurn d1 d2 c pc := by
    unfold miceTurn
    rw [← funext hpc, ← hturn, ← hd1, ← hd2, ← hcounts]
  rw [← heq]
  exact ⟨.after hrun, .of_few (few_of_fin oneCat (by decide)) _⟩

/-- Mouse 1 eats and the cat waits. -/
def mouseEats : System (Fin 5) := miceTurn 1 0 ⟨1, 1, 1, 0⟩ ![.eating 1, .start, .start, .start]

theorem runs_mouseEats : mouseEats.Runs oneCat := by
  have hcomes : System.Move oneCat (System.initial.after oneCat 1) mouseEats :=
    .mice 0 (by decide)
  exact (Relation.ReflTransGen.refl.tail
    ⟨.after (by decide), .of_few (few_of_fin oneCat (by decide)) _⟩).tail hcomes

/-- Mouse 2 comes in and mouse 1 leaves while the cat waits. -/
theorem bypassed_le_two_one_mouse :
    ∃ s : System (Fin 5), mouseEats.Runs oneCat ∧ mouseEats.pc 0 = .waiting ∧ s.pc 1 = .left ∧
      System.Bypassed oneCat (System.Polite oneCat .cat) .cat mouseEats 1 s ∧ 1 ≤ 2 := by
  let s1 := miceTurn 1 1 ⟨2, 0, 2, 0⟩ ![.eating 1, .eating 2, .start, .start]
  let s2 := miceTurn 0 1 ⟨1, 0, 1, 0⟩ ![.left, .eating 2, .start, .start]
  have h1 : System.Bypassed oneCat (System.Polite oneCat .cat) .cat mouseEats 1 s1 :=
    System.Bypassed.refl.enters ⟨.mice 2 (by decide), fun _ i d _ _ hleft =>
      absurd hleft ((by decide : ∀ i, s1.pc i ≠ .left) i)⟩ (i := 2) rfl (by decide) (by decide)
  have h2 : System.Bypassed oneCat (System.Polite oneCat .cat) .cat mouseEats 1 s2 :=
    -- mouse 2 is still at its dish
    h1.other ⟨.mice 1 (by decide), fun _ i d _ _ _ hlast => absurd hlast (by decide)⟩
      (by decide) (by decide)
  exact ⟨s2, runs_mouseEats, rfl, rfl, h2,
    bypassed_le_two runs_mouseEats (i := 0) rfl (.inl rfl) rfl h2⟩

/-- While the cat waits mouse 2 comes in, and when mice 1 and 2 have left it is the mice's
turn again and mice 3 and 4 come in. -/
theorem cat_bypassed :
    ∃ s₀ s : System (Fin 5), s₀.Runs oneCat ∧ s₀.pc 0 = .waiting ∧
      s₀.kitchen.turnType = Animal.turn .mouse ∧
      System.Bypassed oneCat (System.Move oneCat) .cat s₀ 3 s := by
  let s₀ := mouseEats
  let s1 := miceTurn 1 1 ⟨2, 0, 2, 0⟩ ![.eating 1, .eating 2, .start, .start]
  let s2 := miceTurn 1 1 ⟨3, 0, 2, 0⟩ ![.eating 1, .eating 2, .waiting, .start]
  let s3 := miceTurn 1 1 ⟨4, 0, 2, 0⟩ ![.eating 1, .eating 2, .waiting, .waiting]
  let s4 := miceTurn 0 1 ⟨3, 0, 1, 0⟩ ![.left, .eating 2, .waiting, .waiting]
  let s5 := miceTurn 0 0 ⟨2, 2, 0, 0⟩ ![.left, .left, .woken, .woken]
  let s6 := miceTurn 1 0 ⟨2, 1, 1, 0⟩ ![.left, .left, .eating 1, .woken]
  let s7 := miceTurn 1 1 ⟨2, 0, 2, 0⟩ ![.left, .left, .eating 1, .eating 2]
  have h1 : System.Bypassed oneCat (System.Move oneCat) .cat s₀ 1 s1 :=
    System.Bypassed.refl.enters (.mice 2 (by decide)) (i := 2) rfl (by decide) (by decide)
  have h2 : System.Bypassed oneCat (System.Move oneCat) .cat s₀ 1 s2 :=
    h1.other (.mice 3 (by decide)) (by decide) (by decide)
  have h3 : System.Bypassed oneCat (System.Move oneCat) .cat s₀ 1 s3 :=
    h2.other (.mice 4 (by decide)) (by decide) (by decide)
  have h4 : System.Bypassed oneCat (System.Move oneCat) .cat s₀ 1 s4 :=
    h3.other (.mice 1 (by decide)) (by decide) (by decide)
  have h5 : System.Bypassed oneCat (System.Move oneCat) .cat s₀ 1 s5 :=
    h4.other (.mice 2 (by decide)) (by decide) (by decide)
  have h6 : System.Bypassed oneCat (System.Move oneCat) .cat s₀ 2 s6 :=
    h5.enters (.mice 3 (by decide)) (i := 3) rfl (by decide) (by decide)
  have h7 : System.Bypassed oneCat (System.Move oneCat) .cat s₀ 3 s7 :=
    h6.enters (.mice 4 (by decide)) (i := 4) rfl (by decide) (by decide)
  exact ⟨s₀, s7, runs_mouseEats, rfl, rfl, h7⟩

end Os161.Asst1
