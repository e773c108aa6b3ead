import Os161.Asst1.Catsem
import Os161.Lib.Headcount
import Os161.Proofs.Catlock

/-!
# The kitchen with a semaphore is safe without races

Three places in `catsem` and `mousesem` read a variable and act on it later: the test of the
room up to `catsInRoom++`, that increment and its decrement themselves, and the choice of a
dish. `Careful` is a step that does not end the first of these when the room is no longer
what it was, or begin one of the others while another thread is in the middle of it. Along
careful steps the counts of the animals in the room are exact (`Numbered`), the two kinds
keep apart from the test on (`Apart`), and the dishes are marked as they are used
(`Served`), where the semaphore sees to it that a thread that does not find the first dish
free finds the other one (`Tokens`).

Without that, two threads get through the test together.
-/

namespace Os161.Asst1

open Os161.Lib Function

namespace SemPc

/-- On the way in: the loop is over. -/
def Entering : SemPc → Prop
  | .unwait | .enterRead | .enterWrite _ => True
  | _ => False

/-- In the room's count. -/
def Counted : SemPc → Prop
  | .wait | .choose | .take _ | .eating _ | .doneRead | .doneWrite _ | .leaveRead
  | .leaveWrite _ => True
  | _ => False

/-- Between `P(mutex)` and `V(mutex)`. -/
def Holding : SemPc → Prop
  | .choose | .take _ | .eating _ | .doneRead | .doneWrite _ | .leaveRead | .leaveWrite _
  | .signal => True
  | _ => False

/-- The count has been read and is about to be written. -/
def Updating : SemPc → Prop
  | .enterWrite _ | .leaveWrite _ => True
  | _ => False

def Within (pc : SemPc) : Prop := pc.Entering ∨ pc.Counted

/-- A dish has been chosen, or is being eaten from. -/
def AtDish : SemPc → Prop
  | .take _ | .eating _ => True
  | _ => False

end SemPc

/-! ## What a step does -/

section Steps

variable {a : Animal} {pc x : SemPc} {r r' : Room}

/-- The way in begins with the end of the loop. -/
theorem Animal.sem_within (h : a.sem pc r = some (x, r')) (hx : x.Within) :
    pc.Within ∨ pc = .testWaiting ∧ r.waiting ≠ a.other.mark := by
  cases pc with
  | test =>
    cases h
    by_cases hroom : r.inRoom a.other > 0
    · rw [if_pos hroom] at hx
      rcases hx with hx | hx <;> exact hx.elim
    · rw [if_neg hroom] at hx
      rcases hx with hx | hx <;> exact hx.elim
  | testWaiting =>
    cases h
    by_cases hwait : r.waiting = a.other.mark
    · rw [if_pos hwait] at hx
      rcases hx with hx | hx <;> exact hx.elim
    · exact .inr ⟨rfl, hwait⟩
  | body =>
    cases h
    by_cases hwait : r.waiting = 0
    · rw [if_pos hwait] at hx
      rcases hx with hx | hx <;> exact hx.elim
    · rw [if_neg hwait] at hx
      rcases hx with hx | hx <;> exact hx.elim
  | claim | signal =>
    cases h
    rcases hx with hx | hx <;> exact hx.elim
  | finished => cases h
  | unwait | enterRead | enterWrite => exact .inl (.inl trivial)
  | wait | choose | take | eating | doneRead | doneWrite | leaveRead | leaveWrite =>
    exact .inl (.inr trivial)

/-- The counts of the room are changed by their increments and decrements only. -/
theorem Animal.sem_inRoom (h : a.sem pc r = some (x, r')) :
    (pc = .enterRead ∧ x = .enterWrite (r.inRoom a) ∧ r'.inRoom = r.inRoom) ∨
    (pc = .leaveRead ∧ x = .leaveWrite (r.inRoom a) ∧ r'.inRoom = r.inRoom) ∨
    (∃ n, pc = .enterWrite n ∧ x = .wait ∧ r'.inRoom = update r.inRoom a (int (n + 1))) ∨
    (∃ n, pc = .leaveWrite n ∧ x = .signal ∧ r'.inRoom = update r.inRoom a (int (n - 1))) ∨
    (r'.inRoom = r.inRoom ∧ ¬ x.Updating ∧ (x.Counted ↔ pc.Counted)) := by
  cases pc with
  | enterRead => cases h; exact .inl ⟨rfl, rfl, rfl⟩
  | leaveRead => cases h; exact .inr (.inl ⟨rfl, rfl, rfl⟩)
  | enterWrite n => cases h; exact .inr (.inr (.inl ⟨n, rfl, rfl, rfl⟩))
  | leaveWrite n => cases h; exact .inr (.inr (.inr (.inl ⟨n, rfl, rfl, rfl⟩)))
  | finished => cases h
  | test | testWaiting | body =>
    cases h
    refine .inr (.inr (.inr (.inr ⟨rfl, ?_⟩)))
    split <;> exact ⟨id, .rfl⟩
  | wait =>
    refine .inr (.inr (.inr (.inr ?_)))
    simp only [Animal.sem] at h
    split at h <;> cases h
    exact ⟨rfl, id, .rfl⟩
  | take d | eating d =>
    cases h
    refine .inr (.inr (.inr (.inr ⟨?_, id, .rfl⟩)))
    unfold Room.setDish
    split <;> rfl
  | claim | unwait | choose | doneRead | doneWrite | signal =>
    cases h
    exact .inr (.inr (.inr (.inr ⟨rfl, id, .rfl⟩)))

/-- `mutex` is changed by `P` and `V` only. -/
theorem Animal.sem_mutex (h : a.sem pc r = some (x, r')) :
    (pc = .wait ∧ x = .choose ∧ r.mutex ≠ 0 ∧ r'.mutex = r.mutex - 1) ∨
    (pc = .signal ∧ x = .finished ∧ r'.mutex = r.mutex + 1) ∨
    (r'.mutex = r.mutex ∧ (x.Holding ↔ pc.Holding)) := by
  cases pc with
  | wait =>
    simp only [Animal.sem] at h
    split at h
    · cases h
    · rename_i hpos
      cases h
      exact .inl ⟨rfl, rfl, hpos, rfl⟩
  | signal => cases h; exact .inr (.inl ⟨rfl, rfl, rfl⟩)
  | finished => cases h
  | test | testWaiting | body =>
    cases h
    refine .inr (.inr ⟨rfl, ?_⟩)
    split <;> exact .rfl
  | take d | eating d =>
    cases h
    refine .inr (.inr ⟨?_, .rfl⟩)
    unfold Room.setDish
    split <;> rfl
  | claim | unwait | enterRead | enterWrite | choose | doneRead | doneWrite | leaveRead
  | leaveWrite =>
    cases h
    exact .inr (.inr ⟨rfl, .rfl⟩)

/-- The flag of a dish. -/
def Room.busy (r : Room) (d : Int) : Int := if d = 1 then r.dish1Busy else r.dish2Busy

theorem Room.busy_setDish {r : Room} {d e b : Int} (hd : IsDish d) (he : IsDish e) :
    (r.setDish d b).busy e = if e = d then b else r.busy e := by
  obtain rfl | rfl := hd <;> obtain rfl | rfl := he <;> simp [Room.setDish, Room.busy]

/-- The dishes are changed by those who have chosen one. -/
theorem Animal.sem_dish (h : a.sem pc r = some (x, r')) :
    (pc = .choose ∧ x = .take (if r.dish1Busy = 0 then 1 else 2) ∧ r'.busy = r.busy) ∨
    (∃ d, pc = .take d ∧ x = .eating d ∧ r' = r.setDish d 1) ∨
    (∃ d, pc = .eating d ∧ x = .doneRead ∧ r' = r.setDish d 0) ∨
    (r'.busy = r.busy ∧ ¬ x.AtDish ∧ ¬ pc.AtDish) := by
  cases pc with
  | choose => cases h; exact .inl ⟨rfl, rfl, rfl⟩
  | take d => cases h; exact .inr (.inl ⟨d, rfl, rfl, rfl⟩)
  | eating d => cases h; exact .inr (.inr (.inl ⟨d, rfl, rfl, rfl⟩))
  | finished => cases h
  | test | testWaiting | body =>
    cases h
    refine .inr (.inr (.inr ⟨rfl, ?_, id⟩))
    split <;> exact id
  | wait =>
    refine .inr (.inr (.inr ?_))
    simp only [Animal.sem] at h
    split at h <;> cases h
    exact ⟨rfl, id, id⟩
  | claim | unwait | enterRead | enterWrite | doneRead | doneWrite | leaveRead | leaveWrite
  | signal =>
    cases h
    exact .inr (.inr (.inr ⟨rfl, id, id⟩))

end Steps

namespace SemSystem

variable {ι : Type} [DecidableEq ι] {kind : ι → Animal} {s s' : SemSystem ι} {i : ι}

/-- A thread that leaves the loop finds the room as the test of it has found it, with nobody of
the other kind on the way in; no other step begins what another thread is in the middle of, and
no `int` goes over. -/
structure Careful (kind : ι → Animal) (s : SemSystem ι) (i : ι) : Prop where
  room : s.pc i = .testWaiting → s.room.waiting ≠ (kind i).other.mark →
    ¬ s.room.inRoom (kind i).other > 0 ∧ ∀ j, kind j ≠ kind i → ¬ (s.pc j).Entering
  count : s.pc i = .enterRead ∨ s.pc i = .leaveRead →
    ∀ j, kind j = kind i → ¬ (s.pc j).Updating
  range : s.pc i = .enterRead → s.room.inRoom (kind i) < 2147483647
  dish : s.pc i = .choose → ∀ j d, s.pc j ≠ .take d

theorem Step.sem (h : s.Step kind i s') :
    ∃ x, (kind i).sem (s.pc i) s.room = some (x, s'.room) ∧ s'.pc = update s.pc i x := by
  cases h with | @mk x r hrun =>
  have hsem : (kind i).semThread = (kind i).sem := by cases kind i <;> rfl
  rw [hsem] at hrun
  exact ⟨x, hrun, rfl⟩

/-! ## The semaphore -/

/-- Two threads hold `mutex`, less those it has room for. -/
def Tokens (s : SemSystem ι) : Prop :=
  ∃ n, Headcount (fun _ pc => SemPc.Holding pc) s.pc n ∧ s.room.mutex + n = 2

theorem Tokens.step (h : s.Tokens) (hstep : s.Step kind i s') : s'.Tokens := by
  obtain ⟨n, hn, hsum⟩ := h
  obtain ⟨x, hrun, hpc⟩ := hstep.sem
  unfold Tokens
  rw [hpc]
  rcases Animal.sem_mutex hrun with ⟨hi, rfl, hpos, hmutex⟩ | ⟨hi, rfl, hmutex⟩ | ⟨hmutex, hhold⟩
  · refine ⟨n + 1, hn.enters ?_ trivial, by omega⟩
    rw [hi]
    exact id
  · have hin : (s.pc i).Holding := by
      rw [hi]
      trivial
    have hpos := hn.pos (i := i) hin
    exact ⟨n - 1, hn.leaves hin id, by omega⟩
  · exact ⟨n, hn.stays hhold, by omega⟩

/-! ## The counts of the room -/

/-- The animals of one kind in the room. -/
def InRoom (kind : ι → Animal) (a : Animal) (i : ι) (pc : SemPc) : Prop := kind i = a ∧ pc.Counted

structure Numbered (kind : ι → Animal) (s : SemSystem ι) : Prop where
  counts : ∀ a, ∃ n : ℕ, Headcount (InRoom kind a) s.pc n ∧ s.room.inRoom a = n ∧
    n ≤ 2147483647
  enter : ∀ i m, s.pc i = .enterWrite m → m = s.room.inRoom (kind i) ∧ m < 2147483647
  leave : ∀ i m, s.pc i = .leaveWrite m → m = s.room.inRoom (kind i)
  one : ∀ i j, kind i = kind j → (s.pc i).Updating → (s.pc j).Updating → i = j

/-- A thread begins to update the count of its kind. -/
theorem Numbered.reads {x : SemPc} (h : s.Numbered kind)
    (hnone : ∀ j, kind j = kind i → ¬ (s.pc j).Updating) (hcounted : x.Counted ↔ (s.pc i).Counted)
    (henter : ∀ m, x = .enterWrite m → m = s.room.inRoom (kind i) ∧ m < 2147483647)
    (hleave : ∀ m, x = .leaveWrite m → m = s.room.inRoom (kind i)) {r : Room}
    (hroom : r.inRoom = s.room.inRoom) :
    Numbered kind ⟨r, update s.pc i x⟩ where
  counts a := by
    obtain ⟨n, hn, hrest⟩ := h.counts a
    rw [hroom]
    exact ⟨n, hn.stays (and_congr_right fun _ => hcounted), hrest⟩
  enter j m hj := by
    dsimp only at hj ⊢
    rw [hroom]
    by_cases hji : j = i
    · subst hji
      rw [update_self] at hj
      exact henter m hj
    · rw [update_of_ne hji] at hj
      exact h.enter j m hj
  leave j m hj := by
    dsimp only at hj ⊢
    rw [hroom]
    by_cases hji : j = i
    · subst hji
      rw [update_self] at hj
      exact hleave m hj
    · rw [update_of_ne hji] at hj
      exact h.leave j m hj
  one j k hkind hj hk := by
    dsimp only at hj hk
    by_cases hji : j = i
    · by_cases hki : k = i
      · rw [hji, hki]
      · rw [update_of_ne hki] at hk
        exact absurd hk (hnone k (by rw [← hkind, hji]))
    · rw [update_of_ne hji] at hj
      by_cases hki : k = i
      · exact absurd hj (hnone j (by rw [hkind, hki]))
      · rw [update_of_ne hki] at hk
        exact h.one j k hkind hj hk

/-- A thread that has nothing to do with its count after the step, which may have been the
write of it. -/
theorem Numbered.moves {x : SemPc} (h : s.Numbered kind) (hx : ¬ x.Updating) {r : Room}
    (hothers : ∀ a, a ≠ kind i → r.inRoom a = s.room.inRoom a)
    (hsame : (s.pc i).Updating ∨ r.inRoom = s.room.inRoom)
    (hcount : ∃ n : ℕ, Headcount (InRoom kind (kind i)) (update s.pc i x) n ∧
      r.inRoom (kind i) = n ∧ n ≤ 2147483647) :
    Numbered kind ⟨r, update s.pc i x⟩ := by
  -- no other thread of the kind has read the count
  have hkeep : ∀ j, j ≠ i → (s.pc j).Updating → r.inRoom (kind j) = s.room.inRoom (kind j) := by
    intro j hji hj
    rcases hsame with hi | hroom
    · refine hothers (kind j) fun hkind => ?_
      exact hji (h.one j i hkind hj hi)
    · rw [hroom]
  have hne : ∀ j, (update s.pc i x j).Updating → j ≠ i := by
    intro j hj hji
    subst hji
    rw [update_self] at hj
    exact hx hj
  refine ⟨fun a => ?_, fun j m hj => ?_, fun j m hj => ?_, fun j k hkind hj hk => ?_⟩
  · by_cases ha : a = kind i
    · subst ha
      exact hcount
    · obtain ⟨n, hn, hrest⟩ := h.counts a
      rw [hothers a ha]
      exact ⟨n, hn.stays ⟨fun hno => absurd hno.1.symm ha, fun hno => absurd hno.1.symm ha⟩, hrest⟩
  · dsimp only at hj ⊢
    have hji := hne j (by rw [hj]; trivial)
    rw [update_of_ne hji] at hj
    rw [hkeep j hji (by rw [hj]; trivial)]
    exact h.enter j m hj
  · dsimp only at hj ⊢
    have hji := hne j (by rw [hj]; trivial)
    rw [update_of_ne hji] at hj
    rw [hkeep j hji (by rw [hj]; trivial)]
    exact h.leave j m hj
  · dsimp only at hj hk
    have hji := hne j hj
    have hki := hne k hk
    rw [update_of_ne hji] at hj
    rw [update_of_ne hki] at hk
    exact h.one j k hkind hj hk

theorem Numbered.step (h : s.Numbered kind) (hcare : s.Careful kind i)
    (hstep : s.Step kind i s') : s'.Numbered kind := by
  obtain ⟨x, hrun, hpc⟩ := hstep.sem
  obtain ⟨r, pcs⟩ := s'
  dsimp only at hrun hpc
  subst hpc
  obtain ⟨n, hn, hroom, hmax⟩ := h.counts (kind i)
  rcases Animal.sem_inRoom hrun with ⟨hi, rfl, hr⟩ | ⟨hi, rfl, hr⟩ | ⟨m, hi, rfl, hr⟩ |
    ⟨m, hi, rfl, hr⟩ | ⟨hr, hx, hcounted⟩
  · refine h.reads (hcare.count (.inl hi)) (by rw [hi]; exact .rfl) ?_ (by simp) hr
    intro m hm
    cases hm
    exact ⟨rfl, hcare.range hi⟩
  · refine h.reads (hcare.count (.inr hi)) (by rw [hi]; exact .rfl) (by simp) ?_ hr
    intro m hm
    cases hm
    rfl
  · obtain ⟨hm, hlt⟩ := h.enter i m hi
    have hup : (s.pc i).Updating := by
      rw [hi]
      trivial
    refine h.moves id (fun a ha => ?_) (.inl hup) ⟨n + 1, hn.enters ?_ ⟨rfl, trivial⟩, ?_⟩
    · rw [hr, update_of_ne ha]
    · rw [hi]
      exact fun hno => hno.2
    · rw [hr, update_self, hm, hroom, int_eq (by omega)]
      omega
  · have hm := h.leave i m hi
    have hup : (s.pc i).Updating := by
      rw [hi]
      trivial
    have hin : InRoom kind (kind i) i (s.pc i) := by
      rw [hi]
      exact ⟨rfl, trivial⟩
    have hpos := hn.pos hin
    refine h.moves id (fun a ha => ?_) (.inl hup) ⟨n - 1, hn.leaves hin fun hno => hno.2, ?_⟩
    · rw [hr, update_of_ne ha]
    · rw [hr, update_self, hm, hroom, int_eq (by omega)]
      omega
  · refine h.moves hx (fun a _ => by rw [hr]) (.inr hr)
      ⟨n, hn.stays (and_congr_right fun _ => hcounted), ?_⟩
    rw [hr]
    exact ⟨hroom, hmax⟩

/-! ## The two kinds -/

/-- From the loop on there is only one kind. -/
def Apart (kind : ι → Animal) (s : SemSystem ι) : Prop :=
  ∀ i j, kind i ≠ kind j → (s.pc i).Within → ¬ (s.pc j).Within

theorem Apart.step (h : s.Apart kind) (hnum : s.Numbered kind) (hcare : s.Careful kind i)
    (hstep : s.Step kind i s') : s'.Apart kind := by
  obtain ⟨x, hrun, hpc⟩ := hstep.sem
  -- whoever gets in finds nobody of the other kind
  have halone : x.Within → ∀ j, kind j ≠ kind i → ¬ (s.pc j).Within := by
    intro hx j hj hin
    rcases Animal.sem_within hrun hx with hi | ⟨hi, hwait⟩
    · exact h i j (Ne.symm hj) hi hin
    · obtain ⟨hempty, hnone⟩ := hcare.room hi hwait
      rcases hin with hin | hin
      · exact hnone j hj hin
      · have hother : kind j = (kind i).other := by
          cases hki : kind i <;> cases hkj : kind j <;> simp_all [Animal.other]
        obtain ⟨n, hn, hroom, -⟩ := hnum.counts (kind i).other
        have hpos := hn.pos (i := j) ⟨hother, hin⟩
        omega
  intro j k hjk hj hk
  rw [hpc] at hj hk
  by_cases hji : j = i
  · subst hji
    rw [update_self] at hj
    rw [update_of_ne (fun hkj => hjk (by rw [hkj]))] at hk
    exact halone hj k (Ne.symm hjk) hk
  · rw [update_of_ne hji] at hj
    by_cases hki : k = i
    · subst hki
      rw [update_self] at hk
      exact halone hk j hjk hj
    · rw [update_of_ne hki] at hk
      exact h j k hjk hj hk

/-! ## The dishes -/

structure Served (s : SemSystem ι) : Prop where
  dish : ∀ i d, s.pc i = .take d ∨ s.pc i = .eating d → IsDish d
  busy : ∀ d, IsDish d → (s.room.busy d = 0 ∧ ∀ i, ¬ s.Eats i d) ∨
    (s.room.busy d = 1 ∧ ∃ i, s.Eats i d)
  alone : ∀ i j d, s.Eats i d → s.Eats j d → i = j
  free : ∀ i d, s.pc i = .take d → s.room.busy d = 0
  one : ∀ i j d e, s.pc i = .take d → s.pc j = .take e → i = j

omit [DecidableEq ι] in
/-- A thread that does not find the first dish free finds the second. -/
theorem Served.choice (h : s.Served) (htok : s.Tokens) (hi : s.pc i = .choose) :
    s.room.busy (if s.room.dish1Busy = 0 then 1 else 2) = 0 := by
  by_cases hfirst : s.room.dish1Busy = 0
  · rw [if_pos hfirst]
    exact hfirst
  · rw [if_neg hfirst]
    rcases h.busy 2 (.inr rfl) with ⟨hzero, -⟩ | ⟨-, k, hk⟩
    · exact hzero
    · -- three threads would be past `P(mutex)`
      have hj : ∃ j, s.Eats j 1 := by
        rcases h.busy 1 (.inl rfl) with ⟨hzero, -⟩ | ⟨-, hj⟩
        · exact absurd hzero hfirst
        · exact hj
      obtain ⟨j, hj⟩ := hj
      obtain ⟨n, hn, hsum⟩ := htok
      have hlt : 2 < n := by
        refine hn.two_lt (i := i) (j := j) (k := k) ?_ ?_ ?_ ?_ ?_ ?_
        · rw [hi]; trivial
        · rw [hj]; trivial
        · rw [hk]; trivial
        · rintro rfl
          rw [Eats, hi] at hj
          cases hj
        · rintro rfl
          rw [Eats, hi] at hk
          cases hk
        · rintro rfl
          rw [Eats, hj] at hk
          cases hk
      omega

/-- A thread goes on that does not eat, and may have chosen a dish. -/
theorem Served.stays {x : SemPc} {r : Room} (h : s.Served) (hbusy : r.busy = s.room.busy)
    (hx : ∀ d, x ≠ .eating d) (hi : ∀ d, s.pc i ≠ .eating d)
    (htake : ∀ d, x = .take d → IsDish d ∧ s.room.busy d = 0 ∧ ∀ j e, s.pc j ≠ .take e) :
    Served ⟨r, update s.pc i x⟩ := by
  have hpc : ∀ j, j ≠ i → update s.pc i x j = s.pc j :=
    fun j hj => update_of_ne hj ..
  have hpci : update s.pc i x i = x := update_self ..
  have heats : ∀ j d, update s.pc i x j = .eating d ↔ s.pc j = .eating d := by
    intro j d
    by_cases hj : j = i
    · rw [hj, hpci]
      exact ⟨fun he => absurd he (hx d), fun he => absurd he (hi d)⟩
    · rw [hpc j hj]
  refine ⟨fun j d hj => ?_, fun d hd => ?_, fun j k d hj hk => ?_, fun j d hj => ?_,
    fun j k d e hj hk => ?_⟩
  · dsimp only at hj
    rw [heats] at hj
    rcases hj with hj | hj
    · by_cases hji : j = i
      · rw [hji, hpci] at hj
        exact (htake d hj).1
      · rw [hpc j hji] at hj
        exact h.dish j d (.inl hj)
    · exact h.dish j d (.inr hj)
  · unfold Eats
    simp only [heats, hbusy]
    exact h.busy d hd
  · exact h.alone j k d ((heats j d).1 hj) ((heats k d).1 hk)
  · dsimp only at hj ⊢
    rw [hbusy]
    by_cases hji : j = i
    · rw [hji, hpci] at hj
      exact (htake d hj).2.1
    · rw [hpc j hji] at hj
      exact h.free j d hj
  · dsimp only at hj hk
    by_cases hji : j = i
    · by_cases hki : k = i
      · rw [hji, hki]
      · rw [hji, hpci] at hj
        rw [hpc k hki] at hk
        exact absurd hk ((htake d hj).2.2 k e)
    · rw [hpc j hji] at hj
      by_cases hki : k = i
      · rw [hki, hpci] at hk
        exact absurd hj ((htake e hk).2.2 j d)
      · rw [hpc k hki] at hk
        exact h.one j k d e hj hk

/-- The flag of the dish is set. -/
theorem Served.takes {d : Int} (h : s.Served) (hi : s.pc i = .take d) :
    Served ⟨s.room.setDish d 1, update s.pc i (.eating d)⟩ := by
  have hd := h.dish i d (.inl hi)
  have hnone : ∀ j, ¬ s.Eats j d := by
    rcases h.busy d hd with ⟨-, hnone⟩ | ⟨hone, -⟩
    · exact hnone
    · rw [h.free i d hi] at hone
      cases hone
  have heats : ∀ j e, update s.pc i (.eating d) j = .eating e ↔
      (j = i ∧ e = d) ∨ s.pc j = .eating e := by
    intro j e
    by_cases hj : j = i
    · subst hj
      rw [update_self, hi]
      simp [eq_comm]
    · rw [update_of_ne hj]
      simp [hj]
  have htakes : ∀ j e, update s.pc i (.eating d) j ≠ .take e := by
    intro j e hj
    by_cases hji : j = i
    · rw [hji, update_self] at hj
      cases hj
    · rw [update_of_ne hji] at hj
      exact hji (h.one j i e d hj hi)
  refine ⟨fun j e hj => ?_, fun e he => ?_, fun j k e hj hk => ?_,
    fun j e hj => absurd hj (htakes j e), fun j _ e _ hj => absurd hj (htakes j e)⟩
  · rcases hj with hj | hj
    · exact absurd hj (htakes j e)
    · rcases (heats j e).1 hj with ⟨-, rfl⟩ | hj
      · exact hd
      · exact h.dish j e (.inr hj)
  · unfold Eats
    simp only [heats, Room.busy_setDish hd he]
    by_cases hed : e = d
    · exact .inr ⟨if_pos hed, i, .inl ⟨rfl, hed⟩⟩
    · simp only [hed, and_false, false_or, if_false]
      exact h.busy e he
  · rcases (heats j e).1 hj with ⟨hji, hed⟩ | hj
    · rcases (heats k e).1 hk with ⟨hki, -⟩ | hk
      · rw [hji, hki]
      · exact absurd (hed ▸ hk) (hnone k)
    · rcases (heats k e).1 hk with ⟨-, hed⟩ | hk
      · exact absurd (hed ▸ hj) (hnone j)
      · exact h.alone j k e hj hk

theorem Served.frees {d : Int} (h : s.Served) (hi : s.pc i = .eating d) :
    Served ⟨s.room.setDish d 0, update s.pc i .doneRead⟩ := by
  have hd := h.dish i d (.inr hi)
  have hpc : ∀ {j y}, update s.pc i .doneRead j = y → y ≠ .doneRead →
      j ≠ i ∧ s.pc j = y := by
    intro j y hj hy
    by_cases hji : j = i
    · rw [hji, update_self] at hj
      exact absurd hj.symm hy
    · rw [update_of_ne hji] at hj
      exact ⟨hji, hj⟩
  refine ⟨fun j e hj => ?_, fun e he => ?_, fun j k e hj hk => ?_, fun j e hj => ?_,
    fun j k e f hj hk => ?_⟩
  · rcases hj with hj | hj
    · exact h.dish j e (.inl (hpc hj (by simp)).2)
    · exact h.dish j e (.inr (hpc hj (by simp)).2)
  · dsimp only
    rw [Room.busy_setDish hd he]
    by_cases hed : e = d
    · refine .inl ⟨if_pos hed, fun j hj => ?_⟩
      obtain ⟨hji, hj⟩ := hpc hj (by simp)
      exact hji (h.alone j i d (hed ▸ hj) hi)
    · rw [if_neg hed]
      refine (h.busy e he).imp (And.imp_right fun hnone j hj => ?_) (And.imp_right fun hsome => ?_)
      · exact hnone j (hpc hj (by simp)).2
      · obtain ⟨j, hj⟩ := hsome
        refine ⟨j, ?_⟩
        have hji : j ≠ i := by
          rintro rfl
          rw [Eats, hi] at hj
          cases hj
          exact hed rfl
        unfold Eats
        dsimp only
        rw [update_of_ne hji]
        exact hj
  · exact h.alone j k e (hpc hj (by simp)).2 (hpc hk (by simp)).2
  · obtain ⟨-, hj⟩ := hpc hj (by simp)
    rw [Room.busy_setDish hd (h.dish j e (.inl hj))]
    split
    · rfl
    · exact h.free j e hj
  · exact h.one j k e f (hpc hj (by simp)).2 (hpc hk (by simp)).2

theorem Served.step (h : s.Served) (htok : s.Tokens) (hcare : s.Careful kind i)
    (hstep : s.Step kind i s') : s'.Served := by
  obtain ⟨x, hrun, hpc⟩ := hstep.sem
  obtain ⟨r, pcs⟩ := s'
  dsimp only at hrun hpc
  subst hpc
  rcases Animal.sem_dish hrun with ⟨hi, rfl, hbusy⟩ | ⟨d, hi, rfl, rfl⟩ | ⟨d, hi, rfl, rfl⟩ |
    ⟨hbusy, hx, hi⟩
  · refine h.stays hbusy (by simp) (by simp [hi]) ?_
    intro d hd
    obtain rfl := SemPc.take.inj hd
    refine ⟨?_, h.choice htok hi, hcare.dish hi⟩
    split
    · exact .inl rfl
    · exact .inr rfl
  · exact h.takes hi
  · exact h.frees hi
  · refine h.stays hbusy ?_ ?_ ?_
    · rintro d rfl
      exact hx trivial
    · intro d hd
      rw [hd] at hi
      exact hi trivial
    · rintro d rfl
      exact absurd trivial hx

/-! ## All together -/

structure Inv (kind : ι → Animal) (s : SemSystem ι) : Prop where
  tokens : s.Tokens
  numbered : s.Numbered kind
  apart : s.Apart kind
  served : s.Served

theorem Inv.step (h : s.Inv kind) (hcare : s.Careful kind i) (hstep : s.Step kind i s') :
    s'.Inv kind :=
  ⟨h.tokens.step hstep, h.numbered.step hcare hstep, h.apart.step h.numbered hcare hstep,
    h.served.step h.tokens hcare hstep⟩

omit [DecidableEq ι] in
theorem Inv.initial : (SemSystem.initial : SemSystem ι).Inv kind where
  tokens := ⟨0, .zero fun _ h => h, rfl⟩
  numbered := by
    refine ⟨fun a => ⟨0, .zero fun _ h => h.2, rfl, by decide⟩, fun i m h => ?_, fun i m h => ?_,
      fun i j _ h => h.elim⟩
    · cases h
    · cases h
  apart := by
    rintro i j - (h | h)
    · exact h.elim
    · exact h.elim
  served := by
    refine ⟨fun i d h => ?_, fun d hd => ?_, fun i j d h => ?_, fun i d h => ?_,
      fun i j d e h => ?_⟩
    · rcases h with h | h <;> cases h
    · refine .inl ⟨?_, fun i h => ?_⟩
      · obtain rfl | rfl := hd <;> rfl
      · cases h
    · cases h
    · cases h
    · cases h

omit [DecidableEq ι] in
theorem Inv.safe (h : s.Inv kind) : s.Safe kind := by
  refine ⟨fun i j d e hcat hmouse hi hj => ?_, ?_, fun i j d e hij hi hj hde => ?_⟩
  · refine h.apart i j (by rw [hcat, hmouse]; decide) (.inr ?_) (.inr ?_)
    · rw [hi]; trivial
    · rw [hj]; trivial
  · obtain ⟨n, hn, hsum⟩ := h.tokens
    have hsub : {i | ∃ d, s.Eats i d} ⊆ {i | (s.pc i).Holding} := by
      rintro i ⟨d, hi⟩
      show (s.pc i).Holding
      rw [hi]
      trivial
    refine (Set.encard_le_encard hsub).trans ?_
    rw [hn]
    have hle : n ≤ 2 := by omega
    exact_mod_cast hle
  · subst hde
    exact hij (h.served.alone i j d hi hj)

/-- Along careful steps the kitchen is safe in every state. -/
theorem sem_safe
    (h : Relation.ReflTransGen (fun s s' => ∃ i, s.Careful kind i ∧ s.Step kind i s') initial s) :
    s.Safe kind := by
  have hinv : s.Inv kind := by
    induction h with
    | refl => exact .initial
    | tail _ hstep ih =>
      obtain ⟨i, hcare, hstep⟩ := hstep
      exact ih.step hcare hstep
  exact hinv.safe

/-- Thread `i` runs, if it can. -/
def after (kind : ι → Animal) (s : SemSystem ι) (i : ι) : SemSystem ι :=
  match (kind i).semThread (s.pc i) s.room with
  | some (pc, r) => ⟨r, update s.pc i pc⟩
  | none => s

theorem after_cases (s : SemSystem ι) (i : ι) :
    s.Step kind i (s.after kind i) ∨ s.after kind i = s := by
  unfold after
  split
  · rename_i heq
    exact .inl (.mk heq)
  · exact .inr rfl

/-- A schedule is a run. -/
theorem reachable_foldl (h : s.Reachable kind) (is : List ι) :
    (is.foldl (after kind) s).Reachable kind := by
  induction is generalizing s with
  | nil => exact h
  | cons i is ih =>
    refine ih ?_
    rcases @after_cases ι _ kind s i with hstep | hsame
    · exact h.tail ⟨i, hstep⟩
    · rw [hsame]
      exact h

/-- `false` is a cat and `true` a mouse. -/
def catAndMouse (i : Bool) : Animal := if i then .mouse else .cat

/-- Both find the room empty before either has come in, and then both eat. -/
def raced : SemSystem Bool :=
  [false, true, false, false, false, false, false, false, false,
    true, true, true, true, true, true, true].foldl (after catAndMouse) initial

theorem cat_eats_with_mouse :
    raced.Reachable catAndMouse ∧ raced.Eats false 1 ∧ raced.Eats true 2 ∧
      ¬ raced.Safe catAndMouse := by
  have hrun : raced.Reachable catAndMouse := reachable_foldl .refl _
  have hcat : raced.pc false = .eating 1 := by decide
  have hmouse : raced.pc true = .eating 2 := by decide
  exact ⟨hrun, hcat, hmouse, fun hsafe => hsafe.1 false true 1 2 rfl rfl hcat hmouse⟩

/-- A schedule of careful steps. -/
def Carefully (kind : ι → Animal) : SemSystem ι → List ι → Prop
  | _, [] => True
  | s, i :: is => s.Careful kind i ∧ Carefully kind (s.after kind i) is

theorem carefully_foldl {is : List ι} (hcare : s.Carefully kind is)
    (h : Relation.ReflTransGen (fun s s' => ∃ i, s.Careful kind i ∧ s.Step kind i s') initial s) :
    Relation.ReflTransGen (fun s s' => ∃ i, s.Careful kind i ∧ s.Step kind i s') initial
      (is.foldl (after kind) s) := by
  induction is generalizing s with
  | nil => exact h
  | cons i is ih =>
    refine ih hcare.2 ?_
    rcases @after_cases ι _ kind s i with hstep | hsame
    · exact h.tail ⟨i, hcare.1, hstep⟩
    · rw [hsame]
      exact h

instance : DecidablePred SemPc.Entering := fun pc => by
  cases pc <;> first | exact isTrue trivial | exact isFalse id

instance : DecidablePred SemPc.Updating := fun pc => by
  cases pc <;> first | exact isTrue trivial | exact isFalse id

instance (pc : SemPc) : Decidable (∀ d, pc ≠ .take d) := by
  cases pc <;> first | exact isFalse fun h => h _ rfl | exact isTrue fun _ h => by cases h

instance [Fintype ι] : Decidable (s.Careful kind i) :=
  decidable_of_iff
    ((s.pc i = .testWaiting → s.room.waiting ≠ (kind i).other.mark →
        ¬ s.room.inRoom (kind i).other > 0 ∧ ∀ j, kind j ≠ kind i → ¬ (s.pc j).Entering) ∧
      (s.pc i = .enterRead ∨ s.pc i = .leaveRead → ∀ j, kind j = kind i → ¬ (s.pc j).Updating) ∧
      (s.pc i = .enterRead → s.room.inRoom (kind i) < 2147483647) ∧
      (s.pc i = .choose → ∀ j d, s.pc j ≠ .take d))
    ⟨fun ⟨hroom, hcount, hrange, hdish⟩ => ⟨hroom, hcount, hrange, hdish⟩,
      fun ⟨hroom, hcount, hrange, hdish⟩ => ⟨hroom, hcount, hrange, hdish⟩⟩

instance decidableCarefully [Fintype ι] : (s : SemSystem ι) → (is : List ι) →
    Decidable (s.Carefully kind is)
  | _, [] => isTrue trivial
  | s, i :: is => @instDecidableAnd _ _ _ (decidableCarefully (s.after kind i) is)

/-- Two cats and a mouse. -/
def twoCats (i : Fin 3) : Animal := if i = 2 then .mouse else .cat

/-- The cats come in one while the other does, the mouse finds them there and waits, and they
eat. -/
def catered : List (Fin 3) := [0, 0, 0, 1, 0, 0, 1, 1, 2, 1, 1, 2, 0, 0, 1, 0, 2, 1, 1]

theorem sem_safe_two_cats : ∃ s : SemSystem (Fin 3),
    Relation.ReflTransGen (fun s s' => ∃ i, s.Careful twoCats i ∧ s.Step twoCats i s') initial s ∧
      s.Eats 0 1 ∧ s.Eats 1 2 ∧ s.room.waiting = Animal.mark .mouse ∧ s.Safe twoCats := by
  have hcare : initial.Carefully twoCats catered := by decide +kernel
  have hrun := carefully_foldl hcare .refl
  have hfirst : (catered.foldl (after twoCats) initial).pc 0 = .eating 1 := by decide
  have hsecond : (catered.foldl (after twoCats) initial).pc 1 = .eating 2 := by decide
  exact ⟨_, hrun, hfirst, hsecond, by decide, sem_safe hrun⟩

end SemSystem

end Os161.Asst1
