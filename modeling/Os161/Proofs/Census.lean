import Mathlib.Data.Set.Card
import Os161.Proofs.Steps

/-!
# Every thread is in one place

The processor, the run queue and the sleepers hold the threads that live, the
zombies those that have exited; nobody is held twice, and `numthreads` counts
the former. Steps that only move threads about permute the places
(`Census.congr`). Three do more: a fork adds a thread, an exit turns a place
into a zombie, and disposing of the zombies frees the structures behind them.
-/

namespace Os161.Thread

open Os161.Kern Os161.Lib Function

/-- Where the threads are that have not exited. -/
def Kernel.places (k : Kernel) : List Addr :=
  k.curthread.toList ++ k.runqueue.toList ++ k.sleepers.v

structure Census (k : Kernel) : Prop where
  nodup : k.places.Nodup
  live : ∀ t, t ∈ k.places ↔ k.Live t
  zombiesNodup : k.zombies.v.Nodup
  zombies : ∀ t, t ∈ k.zombies.v ↔ k.Exited t
  count : k.numthreads = k.places.length

namespace Census

variable {k k' : Kernel}

/-- A step that moves threads about, changes nothing about the zombies, and
lets nobody die or rise. -/
theorem congr (h : Census k) (hp : k'.places.Perm k.places) (hz : k'.zombies.v = k.zombies.v)
    (ha : k'.allocated = k.allocated)
    (hd : ∀ t, k.allocated t = true → ((k'.threads t).pc = .dead ↔ (k.threads t).pc = .dead))
    (hn : k'.numthreads = k.numthreads) : Census k' where
  nodup := hp.nodup_iff.2 h.nodup
  live t := by
    rw [hp.mem_iff, h.live t, Kernel.Live, Kernel.Live, ha]
    exact and_congr_right fun hat => not_congr (hd t hat).symm
  zombiesNodup := hz ▸ h.zombiesNodup
  zombies t := by
    rw [hz, h.zombies t, Kernel.Exited, Kernel.Exited, ha]
    exact and_congr_right fun hat => (hd t hat).symm
  count := by rw [hn, h.count, hp.length_eq]

/-- Nothing but the members of one thread that lives has changed. -/
theorem onThread (h : Census k) {u : Addr} {f : Thread → Thread} (hu : (k.threads u).pc ≠ .dead)
    (hf : (f (k.threads u)).pc ≠ .dead) : Census (k.onThread u f) := by
  refine h.congr (List.Perm.refl _) rfl rfl (fun t _ => ?_) rfl
  by_cases ht : t = u
  · subst ht
    rw [Kernel.onThread_threads_self]
    exact iff_of_false hf hu
  · rw [Kernel.onThread_threads_ne ht]

variable {addr : Option Chan} {q : Queue Addr} {cur : Addr} {pc : Pc}

section
variable (h : Census k)
include h

theorem wokeAll (hw : WokeAll k addr k') : Census k' := by
  obtain ⟨s, q, hsv, -, hq, -, rfl⟩ := hw
  refine h.congr ?_ rfl rfl (fun _ _ => .rfl) rfl
  have hf := List.filter_append_perm (fun t => decide ((k.threads t).tSleepaddr = addr))
    k.sleepers.v
  show (k.curthread.toList ++ q.toList ++ s.v).Perm _
  rw [hq, hsv, Kernel.places, ← List.append_assoc, List.append_assoc]
  refine List.Perm.append_left _ (.trans (.of_eq ?_) hf)
  simp only [decide_not, ne_eq]

theorem wokeOne (hw : WokeOne k addr k') : Census k' := by
  obtain ⟨-, rfl⟩ | ⟨pre, post, t, s, q, hv, -, -, hsv, -, hq, -, rfl⟩ := hw
  · exact h
  refine h.congr ?_ rfl rfl (fun _ _ => .rfl) rfl
  show (k.curthread.toList ++ q.toList ++ s.v).Perm _
  rw [hq, hsv, Kernel.places, hv]
  simp only [List.append_assoc, List.singleton_append]
  exact (List.perm_middle.symm.append_left _).append_left _

/-- The zombies are gone, structures and all. -/
theorem reaped (hr : Reaped k k') : Census k' := by
  obtain ⟨⟨z, a, p, o, rfl⟩, hz, -, ha, -, -⟩ := hr
  have hlive : ∀ t, k.Live t ↔ a t = true ∧ (k.threads t).pc ≠ .dead := fun t => by
    rw [ha t, Kernel.Live, h.zombies t, Kernel.Exited]
    tauto
  refine ⟨h.nodup, fun t => (h.live t).trans (hlive t), ?_, fun t => ?_, h.count⟩
  · rw [hz]
    exact List.nodup_nil
  · show t ∈ z.v ↔ a t = true ∧ (k.threads t).pc = .dead
    rw [hz, ha t, h.zombies t, Kernel.Exited]
    refine iff_of_false List.not_mem_nil ?_
    tauto

/-- `next` leaves the run queue and runs. -/
theorem pick (hcur : k.curthread = none) {next : Addr}
    (hq : k.runqueue.toList = next :: q.toList) : Census (k.pick next q) := by
  refine h.congr (.of_eq ?_) rfl rfl (fun _ _ => .rfl) rfl
  show [next] ++ q.toList ++ k.sleepers.v = _
  rw [Kernel.places, hcur, hq]
  rfl

theorem dispatched (hcur : k.curthread = none) (hd : Dispatched k k') : Census k' := by
  cases hd with
  | idle _ => exact h
  | start hq _ hpc =>
    exact .congr ((h.pick hcur hq).onThread (u := _) (f := fun t => { t with pc := .run })
      (fun hx => absurd (hpc.symm.trans hx) nofun) nofun) (.refl _) rfl rfl
      (fun _ _ => .rfl) rfl
  | yield hq _ hpc hr =>
    have hr' := (h.pick hcur hq).reaped hr
    obtain ⟨z, a, p, o, rfl⟩ := hr.frame
    exact .congr (hr'.onThread (u := _) (f := fun t => { t with pc := .run })
      (fun hx => absurd (hpc.symm.trans hx) nofun) nofun) (.refl _) rfl rfl
      (fun _ _ => .rfl) rfl
  | sleep hq _ hpc hr =>
    have hr' := (h.pick hcur hq).reaped hr
    obtain ⟨z, a, p, o, rfl⟩ := hr.frame
    exact hr'.onThread (fun hx => absurd (hpc.symm.trans hx) nofun) nofun

/-- The running thread lives. -/
theorem running (hcur : k.curthread = some cur) : k.Live cur := by
  refine (h.live cur).1 ?_
  rw [Kernel.places, hcur]
  exact List.mem_cons_self

/-- The running thread has gone to the end of the run queue or to the
sleepers. -/
theorem leave (hcur : k.curthread = some cur) (hpc : pc ≠ .dead) {s : KArray Addr}
    (hp : (q.toList ++ s.v).Perm (cur :: (k.runqueue.toList ++ k.sleepers.v))) :
    Census { k.leave cur pc with runqueue := q, sleepers := s } := by
  have hlive := h.running hcur
  refine (h.onThread (f := fun t => { t with pc := pc }) hlive.2 hpc).congr (hp.trans (.of_eq ?_))
    rfl rfl (fun _ _ => .rfl) rfl
  show _ = k.curthread.toList ++ k.runqueue.toList ++ k.sleepers.v
  rw [hcur]
  rfl

theorem stashed (hcur : k.curthread = some cur) {st : NextState} (hs : Stashed k cur pc st k')
    (hpc : pc ≠ .dead) (hst : st ≠ .zomb) : Census k' ∧ k'.curthread = none := by
  cases hs with
  | ready hq _ =>
    refine ⟨h.leave hcur hpc (s := k.sleepers) ?_, rfl⟩
    rw [hq, List.append_assoc]
    exact List.perm_middle
  | @sleep s hv _ =>
    refine ⟨h.leave hcur hpc (q := k.runqueue) (s := s) ?_, rfl⟩
    rw [hv, ← List.append_assoc]
    exact List.perm_append_singleton _ _
  | zomb _ _ _ => exact absurd rfl hst

/-- The running thread has gone to sleep. -/
theorem slept (hcur : k.curthread = some cur) {addr : Option Chan} {caller : Caller}
    (hs : Stashed (k.onThread cur fun t => { t with tSleepaddr := addr }) cur (.sleep caller)
      .sleep k') : Census k' ∧ k'.curthread = none := by
  have hlive := (h.running hcur).2
  exact stashed (h.onThread hlive hlive) hcur hs nofun nofun

/-- The running thread has become a zombie. -/
theorem exited (hcur : k.curthread = some cur)
    (hs : Stashed { k with numthreads := k.numthreads - 1 } cur .dead .zomb k') :
    Census k' ∧ k'.curthread = none := by
  cases hs with
  | @zomb z hv _ _ =>
    have hz : z.v = k.zombies.v ++ [cur] := hv
    have hlive := h.running hcur
    have hplaces : k.places = cur :: (k.runqueue.toList ++ k.sleepers.v) := by
      rw [Kernel.places, hcur]
      rfl
    have hnodup := hplaces ▸ h.nodup
    rw [List.nodup_cons] at hnodup
    have hnz : cur ∉ k.zombies.v := fun hm => hlive.2 ((h.zombies cur).1 hm).2
    have hpc : ∀ t, t ≠ cur →
        ((k.leave cur .dead).threads t).pc = (k.threads t).pc := fun t ht =>
      congrArg Thread.pc (Kernel.onThread_threads_ne ht)
    have hself : ((k.leave cur .dead).threads cur).pc = .dead :=
      congrArg Thread.pc (Kernel.onThread_threads_self _ _ _)
    refine ⟨⟨hnodup.2, fun t => ?_, ?_, fun t => ?_, ?_⟩, rfl⟩
    · show t ∈ k.runqueue.toList ++ k.sleepers.v ↔
        k.allocated t = true ∧ ((k.leave cur .dead).threads t).pc ≠ .dead
      by_cases ht : t = cur
      · subst ht
        exact iff_of_false hnodup.1 fun hx => hx.2 hself
      · rw [hpc t ht]
        have := h.live t
        rw [hplaces, List.mem_cons] at this
        exact ⟨fun hm => this.1 (.inr hm), fun hl => (this.2 hl).resolve_left ht⟩
    · show z.v.Nodup
      rw [hz]
      exact List.nodup_append.2 ⟨h.zombiesNodup, List.nodup_singleton cur,
        fun x hx y hy hxy => hnz (List.mem_singleton.1 hy ▸ hxy ▸ hx)⟩
    · show t ∈ z.v ↔ k.allocated t = true ∧ ((k.leave cur .dead).threads t).pc = .dead
      rw [hz, List.mem_append, List.mem_singleton, h.zombies t, Kernel.Exited]
      by_cases ht : t = cur
      · subst ht
        exact iff_of_true (.inr rfl) ⟨hlive.1, hself⟩
      · rw [hpc t ht]
        exact ⟨fun hm => hm.resolve_right ht, .inl⟩
    · show k.numthreads - 1 = (k.runqueue.toList ++ k.sleepers.v).length
      rw [h.count, hplaces, List.length_cons, Nat.add_sub_cancel]

/-- A new thread at the end of the run queue, or no change at all. -/
theorem forked {newguy info : Addr} {r : Except PidErr Unit}
    (hf : k.allocated newguy = false) (hk : Forked k newguy info r k') : Census k' := by
  have hne : ∀ t, k.allocated t = true → t ≠ newguy := fun t ht he => by
    subst he
    exact absurd (hf.symm.trans ht) nofun
  cases hk with
  | failed hfr _ hq ha hn =>
    refine h.congr (.of_eq ?_) hfr.zombies ha (fun t ht => ?_) hn
    · rw [Kernel.places, hfr.curthread, hq, hfr.sleepers, Kernel.places]
    · rw [hfr.threads t (hne t ht)]
  | made hfr _ hq ha hn _ _ _ hpc _ _ =>
    have hfresh : newguy ∉ k.places := fun hm => hne _ ((h.live newguy).1 hm).1 rfl
    have hp : k'.places.Perm (newguy :: k.places) := by
      rw [Kernel.places, hfr.curthread, hq, hfr.sleepers, Kernel.places, ← List.append_assoc,
        List.append_assoc _ [newguy]]
      exact List.perm_middle
    have halloc : ∀ t, t ≠ newguy → k'.allocated t = k.allocated t := fun t ht => by
      rw [ha, update_of_ne ht]
    have hself : k'.allocated newguy = true := by rw [ha, update_self]
    refine ⟨hp.nodup_iff.2 (List.nodup_cons.2 ⟨hfresh, h.nodup⟩), fun t => ?_,
      hfr.zombies ▸ h.zombiesNodup, fun t => ?_, ?_⟩
    · rw [hp.mem_iff, List.mem_cons, Kernel.Live]
      by_cases ht : t = newguy
      · subst ht
        refine iff_of_true (.inl rfl) ⟨hself, ?_⟩
        rw [hpc]
        exact nofun
      · rw [halloc t ht, hfr.threads t ht, h.live t]
        exact ⟨fun hm => hm.resolve_left ht, .inr⟩
    · rw [hfr.zombies, h.zombies t, Kernel.Exited, Kernel.Exited]
      by_cases ht : t = newguy
      · subst ht
        refine iff_of_false (fun hx => absurd (hf.symm.trans hx.1) nofun) fun hx => ?_
        exact absurd (hpc.symm.trans hx.2) nofun
      · rw [halloc t ht, hfr.threads t ht]
    · rw [hn, h.count, hp.length_eq, List.length_cons]

end

/-- The census through one step. -/
theorem step {a : Scope} {e : List Event} (hp : Prim a k e k') (h : Census k) : Census k' := by
  cases hp with
  | quiet hq =>
    refine h.congr (.of_eq ?_) (by rw [hq.zombies]) hq.allocated (fun t _ => hq.dead t)
      hq.numthreads
    rw [Kernel.places, hq.curthread, hq.runqueue, hq.sleepers, Kernel.places]
  | wakeAll _ hw => exact h.wokeAll hw
  | wakeOne _ hw => exact h.wokeOne hw
  | take _ => exact h.congr (.refl _) rfl rfl (fun _ _ => .rfl) rfl
  | give _ _ _ hw =>
    refine wokeAll ?_ hw
    exact h.congr (.refl _) rfl rfl (fun _ _ => .rfl) rfl
  | acquire _ _ _ => exact h.congr (.refl _) rfl rfl (fun _ _ => .rfl) rfl
  | release _ _ _ hw =>
    refine wokeAll ?_ hw
    exact h.congr (.refl _) rfl rfl (fun _ _ => .rfl) rfl
  | waited _ _ => exact h
  | fork _ hf _ hk => exact h.forked hf hk
  | mark _ _ _ _ => exact h.congr (.refl _) rfl rfl (fun _ _ => .rfl) rfl
  | dispatch hcur hd => exact h.dispatched hcur hd
  | yield hcur hs hd =>
    obtain ⟨h1, hnone⟩ := h.stashed hcur hs nofun nofun
    exact h1.dispatched hnone hd
  | sleep _ _ hcur _ hs hd =>
    obtain ⟨h1, hnone⟩ := h.slept hcur hs
    exact h1.dispatched hnone hd
  | exit _ _ hcur _ hs hd =>
    obtain ⟨h1, hnone⟩ := h.exited hcur hs
    exact h1.dispatched hnone hd

end Census

variable {k k' : Kernel} {cur t : Addr} {pc : Pc} {st : NextState} {addr : Option Chan}

theorem Booted.census {me : Addr} (h : Booted k me) : Census k := by
  have hp : k.places = [me] := by
    rw [Kernel.places, h.curthread, h.ready, h.sleepers]
    rfl
  have hz : k.zombies.v = [] := by
    rw [h.zombies]
    rfl
  refine ⟨hp ▸ List.nodup_singleton me, fun t => ?_, hz ▸ List.nodup_nil, fun t => ?_, ?_⟩
  · rw [hp, List.mem_singleton, Kernel.Live, h.allocated t]
    refine ⟨fun ht => ⟨ht, ?_⟩, And.left⟩
    rw [ht, h.pc]
    exact nofun
  · rw [hz, Kernel.Exited, h.allocated t]
    refine iff_of_false List.not_mem_nil fun hx => ?_
    rw [hx.1, h.pc] at hx
    exact absurd hx.2 nofun
  · rw [h.numthreads, hp]
    rfl

/-! ## Sleepers

A sleeper's sleep address is what it was when it went to sleep: whoever changes
one is the running thread, or is being switched in, and neither sleeps. -/

namespace Dispatched

variable {k k' : Kernel} (h : Dispatched k k')

include h

theorem sleepers : k'.sleepers = k.sleepers := by
  cases h with
  | idle => rfl
  | start => rfl
  | yield _ _ _ hr =>
    obtain ⟨z, a, p, o, rfl⟩ := hr.frame
    rfl
  | sleep _ _ _ hr =>
    obtain ⟨z, a, p, o, rfl⟩ := hr.frame
    rfl

theorem sems_locks : k'.sems = k.sems ∧ k'.locks = k.locks := by
  cases h with
  | idle => exact ⟨rfl, rfl⟩
  | start => exact ⟨rfl, rfl⟩
  | yield _ _ _ hr =>
    obtain ⟨z, a, p, o, rfl⟩ := hr.frame
    exact ⟨rfl, rfl⟩
  | sleep _ _ _ hr =>
    obtain ⟨z, a, p, o, rfl⟩ := hr.frame
    exact ⟨rfl, rfl⟩

theorem threads_ne {t : Addr} (ht : t ∉ k.runqueue.toList) : k'.threads t = k.threads t := by
  have hne : ∀ {next : Addr} {q : Queue Addr}, k.runqueue.toList = next :: q.toList →
      t ≠ next := fun hq he => ht (by rw [hq, he]; exact List.mem_cons_self)
  cases h with
  | idle => rfl
  | start hq => exact update_of_ne (hne hq) _ _
  | yield hq _ _ hr =>
    obtain ⟨z, a, p, o, rfl⟩ := hr.frame
    exact update_of_ne (hne hq) _ _
  | sleep hq _ _ hr =>
    obtain ⟨z, a, p, o, rfl⟩ := hr.frame
    exact Kernel.onThread_threads_ne (hne hq)

end Dispatched

theorem Stashed.threads_ne (h : Stashed k cur pc st k') (ht : t ≠ cur) :
    k'.threads t = k.threads t := by
  cases h <;> exact update_of_ne ht _ _

theorem Stashed.sems_locks (h : Stashed k cur pc st k') :
    k'.sems = k.sems ∧ k'.locks = k.locks := by
  cases h <;> exact ⟨rfl, rfl⟩

theorem Stashed.sleepers (h : Stashed k cur pc st k') (hst : st ≠ .sleep) :
    k'.sleepers = k.sleepers := by
  cases h with
  | ready => rfl
  | sleep => exact absurd rfl hst
  | zomb => rfl

namespace Census

variable {k k' : Kernel} {t : Addr}

theorem not_ready (h : Census k) (ht : t ∈ k.sleepers.v) : t ∉ k.runqueue.toList := fun hq =>
  (List.nodup_append.1 h.nodup).2.2 t (List.mem_append_right _ hq) t ht rfl

theorem not_running (h : Census k) (ht : t ∈ k.sleepers.v) : k.curthread ≠ some t := fun hc =>
  (List.nodup_append.1 h.nodup).2.2 t
    (List.mem_append_left _ (by rw [hc]; exact List.mem_singleton.2 rfl)) t ht rfl

end Census

/-- Who is left when everybody on `addr` has been woken up. -/
theorem WokeAll.mem_sleepers (h : WokeAll k addr k') (t : Addr) :
    t ∈ k'.sleepers.v ↔ t ∈ k.sleepers.v ∧ (k.threads t).tSleepaddr ≠ addr := by
  obtain ⟨s, q, hsv, -, -, -, rfl⟩ := h
  show t ∈ s.v ↔ _
  rw [hsv, List.mem_filter, decide_eq_true_iff]

theorem WokeOne.mem_sleepers (h : WokeOne k addr k') : (t ∈ k'.sleepers.v → t ∈ k.sleepers.v) ∧
      (t ∈ k.sleepers.v → (k.threads t).tSleepaddr ≠ addr → t ∈ k'.sleepers.v) := by
  obtain ⟨-, rfl⟩ | ⟨pre, post, u, s, q, hv, -, hu, hsv, -, -, -, rfl⟩ := h
  · exact ⟨id, fun ht _ => ht⟩
  have hs : t ∈ s.v ↔ t ∈ pre ∨ t ∈ post := by rw [hsv, List.mem_append]
  refine ⟨fun ht => ?_, fun ht hne => hs.2 ?_⟩
  · rw [hv, List.mem_append, List.mem_cons]
    exact (hs.1 ht).imp_right .inr
  · rw [hv, List.mem_append, List.mem_cons] at ht
    exact ht.imp_right fun h => h.resolve_left fun he => hne (he ▸ hu)

theorem WokeOne.threads (h : WokeOne k addr k') : k'.threads = k.threads := by
  obtain ⟨-, rfl⟩ | ⟨pre, post, u, s, q, -, -, -, -, -, -, -, rfl⟩ := h <;> rfl

section
variable {a : Scope} {e : List Event} {k k' : Kernel} {t : Addr}

/-- Who goes to sleep: the one that ran. -/
structure FellAsleep (a : Scope) (k k' : Kernel) (t : Addr) : Prop where
  running : k.curthread = some t
  sleeps : ∃ caller : Caller, caller.Sleeps a k (k'.threads t).tSleepaddr
  sems : k'.sems = k.sems
  locks : k'.locks = k.locks

/-- A step that does not put the running thread to sleep keeps everybody's sleep
address, and makes no sleepers. -/
theorem Prim.sleeper (hp : Prim a k e k') (h : Census k) (ht : t ∈ k'.sleepers.v) :
    t ∈ k.sleepers.v ∧ (k'.threads t).tSleepaddr = (k.threads t).tSleepaddr ∨
      FellAsleep a k k' t := by
  have hne : ∀ cur, k.curthread = some cur → t ∈ k.sleepers.v → t ≠ cur :=
    fun _ hcur ht he => h.not_running ht (he ▸ hcur)
  cases hp with
  | quiet hq => exact .inl ⟨hq.sleepers ▸ ht, hq.sleepaddr t⟩
  | wakeAll _ hw => exact .inl ⟨((hw.mem_sleepers t).1 ht).1, by rw [hw.threads]⟩
  | wakeOne _ hw => exact .inl ⟨hw.mem_sleepers.1 ht, by rw [hw.threads]⟩
  | take _ => exact .inl ⟨ht, rfl⟩
  | give _ _ _ hw => exact .inl ⟨((hw.mem_sleepers t).1 ht).1, by rw [hw.threads]⟩
  | acquire _ _ _ => exact .inl ⟨ht, rfl⟩
  | release _ _ _ hw => exact .inl ⟨((hw.mem_sleepers t).1 ht).1, by rw [hw.threads]⟩
  | waited _ _ => exact .inl ⟨ht, rfl⟩
  | @fork _ newguy _ r _ hf _ hk =>
    have ht := hk.frame.sleepers ▸ ht
    have hne : t ≠ newguy := fun he => by
      have := ((h.live t).1 (List.mem_append_right _ ht)).1
      rw [he, hf] at this
      exact absurd this nofun
    exact .inl ⟨ht, by rw [hk.frame.threads t hne]⟩
  | mark _ _ _ _ => exact .inl ⟨ht, rfl⟩
  | dispatch _ hd =>
    have ht := hd.sleepers ▸ ht
    exact .inl ⟨ht, by rw [hd.threads_ne (h.not_ready ht)]⟩
  | yield hcur hs hd =>
    have h1 := (h.stashed hcur hs nofun nofun).1
    have ht := hd.sleepers ▸ ht
    rw [hd.threads_ne (h1.not_ready ht)]
    have ht := hs.sleepers nofun ▸ ht
    exact .inl ⟨ht, by rw [hs.threads_ne (hne _ hcur ht)]⟩
  | @sleep _ _ cur addr caller _ _ hcur hsl hs hd =>
    have h1 := (h.slept hcur hs).1
    have ht := hd.sleepers ▸ ht
    rw [hd.threads_ne (h1.not_ready ht)]
    have hsl' := hd.sems_locks
    have hthr := hd.threads_ne (h1.not_ready ht)
    cases hs with
    | @sleep s hv _ =>
      by_cases he : t = cur
      · subst he
        refine .inr ⟨hcur, ⟨caller, ?_⟩, hsl'.1, hsl'.2⟩
        rw [hthr]
        simpa [Kernel.leave] using hsl
      · have hm : t ∈ s.v := ht
        rw [hv, List.mem_append, List.mem_singleton] at hm
        refine .inl ⟨hm.resolve_right he, ?_⟩
        simp [Kernel.leave, Kernel.onThread, update_of_ne he]
  | exit _ _ hcur _ hs hd =>
    have h1 := (h.exited hcur hs).1
    have ht := hd.sleepers ▸ ht
    rw [hd.threads_ne (h1.not_ready ht)]
    have ht : t ∈ k.sleepers.v := hs.sleepers nofun ▸ ht
    exact .inl ⟨ht, by rw [hs.threads_ne (hne _ hcur ht)]⟩

end

/-! ## The result -/

/-- Who is where, and how many there are. -/
structure OnePlace (k : Kernel) : Prop where
  /-- Nobody is in two of the places, or twice in one. -/
  nodup : (k.curthread.toList ++ k.runqueue.toList ++ k.sleepers.v).Nodup
  live : ∀ t, t ∈ k.curthread.toList ++ k.runqueue.toList ++ k.sleepers.v ↔ k.Live t
  zombiesNodup : k.zombies.v.Nodup
  zombies : ∀ t, t ∈ k.zombies.v ↔ k.Exited t
  running : ∀ t, k.curthread = some t → t ∉ k.zombies.v
  count : k.numthreads = Set.ncard { t | k.Live t }

theorem Census.onePlace (h : Census k) : OnePlace k where
  nodup := h.nodup
  live := h.live
  zombiesNodup := h.zombiesNodup
  zombies := h.zombies
  running t ht hz := (h.running ht).2 ((h.zombies t).1 hz).2
  count := by
    have hset : { t | k.Live t } = (k.places.toFinset : Set Addr) := by
      ext t
      rw [Set.mem_ofPred_eq, List.coe_toFinset, Set.mem_ofPred_eq, h.live t]
    rw [hset, Set.ncard_coe_finset, List.toFinset_card_of_nodup h.nodup, h.count]

/-- Nobody outside `synch.c` sleeps on the null pointer. -/
def noNull : Scope := { Scope.any with sleeps := fun addr => addr ≠ none }

/-- The sleepers through one step. -/
theorem Prim.sleepaddr_ne {e : List Event} (hp : Prim noNull k e k') (hc : Census k)
    (h : ∀ t ∈ k.sleepers.v, (k.threads t).tSleepaddr ≠ none) :
    ∀ t ∈ k'.sleepers.v, (k'.threads t).tSleepaddr ≠ none := by
  intro t ht
  rcases hp.sleeper hc ht with ⟨ht, he⟩ | hf
  · rw [he]
    exact h t ht
  · obtain ⟨caller, hs⟩ := hf.sleeps
    cases caller with
    | plain spl => exact hs
    | semP sem spl => exact hs.1 ▸ nofun
    | lockAcquire lock spl ret => exact hs.1 ▸ nofun
    | cvWait cv lock spl ret => exact fun hn => absurd (hn.symm.trans hs) nofun

/-- In every run, whatever the threads do and whatever the allocator answers,
every thread is in one place. If `thread_sleep` is never called with the null
pointer, everybody who sleeps has a sleep address. -/
theorem threads_in_one_place {k₀ : Kernel} {me : Addr} (h₀ : Booted k₀ me) :
    (∀ tr k, Run (fun _ _ _ => True) k₀ tr k → OnePlace k) ∧
      ∀ tr k, Run (fun _ op _ => op ≠ .sleep none) k₀ tr k →
        OnePlace k ∧ ∀ t ∈ k.sleepers.v, (k.threads t).tSleepaddr ≠ none := by
  constructor
  · intro tr k h
    exact (h.invariant (I := fun k _ => Census k) (fun k op _ _ => op.within_any k) trivial
      (fun hp hk => hk.step hp) h₀.census).onePlace
  · intro tr k h
    have hsleep : ∀ t ∈ k₀.sleepers.v, (k₀.threads t).tSleepaddr ≠ none := by
      rw [h₀.sleepers]
      exact fun t ht => absurd ht List.not_mem_nil
    obtain ⟨hc, hn⟩ := h.invariant (a := noNull)
      (I := fun k _ => Census k ∧ ∀ t ∈ k.sleepers.v, (k.threads t).tSleepaddr ≠ none)
      (fun k op _ ho => { op.within_any k with sleeps := fun addr he hn => ho (by rw [he, hn]) })
      trivial
      (fun hp hk => ⟨hk.1.step hp, hp.sleepaddr_ne hk.1 hk.2⟩) ⟨h₀.census, hsleep⟩
    exact ⟨hc.onePlace, hn⟩

/-- What the bootstrap routines leave behind, with the boot thread at `me`. -/
def Kernel.boot (me : Addr) (pids : PidTable) : Kernel where
  curspl := 0
  curthread := some me
  sleepers := KArray.empty
  zombies := KArray.empty
  numthreads := 1
  runqueue := Queue.blank 32 (by decide) fun _ => 0
  threads _ := ⟨none, none, none, none, 1, 0, .run⟩
  allocated t := decide (t = me)
  pids := pids
  pidlock := 0
  sems _ := 0
  locks _ := none
  filetables _ := []
  openfiles _ := false

theorem Kernel.booted_boot (me : Addr) (pids : PidTable) : Booted (Kernel.boot me pids) me :=
  ⟨rfl, rfl, rfl, rfl, (Queue.isEmpty_iff_toList _).1 rfl, rfl, fun t => by simp [Kernel.boot],
    rfl, fun _ => rfl⟩

/-- The boot thread forks and goes to sleep, the new thread runs. -/
theorem threads_in_one_place_fork :
    ∃ k, k.curthread = some 9 ∧ k.sleepers.v = [7] ∧ OnePlace k ∧
      ∀ t ∈ k.sleepers.v, (k.threads t).tSleepaddr ≠ none := by
  have h := (threads_in_one_place
    (Kernel.booted_boot 7 (PidTable.pidInitialize fun _ => 0))).2
  obtain ⟨tr, k, hrun, hcur, hs⟩ : ∃ tr k, Run (fun _ op _ => op ≠ .sleep none)
      (Kernel.boot 7 (PidTable.pidInitialize fun _ => 0)) tr k ∧ k.curthread = some 9 ∧
        k.sleepers.v = [7] := by
    refine ⟨_, _, .step (.sleep (some (.other 5))) {} (.step (.fork 9 100 200 ⟨0, 0⟩) {} .start
      (And.intro nofun (And.intro rfl fun b hb => ?_)) nofun ⟨_, rfl, rfl⟩)
      (And.intro nofun trivial) nofun ⟨_, rfl, rfl⟩, rfl, rfl⟩
    cases hb
  exact ⟨k, hcur, hs, h tr k hrun⟩

/-- `thread_sleep(NULL)` by the boot thread. -/
theorem sleeper_without_sleepaddr :
    ∃ tr k, Run (fun _ _ _ => True) (Kernel.boot 7 (PidTable.pidInitialize fun _ => 0)) tr k ∧
      7 ∈ k.sleepers.v ∧ (k.threads 7).tSleepaddr = none :=
  ⟨_, _, .step (.sleep none) {} .start (And.intro nofun trivial) trivial
    ⟨_, rfl, rfl⟩, List.mem_singleton.2 rfl, rfl⟩

end Os161.Thread
