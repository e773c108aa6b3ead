import Mathlib.Data.List.Count
import Os161.Proofs.Census

/-!
# Permits, holders and waiters

What runs of the system mean for one semaphore, one lock and one condition
variable. The trace of a run records the operations that have been completed;
the state agrees with it at every moment: the count of a semaphore is what the
trace says, the holder of a lock is the one thread that has acquired and not
released it. Nobody is left asleep for nothing, because the step that makes a
permit or a lock available wakes everybody who wants it, and because a thread
that goes to sleep does so in the step in which it found nothing.
-/

namespace Os161.Thread

open Os161.Kern Os161.Lib Function

section
variable {a : Scope} {e : List Event} {k k' : Kernel} {t : Addr}

variable {sem : Addr}

theorem FellAsleep.sem_eq_zero (h : FellAsleep a k k' t) (ha : ¬ a.sleeps (some (.sem sem)))
    (hs : (k'.threads t).tSleepaddr = some (.sem sem)) : k.sems sem = 0 := by
  obtain ⟨caller, hsl⟩ := h.sleeps
  rw [hs] at hsl
  cases caller with
  | plain spl => exact absurd hsl ha
  | semP sem' spl =>
    cases hsl.1
    exact hsl.2
  | lockAcquire lock spl ret => cases hsl.1
  | cvWait cv lock spl ret => cases hsl

theorem FellAsleep.lock_ne_none {lock : Addr} (h : FellAsleep a k k' t)
    (ha : ¬ a.sleeps (some (.lock lock))) (hs : (k'.threads t).tSleepaddr = some (.lock lock)) :
    k.locks lock ≠ none := by
  obtain ⟨caller, hsl⟩ := h.sleeps
  rw [hs] at hsl
  cases caller with
  | plain spl => exact absurd hsl ha
  | semP sem' spl => cases hsl.1
  | lockAcquire lock' spl ret =>
    cases hsl.1
    exact hsl.2
  | cvWait cv lock' spl ret => cases hsl

end

/-! ## What a section reports -/

/-- The section is one of the routine `c`: the call of it, or what comes after a sleep in it. -/
def Op.In (k : Kernel) (t : Addr) (c : Caller) : Op → Prop
  | .semP sem => ∃ spl, c = .semP sem spl
  | .lockAcquire lock => ∃ spl, c = .lockAcquire lock spl .user
  | .resume => (k.threads t).pc = .awake c
  | _ => False

/-- The operations that are completed when `lock_acquire` gets the lock. -/
def AcquireRet.done (cur : Option Addr) (lock : Addr) : AcquireRet → Done
  | .user => ⟨[.acquired cur lock], .returned⟩
  | .cvWait cv _ ret => ⟨[.acquired cur lock, .waited cur cv lock], ret.ret⟩

/-- What a section reports that does not sleep. -/
def Caller.done (cur : Option Addr) : Caller → Done
  | .plain _ => ⟨[], .returned⟩
  | .semP sem _ => ⟨[.took sem], .returned⟩
  | .lockAcquire lock _ ret => ret.done cur lock
  | .cvWait cv lock spl ret => (AcquireRet.cvWait cv spl ret).done cur lock

/-- Why it has to sleep. -/
def Caller.Waits (k : Kernel) : Caller → Prop
  | .plain _ => False
  | .semP sem _ => k.sems sem = 0
  | .lockAcquire lock _ _ | .cvWait _ lock _ _ => k.locks lock ≠ none

/-- The section has done what the routine is for, or it sleeps because it cannot. -/
def Caller.Reports (c : Caller) (k : Kernel) (cur : Option Addr) (d : Done) : Prop :=
  d = c.done cur ∧ ¬ c.Waits k ∨ d = ⟨[], .blocked⟩ ∧ c.Waits k

section
variable {k k' : Kernel} {t sem lock : Addr} {spl : Nat} {ret : AcquireRet} {op : Op}
  {script : Script Empty} {d : Done} {c : Caller}

theorem Op.code_of_curthread (hcur : k.curthread = some t) : op.code k = op.prog := by
  rw [Op.code, hcur]

/-- Whatever comes first, the section reports `d`. -/
theorem awp_reports {X : Type} {P : Done → Prop} (p : KProg X) (hd : P d) :
    awp anyTerms (p >>= fun _ => pure d) (fun d _ => P d) k :=
  awp_bind_of (awp_true (fun _ => trivial) trivial p) fun _ _ _ => hd

theorem awp_semP_loop_done : awp anyTerms (semP.loop sem spl)
    (fun d _ => (Caller.semP sem spl).Reports k k.curthread d) k := by
  refine awp_bind.2 ?_
  show awp anyTerms (if k.sems sem = 0 then _ else _) _ k
  split
  · next hzero => exact awp_reports _ (.inr ⟨rfl, hzero⟩)
  · next hne =>
    exact awp_bind_of (awp_true (fun _ => trivial) trivial _) fun _ _ _ =>
      awp_bind.2 (awp_bind.2 (.inl ⟨rfl, hne⟩))

theorem awp_semV_done : awp anyTerms (semV sem) (fun d _ => d = ⟨[.gave sem], .returned⟩) k := by
  refine awp_bind.2 (awp_splhigh.2 (awp_bind.2 (awp_bind.2 ?_)))
  refine awp_bind_of (awp_true (fun _ => trivial) trivial _) fun _ _ _ => ?_
  exact awp_bind_of (awp_true (fun _ => trivial) trivial _) fun _ _ _ => awp_reports _ rfl

theorem awp_lockAcquire_loop_done : awp anyTerms (lockAcquire.loop lock spl ret)
    (fun d _ => (Caller.lockAcquire lock spl ret).Reports k k.curthread d) k := by
  refine awp_bind.2 ?_
  rw [awp_mem]
  cases hlock : k.locks lock with
  | some u => exact awp_reports _ (.inr ⟨rfl, Option.ne_none_iff_exists'.2 ⟨u, hlock⟩⟩)
  | none =>
    refine awp_bind.2 (awp_bind.2 ?_)
    cases ret with
    | user => exact .inl ⟨rfl, not_not.2 hlock⟩
    | cvWait cv spl' ret => exact awp_bind.2 (.inl ⟨rfl, not_not.2 hlock⟩)

theorem awp_lockAcquire_done (spl : Nat) : awp anyTerms (lockAcquire lock ret)
    (fun d _ => (Caller.lockAcquire lock spl ret).Reports k k.curthread d) k := by
  refine awp_bind.2 (awp_splhigh.2 (awp_bind.2 (awp_bind.2 ?_)))
  show awp anyTerms (if decide (k.locks lock = k.curthread) = true then _ else _) _ _
  split
  · trivial
  · exact awp_lockAcquire_loop_done

theorem awp_cvWait_done {cv : Addr} {ret : WaitRet} :
    awp anyTerms (cvWait cv lock ret) (fun d _ => d.ret = .blocked) k :=
  awp_bind.2 (awp_splhigh.2 (awp_bind.2 (awp_bind_of (awp_true (fun _ => trivial) trivial _)
    fun _ _ _ => awp_reports _ rfl)))

theorem awp_resume_done (hcur : k.curthread = some t) (hpc : (k.threads t).pc = .awake c) :
    awp anyTerms resume (fun d _ => c.Reports k k.curthread d) k := by
  refine awp_bind.2 (awp_self trivial fun cur hcur' => awp_bind.2 ?_)
  obtain rfl : cur = t := Option.some.inj (hcur'.symm.trans hcur)
  rw [awp_mem, hpc]
  refine awp_bind.2 ((awp_put _).2 ?_)
  cases c with
  | plain spl => exact awp_reports _ (.inl ⟨rfl, id⟩)
  | semP sem spl => exact awp_semP_loop_done
  | lockAcquire lock spl ret => exact awp_lockAcquire_loop_done
  | cvWait cv lock spl ret => exact awp_lockAcquire_done spl

theorem Leads.reports (hcur : k.curthread = some t) (hop : op.In k t c)
    (hl : Leads k op script d k') : c.Reports k (some t) d := by
  rw [← hcur]
  refine hl.of_awp (Q := fun d _ => c.Reports k k.curthread d) ?_
  rw [Op.code_of_curthread hcur]
  cases op with
  | semP sem =>
    obtain ⟨spl, rfl⟩ := hop
    exact awp_bind.2 (awp_splhigh.2 awp_semP_loop_done)
  | lockAcquire lock =>
    obtain ⟨spl, rfl⟩ := hop
    exact awp_lockAcquire_done spl
  | resume => exact awp_resume_done hcur hop
  | _ => exact hop.elim

theorem Leads.semV (hl : Leads k (.semV sem) script d k') : d = ⟨[.gave sem], .returned⟩ := by
  refine hl.of_awp (Q := fun d _ => d = ⟨[.gave sem], .returned⟩) ?_
  rw [Op.code]
  cases k.curthread with
  | none => exact awp_bind_of awp_semV_done fun d _ hd => awp_reports _ hd
  | some t => exact awp_semV_done

theorem Leads.lockRelease (hcur : k.curthread = some t)
    (hl : Leads k (.lockRelease lock) script d k') :
    d = ⟨[.released (some t) lock], .returned⟩ := by
  rw [← hcur]
  refine hl.of_awp (Q := fun d _ => d = ⟨[.released k.curthread lock], .returned⟩) ?_
  rw [Op.code_of_curthread hcur]
  exact awp_bind.2 (awp_reports _ rfl)

end

/-! ## Semaphores -/

section
variable {a : Scope} {e : List Event} {k k' : Kernel} {t sem : Addr}

/-- What a step can do to permits and locks. -/
inductive Synchs (k k' : Kernel) : List Event → Prop
  | same (hs : k'.sems = k.sems) (hl : k'.locks = k.locks) : Synchs k k' []
  | waited {u cv lock : Addr} (hh : k.locks lock = some u) (hk : k' = k) :
      Synchs k k' [.waited (some u) cv lock]
  | take {sem : Addr} (h : 0 < k.sems sem)
      (hk : k' = { k with sems := update k.sems sem (k.sems sem - 1) }) : Synchs k k' [.took sem]
  | give {sem : Addr} {count : Int} (hc : count = Int.bmod (k.sems sem + 1) 4294967296)
      (hp : 0 < count) (hw : WokeAll { k with sems := update k.sems sem count }
        (some (.sem sem)) k') :
      Synchs k k' [.gave sem]
  | acquire {u lock : Addr} (h : k.locks lock = none)
      (hk : k' = { k with locks := update k.locks lock (some u) }) :
      Synchs k k' [.acquired (some u) lock]
  | release {u lock : Addr} (hh : k.locks lock = some u)
      (hw : WokeAll { k with locks := update k.locks lock none } (some (.lock lock)) k') :
      Synchs k k' [.released (some u) lock]

theorem Prim.synchs (hp : Prim a k e k') : Synchs k k' e := by
  have hleft : ∀ {k₁ k₂ : Kernel} {cur : Addr} {pc : Pc} {st : NextState},
      Stashed k₁ cur pc st k₂ → Dispatched k₂ k' → k₁.sems = k.sems → k₁.locks = k.locks →
      Synchs k k' [] := fun hs hd h1 h2 =>
    .same (hd.sems_locks.1.trans (hs.sems_locks.1.trans h1))
      (hd.sems_locks.2.trans (hs.sems_locks.2.trans h2))
  cases hp with
  | quiet hq => exact .same hq.sems hq.locks
  | wakeAll _ hw =>
    obtain ⟨s, q, -, -, -, -, rfl⟩ := hw
    exact .same rfl rfl
  | wakeOne _ hw =>
    obtain ⟨-, rfl⟩ | ⟨pre, post, u, s, q, -, -, -, -, -, -, -, rfl⟩ := hw <;> exact .same rfl rfl
  | take h => exact .take h rfl
  | give _ hc hp hw => exact .give hc hp hw
  | acquire _ hcur h =>
    rw [show [Event.acquired k.curthread _] = [.acquired (some _) _] by rw [hcur]]
    exact .acquire h (by rw [hcur])
  | release hcur _ hh hw =>
    rw [hcur] at hh ⊢
    exact .release hh hw
  | waited hcur h =>
    rw [hcur] at h ⊢
    exact .waited h rfl
  | mark _ _ _ _ => exact .same rfl rfl
  | fork _ _ _ hk => exact .same hk.frame.sems hk.frame.locks
  | dispatch _ hd => exact .same hd.sems_locks.1 hd.sems_locks.2
  | yield _ hs hd => exact hleft hs hd rfl rfl
  | sleep _ _ _ _ hs hd => exact hleft hs hd rfl rfl
  | exit _ _ _ _ hs hd => exact hleft hs hd rfl rfl

/-- A semaphore that was created with count `c`, after the operations `tr`. -/
structure SemInv (sem : Addr) (c : Int) (k : Kernel) (tr : List Event) : Prop where
  census : Census k
  count : k.sems sem = c + tr.count (.gave sem) - tr.count (.took sem)
  nonneg : 0 ≤ k.sems sem
  small : k.sems sem < 2 ^ 31
  asleep : ∀ t, k.Asleep t (.sem sem) → k.sems sem = 0

/-- The counter does not go around: `V` would have panicked. -/
theorem count_of_bmod_pos {n : Int} (h0 : 0 ≤ n) (h₁ : n < 2 ^ 31)
    (h : 0 < Int.bmod (n + 1) 4294967296) : Int.bmod (n + 1) 4294967296 = n + 1 ∧
      n + 1 < 2 ^ 31 := by
  rw [Int.bmod_def] at h ⊢
  have hm : (n + 1) % ((4294967296 : Nat) : Int) = n + 1 := Int.emod_eq_of_lt (by omega) (by omega)
  rw [hm] at h ⊢
  split at h <;> omega

/-- A step that is about other semaphores. -/
theorem SemInv.same {c : Int} {tr : List Event} (h : SemInv sem c k tr)
    (hc : Census k') (hs : k'.sems sem = k.sems sem) (ht : .took sem ∉ e) (hg : .gave sem ∉ e)
    (hsl : ∀ t, k'.Asleep t (.sem sem) → k.Asleep t (.sem sem) ∨ k.sems sem = 0) :
    SemInv sem c k' (tr ++ e) where
  census := hc
  count := by
    rw [hs, h.count, List.count_append, List.count_append, List.count_eq_zero.2 ht,
      List.count_eq_zero.2 hg, Nat.add_zero, Nat.add_zero]
  nonneg := hs ▸ h.nonneg
  small := hs ▸ h.small
  asleep t hk := hs ▸ (hsl t hk).elim (h.asleep t) id

theorem SemInv.step {c : Int} {tr : List Event} (hp : Prim a k e k')
    (ha : ¬ a.sleeps (some (.sem sem))) (h : SemInv sem c k tr) : SemInv sem c k' (tr ++ e) := by
  have hcensus := h.census.step hp
  -- no permit moves: a new sleeper has seen that there is none
  have hstill : k'.sems = k.sems → .took sem ∉ e → .gave sem ∉ e →
      SemInv sem c k' (tr ++ e) := by
    intro hs ht hg
    refine h.same hcensus (by rw [hs]) ht hg fun t ht => ?_
    rcases hp.sleeper h.census ht.1 with ⟨hm, haddr⟩ | hf
    · exact .inl ⟨hm, haddr.symm.trans ht.2⟩
    · exact .inr (hf.sem_eq_zero ha ht.2)
  cases hp.synchs with
  | same hs _ => exact hstill hs nofun nofun
  | waited _ hk => exact hstill (by rw [hk]) (by simp) (by simp)
  | acquire _ hk => exact hstill (by rw [hk]) (by simp) (by simp)
  | release _ hw =>
    obtain ⟨s, q, -, -, -, -, rfl⟩ := hw
    exact hstill rfl (by simp) (by simp)
  | @take s hpos hk =>
    subst hk
    by_cases hsem : sem = s
    · subst hsem
      have hself : update k.sems sem (k.sems sem - 1) sem = k.sems sem - 1 :=
        update_self _ _ _
      have hcount := h.count
      have hsmall := h.small
      refine ⟨hcensus, hself.trans ?_, ?_, ?_, fun t ht => ?_⟩
      · rw [List.count_append, List.count_append]
        simp
        omega
      · show 0 ≤ update k.sems sem (k.sems sem - 1) sem
        omega
      · show update k.sems sem (k.sems sem - 1) sem < 2 ^ 31
        omega
      · -- there was a permit, so nobody sleeps
        have := h.asleep t ht
        omega
    · exact h.same hcensus (update_of_ne hsem _ _) (by simpa using hsem) (by simp)
        fun t ht => .inl ht
  | @give s n hn hpos hw =>
    have hk : k'.sems = update k.sems s n := by
      obtain ⟨s', q, -, -, -, -, rfl⟩ := hw
      rfl
    have hsleep : ∀ t c, k'.Asleep t c → k.Asleep t c ∧ c ≠ .sem s := fun t c ht => by
      obtain ⟨hm, hne⟩ := (hw.mem_sleepers t).1 ht.1
      have haddr : (k.threads t).tSleepaddr = some c := hw.threads ▸ ht.2
      exact ⟨⟨hm, haddr⟩, fun hc => hne (hc ▸ haddr)⟩
    by_cases hsem : sem = s
    · subst hsem
      have hself : k'.sems sem = n := by rw [hk, update_self]
      obtain ⟨hn', hlt⟩ := count_of_bmod_pos h.nonneg h.small (hn ▸ hpos)
      rw [← hn] at hn'
      have hcount := h.count
      refine ⟨hcensus, ?_, by omega, by omega, fun t ht => ?_⟩
      · rw [hself, hn', List.count_append, List.count_append]
        simp
        omega
      · exact absurd rfl (hsleep t _ ht).2
    · exact h.same hcensus (by rw [hk, update_of_ne hsem]) (by simp)
        (by simpa using hsem) fun t ht => .inl (hsleep t _ ht).1

end

/-- `sem_create`: nobody can have slept at a new address. -/
def Kernel.semCreate (k : Kernel) (sem : Addr) (count : Int) : Kernel :=
  { k with sems := update k.sems sem count }

/-- Any reachable state of the thread system. -/
def Reachable (k : Kernel) : Prop :=
  ∃ k₀ me tr, Booted k₀ me ∧ Run (fun _ _ _ => True) k₀ tr k

theorem Reachable.census {k : Kernel} (h : Reachable k) : Census k := by
  obtain ⟨k₀, me, tr, h0, hr⟩ := h
  exact hr.invariant (I := fun k _ => Census k) (fun k op _ _ => op.within_any k) trivial
    (fun hp hk => hk.step hp) h0.census

/-- The panic of `P` is the only one that is not tolerated. -/
def permitTerms (sem : Addr) : Terms Panic := ⟨fun f => f ≠ .semPCount sem, True, True⟩

/-- With permits to give, no section runs into the assertion of `P`. -/
theorem Op.run_ne_semPCount {k : Kernel} {op : Op} {sem : Addr} (hs : 0 ≤ k.sems sem)
    (he : op.Enabled k) (script : Script Empty) :
    ((op.code k).run (k.machine script)).1 ≠ .crash (.semPCount sem) := by
  have hc : Lenient (permitTerms sem) := fun f hf hx => by
    subst hx
    exact absurd hf nofun
  have hawp := Op.awp_code (c := permitTerms sem) hc
    (.inl ⟨trivial, fun _ => nofun, fun _ => nofun⟩) (.inl nofun) (fun _ => trivial)
    (op.within_any k)
    (fun s => ?_) he
  · have hends := awp_run (s := k.machine script) (fun _ => trivial) hawp
    intro hx
    cases hrun : (op.code k).run (k.machine script) with
    | mk o m =>
      rw [hrun] at hends hx
      subst hx
      exact hends rfl
  · by_cases hsem : s = sem
    · exact .inl (hsem ▸ hs)
    · exact .inr fun hx => hsem (Panic.semPCount.inj hx)

/-- A `P` that returns has completed one operation, and found a permit; one that sleeps has
completed none, and found none. A `V` that returns has completed one. -/
structure Permits (sem : Addr) (k : Kernel) : Prop where
  took : ∀ t op spl script d k', k.curthread = some t → op.In k t (.semP sem spl) →
    Leads k op script d k' →
    d = ⟨[.took sem], .returned⟩ ∧ k.sems sem ≠ 0 ∨ d = ⟨[], .blocked⟩ ∧ k.sems sem = 0
  gave : ∀ script d k', Leads k (.semV sem) script d k' → d = ⟨[.gave sem], .returned⟩

/-- A semaphore is created in some reachable state, with count `c`; from then on
nobody but `P` puts threads to sleep on it. The count is what the completed
operations say, where a `P` or `V` that returns has completed one and a `P` that
sleeps none; it never goes below zero, the assertion of `P` holds in
whatever comes next, and a thread sleeps on the semaphore only if there is no
permit. -/
theorem semaphore_permits {k₁ : Kernel} {sem : Addr} {c : Int} (h₁ : Reachable k₁)
    (hnew : ∀ t, ¬ k₁.Asleep t (.sem sem)) (hc₀ : 0 ≤ c) (hc : c < 2 ^ 31) {tr : List Event}
    {k : Kernel}
    (h : Run (fun _ op _ => op ≠ .sleep (some (.sem sem))) (k₁.semCreate sem c) tr k) :
    k.sems sem = c + tr.count (.gave sem) - tr.count (.took sem) ∧ Permits sem k ∧
      0 ≤ k.sems sem ∧ (∀ t, k.Asleep t (.sem sem) → k.sems sem = 0) ∧
      ∀ (op : Op) (script : Script Empty), op.Enabled k →
        ((op.code k).run (k.machine script)).1 ≠ .crash (.semPCount sem) := by
  have hself : (k₁.semCreate sem c).sems sem = c := update_self _ _ _
  have hinv : SemInv sem c k tr := by
    refine h.invariant (a := { Scope.any with sleeps := fun addr => addr ≠ some (.sem sem) })
      (fun k op _ ho => { op.within_any k with sleeps := fun addr he hn => ho (by rw [he, hn]) })
      trivial
      (fun hp hk => SemInv.step hp (fun hn => hn rfl) hk) ?_
    refine ⟨h₁.census.congr (.refl _) rfl rfl (fun _ _ => .rfl) rfl, ?_, ?_, ?_,
      fun t ht => absurd ht (hnew t)⟩ <;> rw [hself]
    · rw [List.count_nil, List.count_nil]
      omega
    · exact hc₀
    · exact hc
  exact ⟨hinv.count, ⟨fun _ _ _ _ _ _ hcur hop hl => hl.reports hcur hop, fun _ _ _ hl => hl.semV⟩,
    hinv.nonneg, hinv.asleep, fun op script he =>
    Op.run_ne_semPCount hinv.nonneg he script⟩

/-- A semaphore with one permit: thread 7 takes it and sleeps for another one, which thread 9
gives. For a third there is nothing to give. -/
theorem semaphore_permits_two :
    ∃ (tr : List Event) (k : Kernel), tr = [.took 3, .gave 3, .took 3] ∧ k.curthread = some 7 ∧
      k.sems 3 = 0 ∧
      ∀ script d k', Leads k (.semP 3) script d k' → d.ret = .blocked := by
  obtain ⟨tr, k, hrun, htr, hcur⟩ : ∃ tr k, Run (fun _ op _ => op ≠ .sleep (some (.sem 3)))
      ((Kernel.boot 7 (PidTable.pidInitialize fun _ => 0)).semCreate 3 1) tr k ∧
        tr = [.took 3, .gave 3, .took 3] ∧ k.curthread = some 7 := by
    refine ⟨_, _, .step .resume {} (.step .yield {} (.step (.semV 3) {} (.step (.semP 3) {}
      (.step (.semP 3) {} (.step (.fork 9 100 200 ⟨0, 0⟩) {} .start
        (And.intro nofun (And.intro rfl fun b hb => ?_)) nofun ⟨_, rfl, rfl⟩)
        (And.intro nofun trivial) nofun ⟨_, rfl, rfl⟩)
        (And.intro nofun trivial) nofun ⟨_, rfl, rfl⟩)
        (And.intro nofun trivial) nofun ⟨_, rfl, rfl⟩)
        (And.intro nofun trivial) nofun ⟨_, rfl, rfl⟩) rfl nofun ⟨_, rfl, rfl⟩, rfl, rfl⟩
    cases hb
  subst htr
  obtain ⟨hcount, hpermits, -⟩ := semaphore_permits ⟨_, 7, [], Kernel.booted_boot 7 _, .start⟩
    (fun t ht => absurd ht.1 List.not_mem_nil) (by decide) (by decide) hrun
  refine ⟨_, k, rfl, hcur, hcount, fun script d k' hl => ?_⟩
  obtain ⟨-, hpos⟩ | ⟨rfl, -⟩ := hpermits.took 7 (.semP 3) 0 script d k' hcur ⟨0, rfl⟩ hl
  · exact absurd hcount hpos
  · rfl

/-! ## Locks -/

/-- In the trace, `t` is between a completed `lock_acquire` and its
`lock_release`. -/
def Between (tr : List Event) (t lock : Addr) : Prop :=
  tr.count (.released (some t) lock) < tr.count (.acquired (some t) lock)

section
variable {a : Scope} {e : List Event} {k k' : Kernel} {t : Addr}

/-- A lock after the operations `tr`. -/
structure LockInv (lock : Addr) (k : Kernel) (tr : List Event) : Prop where
  census : Census k
  holder : ∀ t, tr.count (.acquired (some t) lock) =
    tr.count (.released (some t) lock) + if k.locks lock = some t then 1 else 0
  asleep : ∀ t, k.Asleep t (.lock lock) → k.locks lock ≠ none
  returns : ∀ pre post t cv, tr = pre ++ .waited t cv lock :: post →
    ∃ u, t = some u ∧ Between pre u lock

variable {lock : Addr} {tr : List Event} {c : Chan}

theorem LockInv.between_iff (h : LockInv lock k tr) (t : Addr) :
    Between tr t lock ↔ k.locks lock = some t := by
  rw [Between, h.holder t]
  split <;> simp [*]

/-- Where an element of a list with one more at the end is. -/
theorem append_singleton_split {α : Type} {l pre post : List α} {x y : α}
    (h : l ++ [x] = pre ++ y :: post) : (∃ post', l = pre ++ y :: post') ∨ pre = l ∧ x = y := by
  rcases List.eq_nil_or_concat post with rfl | ⟨post', z, rfl⟩
  · obtain ⟨h₁, h2⟩ := List.append_inj' h rfl
    exact .inr ⟨h₁.symm, List.singleton_inj.1 h2⟩
  · rw [List.concat_eq_append, ← List.cons_append, ← List.append_assoc] at h
    exact .inl ⟨post', (List.append_inj' h rfl).1⟩

/-- A step that is about other locks, or reports something else about this
one. -/
theorem LockInv.same (h : LockInv lock k tr) (hc : Census k') (hl : k'.locks lock = k.locks lock)
    {x : Event} (ha : ∀ t, x ≠ .acquired t lock) (hr : ∀ t, x ≠ .released t lock)
    (hw : ∀ t cv, x = .waited t cv lock → ∃ u, t = some u ∧ k.locks lock = some u)
    (hsl : ∀ t, k'.Asleep t (.lock lock) → k.Asleep t (.lock lock) ∨ k.locks lock ≠ none) :
    LockInv lock k' (tr ++ [x]) where
  census := hc
  holder t := by
    rw [List.count_append, List.count_append, List.count_singleton, List.count_singleton,
      if_neg (by simpa using ha _), if_neg (by simpa using hr _), h.holder t, hl, Nat.add_zero,
      Nat.add_zero]
  asleep t ht := hl ▸ (hsl t ht).elim (h.asleep t) id
  returns pre post t cv he := by
    rcases append_singleton_split he with ⟨post', he⟩ | ⟨rfl, hx⟩
    · exact h.returns pre post' t cv he
    · obtain ⟨u, hu, hk⟩ := hw t cv hx
      exact ⟨u, hu, (h.between_iff u).2 hk⟩

theorem LockInv.silent (h : LockInv lock k tr) (hc : Census k') (hl : k'.locks = k.locks)
    (hsl : ∀ t, k'.Asleep t (.lock lock) → k.Asleep t (.lock lock) ∨ k.locks lock ≠ none) :
    LockInv lock k' tr :=
  ⟨hc, hl ▸ h.holder, fun t ht => hl ▸ (hsl t ht).elim (h.asleep t) id, h.returns⟩

/-- The holder changes: the events are those of the new holder, or of the old
one. -/
theorem LockInv.step (hp : Prim a k e k') (ha : ¬ a.sleeps (some (.lock lock)))
    (h : LockInv lock k tr) : LockInv lock k' (tr ++ e) := by
  have hcensus := h.census.step hp
  have hsleep : ∀ t, k'.Asleep t (.lock lock) →
      k.Asleep t (.lock lock) ∨ k.locks lock ≠ none := fun t ht => by
    rcases hp.sleeper h.census ht.1 with ⟨hm, haddr⟩ | hf
    · exact .inl ⟨hm, haddr.symm.trans ht.2⟩
    · exact .inr (hf.lock_ne_none ha ht.2)
  cases hp.synchs with
  | same _ hl =>
    rw [List.append_nil]
    exact h.silent hcensus hl hsleep
  | take _ hk => exact h.same hcensus (by rw [hk]) nofun nofun nofun hsleep
  | give _ _ hw =>
    obtain ⟨s, q, -, -, -, -, rfl⟩ := hw
    exact h.same hcensus rfl nofun nofun nofun hsleep
  | @waited u _ _ hu hk =>
    refine h.same hcensus (by rw [hk]) nofun nofun (fun t cv he => ?_) hsleep
    cases he
    exact ⟨u, rfl, hu⟩
  | @acquire u l hnone hk =>
    have hlocks : k'.locks = update k.locks l (some u) := by rw [hk]
    by_cases hlock : lock = l
    · subst hlock
      have hself : k'.locks lock = some u := by rw [hlocks, update_self]
      refine ⟨hcensus, fun t => ?_, fun t _ => hself ▸ nofun, fun pre post t cv he => ?_⟩
      · rw [List.count_append, List.count_append, h.holder t, hself, hnone]
        by_cases hut : u = t
        · simp [hut]
        · simp [hut]
      · rcases append_singleton_split he with ⟨post', he⟩ | ⟨-, he⟩
        · exact h.returns pre post' t cv he
        · cases he
    · refine h.same hcensus ?_ (fun t he => ?_) nofun nofun hsleep
      · rw [hlocks, update_of_ne hlock]
      · cases he
        exact hlock rfl
  | @release u l hh hw =>
    have hlocks : k'.locks = update k.locks l none := by
      obtain ⟨s, q, -, -, -, -, rfl⟩ := hw
      rfl
    by_cases hlock : lock = l
    · subst hlock
      have hself : k'.locks lock = none := by rw [hlocks, update_self]
      refine ⟨hcensus, fun t => ?_, fun t ht => ?_, fun pre post t cv he => ?_⟩
      · rw [List.count_append, List.count_append, h.holder t, hself, hh]
        by_cases hut : u = t
        · simp [hut]
        · simp [hut]
      · -- everybody has been woken up
        have hne := ((hw.mem_sleepers t).1 ht.1).2
        have hthr := hw.threads
        exact absurd (hthr ▸ ht.2) hne
      · rcases append_singleton_split he with ⟨post', he⟩ | ⟨-, he⟩
        · exact h.returns pre post' t cv he
        · cases he
    · refine h.same hcensus ?_ nofun (fun t he => ?_) nofun hsleep
      · rw [hlocks, update_of_ne hlock]
      · cases he
        exact hlock rfl

/-! ## Condition variables -/

/-- Nobody is woken up but by those who may. -/
theorem Prim.stays (hp : Prim a k e k') (ht : t ∈ k.sleepers.v)
    (hw : ¬ a.wakes (k.threads t).tSleepaddr) : t ∈ k'.sleepers.v := by
  have hne : ∀ {addr}, a.wakes addr → (k.threads t).tSleepaddr ≠ addr :=
    fun ha he => hw (he ▸ ha)
  cases hp with
  | quiet hq => exact hq.sleepers ▸ ht
  | wakeAll ha h => exact (h.mem_sleepers t).2 ⟨ht, hne ha⟩
  | wakeOne ha h => exact h.mem_sleepers.2 ht (hne ha)
  | take _ => exact ht
  | give ha _ _ h => exact (h.mem_sleepers t).2 ⟨ht, hne ha⟩
  | acquire _ _ _ => exact ht
  | release _ ha _ h => exact (h.mem_sleepers t).2 ⟨ht, hne ha⟩
  | waited _ _ => exact ht
  | mark _ _ _ _ => exact ht
  | fork _ _ _ hk => exact hk.frame.sleepers ▸ ht
  | dispatch _ hd => exact hd.sleepers ▸ ht
  | yield _ hs hd => exact hd.sleepers ▸ hs.sleepers nofun ▸ ht
  | sleep _ _ _ _ hs hd =>
    rw [hd.sleepers]
    cases hs with
    | sleep hv _ => exact hv ▸ List.mem_append_left _ ht
  | exit _ _ _ _ hs hd =>
    rw [hd.sleepers, hs.sleepers nofun]
    exact ht

theorem Prim.asleep (hp : Prim a k e k') (h : Census k) (hk : k.Asleep t c)
    (hw : ¬ a.wakes (some c)) : k'.Asleep t c := by
  have hm := hp.stays hk.1 (by rwa [hk.2])
  rcases hp.sleeper h hm with ⟨-, haddr⟩ | hf
  · exact ⟨hm, haddr.trans hk.2⟩
  · exact absurd hf.running (h.not_running hk.1)

/-- A sleeper on `c` sleeps on, as long as nobody wakes up sleepers on `c`. -/
theorem Run.asleep (h : Census k) (hk : k.Asleep t c)
    (hr : Run (fun k op _ => ¬ op.Wakes k (some c)) k tr k') : k'.Asleep t c :=
  (hr.invariant (a := { Scope.any with wakes := fun addr => addr ≠ some c })
    (I := fun k _ => Census k ∧ k.Asleep t c)
    (fun k op _ ho => { op.within_any k with wakes := fun _ hw he => ho (he ▸ hw) }) trivial
    (fun hp hk => ⟨hk.1.step hp, hp.asleep hk.1 hk.2 fun hn => hn rfl⟩) ⟨h, hk⟩).2

theorem Census.path {es : List Event} (h : Census k) (hp : Path a k es k') : Census k' :=
  hp.invariant (I := fun k _ => Census k) (fun hp hk => hk.step hp) [] h

/-- The thread that went to sleep is asleep, whoever runs now. -/
theorem Census.asleep {cur : Addr} {caller : Caller} {k₁ k₂ : Kernel} (h : Census k)
    (hcur : k.curthread = some cur)
    (hs : Stashed (k.onThread cur fun t => { t with tSleepaddr := some c }) cur
      (.sleep caller) .sleep k₁) (hd : Dispatched k₁ k₂) : k₂.Asleep cur c := by
  have h₁ := (h.slept hcur hs).1
  have hm : cur ∈ k₁.sleepers.v := by
    cases hs with
    | sleep hv _ => exact hv ▸ List.mem_append_right _ List.mem_cons_self
  refine ⟨hd.sleepers ▸ hm, ?_⟩
  rw [hd.threads_ne (h₁.not_ready hm)]
  cases hs with
  | sleep _ _ => simp [Kernel.leave]

end

section
variable {k k' : Kernel} {t cv lock : Addr} {script : Script Empty} {d : Done}

theorem Leads.cvWait (h : Census k) (hcur : k.curthread = some t)
    (hl : Leads k (.cvWait cv lock) script d k') :
    d.events = [.released (some t) lock] ∧ k'.locks lock = none ∧ k'.Asleep t (.cv cv) := by
  refine hl.of_awp (Q := fun d k' => d.events = [.released (some t) lock] ∧
    k'.locks lock = none ∧ k'.Asleep t (.cv cv)) ?_
  rw [Op.code, hcur]
  refine awp_bind.2 (awp_splhigh.2 (awp_bind.2 (awp_bind.2 ?_)))
  refine awp_lockRelease (a := .any) (k := { k with curspl := 15 })
    lenient_any (.inl easy_any) hcur trivial fun k₁ hp _ hc1 hnone _ _ => ?_
  have h₁ : Census k₁ := Census.path (k := { k with curspl := 15 })
    (h.congr (.refl _) rfl rfl (fun _ _ => .rfl) rfl) (hp _ _ .refl)
  refine awp_bind.2 (awp_threadSleep_switch lenient_any (.inl easy_any) (.inl trivial)
    fun cur k₂ k3 hcur2 hs hd => ?_)
  have hcur1 : k₁.curthread = some t := hc1.trans hcur
  obtain rfl : cur = t := Option.some.inj (hcur2.symm.trans hcur1)
  refine ⟨?_, ?_, h₁.asleep hcur1 hs hd⟩
  · show [Event.released k.curthread lock] = _
    rw [hcur]
  · rw [hd.sems_locks.2]
    cases hs
    exact hnone

theorem Leads.cvSignal_nobody (hcur : k.curthread = some t)
    (hl : Leads k (.cvSignal cv lock) script d k') (hno : ∀ w, ¬ k.Asleep w (.cv cv)) :
    k'.sleepers = k.sleepers ∧ k'.runqueue = k.runqueue := by
  refine hl.of_awp (Q := fun _ k' => k'.sleepers = k.sleepers ∧ k'.runqueue = k.runqueue) ?_
  rw [Op.code, hcur]
  refine awp_bind.2 (awp_bind.2 (awp_splhigh.2 (awp_bind.2 ?_)))
  refine awp_threadWakeone lenient_any (.inl easy_any) fun k₁ h₁ => ?_
  rcases h₁ with ⟨-, rfl⟩ | ⟨pre, post, u, s, q, hv, -, hu, -⟩
  · exact ⟨rfl, rfl⟩
  · refine absurd ⟨?_, hu⟩ (hno u)
    rw [show k.sleepers.v = _ from hv]
    exact List.mem_append_right _ List.mem_cons_self

/-- `cv_signal` with somebody waiting: the first of them is woken up. -/
theorem Leads.cvSignal (hcur : k.curthread = some t)
    (hl : Leads k (.cvSignal cv lock) script d k') {w : Addr} (hw : k.Asleep w (.cv cv)) :
    ∃ pre u post, k.sleepers.v = pre ++ u :: post ∧ (∀ v ∈ pre, ¬ k.Asleep v (.cv cv)) ∧
      k.Asleep u (.cv cv) ∧ k'.sleepers.v = pre ++ post ∧ u ∈ k'.runqueue.toList := by
  refine hl.of_awp (Q := fun _ k' => ∃ pre u post, k.sleepers.v = pre ++ u :: post ∧
    (∀ v ∈ pre, ¬ k.Asleep v (.cv cv)) ∧ k.Asleep u (.cv cv) ∧ k'.sleepers.v = pre ++ post ∧
      u ∈ k'.runqueue.toList) ?_
  rw [Op.code, hcur]
  refine awp_bind.2 (awp_bind.2 (awp_splhigh.2 (awp_bind.2 ?_)))
  refine awp_threadWakeone lenient_any (.inl easy_any) fun k₁ h₁ => ?_
  rcases h₁ with ⟨hnone, -⟩ | ⟨pre, post, u, s, q, hv, hpre, hu, hsv, -, hq, -, rfl⟩
  · exact absurd hw.2 (hnone w hw.1)
  · refine ⟨pre, u, post, hv, fun v hv hn => hpre v hv hn.2, ⟨?_, hu⟩, hsv, ?_⟩
    · rw [show k.sleepers.v = _ from hv]
      exact List.mem_append_right _ List.mem_cons_self
    · exact hq ▸ List.mem_append_right _ List.mem_cons_self

theorem Leads.cvBroadcast (hcur : k.curthread = some t)
    (hl : Leads k (.cvBroadcast cv lock) script d k') {w : Addr} (hw : k.Asleep w (.cv cv)) :
    w ∉ k'.sleepers.v ∧ w ∈ k'.runqueue.toList := by
  refine hl.of_awp (Q := fun _ k' => w ∉ k'.sleepers.v ∧ w ∈ k'.runqueue.toList) ?_
  rw [Op.code, hcur]
  refine awp_bind.2 (awp_bind.2 (awp_splhigh.2 (awp_bind.2 ?_)))
  refine awp_threadWakeup lenient_any (.inl easy_any) fun k₁ h₁ => ?_
  refine ⟨fun hm => ((h₁.mem_sleepers w).1 hm).2 hw.2, ?_⟩
  obtain ⟨s, q, -, -, hq, -, rfl⟩ := h₁
  show w ∈ q.toList
  rw [hq]
  exact List.mem_append_right _ (List.mem_filter.2 ⟨hw.1, decide_eq_true hw.2⟩)

end

/-! ### The result -/

/-- `lock_create`. -/
def Kernel.lockCreate (k : Kernel) (lock : Addr) : Kernel :=
  { k with locks := update k.locks lock none }

/-- The holder is the one thread that has acquired the lock and not released it;
threads sleep on the lock only while there is a holder; a thread that returns
from `cv_wait` has the lock. -/
structure Excludes (lock : Addr) (tr : List Event) (k : Kernel) : Prop where
  holder : ∀ t, Between tr t lock ↔ k.locks lock = some t
  one : ∀ t u, Between tr t lock → Between tr u lock → t = u
  asleep : ∀ t, k.Asleep t (.lock lock) → k.locks lock ≠ none
  returns : ∀ pre post t cv, tr = pre ++ .waited t cv lock :: post →
    ∃ u, t = some u ∧ Between pre u lock

/-- What a section completes that returns from `lock_acquire`, `lock_release` or `cv_wait`, where
`cv_wait` sleeps on the condition variable and then perhaps on the lock. -/
structure Reports (lock : Addr) (k : Kernel) : Prop where
  acquired : ∀ t op spl script d k', k.curthread = some t →
    op.In k t (.lockAcquire lock spl .user) → Leads k op script d k' →
    d = ⟨[.acquired (some t) lock], .returned⟩ ∧ k.locks lock = none ∨
      d = ⟨[], .blocked⟩ ∧ k.locks lock ≠ none
  released : ∀ t script d k', k.curthread = some t → Leads k (.lockRelease lock) script d k' →
    d = ⟨[.released (some t) lock], .returned⟩
  waited : ∀ t cv op s spl ret script d k', k.curthread = some t →
    op.In k t (.cvWait cv lock spl ret) ∨ op.In k t (.lockAcquire lock s (.cvWait cv spl ret)) →
    Leads k op script d k' →
    d.events = [.acquired (some t) lock, .waited (some t) cv lock] ∧ k.locks lock = none ∨
      d = ⟨[], .blocked⟩ ∧ k.locks lock ≠ none

/-- What `cv_wait`, `cv_signal` and `cv_broadcast` do in state `k`. The waiter is
asleep when the lock has been released, and until somebody wakes up sleepers on
the condition variable; a signal wakes up the first of them, or nobody if there is none. -/
structure Signals (cv lock : Addr) (k : Kernel) : Prop where
  wait : ∀ t script d k', k.curthread = some t → Op.Enabled k (.cvWait cv lock) →
    Leads k (.cvWait cv lock) script d k' →
      d.events = [.released (some t) lock] ∧ k'.locks lock = none ∧ k'.Asleep t (.cv cv) ∧
      ∀ tr k₂, Run (fun k op _ => ¬ op.Wakes k (some (.cv cv))) k' tr k₂ → k₂.Asleep t (.cv cv)
  signal : ∀ t w script d k', k.curthread = some t → Leads k (.cvSignal cv lock) script d k' →
    k.Asleep w (.cv cv) → ∃ pre u post, k.sleepers.v = pre ++ u :: post ∧
      (∀ v ∈ pre, ¬ k.Asleep v (.cv cv)) ∧ k.Asleep u (.cv cv) ∧ k'.sleepers.v = pre ++ post ∧
      u ∈ k'.runqueue.toList
  nobody : ∀ t script d k', k.curthread = some t → Leads k (.cvSignal cv lock) script d k' →
    (∀ w, ¬ k.Asleep w (.cv cv)) → k'.sleepers = k.sleepers ∧ k'.runqueue = k.runqueue
  broadcast : ∀ t w script d k', k.curthread = some t →
    Leads k (.cvBroadcast cv lock) script d k' → k.Asleep w (.cv cv) →
      w ∉ k'.sleepers.v ∧ w ∈ k'.runqueue.toList

/-- A lock is created in some reachable state; from then on nobody but
`lock_acquire` puts threads to sleep on it. -/
theorem locks_exclude_cvs_signal {k₁ : Kernel} {lock : Addr} (h₁ : Reachable k₁)
    (hnew : ∀ t, ¬ k₁.Asleep t (.lock lock)) {tr : List Event} {k : Kernel}
    (h : Run (fun _ op _ => op ≠ .sleep (some (.lock lock))) (k₁.lockCreate lock) tr k) :
    Excludes lock tr k ∧ Reports lock k ∧ ∀ cv, Signals cv lock k := by
  have hself : (k₁.lockCreate lock).locks lock = none := update_self _ _ _
  have hinv : LockInv lock k tr := by
    refine h.invariant (a := { Scope.any with sleeps := fun addr => addr ≠ some (.lock lock) })
      (fun k op _ ho => { op.within_any k with sleeps := fun addr he hn => ho (by rw [he, hn]) })
      trivial
      (fun hp hk => LockInv.step hp (fun hn => hn rfl) hk) ?_
    refine ⟨h₁.census.congr (.refl _) rfl rfl (fun _ _ => .rfl) rfl, fun t => ?_,
      fun t ht => absurd ht (hnew t), fun pre post t cv he => ?_⟩
    · rw [hself]
      rfl
    · exact absurd he (by simp)
  refine ⟨⟨hinv.between_iff, fun t u ht hu => ?_, hinv.asleep, hinv.returns⟩,
    ⟨fun t op spl script d k' hcur hop hl => ?_, fun t script d k' hcur hl => hl.lockRelease hcur,
      fun t cv op s spl ret script d k' hcur hop hl => ?_⟩, fun cv =>
    ⟨fun t script d k' hcur he hl => ?_, fun t w script d k' hcur hl hw => hl.cvSignal hcur hw,
      fun t script d k' hcur hl hno => hl.cvSignal_nobody hcur hno, fun t w script d k' hcur hl
        hw => hl.cvBroadcast hcur hw⟩⟩
  · rw [hinv.between_iff] at ht hu
    exact Option.some.inj (ht.symm.trans hu)
  · exact (hl.reports hcur hop).imp_left fun h => ⟨h.1, not_not.1 h.2⟩
  · rcases hop with hop | hop
    all_goals
      obtain ⟨rfl, hfree⟩ | hblocked := hl.reports hcur hop
      · exact .inl ⟨rfl, not_not.1 hfree⟩
      · exact .inr hblocked
  · obtain ⟨hd, hnone, hasleep⟩ := hl.cvWait hinv.census hcur
    have hpath : Path .any k d.events k' := hl.path (Op.within_any k _) he
    exact ⟨hd, hnone, hasleep, fun tr k₂ hr => hr.asleep (hinv.census.path hpath) hasleep⟩

/-- Thread 7 has released lock 4 in `cv_wait`, and thread 9 has acquired it: its signal wakes
up thread 7. -/
theorem locks_exclude_cvs_signal_two :
    ∃ tr k d k', Excludes 4 tr k ∧ Between tr 9 4 ∧ ¬ Between tr 7 4 ∧ Reports 4 k ∧
      k.Asleep 7 (.cv 5) ∧ Leads k (.cvSignal 5 4) {} d k' ∧ k'.sleepers.v = [] ∧
      7 ∈ k'.runqueue.toList := by
  obtain ⟨tr, k, hrun, hlocks, hcur, hsleepers, hasleep, d, k', hl⟩ : ∃ tr k,
      Run (fun _ op _ => op ≠ .sleep (some (.lock 4)))
        ((Kernel.boot 7 (PidTable.pidInitialize fun _ => 0)).lockCreate 4) tr k ∧
      k.locks 4 = some 9 ∧ k.curthread = some 9 ∧ k.sleepers.v = [7] ∧ k.Asleep 7 (.cv 5) ∧
      ∃ d k', Leads k (.cvSignal 5 4) {} d k' := by
    refine ⟨_, _, .step (.lockAcquire 4) {} (.step (.cvWait 5 4) {} (.step (.lockAcquire 4) {}
      (.step (.fork 9 100 200 ⟨0, 0⟩) {} .start
        (And.intro nofun (And.intro rfl fun b hb => ?_)) nofun ⟨_, rfl, rfl⟩)
        (And.intro nofun trivial) nofun ⟨_, rfl, rfl⟩)
        (And.intro nofun trivial) nofun ⟨_, rfl, rfl⟩)
        (And.intro nofun trivial) nofun ⟨_, rfl, rfl⟩,
      rfl, rfl, rfl, ⟨List.mem_cons_self, rfl⟩, _, _, ⟨_, rfl, rfl⟩⟩
    cases hb
  obtain ⟨hex, hrep, hsig⟩ := locks_exclude_cvs_signal
    ⟨_, 7, [], Kernel.booted_boot 7 _, .start⟩ (fun t ht => absurd ht.1 List.not_mem_nil) hrun
  obtain ⟨pre, u, post, hv, -, -, hv', hu⟩ := (hsig 5).signal 9 7 {} d k' hcur hl hasleep
  rw [hsleepers] at hv
  obtain ⟨rfl, hv⟩ | ⟨pre', rfl, hv⟩ := List.cons_eq_append_iff.1 hv
  · cases hv
    exact ⟨tr, k, d, k', hex, (hex.holder 9).2 hlocks, fun h7 => absurd (hex.one 7 9 h7
      ((hex.holder 9).2 hlocks)) (by decide), hrep, hasleep, hl, hv', hu⟩
  · simp at hv

/-- Thread 7 has released lock 4 in `cv_wait`, thread 9 has acquired it and
signals twice: the second signal finds nobody asleep. -/
theorem second_signal_finds_nobody :
    ∃ tr k d k', Run (fun _ _ _ => True)
        (Kernel.boot 7 (PidTable.pidInitialize fun _ => 0)) tr k ∧
      tr = [.acquired (some 7) 4, .released (some 7) 4, .acquired (some 9) 4] ∧
      k.locks 4 = some 9 ∧ k.curthread = some 9 ∧ ¬ k.Asleep 7 (.cv 5) ∧
      Leads k (.cvSignal 5 4) {} d k' ∧ k'.sleepers.v = k.sleepers.v := by
  refine ⟨_, _, _, _, .step (.cvSignal 5 4) {} (.step (.lockAcquire 4) {} (.step (.cvWait 5 4) {}
    (.step (.lockAcquire 4) {} (.step (.fork 9 100 200 ⟨0, 0⟩) {} .start
      (And.intro nofun (And.intro rfl fun b hb => ?_)) trivial ⟨_, rfl, rfl⟩)
      (And.intro nofun trivial) trivial ⟨_, rfl, rfl⟩)
      (And.intro nofun trivial) trivial ⟨_, rfl, rfl⟩)
      (And.intro nofun trivial) trivial ⟨_, rfl, rfl⟩)
      (And.intro nofun trivial) trivial ⟨_, rfl, rfl⟩, rfl, rfl, rfl,
    fun h => absurd h.1 List.not_mem_nil, ⟨_, rfl, rfl⟩, rfl⟩
  cases hb

end Os161.Thread
