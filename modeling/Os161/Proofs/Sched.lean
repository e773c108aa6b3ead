import Os161.Proofs.Pid
import Os161.Thread.Synch

/-!
# What the thread system can do to its lists

One description for each routine of the thread system of the state it leaves
behind: who was moved from the sleepers to the run queue (`WokeAll`,
`WokeOne`), what disposing of the zombies changes (`Reaped`), who runs next
(`Dispatched`), and what becomes of the thread that gives the processor away
(`Stashed`). Every invariant of the system is then a matter of these
descriptions, and nothing below this file unfolds a program of `thread.c`.

Two routines depend on the allocator: adding to an array and adding to the run
queue. Where memory is short they fail, and their callers panic. A context in
which that does not matter is `Easy`; in any other one there has to be room.
-/

namespace Os161.Thread

open Os161.Kern Os161.Lib Function

/-! ## Thread structures -/

namespace Kernel

variable (k : Kernel) (t : Addr) (f : Thread → Thread)

@[simp] theorem onThread_threads_self : (k.onThread t f).threads t = f (k.threads t) :=
  update_self _ _ _

theorem onThread_threads_ne {k : Kernel} {t u : Addr} {f : Thread → Thread} (h : u ≠ t) :
    (k.onThread t f).threads u = k.threads u :=
  update_of_ne h _ _

end Kernel

/-! ## Terms -/

/-- The panics that any of the results below may leave to the source: all but
the two that follow a failed allocation, the one in `P`, and the one in
`thread_destroy`. -/
def Panic.minor : Panic → Bool
  | switchResult | wakeupResult | semPCount _ | pidNotFound => false
  | _ => true

/-- All of these are tolerated. -/
def Lenient (c : Terms Panic) : Prop := ∀ f : Panic, f.minor = true → c.fails f

/-- There is nobody to dispose of, or a missing pid is tolerated. -/
def Spares (c : Terms Panic) (k : Kernel) : Prop := c.fails .pidNotFound ∨ k.zombies.v = []

/-- Running out of memory is no concern. -/
structure Easy (c : Terms Panic) : Prop where
  asks : c.asks
  switch : c.refuses → c.fails .switchResult
  wakeup : c.refuses → c.fails .wakeupResult

section
variable {c : Terms Panic} {k : Kernel}

/-- Room in the run queue for all sleepers and one thread more. -/
def Kernel.Roomy (k : Kernel) : Prop :=
  k.runqueue.len + k.sleepers.v.length + 1 < k.runqueue.size

/-! ## Small steps -/

@[simp] theorem awp_splhigh {Q : Nat → Kernel → Prop} :
    awp c splhigh Q k ↔ Q k.curspl { k with curspl := 15 } := .rfl

variable {Q : Unit → Kernel → Prop} {addr : Option Chan}

@[simp] theorem awp_splx {s : Nat} : awp c (splx s) Q k ↔ Q () { k with curspl := s } := .rfl

theorem awp_self {Q : Addr → Kernel → Prop} (hc : c.fails .nullCurthread)
    (h : ∀ t, k.curthread = some t → Q t k) : awp c self Q k := by
  refine awp_bind.2 ?_
  rw [awp_mem]
  cases hk : k.curthread with
  | none => exact hc
  | some t => exact h t hk

/-! ## The run queue -/

theorem awpE_makeRunnable {Q : Except Errno Unit → Kernel → Prop} {t : Addr}
    (hspl : c.fails .schedulerSpl ∨ 0 < k.curspl)
    (hr : Easy c ∨ k.runqueue.len + 1 < k.runqueue.size)
    (hok : ∀ q : Queue Addr, q.toList = k.runqueue.toList ++ [t] →
      k.runqueue.size ≤ q.size → Q (.ok ()) { k with runqueue := q })
    (herr : Easy c → c.refuses → Q (.error .ENOMEM) k) : awpE c (makeRunnable t) Q k := by
  refine awpE_call_bind.2 (awpE_call_bind.2 (awp_assert.2 ⟨fun _ => ?_, hspl.resolve_right⟩))
  refine awpE_bind.2 ?_
  rcases hr with he | hroom
  · exact awpE_qAddtail he.asks hok (herr he)
  · exact awpE_qAddtail_room hroom fun q hq hs => hok q hq (Nat.le_of_eq hs.symm)

/-! ## Waking up -/

/-- Everybody who sleeps on `addr` has been moved to the run queue. -/
def WokeAll (k : Kernel) (addr : Option Chan) (k' : Kernel) : Prop :=
  ∃ (s : KArray Addr) (q : Queue Addr),
    s.v = k.sleepers.v.filter (fun t => (k.threads t).tSleepaddr ≠ addr) ∧
    s.max = k.sleepers.max ∧
    q.toList = k.runqueue.toList ++
      k.sleepers.v.filter (fun t => (k.threads t).tSleepaddr = addr) ∧
    k.runqueue.size ≤ q.size ∧ k' = { k with sleepers := s, runqueue := q }

/-- The first who sleeps on `addr` has been moved to the run queue, if there is
anybody. -/
def WokeOne (k : Kernel) (addr : Option Chan) (k' : Kernel) : Prop :=
  ((∀ t ∈ k.sleepers.v, (k.threads t).tSleepaddr ≠ addr) ∧ k' = k) ∨
  ∃ (pre post : List Addr) (t : Addr) (s : KArray Addr) (q : Queue Addr),
    k.sleepers.v = pre ++ t :: post ∧
    (∀ u ∈ pre, (k.threads u).tSleepaddr ≠ addr) ∧ (k.threads t).tSleepaddr = addr ∧
    s.v = pre ++ post ∧ s.max = k.sleepers.max ∧
    q.toList = k.runqueue.toList ++ [t] ∧ k.runqueue.size ≤ q.size ∧
    k' = { k with sleepers := s, runqueue := q }

theorem getElem?_length {v pre post : List Addr} {t : Addr} (hv : v = pre ++ t :: post) :
    v[pre.length]? = some t := by
  rw [hv, List.getElem?_append_right (Nat.le_refl _), Nat.sub_self]
  rfl

theorem remove_length {a : KArray Addr} {pre post : List Addr} {t : Addr}
    (hv : a.v = pre ++ t :: post) : (a.remove pre.length).v = pre ++ post := by
  rw [KArray.remove_v, hv, List.eraseIdx_append_of_length_le (Nat.le_refl _), Nat.sub_self]
  rfl

/-- The loop with the sleepers `pre` behind it and `post` before it. -/
theorem awp_threadWakeup_loop (post : List Addr) :
    ∀ {k : Kernel} (pre : List Addr) {fuel : Nat}, (c.fails .schedulerSpl ∨ 0 < k.curspl) →
      k.sleepers.v = pre ++ post → post.length ≤ fuel → (Easy c ∨ k.runqueue.len + post.length <
        k.runqueue.size) →
      (∀ (s : KArray Addr) (q : Queue Addr),
        s.v = pre ++ post.filter (fun t => (k.threads t).tSleepaddr ≠ addr) →
        s.max = k.sleepers.max →
        q.toList = k.runqueue.toList ++
          post.filter (fun t => (k.threads t).tSleepaddr = addr) →
        k.runqueue.size ≤ q.size → Q () { k with sleepers := s, runqueue := q }) →
      awp c (threadWakeup.loop addr fuel pre.length) Q k := by
  induction post with
  | nil =>
    intro k pre fuel _ hv _ _ hQ
    have hk : Q () k := hQ k.sleepers k.runqueue hv rfl (List.append_nil _).symm (Nat.le_refl _)
    cases fuel with
    | zero => exact hk
    | succ fuel =>
      refine awp_bind.2 ?_
      rw [awp_mem, hv, List.append_nil, List.getElem?_eq_none (Nat.le_refl _)]
      exact hk
  | cons t post ih =>
    intro k pre fuel hspl hv hf hr hQ
    cases fuel with
    | zero => exact absurd hf (by simp)
    | succ fuel =>
      have hf' : post.length ≤ fuel := Nat.le_of_succ_le_succ hf
      refine awp_bind.2 ?_
      rw [awp_mem, getElem?_length hv]
      show awp c (if (k.threads t).tSleepaddr = addr then _ else _) Q k
      by_cases ha : (k.threads t).tSleepaddr = addr
      · rw [if_pos ha]
        rw [List.length_cons] at hr
        refine awp_bind.2 (awp_bind.2 ?_)
        refine awpE_makeRunnable hspl (hr.imp_right fun h => ?_) (fun q hq hs => ?_)
          fun he hrf => he.wakeup hrf
        · show k.runqueue.len + 1 < k.runqueue.size
          omega
        · -- the same place again, with one sleeper less
          refine ih _ hspl (remove_length hv) hf' (hr.imp_right fun h => ?_) fun s q' hsv hsm hq'
            hs' => ?_
          · have hlen : q.len = k.runqueue.len + 1 := by
              rw [← Queue.length_toList, hq, List.length_append, Queue.length_toList,
                List.length_singleton]
            have hs : k.runqueue.size ≤ q.size := hs
            show q.len + post.length < q.size
            omega
          · refine hQ s q' ?_ hsm ?_ (Nat.le_trans hs hs')
            · rw [hsv, List.filter_cons_of_neg (by simp [ha])]
            · rw [hq', hq, List.filter_cons_of_pos (by simp [ha]), List.append_assoc,
                List.singleton_append]
      · rw [if_neg ha]
        rw [List.append_cons] at hv
        rw [show pre.length + 1 = (pre ++ [t]).length by simp]
        refine ih _ hspl hv hf' (hr.imp_right fun h => ?_) fun s q hsv hsm hq hs => ?_
        · rw [List.length_cons] at h
          omega
        · refine hQ s q ?_ hsm ?_ hs
          · rw [hsv, List.filter_cons_of_pos (by simp [ha]), List.append_assoc,
              List.singleton_append]
          · rw [hq, List.filter_cons_of_neg (by simp [ha])]

theorem awp_threadWakeup (hc : Lenient c) (hr : Easy c ∨ k.Roomy)
    (hQ : ∀ k', WokeAll k addr k' → Q () k') : awp c (threadWakeup addr) Q k := by
  refine awp_bind.2 (awp_bind.2 (awp_assert_of (hc _ rfl) fun _ => ?_))
  refine awp_threadWakeup_loop k.sleepers.v [] (.inl (hc _ rfl)) rfl (Nat.le_refl _)
    (hr.imp_right fun h => ?_) fun s q hsv hsm hq hs => hQ _ ⟨s, q, hsv, hsm, hq, hs, rfl⟩
  rw [Kernel.Roomy] at h
  omega

theorem awp_threadWakeone_loop (hspl : c.fails .schedulerSpl ∨ 0 < k.curspl) (hr : Easy c ∨ k.Roomy)
    (hQ : ∀ k', WokeOne k addr k' → Q () k') (post : List Addr) :
    ∀ (pre : List Addr) {fuel : Nat}, k.sleepers.v = pre ++ post → post.length ≤ fuel →
      (∀ u ∈ pre, (k.threads u).tSleepaddr ≠ addr) →
      awp c (threadWakeone.loop addr fuel pre.length) Q k := by
  induction post with
  | nil =>
    intro pre fuel hv _ hpre
    rw [List.append_nil] at hv
    have hk : Q () k := hQ k (.inl ⟨hv ▸ hpre, rfl⟩)
    cases fuel with
    | zero => exact hk
    | succ fuel =>
      refine awp_bind.2 ?_
      rw [awp_mem, hv, List.getElem?_eq_none (Nat.le_refl _)]
      exact hk
  | cons t post ih =>
    intro pre fuel hv hf hpre
    cases fuel with
    | zero => exact absurd hf (by simp)
    | succ fuel =>
      refine awp_bind.2 ?_
      rw [awp_mem, getElem?_length hv]
      show awp c (if (k.threads t).tSleepaddr = addr then _ else _) Q k
      by_cases ha : (k.threads t).tSleepaddr = addr
      · rw [if_pos ha]
        refine awp_bind.2 (awp_bind.2 (awpE_makeRunnable hspl (hr.imp_right fun h => ?_)
          (fun q hq hs => ?_) fun he hrf => he.wakeup hrf))
        · rw [Kernel.Roomy] at h
          show k.runqueue.len + 1 < k.runqueue.size
          omega
        · exact hQ _ (.inr ⟨pre, post, t, _, q, hv, hpre, ha, remove_length hv, rfl, hq, hs, rfl⟩)
      · rw [if_neg ha]
        rw [List.append_cons] at hv
        rw [show pre.length + 1 = (pre ++ [t]).length by simp]
        refine ih _ hv (Nat.le_of_succ_le_succ hf) fun u hu => ?_
        rcases List.mem_append.1 hu with hu | hu
        · exact hpre u hu
        · rw [List.mem_singleton.1 hu]
          exact ha

theorem awp_threadWakeone (hc : Lenient c) (hr : Easy c ∨ k.Roomy)
    (hQ : ∀ k', WokeOne k addr k' → Q () k') : awp c (threadWakeone addr) Q k := by
  refine awp_bind.2 (awp_bind.2 (awp_assert_of (hc _ rfl) fun _ => ?_))
  exact awp_threadWakeone_loop (.inl (hc _ rfl)) hr hQ k.sleepers.v [] rfl (Nat.le_refl _)
    nofun

/-- While memory lasts, `thread_wakeup` moves those who sleep on `addr` from the sleepers to the
end of the run queue, the others stay and all keep their order; `thread_wakeone` moves the
first of them, and does nothing if there is none. -/
theorem wakeups_exact (m : Machine Kernel Empty Unit Empty) (addr : Option Chan)
    (hspl : 0 < m.mem.curspl) (hmem : false ∉ m.script.mem) :
    (∃ m', (threadWakeup addr).run m = (.done (), m') ∧ WokeAll m.mem addr m'.mem) ∧
    ∃ m', (threadWakeone addr).run m = (.done (), m') ∧ WokeOne m.mem addr m'.mem := by
  have heasy : Easy (⟨fun _ => False, True, False⟩ : Terms Panic) := ⟨trivial, id, id⟩
  have hadmits : (⟨fun _ => False, True, False⟩ : Terms Panic).Admits m.script := hmem
  constructor
  · obtain ⟨⟨⟩, m', hrun, hwoke⟩ := awp_run_done (p := threadWakeup addr)
      (Q := fun _ => WokeAll m.mem addr) (fun _ => id) hadmits
      (awp_bind.2 (awp_bind.2 (awp_assert.2 ⟨fun _ => awp_threadWakeup_loop m.mem.sleepers.v []
        (.inr hspl) rfl (Nat.le_refl _) (.inl heasy)
        fun s q hsv hsm hq hs => ⟨s, q, hsv, hsm, hq, hs, rfl⟩, fun hn => hn hspl⟩)))
    exact ⟨m', hrun, hwoke⟩
  · obtain ⟨⟨⟩, m', hrun, hwoke⟩ := awp_run_done (p := threadWakeone addr)
      (Q := fun _ => WokeOne m.mem addr) (fun _ => id) hadmits
      (awp_bind.2 (awp_bind.2 (awp_assert.2 ⟨fun _ => awp_threadWakeone_loop (.inr hspl)
        (.inl heasy) (fun _ => id) m.mem.sleepers.v [] rfl (Nat.le_refl _)
        (fun u hu => absurd hu List.not_mem_nil), fun hn => hn hspl⟩)))
    exact ⟨m', hrun, hwoke⟩

/-- Threads 3 and 5 sleep on a semaphore and thread 4 on a lock. -/
def dormitory : Kernel where
  curspl := 15
  curthread := none
  sleepers := ⟨[3, 4, 5], 4, by decide⟩
  zombies := KArray.empty
  numthreads := 3
  runqueue := Queue.blank 4 (by decide) fun _ => 0
  threads t := ⟨some (if t = 4 then .lock 1 else .sem 1), none, none, none, t, 0, .sleep (.plain 0)⟩
  allocated _ := true
  pids := PidTable.pidInitialize fun _ => 0
  pidlock := 0
  sems _ := 0
  locks _ := none
  filetables _ := []
  openfiles _ := false

theorem wakeups_exact_dormitory : ∃ m',
    (threadWakeup (some (.sem 1))).run ⟨dormitory, fun _ => (), .good⟩ = (.done (), m') ∧
    m'.mem.sleepers.v = [4] ∧ m'.mem.runqueue.toList = [3, 5] := by
  obtain ⟨⟨m', hrun, s, q, hs, -, hq, -, hm'⟩, -⟩ :=
    wakeups_exact ⟨dormitory, fun _ => (), .good⟩ (some (.sem 1)) (by decide) List.not_mem_nil
  refine ⟨m', hrun, ?_⟩
  rw [hm']
  exact ⟨hs, hq⟩

/-! ## The zombies -/

/-- Disposing of threads costs nobody his entry but the one that does it. -/
def PidsSpared (k : Kernel) (p : PidTable) : Prop :=
  k.pids.Ok → k.pids.Legible → p.Ok ∧ p.Legible ∧
    ∀ q, (∀ cur, k.curthread = some cur → (k.threads cur).tPid ≠ q) →
      p.toMap q = k.pids.toMap q

/-- The zombies have been disposed of; the storage of the array may have been
given back. -/
structure Reaped (k k' : Kernel) : Prop where
  frame : ∃ z a p o, k' = { k with zombies := z, allocated := a, pids := p, openfiles := o }
  zombies : k'.zombies.v = []
  max : k'.zombies.max = k.zombies.max ∨ 16 < k.zombies.max
  allocated : ∀ t, k'.allocated t = true ↔ k.allocated t = true ∧ t ∉ k.zombies.v
  nobody : k.zombies.v = [] → k'.pids = k.pids ∧ k'.openfiles = k.openfiles
  pids : PidsSpared k k'.pids

theorem awp_threadDestroy {z : Addr} (hc : Lenient c) (hz : c.fails .pidNotFound)
    (hQ : ∀ (p : PidTable) (o : Addr → Bool), PidsSpared k p → Q () { k with
      allocated := update k.allocated z false, pids := p, openfiles := o }) :
    awp c (threadDestroy z) Q k := by
  refine awp_bind.2 (awp_self (hc _ rfl) fun cur hcur => ?_)
  refine awp_bind.2 (awp_bind.2 (awp_assert_of (hc _ rfl) fun _ => ?_))
  refine awp_bind.2 (awp_assert_of (hc _ rfl) fun _ => ?_)
  refine awp_bind.2 (awp_assert_of (hc _ rfl) fun _ => ?_)
  refine awp_bind.2 (awpE_call_bind.2 (awpE_bind.2 ?_))
  refine awpE_bind.2 ?_
  rw [findpid]
  cases hf : k.pids.findpidindex (k.threads cur).tPid with
  | none => exact hz
  | some i =>
    refine awpE_call_bind.2 (awp_assert_of (hc _ rfl) fun _ => hQ _ _ fun hok hleg => ?_)
    obtain ⟨hi, hguy, -, hpid⟩ := PidTable.findpidindex_some hok hleg.sees hf
    refine ⟨hok.remove i, hleg.remove i, fun q hq => ?_⟩
    rw [PidTable.toMap_remove hok hi, ← hguy, hpid, update_of_ne]
    exact (hq cur hcur).symm

theorem awp_exorcise_loop (hc : Lenient c) (zs : List Addr) :
    ∀ {k : Kernel}, (c.fails .pidNotFound ∨ zs = []) →
      (∀ (a : Addr → Bool) (p : PidTable) (o : Addr → Bool),
        (∀ t, a t = true ↔ k.allocated t = true ∧ t ∉ zs) →
        (zs = [] → p = k.pids ∧ o = k.openfiles) → PidsSpared k p →
          Q () { k with allocated := a, pids := p, openfiles := o }) →
      awp c (exorcise.loop zs) Q k := by
  induction zs with
  | nil =>
    intro k _ hQ
    exact hQ k.allocated k.pids k.openfiles (fun t => by simp) (fun _ => ⟨rfl, rfl⟩)
      fun hok hleg => ⟨hok, hleg, fun _ _ => rfl⟩
  | cons z zs ih =>
    intro k hz hQ
    have hz := hz.resolve_right nofun
    refine awp_bind.2 (awp_bind.2 (awp_assert_of (hc _ rfl) fun _ => ?_))
    refine awp_bind.2 (awp_threadDestroy hc hz fun p o hp => ih (.inl hz)
      fun a p' o' ha _ hp' => ?_)
    refine hQ a p' o' (fun t => ?_) nofun fun hok hleg => ?_
    · rw [ha t, List.mem_cons]
      by_cases htz : t = z
      · subst htz
        simp
      · simp [htz]
    · obtain ⟨hok1, hleg1, hm1⟩ := hp hok hleg
      obtain ⟨hok2, hleg2, hm2⟩ := hp' hok1 hleg1
      exact ⟨hok2, hleg2, fun q hq => (hm2 q hq).trans (hm1 q hq)⟩

theorem awp_exorcise (hc : Lenient c) (hz : Spares c k) (hQ : ∀ k', Reaped k k' → Q () k') :
    awp c exorcise Q k := by
  refine awp_bind.2 (awp_bind.2 (awp_assert_of (hc _ rfl) fun _ => awp_bind.2 ?_))
  refine awp_exorcise_loop hc k.zombies.v hz fun a p o ha hn hp => awp_bind.2 ?_
  rw [awp_run_iff, arraySetsize, if_neg (by omega)]
  by_cases h : 16 < k.zombies.max
  · rw [if_pos ⟨rfl, h⟩]
    exact hQ _ ⟨⟨KArray.empty, a, p, o, rfl⟩, rfl, .inr h, ha, hn, hp⟩
  · rw [if_neg (fun hn => h hn.2)]
    exact hQ _ ⟨⟨k.zombies.truncate 0, a, p, o, rfl⟩, rfl, .inl rfl, ha, hn, hp⟩

/-! ## Who runs next -/

/-- The kernel with `next` taken from the run queue. -/
def Kernel.pick (k : Kernel) (next : Addr) (q : Queue Addr) : Kernel :=
  { k with runqueue := q, curthread := some next }

inductive Dispatched (k : Kernel) : Kernel → Prop
  /-- Nobody is ready: the idle loop. -/
  | idle (h : k.runqueue.toList = []) : Dispatched k k
  /-- A thread that has never run. -/
  | start {next : Addr} {q : Queue Addr} (hq : k.runqueue.toList = next :: q.toList)
      (hs : q.size = k.runqueue.size) (hpc : (k.threads next).pc = .start) :
      Dispatched k { (k.pick next q).onThread next (fun t => { t with pc := .run }) with
        curspl := 0 }
  /-- A thread that had yielded. -/
  | yield {next : Addr} {q : Queue Addr} {k' : Kernel} {spl : Nat}
      (hq : k.runqueue.toList = next :: q.toList) (hs : q.size = k.runqueue.size)
      (hpc : (k.threads next).pc = .yield spl) (hr : Reaped (k.pick next q) k') :
      Dispatched k { k'.onThread next (fun t => { t with pc := .run }) with curspl := spl }
  /-- A thread that had slept. -/
  | sleep {next : Addr} {q : Queue Addr} {k' : Kernel} {caller : Caller}
      (hq : k.runqueue.toList = next :: q.toList) (hs : q.size = k.runqueue.size)
      (hpc : (k.threads next).pc = .sleep caller) (hr : Reaped (k.pick next q) k') :
      Dispatched k (k'.onThread next fun t =>
        { t with tSleepaddr := none, pc := .awake caller })

theorem awp_dispatch (hc : Lenient c) (hz : Spares c k) (hQ : ∀ k', Dispatched k k' → Q () k') :
    awp c dispatch Q k := by
  refine awp_bind.2 ?_
  show awp c (if k.runqueue.isEmpty = true then _ else _) Q k
  cases he : k.runqueue.isEmpty with
  | true => exact hQ k (.idle ((Queue.isEmpty_iff_toList _).1 he))
  | false =>
    have hq := Queue.toList_tail he
    rw [if_neg Bool.false_ne_true]
    refine awp_bind.2 ((awp_put _).2 (awp_bind.2 ?_))
    rw [awp_mem]
    cases hpc : (k.threads k.runqueue.head).pc with
    | start => exact hQ _ (.start hq rfl hpc)
    | run => exact hc .notSwitchedOut rfl
    | yield spl =>
      exact awp_bind.2 (awp_exorcise hc hz fun k' hr => hQ _ (.yield hq rfl hpc hr))
    | sleep caller =>
      exact awp_bind.2 (awp_exorcise hc hz fun k' hr => hQ _ (.sleep hq rfl hpc hr))
    | awake caller => exact hc .notSwitchedOut rfl
    | dead => exact awp_bind.2 (awp_exorcise hc hz fun k' hr => hc .backFromDead rfl)

/-! ## Giving the processor away -/

/-- The kernel in which `cur` is to go on at `pc` and nobody runs. -/
def Kernel.leave (k : Kernel) (cur : Addr) (pc : Pc) : Kernel :=
  { k with curthread := none }.onThread cur fun t => { t with pc := pc }

/-- `cur` is on the list where it belongs, and nobody runs. -/
inductive Stashed (k : Kernel) (cur : Addr) (pc : Pc) : NextState → Kernel → Prop
  | ready {q : Queue Addr} (hq : q.toList = k.runqueue.toList ++ [cur])
      (hs : k.runqueue.size ≤ q.size) :
      Stashed k cur pc .ready { k.leave cur pc with runqueue := q }
  | sleep {s : KArray Addr} (hv : s.v = k.sleepers.v ++ [cur])
      (hm : k.sleepers.max ≤ s.max) :
      Stashed k cur pc .sleep { k.leave cur pc with sleepers := s }
  | zomb {z : KArray Addr} (hv : z.v = k.zombies.v ++ [cur]) (hm : k.zombies.max ≤ z.max)
      (hroom : k.zombies.v.length < k.zombies.max → z.max = k.zombies.max) :
      Stashed k cur pc .zomb { k.leave cur pc with zombies := z }

/-- Room for the current thread on its list. -/
def Kernel.RoomFor (k : Kernel) : NextState → Prop
  | .ready => k.runqueue.len + 1 < k.runqueue.size
  | .sleep => k.sleepers.v.length < k.sleepers.max
  | .zomb => k.zombies.v.length < k.zombies.max

theorem awp_arrayAdd_or {Q : Except Errno (KArray Addr) → Kernel → Prop} {a : KArray Addr}
    {x : Addr} (hr : Easy c ∨ a.v.length < a.max)
    (hok : ∀ a' : KArray Addr, a'.v = a.v ++ [x] → a.max ≤ a'.max →
      (a.v.length < a.max → a'.max = a.max) → Q (.ok a') k)
    (herr : Easy c → c.refuses → Q (.error .ENOMEM) k) :
    awpE c (arrayAdd a x : KM (KArray Addr)) Q k := by
  by_cases h : a.v.length < a.max
  · have hm := KArray.push_max h x
    exact awpE_arrayAdd_room h (hok _ rfl (Nat.le_of_eq hm.symm) fun _ => hm)
  · have he := hr.resolve_right h
    exact awpE_arrayAdd he.asks (fun a' hv hm => hok a' hv hm fun hn => absurd hn h) (herr he)

/-- Nobody will have to be disposed of once the current thread is on its list. -/
def SparesAfter (c : Terms Panic) (k : Kernel) : NextState → Prop
  | .zomb => c.fails .pidNotFound
  | _ => Spares c k

/-- In the idle loop `mi_switch` does nothing; otherwise the current thread is
put away and the next one picked. -/
theorem awp_miSwitch {nextstate : NextState} {pc : Pc} (hc : Lenient c)
    (hr : Easy c ∨ k.RoomFor nextstate) (hz : SparesAfter c k nextstate)
    (hidle : k.curthread = none → Q () k)
    (hQ : ∀ cur k1 k2, k.curthread = some cur → Stashed k cur pc nextstate k1 →
      Dispatched k1 k2 → Q () k2) : awp c (miSwitch nextstate pc) Q k := by
  refine awp_bind.2 (awp_bind.2 (awp_assert_of (hc _ rfl) fun _ => ?_))
  cases hcur : k.curthread with
  | none => exact hidle hcur
  | some cur =>
    refine awp_bind.2 (awp_assert_of (hc _ rfl) fun _ => ?_)
    refine awp_bind.2 (awp_bind.2 ?_)
    have hgo : ∀ k1, Stashed k cur pc nextstate k1 → Spares c k1 → awp c dispatch Q k1 :=
      fun k1 h1 hz1 => awp_dispatch hc hz1 fun k2 h2 => hQ cur k1 k2 hcur h1 h2
    cases nextstate with
    | ready =>
      exact awpE_makeRunnable (.inl (hc _ rfl)) hr (fun q hq hs => hgo _ (.ready hq hs) hz)
        fun he hrf => he.switch hrf
    | sleep =>
      exact awpE_call_bind.2 (awpE_bind.2 (awp_arrayAdd_or hr
        (fun s hv hm _ => hgo _ (.sleep hv hm) hz) fun he hrf => he.switch hrf))
    | zomb =>
      exact awpE_call_bind.2 (awpE_bind.2 (awp_arrayAdd_or hr
        (fun z hv hm hroom => hgo _ (.zomb hv hm hroom) (.inl hz))
        fun he hrf => he.switch hrf))

end

end Os161.Thread
