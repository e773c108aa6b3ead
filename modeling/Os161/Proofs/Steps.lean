import Os161.Proofs.Sched

/-!
# What a section can do

A section of the system is a sequence of steps (`Prim`), each of which keeps
whatever there is to keep: a thread is moved from one list to another, a permit
is taken or given, a lock changes hands. `Op.awp_code` says once and for all that
every section is such a sequence, and which completed operations it reports;
an invariant of the steps is then an invariant of the system.

Steps are cut where the invariants hold. `V` is one step because between the
increment and the wakeup there are sleepers and a permit; so is giving the
processor away together with the choice of the next thread, because in between
the thread is on no list.

A `Scope` says on which addresses code outside `synch.c` may sleep, on which
addresses anybody may be woken up, and whether threads may come and go.
-/

namespace Os161.Thread

open Os161.Kern Os161.Lib Function

/-! ## Forking -/

/-- What `thread_fork` makes of the table of processes: nothing, a structure that
was given back, or a new entry. -/
inductive PidGrown (t : PidTable) (info : Addr) (ppid : Word) : PidTable → Prop
  | same : PidGrown t info ppid t
  | filled (exitcv : Word) : PidGrown t info ppid (t.fill info ppid 0 exitcv)
  | added (exitcv : Word) (infos : KArray Addr) (hv : infos.v = t.infos.v ++ [info]) :
      PidGrown t info ppid { t.fill info ppid 0 exitcv with
        infos := infos, nextpid := PidTable.advance t.nextpid }

/-- `ppid` is the pid of the thread that forks. -/
def ParentPid (k : Kernel) (newguy : Addr) (ppid : Word) : Prop :=
  ∀ cur, k.curthread = some cur → cur ≠ newguy → ppid = (k.threads cur).tPid

/-- What a call of `thread_fork` leaves alone. -/
structure ForkFrame (k : Kernel) (newguy : Addr) (k' : Kernel) : Prop where
  curthread : k'.curthread = k.curthread
  sleepers : k'.sleepers.v = k.sleepers.v
  sleepersMax : k.sleepers.max ≤ k'.sleepers.max
  zombies : k'.zombies.v = k.zombies.v
  zombiesMax : k'.zombies.max = k.zombies.max ∨
    k'.zombies.max = (k.zombies.reserve (k.numthreads + 1)).max
  size : k.runqueue.size ≤ k'.runqueue.size
  threads : ∀ t, t ≠ newguy → k'.threads t = k.threads t
  sems : k'.sems = k.sems
  locks : k'.locks = k.locks
  pidlock : k'.pidlock = k.pidlock

/-- How `thread_fork` ends. -/
inductive Forked (k : Kernel) (newguy info : Addr) : Except PidErr Unit → Kernel → Prop
  | failed {k' : Kernel} {e : PidErr} (h : ForkFrame k newguy k')
      (hp : ∃ ppid, ParentPid k newguy ppid ∧ PidGrown k.pids info ppid k'.pids)
      (hq : k'.runqueue.toList = k.runqueue.toList) (ha : k'.allocated = k.allocated)
      (hn : k'.numthreads = k.numthreads) : Forked k newguy info (.error e) k'
  | made {k' : Kernel} (h : ForkFrame k newguy k')
      (hp : ∃ ppid exitcv infos, ParentPid k newguy ppid ∧
        infos.v = k.pids.infos.v ++ [info] ∧
        k'.pids = { k.pids.fill info ppid 0 exitcv with
          infos := infos, nextpid := PidTable.advance k.pids.nextpid })
      (hq : k'.runqueue.toList = k.runqueue.toList ++ [newguy])
      (ha : k'.allocated = update k.allocated newguy true)
      (hn : k'.numthreads = k.numthreads + 1)
      (hs : k.numthreads + 1 ≤ k'.sleepers.max)
      (hz : k.numthreads + 1 ≤ k'.zombies.max)
      (hsize : k.numthreads + 1 ≤ k'.runqueue.size)
      (hpc : (k'.threads newguy).pc = .start)
      (hsl : (k'.threads newguy).tSleepaddr = none)
      (hpid : (k'.threads newguy).tPid = k.pids.nextpid) : Forked k newguy info (.ok ()) k'

variable {k k' : Kernel}

theorem Forked.frame {newguy info : Addr} {r : Except PidErr Unit}
    (h : Forked k newguy info r k') : ForkFrame k newguy k' := by
  cases h <;> assumption

section
variable {c : Terms Panic} {k : Kernel}

variable {Q : Except PidErr Unit → Kernel → Prop} {newguy info : Addr} {k₁ : Kernel}
  {q : Queue Addr}

/-- The new thread on the run queue, or some of the preallocations made. -/
theorem awpE_forkPlace {Q : Except Errno Unit → Kernel → Prop} (hc : Lenient c) (ha : c.asks)
    (hok : ∀ q : Queue Addr, q.toList = k.runqueue.toList ++ [newguy] →
      k.runqueue.size ≤ q.size → k.numthreads + 1 ≤ q.size →
      Q (.ok ()) { k with
        sleepers := k.sleepers.reserve (k.numthreads + 1)
        zombies := k.zombies.reserve (k.numthreads + 1)
        runqueue := q })
    (herr : ∀ (s z : KArray Addr) (q : Queue Addr), s.v = k.sleepers.v →
      k.sleepers.max ≤ s.max → z.v = k.zombies.v →
      (z.max = k.zombies.max ∨ z.max = (k.zombies.reserve (k.numthreads + 1)).max) →
      q.toList = k.runqueue.toList → k.runqueue.size ≤ q.size →
      Q (.error .ENOMEM) { k with sleepers := s, zombies := z, runqueue := q }) :
    awpE c (forkPlace newguy) Q k := by
  have hsm := k.sleepers.max_le_reserve_max (k.numthreads + 1)
  refine awpE_call_bind.2 (awpE_bind.2 (awpE_arrayPreallocate ha ?_ fun _ => ?_))
  · refine awpE_call_bind.2 (awpE_bind.2 (awpE_arrayPreallocate ha ?_ fun _ => ?_))
    · refine awpE_call_bind.2 (awpE_bind.2 ?_)
      refine awpE_call_bind.2 (awpE_call_bind.2 (awp_assert_of (hc _ rfl) fun _ => ?_))
      refine awpE_bind.2 (awpE_qPreallocate ha (fun q hq hn hs => ?_) fun _ => ?_)
      · refine awpE_call_bind.2 (awpE_call_bind.2 (awp_assert_of (hc _ rfl) fun _ => ?_))
        refine awpE_bind.2 (awpE_qAddtail ha (fun q' hq' hs' => ?_) fun _ => ?_)
        · exact hok q' (by rw [hq', hq]) (Nat.le_trans hs hs') (Nat.le_trans hn hs')
        · exact herr _ _ q rfl hsm rfl (.inr rfl) hq hs
      · exact herr _ _ k.runqueue rfl hsm rfl (.inr rfl) rfl (Nat.le_refl _)
    · exact herr _ k.zombies k.runqueue rfl hsm rfl (.inl rfl) rfl (Nat.le_refl _)
  · exact herr k.sleepers k.zombies k.runqueue rfl (Nat.le_refl _) rfl (.inl rfl) rfl
      (Nat.le_refl _)

/-- A kernel that differs from `k` in the structure of the new thread only, as
far as `thread_fork` has got. -/
structure Begun (k : Kernel) (newguy : Addr) (k' : Kernel) : Prop where
  curthread : k'.curthread = k.curthread
  sleepers : k'.sleepers = k.sleepers
  zombies : k'.zombies = k.zombies
  numthreads : k'.numthreads = k.numthreads
  runqueue : k'.runqueue = k.runqueue
  allocated : k'.allocated = update k.allocated newguy true
  threads : ∀ t, t ≠ newguy → k'.threads t = k.threads t
  sems : k'.sems = k.sems
  locks : k'.locks = k.locks
  pidlock : k'.pidlock = k.pidlock
  pc : (k'.threads newguy).pc = .start
  sleepaddr : (k'.threads newguy).tSleepaddr = none

theorem Begun.onThread (h : Begun k newguy k') {f : Thread → Thread}
    (hpc : ∀ t, (f t).pc = t.pc) (hsl : ∀ t, (f t).tSleepaddr = t.tSleepaddr) :
    Begun k newguy (k'.onThread newguy f) where
  curthread := h.curthread
  sleepers := h.sleepers
  zombies := h.zombies
  numthreads := h.numthreads
  runqueue := h.runqueue
  allocated := h.allocated
  threads t ht := by rw [Kernel.onThread_threads_ne ht, h.threads t ht]
  sems := h.sems
  locks := h.locks
  pidlock := h.pidlock
  pc := by rw [Kernel.onThread_threads_self, hpc, h.pc]
  sleepaddr := by rw [Kernel.onThread_threads_self, hsl, h.sleepaddr]

variable {k : Kernel}

/-- A fork that has failed, with the structure of the new thread freed. -/
theorem Begun.freed (h : Begun k newguy k₁)
    (hp : ∃ ppid, ParentPid k newguy ppid ∧ PidGrown k.pids info ppid k₁.pids)
    (hf : k.allocated newguy = false) {s z : KArray Addr} (hs : s.v = k₁.sleepers.v)
    (hsm : k₁.sleepers.max ≤ s.max) (hz : z.v = k₁.zombies.v)
    (hzm : z.max = k₁.zombies.max ∨ z.max = (k₁.zombies.reserve (k₁.numthreads + 1)).max)
    (hq : q.toList = k₁.runqueue.toList) (hsize : k₁.runqueue.size ≤ q.size) (spl : Nat)
    (e : PidErr) :
    Forked k newguy info (.error e) { k₁ with
      sleepers := s
      zombies := z
      runqueue := q
      curspl := spl
      allocated := update k₁.allocated newguy false } := by
  rw [h.zombies] at hz hzm
  rw [h.numthreads] at hzm
  rw [h.sleepers] at hs hsm
  rw [h.runqueue] at hq hsize
  refine .failed ⟨h.curthread, hs, hsm, hz, hzm, hsize, h.threads, h.sems, h.locks, h.pidlock⟩ hp
    hq ?_ h.numthreads
  show update k₁.allocated newguy false = k.allocated
  rw [h.allocated, update_idem, ← hf, update_eq_self]

/-- One that failed before anything was made larger. -/
theorem Begun.freed_early (h : Begun k newguy k₁)
    (hp : ∃ ppid, ParentPid k newguy ppid ∧ PidGrown k.pids info ppid k₁.pids)
    (hf : k.allocated newguy = false) (spl : Nat) (e : PidErr) :
    Forked k newguy info (.error e) { k₁ with
      curspl := spl
      allocated := update k₁.allocated newguy false } :=
  h.freed hp hf rfl (Nat.le_refl _) rfl (.inl rfl) rfl (Nat.le_refl _) spl e

section
variable (h : Begun k newguy k₁)
    (hp : ∃ ppid exitcv infos, ParentPid k newguy ppid ∧ infos.v = k.pids.infos.v ++ [info] ∧
      k₁.pids = { k.pids.fill info ppid 0 exitcv with
        infos := infos, nextpid := PidTable.advance k.pids.nextpid })
    (hpid : (k₁.threads newguy).tPid = k.pids.nextpid)
include h hp hpid

/-- A fork that has gone through. -/
theorem Begun.made (hq : q.toList = k₁.runqueue.toList ++ [newguy])
    (hsize : k₁.runqueue.size ≤ q.size) (hn : k₁.numthreads + 1 ≤ q.size) (spl : Nat) :
    Forked k newguy info (.ok ()) { k₁ with
      sleepers := k₁.sleepers.reserve (k₁.numthreads + 1)
      zombies := k₁.zombies.reserve (k₁.numthreads + 1)
      runqueue := q
      numthreads := k₁.numthreads + 1
      curspl := spl } := by
  rw [h.runqueue] at hq hsize
  rw [h.sleepers, h.zombies, h.numthreads]
  rw [h.numthreads] at hn
  exact .made ⟨h.curthread, rfl, KArray.max_le_reserve_max _ _, rfl, .inr rfl, hsize, h.threads,
    h.sems, h.locks, h.pidlock⟩ hp hq h.allocated rfl (KArray.le_reserve_max _ _)
    (KArray.le_reserve_max _ _) hn h.pc h.sleepaddr hpid

theorem awp_forkStack {cur : Addr} (hc : Lenient c) (ha : c.asks) (hf : k.allocated newguy = false)
    (hQ : ∀ r k', Forked k newguy info r k' → Q r k') : awp c (forkStack newguy cur) Q k₁ := by
  have hgrown : ∃ ppid, ParentPid k newguy ppid ∧ PidGrown k.pids info ppid k₁.pids := by
    obtain ⟨ppid, exitcv, infos, hpar, hv, hk⟩ := hp
    exact ⟨ppid, hpar, hk ▸ .added exitcv infos hv⟩
  refine awp_bind.2 ⟨ha, ?_, fun _ => ?_⟩
  · have hb := h.onThread (f := fun t => { t with
      tStack := some stackMagic, tCwd := (k₁.threads cur).tCwd }) (fun _ => rfl) fun _ => rfl
    refine awp_bind.2 (awp_bind.2 (awp_splhigh.2 (awp_bind.2 ?_)))
    refine awpE_forkPlace hc ha (fun q hq hs hn => ?_)
      fun s z q hsv hsm hzv hzm hq hs => ?_
    · refine awp_bind.2 (awp_bind.2 (hQ _ _ (hb.made hp ?_ hq hs hn k₁.curspl)))
      rw [Kernel.onThread_threads_self]
      exact hpid
    · exact awp_bind.2 (awp_bind.2 (hQ _ _ (hb.freed hgrown hf hsv hsm hzv hzm hq hs k₁.curspl _)))
  · exact hQ _ _ (h.freed_early hgrown hf k₁.curspl _)

end

theorem awp_threadFork {cv : Addr} {g : Garbage} (hc : Lenient c) (ha : c.asks)
    (hf : k.allocated newguy = false) (hQ : ∀ r k', Forked k newguy info r k' → Q r k') :
    awp c (threadFork newguy info cv g) Q k := by
  have hsome : ∃ ppid, ParentPid k newguy ppid := by
    cases hcur : k.curthread with
    | none => exact ⟨0, fun u hu => absurd (hcur.symm.trans hu) nofun⟩
    | some t =>
      exact ⟨(k.threads t).tPid, fun u hu _ => by rw [Option.some.inj (hcur.symm.trans hu)]⟩
  have hsame : Q (.error (.errno .ENOMEM)) k := by
    obtain ⟨ppid, hppid⟩ := hsome
    exact hQ _ _ (.failed ⟨rfl, rfl, Nat.le_refl _, rfl, .inl rfl, Nat.le_refl _, fun _ _ => rfl,
      rfl, rfl, rfl⟩ ⟨ppid, hppid, .same⟩ rfl rfl rfl)
  refine awp_bind.2 ⟨ha, ?_, fun _ => hsame⟩
  refine awp_bind.2 ⟨ha, ?_, fun _ => hsame⟩
  refine awp_bind.2 (awp_bind.2 (awp_self (hc _ rfl) fun cur hcur => awp_bind.2 (awp_bind.2 ?_)))
  have hb : ∀ p, Begun k newguy { k.create newguy g with pids := p } := fun p =>
    ⟨rfl, rfl, rfl, rfl, rfl, rfl, fun t ht => update_of_ne ht _ _, rfl, rfl, rfl,
      by simp [Kernel.create], by simp [Kernel.create]⟩
  have hppid : ParentPid k newguy ((k.create newguy g).threads cur).tPid := fun u hu hne => by
    obtain rfl : u = cur := Option.some.inj (hu.symm.trans hcur)
    exact congrArg Thread.tPid (update_of_ne hne _ _)
  refine awp_pidCreate ha (.inr (hc _ rfl)) (fun exitcv infos hv _ => ?_)
    (fun exitcv _ => hQ _ _ ((hb _).freed_early ⟨_, hppid, .filled exitcv⟩ hf g.spl _))
    fun _ => hQ _ _ ((hb _).freed_early ⟨_, hppid, .same⟩ hf g.spl _)
  refine awp_bind.2 (awp_bind.2 ?_)
  refine awp_forkStack ?_ ⟨_, exitcv, infos, hppid, hv, rfl⟩ ?_ hc ha hf hQ
  · exact (hb _).onThread (fun _ => rfl) fun _ => rfl
  · rw [Kernel.onThread_threads_self]
    rfl

end

/-! ## Steps -/

structure Scope where
  sleeps : Option Chan → Prop
  wakes : Option Chan → Prop
  forks : Prop
  /-- The running thread may join the sleepers or the zombies. -/
  leaves : Prop
  /-- The running thread may exit, and write to its entry in the table of
  processes. -/
  marks : Prop
  /-- From where the running thread may go to sleep. -/
  waits : Caller → Prop
  /-- Which locks it may take. -/
  acquires : Addr → Prop
  /-- Memory outside the table of processes may be written. -/
  writes : Prop

def Scope.any : Scope :=
  ⟨fun _ => True, fun _ => True, True, True, True, fun _ => True, fun _ => True, True⟩

/-- The processes are what they were. -/
structure SameProcs (k k' : Kernel) : Prop where
  infos : k'.pids.infos = k.pids.infos
  nextpid : k'.pids.nextpid = k.pids.nextpid
  load : ∀ b ∈ k.pids.infos.v, ∀ f, k'.pids.load b f = k.pids.load b f
  tPid : ∀ t, (k'.threads t).tPid = (k.threads t).tPid
  pidlock : k'.pidlock = k.pidlock

/-- Nothing that the lists, the permits or the locks are about has changed. -/
structure Quiet (a : Scope) (k k' : Kernel) : Prop where
  curthread : k'.curthread = k.curthread
  sleepers : k'.sleepers = k.sleepers
  zombies : k'.zombies = k.zombies
  numthreads : k'.numthreads = k.numthreads
  runqueue : k'.runqueue = k.runqueue
  allocated : k'.allocated = k.allocated
  sems : k'.sems = k.sems
  locks : k'.locks = k.locks
  sleepaddr : ∀ t, (k'.threads t).tSleepaddr = (k.threads t).tSleepaddr
  pc : ∀ t, (k'.threads t).pc = (k.threads t).pc ∨
    (k'.threads t).pc = .run ∧ (k.threads t).pc ≠ .dead
  procs : SameProcs k k'
  mem : k'.pids.mem = k.pids.mem ∨ a.writes

/-- What the callers of `thread_sleep` have made sure of. -/
def Caller.Sleeps (a : Scope) (k : Kernel) (addr : Option Chan) : Caller → Prop
  | plain _ => a.sleeps addr
  | semP sem _ => addr = some (.sem sem) ∧ k.sems sem = 0
  | lockAcquire lock _ _ => addr = some (.lock lock) ∧ k.locks lock ≠ none
  | cvWait cv _ _ _ => addr = some (.cv cv)

inductive Prim (a : Scope) : Kernel → List Event → Kernel → Prop
  | quiet {k k' : Kernel} (h : Quiet a k k') : Prim a k [] k'
  | wakeAll {k k' : Kernel} {addr : Option Chan} (hw : a.wakes addr) (h : WokeAll k addr k') :
      Prim a k [] k'
  | wakeOne {k k' : Kernel} {addr : Option Chan} (hw : a.wakes addr) (h : WokeOne k addr k') :
      Prim a k [] k'
  | take {k : Kernel} {sem : Addr} (h : 0 < k.sems sem) :
      Prim a k [.took sem] { k with sems := update k.sems sem (k.sems sem - 1) }
  | give {k k' : Kernel} {sem : Addr} {count : Int} (hw : a.wakes (some (.sem sem)))
      (hc : count = Int.bmod (k.sems sem + 1) 4294967296) (hp : 0 < count)
      (h : WokeAll { k with sems := update k.sems sem count } (some (.sem sem)) k') :
      Prim a k [.gave sem] k'
  | acquire {k : Kernel} {t lock : Addr} (ha : a.acquires lock) (hcur : k.curthread = some t)
      (h : k.locks lock = none) :
      Prim a k [.acquired k.curthread lock]
        { k with locks := update k.locks lock k.curthread }
  | release {k k' : Kernel} {t lock : Addr} (hcur : k.curthread = some t)
      (hw : a.wakes (some (.lock lock))) (hh : k.locks lock = k.curthread)
      (h : WokeAll { k with locks := update k.locks lock none } (some (.lock lock)) k') :
      Prim a k [.released k.curthread lock] k'
  | waited {k : Kernel} {t cv lock : Addr} (hcur : k.curthread = some t)
      (h : k.locks lock = k.curthread) : Prim a k [.waited k.curthread cv lock] k
  | fork {k k' : Kernel} {newguy info : Addr} {r : Except PidErr Unit} (ha : a.forks)
      (hf : k.allocated newguy = false)
      (hi : ∀ b ∈ k.pids.infos.v, Apart info b) (h : Forked k newguy info r k') :
      Prim a k [] k'
  | mark {k : Kernel} {cur : Addr} {i : Nat} {f : Field} {w : Word} (ha : a.marks)
      (hcur : k.curthread = some cur) (hi : k.pids.findpidindex (k.threads cur).tPid = some i)
      (hf : f ≠ .pid) : Prim a k [] { k with pids := k.pids.store (k.pids.guy i) f w }
  | dispatch {k k' : Kernel} (hcur : k.curthread = none) (h : Dispatched k k') : Prim a k [] k'
  | yield {k k₁ k₂ : Kernel} {cur : Addr} {spl : Nat} (hcur : k.curthread = some cur)
      (hs : Stashed k cur (.yield spl) .ready k₁) (hd : Dispatched k₁ k₂) : Prim a k [] k₂
  | sleep {k k₁ k₂ : Kernel} {cur : Addr} {addr : Option Chan} {caller : Caller}
      (ha : a.leaves) (hw : a.waits caller) (hcur : k.curthread = some cur)
      (hsl : caller.Sleeps a k addr)
      (hs : Stashed (k.onThread cur fun t => { t with tSleepaddr := addr }) cur
        (.sleep caller) .sleep k₁)
      (hd : Dispatched k₁ k₂) : Prim a k [] k₂
  | exit {k k₁ k₂ : Kernel} {cur : Addr} (ha : a.leaves) (hm : a.marks)
      (hcur : k.curthread = some cur) (hn : 0 < k.numthreads)
      (hs : Stashed { k with numthreads := k.numthreads - 1 } cur .dead .zomb k₁)
      (hd : Dispatched k₁ k₂) : Prim a k [] k₂

/-- A sequence of steps. -/
inductive Path (a : Scope) : Kernel → List Event → Kernel → Prop
  | refl {k : Kernel} : Path a k [] k
  | step {k k₁ k₂ : Kernel} {e es : List Event} (h : Prim a k e k₁) (t : Path a k₁ es k₂) :
      Path a k (e ++ es) k₂

section
variable {a : Scope} {k k₁ k₂ : Kernel} {es : List Event}

theorem Path.silent (h : Prim a k [] k₁) (t : Path a k₁ es k₂) : Path a k es k₂ := .step h t

theorem Path.quiet (h : Quiet a k k₁) (t : Path a k₁ es k₂) : Path a k es k₂ :=
  .step (.quiet h) t

theorem Path.event {e : Event} (h : Prim a k [e] k₁) (t : Path a k₁ es k₂) :
    Path a k (e :: es) k₂ := .step h t

theorem Path.one {e : List Event} (h : Prim a k e k₁) : Path a k e k₁ := by
  have := Path.step h .refl
  rwa [List.append_nil] at this

theorem Path.trans {es' : List Event} (h : Path a k es k₁) (h' : Path a k₁ es' k₂) :
    Path a k (es ++ es') k₂ := by
  induction h with
  | refl => exact h'
  | step hp _ ih =>
    rw [List.append_assoc]
    exact .step hp (ih h')

/-- What every step keeps, a sequence of steps keeps. The trace grows by the
events. -/
theorem Path.invariant {I : Kernel → List Event → Prop}
    (hI : ∀ {k e k' tr}, Prim a k e k' → I k tr → I k' (tr ++ e))
    (h : Path a k es k₁) : ∀ tr, I k tr → I k₁ (tr ++ es) := by
  induction h with
  | refl =>
    intro tr hk
    rwa [List.append_nil]
  | step hp _ ih =>
    intro tr hk
    rw [← List.append_assoc]
    exact ih _ (hI hp hk)

end

namespace Quiet

variable {a : Scope}

theorem spl (k : Kernel) (s : Nat) : Quiet a k { k with curspl := s } :=
  ⟨rfl, rfl, rfl, rfl, rfl, rfl, rfl, rfl, fun _ => rfl, fun _ => .inl rfl,
    ⟨rfl, rfl, fun _ _ _ => rfl, fun _ => rfl, rfl⟩, .inl rfl⟩

theorem onThread (k : Kernel) (u : Addr) {f : Thread → Thread}
    (hs : (f (k.threads u)).tSleepaddr = (k.threads u).tSleepaddr)
    (hd : (f (k.threads u)).pc = (k.threads u).pc ∨
      (f (k.threads u)).pc = .run ∧ (k.threads u).pc ≠ .dead)
    (hp : (f (k.threads u)).tPid = (k.threads u).tPid) : Quiet a k (k.onThread u f) := by
  refine ⟨rfl, rfl, rfl, rfl, rfl, rfl, rfl, rfl, fun t => ?_, fun t => ?_,
    ⟨rfl, rfl, fun _ _ _ => rfl, fun t => ?_, rfl⟩, .inl rfl⟩ <;> by_cases ht : t = u
  · rw [ht, Kernel.onThread_threads_self, hs]
  · rw [Kernel.onThread_threads_ne ht]
  · rwa [ht, Kernel.onThread_threads_self]
  · exact .inl (by rw [Kernel.onThread_threads_ne ht])
  · rw [ht, Kernel.onThread_threads_self, hp]
  · rw [Kernel.onThread_threads_ne ht]

theorem dead (h : Quiet a k k') (t : Addr) :
    (k'.threads t).pc = .dead ↔ (k.threads t).pc = .dead := by
  rcases h.pc t with he | ⟨hr, hn⟩
  · rw [he]
  · exact iff_of_false (fun hx => absurd (hr.symm.trans hx) nofun) hn

theorem live (h : Quiet a k k') (t : Addr) (ht : k'.Live t) : k.Live t :=
  ⟨h.allocated ▸ ht.1, fun hd => ht.2 ((h.dead t).2 hd)⟩

end Quiet

variable {a : Scope} {k k' : Kernel} {addr : Option Chan}

theorem Elsewhere.quiet (h : Elsewhere k k') (ha : a.writes) : Quiet a k k' := by
  obtain ⟨cur, hcur, vmspace, cwd, ft, mem, hmem, filetables, openfiles⟩ := h
  have h := Quiet.onThread (a := a) k cur (f := fun t => { t with
    tVmspace := vmspace, tCwd := cwd, tFiletable := ft }) rfl (.inl rfl) rfl
  exact ⟨rfl, rfl, rfl, rfl, rfl, rfl, rfl, rfl, h.sleepaddr, h.pc,
    ⟨rfl, rfl, hmem, h.procs.tPid, rfl⟩, .inr ha⟩

/-! ## Room -/

/-- Room wherever a thread may have to go. -/
structure Kernel.Spacious (k : Kernel) : Prop where
  roomy : k.Roomy
  sleepers : k.curthread ≠ none → k.sleepers.v.length < k.sleepers.max
  zombies : k.curthread ≠ none → k.zombies.v.length < k.zombies.max

theorem WokeAll.curthread (h : WokeAll k addr k') : k'.curthread = k.curthread := by
  obtain ⟨s, q, -, -, -, -, rfl⟩ := h
  rfl

theorem WokeOne.curthread (h : WokeOne k addr k') : k'.curthread = k.curthread := by
  obtain ⟨-, rfl⟩ | ⟨pre, post, t, s, q, -, -, -, -, -, -, -, rfl⟩ := h <;> rfl

theorem WokeAll.zombies (h : WokeAll k addr k') : k'.zombies = k.zombies := by
  obtain ⟨s, q, -, -, -, -, rfl⟩ := h
  rfl

theorem WokeAll.threads (h : WokeAll k addr k') : k'.threads = k.threads := by
  obtain ⟨s, q, -, -, -, -, rfl⟩ := h
  rfl

theorem WokeAll.pids (h : WokeAll k addr k') : k'.pids = k.pids := by
  obtain ⟨s, q, -, -, -, -, rfl⟩ := h
  rfl

theorem WokeOne.zombies (h : WokeOne k addr k') : k'.zombies = k.zombies := by
  obtain ⟨-, rfl⟩ | ⟨pre, post, t, s, q, -, -, -, -, -, -, -, rfl⟩ := h <;> rfl

theorem WokeAll.spacious (h : WokeAll k addr k') (hk : k.Spacious) : k'.Spacious := by
  obtain ⟨s, q, hsv, hsm, hq, hsz, rfl⟩ := h
  have hlen : s.v.length + q.len = k.sleepers.v.length + k.runqueue.len := by
    rw [← Queue.length_toList, hq, hsv, List.length_append, Queue.length_toList]
    have := List.length_eq_length_filter_add (l := k.sleepers.v)
      fun t => decide ((k.threads t).tSleepaddr = addr)
    simp only [decide_not] at this ⊢
    omega
  have hle : s.v.length ≤ k.sleepers.v.length := hsv ▸ List.length_filter_le _ _
  have hroom := hk.roomy
  rw [Kernel.Roomy] at hroom
  refine ⟨?_, fun hc => ?_, hk.zombies⟩
  · show q.len + s.v.length + 1 < q.size
    omega
  · show s.v.length < s.max
    have := hk.sleepers hc
    omega

/-! ## Sections -/

section
variable {a : Scope} {c : Terms Panic} {k : Kernel}

variable {Q : Unit → Kernel → Prop} {addr : Option Chan} {caller : Caller} {sem t cv : Addr}
  {spl : Nat} {ret : AcquireRet}

section
variable (hc : Lenient c) (hr : Easy c ∨ k.Spacious) (hz : Spares c k) (ha : a.leaves)
include hc

include hr hz in
theorem awp_threadSleep_switch (hQ : ∀ cur k₁ k₂, k.curthread = some cur →
      Stashed (k.onThread cur fun t => { t with tSleepaddr := addr }) cur (.sleep caller)
        .sleep k₁ →
      Dispatched k₁ k₂ → Q () k₂) : awp c (threadSleep addr caller) Q k := by
  refine awp_bind.2 (awp_self (hc _ rfl) fun cur hcur => awp_bind.2 ?_)
  have hne : k.curthread ≠ none := fun hn => Option.some_ne_none _ (hcur.symm.trans hn)
  refine awp_miSwitch hc (hr.imp_right fun h => h.sleepers hne) hz (fun hn => absurd hn hne)
    fun cur' k₁ k₂ hcur' hs hd => ?_
  obtain rfl : cur = cur' := Option.some.inj (hcur.symm.trans hcur')
  exact hQ cur k₁ k₂ hcur hs hd

include hr hz ha in
theorem awp_threadSleep (hw : a.waits caller) (hsl : caller.Sleeps a k addr)
    (hQ : ∀ k', Prim a k [] k' → Q () k') : awp c (threadSleep addr caller) Q k :=
  awp_threadSleep_switch hc hr hz fun _ _ _ hcur hs hd => hQ _ (.sleep ha hw hcur hsl hs hd)

theorem awp_threadYield (hr : Easy c ∨ k.Roomy) (hz : Spares c k) (hQ : ∀ k', Path a k [] k' →
      (k.curthread = none → k'.curthread = none ∧ k'.zombies = k.zombies) → Q () k') :
    awp c threadYield Q k := by
  refine awp_bind.2 (awp_splhigh.2 (awp_bind.2 ?_))
  obtain ⟨k₁, hk1⟩ : ∃ k₁, k₁ = { k with curspl := 15 } := ⟨_, rfl⟩
  rw [← hk1]
  have hq : Quiet a k k₁ := hk1 ▸ .spl k 15
  have hroom : Easy c ∨ k₁.RoomFor .ready := hr.imp_right fun h => by
    rw [Kernel.Roomy] at h
    show k₁.runqueue.len + 1 < k₁.runqueue.size
    rw [hq.runqueue]
    omega
  have hz1 : SparesAfter c k₁ .ready := hz.imp_right fun h => by rw [hq.zombies, h]
  rw [awp_mem]
  cases hcur : k₁.curthread with
  | none =>
    refine awp_bind.2 (awp_miSwitch hc hroom hz1 (fun _ => ?_) fun cur k₂ k3 hcur' _ _ => ?_)
    · exact hQ _ (.quiet hq (.quiet (.spl k₁ k.curspl) .refl)) fun _ => ⟨hcur, hq.zombies⟩
    · exact (Option.some_ne_none _ (hcur'.symm.trans hcur)).elim
  | some t =>
    refine awp_miSwitch hc hroom hz1 (fun hn => ?_) fun cur k₂ k3 hcur' hs hd => ?_
    · exact (Option.some_ne_none _ (hcur.symm.trans hn)).elim
    · exact hQ _ (.quiet hq (.one (.yield hcur' hs hd)))
        fun hn => (Option.some_ne_none _ (hcur.symm.trans (hq.curthread.trans hn))).elim

/-! ### Semaphores -/

include hr hz ha in
theorem awp_semP_loop (hw : a.waits (.semP sem spl)) (hs : 0 ≤ k.sems sem ∨
    c.fails (.semPCount sem)) :
    awp c (semP.loop sem spl) (fun d k' => Path a k d.events k') k := by
  refine awp_bind.2 ?_
  show awp c (if k.sems sem = 0 then _ else _) _ k
  by_cases h : k.sems sem = 0
  · rw [if_pos h]
    exact awp_bind.2 (awp_threadSleep hc hr hz ha hw ⟨rfl, h⟩ fun k' hp => .one hp)
  · rw [if_neg h]
    refine awp_bind.2 (awp_assert.2 ⟨fun hp => ?_, fun hn => hs.resolve_left (by omega)⟩)
    exact awp_bind.2 (awp_bind.2 (.event (.take hp) (.quiet (.spl _ spl) .refl)))

include hr hz ha in
theorem awp_semP (hw : ∀ spl, a.waits (.semP sem spl)) (hs : 0 ≤ k.sems sem ∨
    c.fails (.semPCount sem)) :
    awp c (semP sem) (fun d k' => Path a k d.events k') k := by
  refine awp_bind.2 (awp_splhigh.2 (awp_mono (awp_semP_loop hc ?_ hz ha (hw _) hs)
    fun d k' hp => .quiet (.spl k 15) hp))
  exact hr.imp_right fun h => ⟨h.roomy, h.sleepers, h.zombies⟩

theorem awp_semV {Q : Done → Kernel → Prop} (hr : Easy c ∨ k.Roomy) (hw : a.wakes (some (.sem sem)))
    (hQ : ∀ d k', Path a k d.events k' → k'.curthread = k.curthread →
      k'.zombies = k.zombies → Q d k') : awp c (semV sem) Q k := by
  refine awp_bind.2 (awp_splhigh.2 (awp_bind.2 (awp_bind.2 ?_)))
  refine awp_bind.2 (awp_assert_of (hc _ rfl) fun hp => awp_bind.2 ?_)
  refine awp_threadWakeup hc hr fun k' hk => ?_
  refine awp_bind.2 (hQ _ _ (.quiet (.spl k 15) (.event (.give hw rfl hp hk)
    (.quiet (.spl _ k.curspl) .refl))) ?_ ?_)
  · exact hk.curthread
  · exact hk.zombies

/-! ### Locks and condition variables -/

variable {lock : Addr}

include hr hz ha in
theorem awp_lockAcquire_loop (hw : a.waits (.lockAcquire lock spl ret)) (hl : a.acquires lock)
    (hcur : k.curthread = some t)
    : awp c (lockAcquire.loop lock spl ret) (fun d k' => Path a k d.events k') k := by
  refine awp_bind.2 ?_
  rw [awp_mem]
  cases hh : k.locks lock with
  | some u =>
    refine awp_bind.2 (awp_threadSleep hc hr hz ha hw ⟨rfl, ?_⟩ fun k' hp => .one hp)
    rw [hh]
    exact Option.some_ne_none u
  | none =>
    refine awp_bind.2 (awp_bind.2 ?_)
    cases ret with
    | user => exact .event (.acquire hl hcur hh) (.quiet (.spl _ spl) .refl)
    | cvWait cv spl' ret =>
      refine awp_bind.2 (.event (.acquire hl hcur hh) (.quiet (.spl _ spl)
        (.quiet (.spl _ spl') (.one ?_))))
      exact .waited hcur (update_self _ _ _)

include hr hz ha in
theorem awp_lockAcquire (hw : ∀ spl, a.waits (.lockAcquire lock spl ret)) (hl : a.acquires lock)
    (hcur : k.curthread = some t) :
    awp c (lockAcquire lock ret) (fun d k' => Path a k d.events k') k := by
  refine awp_bind.2 (awp_splhigh.2 (awp_bind.2 (awp_bind.2 ?_)))
  show awp c (if decide (k.locks lock = k.curthread) = true then _ else _) _ _
  by_cases h : k.locks lock = k.curthread
  · rw [if_pos (decide_eq_true h)]
    exact hc _ rfl
  · rw [if_neg (by rwa [decide_eq_true_iff])]
    refine awp_mono (awp_lockAcquire_loop hc (k := { k with curspl := 15 }) ?_ hz ha (hw _) hl hcur)
      fun d k' hp => .quiet (.spl k 15) hp
    exact hr.imp_right fun h => ⟨h.roomy, h.sleepers, h.zombies⟩

theorem awp_lockRelease (hr : Easy c ∨ k.Roomy) (hcur : k.curthread = some t)
    (hw : a.wakes (some (.lock lock)))
    (hQ : ∀ k', (∀ es k₂, Path a k' es k₂ → Path a k (.released k.curthread lock :: es) k₂) →
      k.locks lock = k.curthread → k'.curthread = k.curthread → k'.locks lock = none →
      k'.zombies = k.zombies → (k.Spacious → k'.Spacious) → Q () k') :
    awp c (lockRelease lock) Q k := by
  refine awp_bind.2 (awp_splhigh.2 (awp_bind.2 (awp_bind.2 ?_)))
  show awp c (if decide (k.locks lock = k.curthread) = true then _ else _) _ _
  by_cases h : k.locks lock = k.curthread
  · rw [if_pos (decide_eq_true h)]
    refine awp_bind.2 (awp_bind.2 (awp_threadWakeup hc hr fun k' hk => ?_))
    refine hQ _ (fun es k₂ ht => ?_) h hk.curthread ?_ hk.zombies fun hs => ?_
    · exact .quiet (.spl k 15) (.event (.release (k := { k with curspl := 15 }) hcur hw h hk)
        (.quiet (.spl k' k.curspl) ht))
    · obtain ⟨s, q, -, -, -, -, rfl⟩ := hk
      exact update_self _ _ _
    · have := hk.spacious ⟨hs.roomy, hs.sleepers, hs.zombies⟩
      exact ⟨this.roomy, this.sleepers, this.zombies⟩
  · rw [if_neg (by rwa [decide_eq_true_iff])]
    exact hc _ rfl

include hr hz ha in
theorem awp_cvWait {ret : WaitRet} (hs : k.locks lock = k.curthread → ∀ spl,
    a.waits (.cvWait cv lock spl ret))
    (hcur : k.curthread = some t) (hw : a.wakes (some (.lock lock))) :
    awp c (cvWait cv lock ret) (fun d k' => Path a k d.events k') k := by
  refine awp_bind.2 (awp_splhigh.2 (awp_bind.2 (awp_bind.2 ?_)))
  refine awp_lockRelease (a := a) (k := { k with curspl := 15 }) hc
    (hr.imp_right fun h => h.roomy) hcur hw fun k' hp hh _ _ hzom hsp => ?_
  have hr' : Easy c ∨ k'.Spacious :=
    hr.imp_right fun h => hsp ⟨h.roomy, h.sleepers, h.zombies⟩
  have hz' : Spares c k' := hz.imp_right fun h => by rw [hzom, ← h]
  exact awp_bind.2 (awp_threadSleep hc hr' hz' ha (hs hh _) rfl fun k₂ hs =>
    .quiet (.spl k 15) (hp _ _ (.one hs)))

theorem awp_cvSignal (hr : Easy c ∨ k.Roomy) (hw : a.wakes (some (.cv cv)))
    (hQ : ∀ k', Path a k [] k' → Q () k') : awp c (cvSignal cv) Q k := by
  refine awp_bind.2 (awp_splhigh.2 (awp_bind.2 ?_))
  refine awp_threadWakeone hc hr fun k' hk => ?_
  exact hQ _ (.quiet (.spl k 15) (.silent (.wakeOne hw hk) (.quiet (.spl k' _) .refl)))

theorem awp_cvBroadcast (hr : Easy c ∨ k.Roomy) (hw : a.wakes (some (.cv cv)))
    (hQ : ∀ k', (∀ es k₂, Path a k' es k₂ → Path a k es k₂) → k'.curthread = k.curthread →
      k'.threads = k.threads → k'.pids = k.pids → (k.Spacious → k'.Spacious) → Q () k') :
    awp c (cvBroadcast cv) Q k := by
  refine awp_bind.2 (awp_splhigh.2 (awp_bind.2 ?_))
  refine awp_threadWakeup hc hr fun k' hk => ?_
  refine hQ _ (fun es k₂ ht => ?_) hk.curthread hk.threads hk.pids fun hs => ?_
  · exact .quiet (.spl k 15) (.silent (.wakeAll hw hk) (.quiet (.spl k' _) ht))
  · have := hk.spacious ⟨hs.roomy, hs.sleepers, hs.zombies⟩
    exact ⟨this.roomy, this.sleepers, this.zombies⟩

end

/-- As what a thread that is back from `thread_sleep` may have to sleep again. -/
def Caller.Again : Caller → Caller → Prop
  | .cvWait cv lock spl ret, c => ∃ s, c = .lockAcquire lock s (.cvWait cv spl ret)
  | c, c' => c' = c

/-- The lock that a caller of `thread_sleep` takes afterwards. -/
def Caller.lock : Caller → Option Addr
  | .lockAcquire lock _ _ | .cvWait _ lock _ _ => some lock
  | _ => none

/-- A thread that is back from `thread_sleep`. -/
theorem awp_resume (hc : Lenient c) (hr : Easy c ∨ k.Spacious) (hz : Spares c k) (ha : a.leaves)
    (hw : ∀ cur c c', k.curthread = some cur → (k.threads cur).pc = .awake c → c.Again c' →
      a.waits c')
    (hl : ∀ cur c l, k.curthread = some cur → (k.threads cur).pc = .awake c →
      c.lock = some l → a.acquires l)
    (hs : ∀ sem, 0 ≤ k.sems sem ∨ c.fails (.semPCount sem)) :
    awp c resume (fun d k' => Path a k d.events k') k := by
  refine awp_bind.2 (awp_self (hc _ rfl) fun cur hcur => awp_bind.2 ?_)
  rw [awp_mem]
  cases hpc : (k.threads cur).pc with
  | awake caller =>
    refine awp_bind.2 ((awp_put _).2 ?_)
    have hq : Quiet a k (k.onThread cur fun t => { t with pc := .run }) :=
      .onThread k cur rfl (.inr ⟨rfl, fun h => Pc.noConfusion (hpc.symm.trans h)⟩) rfl
    have hr' : Easy c ∨ (k.onThread cur fun t => { t with pc := .run }).Spacious :=
      hr.imp_right fun h => ⟨h.roomy, h.sleepers, h.zombies⟩
    cases caller with
    | plain spl => exact awp_bind.2 (.quiet hq (.quiet (.spl _ spl) .refl))
    | semP sem spl =>
      exact awp_mono (awp_semP_loop hc hr' hz ha (hw _ _ _ hcur hpc rfl) (hs sem))
        fun d k' hp => .quiet hq hp
    | lockAcquire lock spl ret =>
      exact awp_mono (awp_lockAcquire_loop hc hr' hz ha (hw _ _ _ hcur hpc rfl)
        (hl _ _ _ hcur hpc rfl) hcur) fun d k' hp => .quiet hq hp
    | cvWait cv lock spl ret =>
      exact awp_mono (awp_lockAcquire hc hr' hz ha (fun s => hw _ _ _ hcur hpc ⟨s, rfl⟩)
        (hl _ _ _ hcur hpc rfl) hcur) fun d k' hp => .quiet hq hp
  | start => exact hc .notSwitchedOut rfl
  | run => exact hc .notSwitchedOut rfl
  | yield spl => exact hc .notSwitchedOut rfl
  | sleep caller => exact hc .notSwitchedOut rfl
  | dead => exact hc .notSwitchedOut rfl

/-! ### Processes -/

theorem findpidindex_mem {t : PidTable} {p : Word} {i : Nat} (h : t.findpidindex p = some i) :
    t.guy i ∈ t.infos.v := by
  rw [PidTable.findpidindex, List.findIdx?_eq_some_iff_getElem] at h
  obtain ⟨hi, -⟩ := h
  rw [PidTable.guy, List.getD_eq_getElem?_getD, List.getElem?_eq_getElem hi]
  exact List.getElem_mem hi

theorem awp_lockRelease_deadlock {Q : Unit → Kernel → Prop} {lock : Addr}
    (h : k.locks lock ≠ k.curthread) (hc : c.fails (.releaseDeadlock lock)) :
    awp c (lockRelease lock) Q k := by
  refine awp_bind.2 (awp_splhigh.2 (awp_bind.2 (awp_bind.2 ?_)))
  show awp c (if decide (k.locks lock = k.curthread) = true then _ else _) _ _
  rw [if_neg (by rwa [decide_eq_true_iff])]
  exact hc

theorem awp_cvWait_deadlock {Q : Done → Kernel → Prop} {cv lock : Addr} {ret : WaitRet}
    (h : k.locks lock ≠ k.curthread) (hc : c.fails (.releaseDeadlock lock)) :
    awp c (cvWait cv lock ret) Q k :=
  awp_bind.2 (awp_splhigh.2 (awp_bind.2 (awp_bind.2 (awp_lockRelease_deadlock h hc))))

section
variable {pid flags : Word} {Q : Done → Kernel → Prop} (hcur : k.curthread = some t)
    (hbad : pid = (k.threads t).tPid ∨ flags ≠ 0 →
      Q ⟨[], .waitpid pid (PidErr.errno .EINVAL).code⟩ k)
    (hnone : pid ≠ (k.threads t).tPid → flags = 0 → k.pids.findpidindex pid = none →
      Q ⟨[], .waitpid pid PidErr.minusOne.code⟩ k)
    (hzero : ∀ i, pid ≠ (k.threads t).tPid → flags = 0 → k.pids.findpidindex pid = some i →
      k.pids.load (k.pids.guy i) .parentPid ≠ (k.threads t).tPid →
      k.pids.load (k.pids.guy i) .hasexited ≠ 0 → Q ⟨[], .waitpid pid 0⟩ k)
include hcur hbad hnone hzero

/-- The paths through `pid_wait`. -/
theorem awp_sysWaitpid_cases
    (hparent : ∀ i, pid ≠ (k.threads t).tPid → flags = 0 → k.pids.findpidindex pid = some i →
      k.pids.load (k.pids.guy i) .parentPid = (k.threads t).tPid →
      awp c (lockRelease k.pidlock) (fun _ => Q ⟨[.released k.curthread k.pidlock],
        .waitpid pid (PidErr.errno .EINVAL).code⟩) k)
    (hwait : ∀ i, pid ≠ (k.threads t).tPid → flags = 0 → k.pids.findpidindex pid = some i →
      k.pids.load (k.pids.guy i) .parentPid ≠ (k.threads t).tPid →
      k.pids.load (k.pids.guy i) .hasexited = 0 →
      awp c (cvWait (k.pids.load (k.pids.guy i) .exitcv).toNat k.pidlock
        (.pidWait (k.pids.guy i) pid)) Q k) :
    awp c (sysWaitpid pid flags) Q k := by
  refine awp_bind.2 ?_
  rw [self]
  refine awp_bind.2 ?_
  rw [awp_mem, hcur]
  refine awp_bind.2 ?_
  show awp c (if pid = (k.threads t).tPid then _ else _) _ k
  by_cases hself : pid = (k.threads t).tPid
  · rw [if_pos hself]
    exact hbad (.inl hself)
  rw [if_neg hself]
  by_cases hflags : flags = 0
  swap
  · rw [if_pos hflags]
    exact hbad (.inr hflags)
  rw [if_neg (not_not_intro hflags)]
  cases hf : k.pids.findpidindex pid with
  | none => exact hnone hself hflags hf
  | some i =>
    refine awp_bind.2 ?_
    show awp c (if k.pids.load (k.pids.guy i) .parentPid = (k.threads t).tPid then _ else _)
      _ k
    by_cases hpar : k.pids.load (k.pids.guy i) .parentPid = (k.threads t).tPid
    · rw [if_pos hpar]
      exact awp_bind.2 (hparent i hself hflags hf hpar)
    rw [if_neg hpar]
    by_cases hex : k.pids.load (k.pids.guy i) .hasexited = 0
    · rw [if_pos hex]
      exact hwait i hself hflags hf hpar hex
    · rw [if_neg hex]
      exact hzero i hself hflags hf hpar hex

/-- With `pidlock` in nobody's hands. -/
theorem awp_sysWaitpid_ends (hl : k.locks k.pidlock = none)
    (hdead : ∀ i, pid ≠ (k.threads t).tPid → flags = 0 → k.pids.findpidindex pid = some i →
      k.pids.load (k.pids.guy i) .parentPid = (k.threads t).tPid ∨
        k.pids.load (k.pids.guy i) .hasexited = 0 → c.fails (.releaseDeadlock k.pidlock)) :
    awp c (sysWaitpid pid flags) Q k := by
  have hheld : k.locks k.pidlock ≠ k.curthread := by
    rw [hl, hcur]
    exact nofun
  refine awp_sysWaitpid_cases hcur hbad hnone hzero (fun i h1 h2 hf hpar => ?_)
    fun i h1 h2 hf _ hex => ?_
  · exact awp_lockRelease_deadlock hheld (hdead i h1 h2 hf (.inl hpar))
  · exact awp_cvWait_deadlock hheld (hdead i h1 h2 hf (.inr hex))

end

section
variable (hc : Lenient c)
include hc

theorem awpE_setHasexited {Q : Except PidErr Unit → Kernel → Prop} {cur : Addr}
    {hasexited : Word} (hr : Easy c ∨ k.Roomy) (ha : a.marks) (hcur : k.curthread = some cur)
    (hw : ∀ b ∈ k.pids.infos.v, a.wakes (some (.cv (k.pids.load b .exitcv).toNat)))
    (hQ : ∀ r k', (∀ es k₂, Path a k' es k₂ → Path a k es k₂) → k'.curthread = k.curthread →
      k'.threads = k.threads → k'.pids = k.pids.mark (k.threads cur).tPid .hasexited hasexited →
      (k.Spacious → k'.Spacious) → Q r k') :
    awpE c (setHasexited (k.threads cur).tPid hasexited) Q k := by
  refine awpE_call_bind.2 (awpE_bind.2 (awpE_bind.2 ?_))
  rw [findpid]
  cases hf : k.pids.findpidindex (k.threads cur).tPid with
  | none => exact hQ _ k (fun _ _ h => h) rfl rfl (by rw [PidTable.mark, hf]) id
  | some i =>
    have hcv := hw _ (findpidindex_mem hf)
    have hmark : Prim a k [] { k with
        pids := k.pids.store (k.pids.guy i) .hasexited hasexited } := .mark ha hcur hf (by decide)
    have hpids : k.pids.store (k.pids.guy i) .hasexited hasexited =
        k.pids.mark (k.threads cur).tPid .hasexited hasexited := by rw [PidTable.mark, hf]
    rw [← PidTable.load_store_field (w := hasexited)
      (show Field.hasexited ≠ Field.exitcv by decide)] at hcv
    refine awpE_call_bind.2 ?_
    have hspace : ∀ p, k.Spacious → { k with pids := p }.Spacious := fun p h =>
      ⟨h.roomy, h.sleepers, h.zombies⟩
    rw [exitBroadcast]
    by_cases hx : hasexited ≠ 0
    · rw [if_pos hx]
      refine awp_bind.2 (awp_assert_of (hc _ rfl) fun _ => ?_)
      refine awpE_call_bind.2 (awpE_call.2 ?_)
      refine awp_cvBroadcast hc hr hcv fun k' ht hk hthr hp hsp => ?_
      exact hQ _ k' (fun es k₂ h => .silent hmark (ht es k₂ h)) hk hthr (hp.trans hpids)
        fun h => hsp (hspace _ h)
    · rw [if_neg hx]
      exact hQ _ _ (fun es k₂ h => .silent hmark h) rfl rfl hpids (hspace _)

/-- `thread_exit` up to the switch, and the switch. -/
theorem awp_threadExit_switch (hr : Easy c ∨ k.Spacious)
    (hz : c.fails .pidNotFound) (hm : a.marks)
    (hw : ∀ b ∈ k.pids.infos.v, a.wakes (some (.cv (k.pids.load b .exitcv).toNat)))
    (hQ : ∀ cur k₁ k₂ k3, k.curthread = some cur →
      (∀ es k', Path a k₁ es k' → Path a k es k') → k₁.curthread = some cur →
      (∀ t, (k₁.threads t).tPid = (k.threads t).tPid) →
      k₁.pids = k.pids.mark (k.threads cur).tPid .hasexited 1 → 0 < k₁.numthreads →
      Stashed { k₁ with numthreads := k₁.numthreads - 1 } cur .dead .zomb k₂ →
      Dispatched k₂ k3 → Q () k3) : awp c threadExit Q k := by
  refine awp_bind.2 (awp_self (hc _ rfl) fun cur hcur => awp_bind.2 ?_)
  refine awp_bind.2 (awp_assert_of (hc _ rfl) fun _ => awp_bind.2 (awp_splhigh.2 ?_))
  refine awp_bind.2 (awp_bind.2 ?_)
  obtain ⟨k₁, hk1⟩ : ∃ k₁, k₁ = { k with curspl := 15 }.onThread cur fun t =>
    { t with tVmspace := none, tCwd := none } := ⟨_, rfl⟩
  have hq : Quiet a { k with curspl := 15 } k₁ := hk1 ▸ .onThread _ cur rfl (.inl rfl) rfl
  have hpid : (k.threads cur).tPid = (k₁.threads cur).tPid := (hq.procs.tPid cur).symm
  have hcur1 : k₁.curthread = some cur := hq.curthread.trans hcur
  have hpids : k₁.pids = k.pids := hk1 ▸ rfl
  have hsp1 : k.Spacious → k₁.Spacious := hk1 ▸ fun h => ⟨h.roomy, h.sleepers, h.zombies⟩
  have hw1 : ∀ b ∈ k₁.pids.infos.v, a.wakes (some (.cv (k₁.pids.load b .exitcv).toNat)) :=
    hk1 ▸ hw
  show awp c (setHasexited (k.threads cur).tPid 1).run _
    ({ k with curspl := 15 }.onThread cur fun t => { t with tVmspace := none, tCwd := none })
  rw [← hk1, awp_run_iff, hpid]
  refine awpE_setHasexited (a := a) hc (hr.imp_right fun h => (hsp1 h).roomy) hm hcur1 hw1
    fun r k' ht hk hthr hp hsp => ?_
  have hr' : Easy c ∨ k'.Spacious := hr.imp_right fun h => hsp (hsp1 h)
  have hcur' : k'.curthread = some cur := hk.trans hcur1
  refine awp_bind.2 (awp_bind.2 (awp_assert_of (hc _ rfl) fun hn => awp_bind.2 ?_))
  have hne : k'.curthread ≠ none := fun hn => Option.some_ne_none _ (hcur'.symm.trans hn)
  refine awp_miSwitch hc (hr'.imp_right fun h => h.zombies hne) hz (fun hn => absurd hn hne)
    fun cur' k₂ k3 hc' hs hd => ?_
  obtain rfl : cur = cur' := Option.some.inj (hcur'.symm.trans hc')
  refine hQ cur k' k₂ k3 hcur (fun es k'' h => .quiet (.spl k 15) (.quiet hq (ht _ _ h))) hcur'
    (fun t => ?_) ?_ hn hs hd
  · rw [hthr, hq.procs.tPid t]
  · rw [hp, hpids, hpid]

theorem awp_threadExit (hr : Easy c ∨ k.Spacious) (hz : c.fails .pidNotFound) (ha : a.leaves)
    (hm : a.marks) (hw : ∀ b ∈ k.pids.infos.v, a.wakes (some (.cv (k.pids.load b .exitcv).toNat)))
    (hQ : ∀ k', Path a k [] k' → Q () k') : awp c threadExit Q k :=
  awp_threadExit_switch hc hr hz hm hw fun _ _ _ _ _ hp hcur _ _ hn hs hd =>
    hQ _ (hp _ _ (.one (.exit ha hm hcur hn hs hd)))

/-- `sys__exit` stores the status in one entry before it broadcasts on the
condition variable of one. -/
theorem awp_sysExit {code : Word} (hr : Easy c ∨ k.Spacious)
    (hz : c.fails .pidNotFound) (ha : a.leaves) (hm : a.marks)
    (hw : ∀ b ∈ k.pids.infos.v, a.wakes (some (.cv (k.pids.load b .exitcv).toNat)))
    (hw' : ∀ b ∈ k.pids.infos.v, ∀ b' ∈ k.pids.infos.v,
      a.wakes (some (.cv ((k.pids.store b' .exitstatus code).load b .exitcv).toNat)))
    (hQ : ∀ k', Path a k [] k' → Q () k') : awp c (sysExit code) Q k := by
  refine awp_bind.2 (awp_self (hc _ rfl) fun cur hcur => awp_bind.2 (awp_bind.2 ?_))
  refine awpE_call_bind.2 (awpE_bind.2 (awpE_bind.2 ?_))
  rw [findpid]
  cases hf : k.pids.findpidindex (k.threads cur).tPid with
  | none => exact awp_threadExit hc hr hz ha hm hw hQ
  | some i =>
    refine awp_threadExit hc ?_ hz ha hm (fun b hb => ?_) fun k' hp => ?_
    · exact hr.imp_right fun h => ⟨h.roomy, h.sleepers, h.zombies⟩
    · exact hw' b hb _ (findpidindex_mem hf)
    · exact hQ k' (.silent (.mark (f := .exitstatus) hm hcur hf (by decide)) hp)

theorem awp_sysWaitpid {pid flags : Word} (hr : Easy c ∨ k.Spacious)
    (hz : Spares c k) (ha : a.leaves) (hs : k.locks k.pidlock = k.curthread → ∀ cv spl info,
      a.waits (.cvWait cv k.pidlock spl (.pidWait info pid))) (hcur : k.curthread = some t)
    (hw : a.wakes (some (.lock k.pidlock))) :
    awp c (sysWaitpid pid flags) (fun d k' => Path a k d.events k') k := by
  refine awp_sysWaitpid_cases hcur (fun _ => .refl) (fun _ _ _ => .refl)
    (fun _ _ _ _ _ _ => .refl) (fun _ _ _ _ _ => ?_) fun _ _ _ _ _ _ => ?_
  · exact awp_lockRelease hc (hr.imp_right fun h => h.roomy) hcur hw
      fun k' ht _ _ _ _ _ => ht _ _ .refl
  · exact awp_cvWait hc hr hz ha (fun hh s => hs hh _ s _) hcur hw

end

end

/-! ## Every section is a sequence of steps -/

/-- The one operation that is meant to allocate. -/
def Op.Forks : Op → Prop
  | fork _ _ _ _ => True
  | _ => False

/-- The operations that may put the running thread among the sleepers or the
zombies. -/
def Op.Leaves : Op → Prop
  | sleep _ | exit | semP _ | lockAcquire _ | cvWait _ _ | sysExit _ | sysWaitpid _ _
  | resume => True
  | _ => False

/-- The operations that write to the entry of the running process. -/
def Op.Marks : Op → Prop
  | exit | sysExit _ => True
  | _ => False

/-- Room for whatever the section has to move. -/
def Op.HasRoom (k : Kernel) (op : Op) : Prop := k.Roomy ∧ (op.Leaves → k.Spacious)

/-- On which addresses a section may wake somebody up. -/
def Op.Wakes (k : Kernel) (addr : Option Chan) : Op → Prop
  | wakeup a | wakeone a => addr = a
  | semV sem => addr = some (.sem sem)
  | lockRelease lock | cvWait _ lock => addr = some (.lock lock)
  | cvSignal cv _ | cvBroadcast cv _ => addr = some (.cv cv)
  | exit => ∃ b ∈ k.pids.infos.v, addr = some (.cv (k.pids.load b .exitcv).toNat)
  | sysExit code => ∃ b ∈ k.pids.infos.v, addr = some (.cv (k.pids.load b .exitcv).toNat) ∨
      ∃ b' ∈ k.pids.infos.v,
        addr = some (.cv ((k.pids.store b' .exitstatus code).load b .exitcv).toNat)
  | sysWaitpid _ _ => addr = some (.lock k.pidlock)
  | _ => False

/-- From where a section may put the running thread to sleep. `cv_wait` with a
lock that is not held panics before that. -/
def Op.Waits (k : Kernel) (c : Caller) : Op → Prop
  | sleep _ => ∃ spl, c = .plain spl
  | semP sem => ∃ spl, c = .semP sem spl
  | lockAcquire lock => ∃ spl, c = .lockAcquire lock spl .user
  | cvWait cv lock => k.locks lock = k.curthread ∧ ∃ spl, c = .cvWait cv lock spl .user
  | sysWaitpid pid _ => k.locks k.pidlock = k.curthread ∧
      ∃ cv spl info, c = .cvWait cv k.pidlock spl (.pidWait info pid)
  | resume => ∃ cur c₀, k.curthread = some cur ∧ (k.threads cur).pc = .awake c₀ ∧ c₀.Again c
  | _ => False

/-- Which lock a section may take. -/
def Op.Acquires (k : Kernel) (l : Addr) : Op → Prop
  | lockAcquire lock => l = lock
  | resume => ∃ cur c, k.curthread = some cur ∧ (k.threads cur).pc = .awake c ∧ c.lock = some l
  | _ => False

/-- The section stays within the scope. -/
structure Op.Within (a : Scope) (k : Kernel) (op : Op) : Prop where
  sleeps : ∀ addr, op = .sleep addr → a.sleeps addr
  wakes : ∀ addr, op.Wakes k addr → a.wakes addr
  forks : op.Forks → a.forks
  leaves : op.Leaves → a.leaves
  marks : op.Marks → a.marks
  waits : ∀ c, op.Waits k c → a.waits c
  acquires : ∀ l, op.Acquires k l → a.acquires l

theorem Op.within_any (k : Kernel) (op : Op) : op.Within .any k :=
  ⟨fun _ _ => trivial, fun _ _ => trivial, fun _ => trivial, fun _ => trivial, fun _ => trivial,
    fun _ _ => trivial, fun _ _ => trivial⟩

section
variable {a : Scope} {c : Terms Panic} {k : Kernel} {op : Op}

/-- What a handler does. -/
theorem Op.awp_prog_interrupt (hc : Lenient c) (hr : Easy c ∨ k.Roomy) (hz : Spares c k)
    (ha : op.Within a k) (hi : op.FromInterrupt) (hcur : k.curthread = none) :
    awp c op.prog (fun d k' => Path a k d.events k' ∧ k'.curthread = none ∧ Spares c k') k := by
  have hspare : ∀ {k' : Kernel}, k'.zombies = k.zombies → Spares c k' := fun he =>
    hz.imp_right fun h => by rw [he, h]
  cases op with
  | yield =>
    exact awp_bind.2 (awp_threadYield hc hr hz fun k' hp hn =>
      ⟨hp, (hn hcur).1, hspare (hn hcur).2⟩)
  | wakeup addr =>
    refine awp_bind.2 (awp_splhigh.2 (awp_bind.2 ?_))
    refine awp_threadWakeup hc hr fun k' hk => awp_bind.2 ?_
    exact ⟨.quiet (.spl k 15) (.silent (.wakeAll (ha.wakes _ rfl) hk)
      (.quiet (.spl k' _) .refl)), hk.curthread.trans hcur, hspare hk.zombies⟩
  | wakeone addr =>
    refine awp_bind.2 (awp_splhigh.2 (awp_bind.2 ?_))
    refine awp_threadWakeone hc hr fun k' hk => awp_bind.2 ?_
    exact ⟨.quiet (.spl k 15) (.silent (.wakeOne (ha.wakes _ rfl) hk)
      (.quiet (.spl k' _) .refl)), hk.curthread.trans hcur, hspare hk.zombies⟩
  | semV sem =>
    exact awp_semV hc hr (ha.wakes _ rfl) fun d k' hp hk hzom =>
      ⟨hp, hk.trans hcur, hspare hzom⟩
  | _ => exact hi.elim

/-- What a thread does. -/
theorem Op.awp_prog {t : Addr} (hc : Lenient c) (hr : Easy c ∨ op.HasRoom k)
    (hz : c.fails .pidNotFound ∨ k.zombies.v = [] ∧ ¬ op.Marks) (hf : op.Forks → c.asks)
    (ha : op.Within a k) (hs : ∀ sem, 0 ≤ k.sems sem ∨ c.fails (.semPCount sem))
      (hcur : k.curthread = some t)
    (hfresh : op.Fresh k) : awp c op.prog (fun d k' => Path a k d.events k') k := by
  have hroom : Easy c ∨ k.Roomy := hr.imp_right fun h => h.1
  have hsp : op.Leaves → Easy c ∨ k.Spacious := fun hl => hr.imp_right fun h => h.2 hl
  have hz1 : Spares c k := hz.imp_right And.left
  have hz2 : op.Marks → c.fails .pidNotFound := fun hm => hz.resolve_right fun h => h.2 hm
  cases op with
  | fork newguy info cv g =>
    exact awp_bind.2 (awp_threadFork hc (hf trivial) hfresh.1 fun r k' h =>
      .one (.fork (ha.forks trivial) hfresh.1 hfresh.2 h))
  | yield => exact awp_bind.2 (awp_threadYield hc hroom hz1 fun k' hp _ => hp)
  | sleep addr =>
    refine awp_bind.2 (awp_splhigh.2 (awp_bind.2 ?_))
    refine awp_threadSleep hc ?_ hz1 (ha.leaves trivial) (ha.waits _ ⟨_, rfl⟩)
      (ha.sleeps addr rfl) fun k' hp => .quiet (.spl k 15) (.one hp)
    exact (hsp trivial).imp_right fun h => ⟨h.roomy, h.sleepers, h.zombies⟩
  | wakeup addr =>
    refine awp_bind.2 (awp_splhigh.2 (awp_bind.2 ?_))
    refine awp_threadWakeup hc hroom fun k' hk => awp_bind.2 ?_
    exact .quiet (.spl k 15) (.silent (.wakeAll (ha.wakes _ rfl) hk) (.quiet (.spl k' _) .refl))
  | wakeone addr =>
    refine awp_bind.2 (awp_splhigh.2 (awp_bind.2 ?_))
    refine awp_threadWakeone hc hroom fun k' hk => awp_bind.2 ?_
    exact .quiet (.spl k 15) (.silent (.wakeOne (ha.wakes _ rfl) hk) (.quiet (.spl k' _) .refl))
  | exit =>
    exact awp_bind.2 (awp_threadExit hc (hsp trivial) (hz2 trivial) (ha.leaves trivial)
      (ha.marks trivial) (fun b hb => ha.wakes _ ⟨b, hb, rfl⟩) fun k' hp => hp)
  | semP sem =>
    exact awp_semP hc (hsp trivial) hz1 (ha.leaves trivial) (fun s => ha.waits _ ⟨s, rfl⟩)
      (hs sem)
  | semV sem => exact awp_semV hc hroom (ha.wakes _ rfl) fun d k' hp _ _ => hp
  | lockAcquire lock =>
    exact awp_lockAcquire hc (hsp trivial) hz1 (ha.leaves trivial)
      (fun s => ha.waits _ ⟨s, rfl⟩) (ha.acquires _ rfl) hcur
  | lockRelease lock =>
    exact awp_bind.2 (awp_bind.2 (awp_lockRelease hc hroom hcur (ha.wakes _ rfl)
      fun k' ht _ _ _ _ _ => ht _ _ .refl))
  | cvWait cv lock =>
    exact awp_cvWait hc (hsp trivial) hz1 (ha.leaves trivial)
      (fun hh s => ha.waits _ ⟨hh, s, rfl⟩) hcur (ha.wakes _ rfl)
  | cvSignal cv lock => exact awp_bind.2 (awp_cvSignal hc hroom (ha.wakes _ rfl) fun k' hp => hp)
  | cvBroadcast cv lock =>
    exact awp_bind.2 (awp_cvBroadcast hc hroom (ha.wakes _ rfl) fun k' ht _ _ _ _ => ht _ _ .refl)
  | sysExit code =>
    exact awp_bind.2 (awp_sysExit hc (hsp trivial) (hz2 trivial) (ha.leaves trivial)
      (ha.marks trivial) (fun b hb => ha.wakes _ ⟨b, hb, .inl rfl⟩)
      (fun b hb b' hb' => ha.wakes _ ⟨b, hb, .inr ⟨b', hb', rfl⟩⟩) fun k' hp => hp)
  | sysWaitpid pid flags =>
    exact awp_sysWaitpid hc (hsp trivial) hz1 (ha.leaves trivial)
      (fun hh cv s info => ha.waits _ ⟨hh, cv, s, info, rfl⟩) hcur (ha.wakes _ rfl)
  | resume =>
    exact awp_resume hc (hsp trivial) hz1 (ha.leaves trivial)
      (fun _ _ _ h1 h2 h3 => ha.waits _ ⟨_, _, h1, h2, h3⟩)
      (fun _ _ _ h1 h2 h3 => ha.acquires _ ⟨_, _, h1, h2, h3⟩) hs

theorem Op.Enabled.curthread (he : op.Enabled k) (hi : ¬ op.FromInterrupt) :
    ∃ t, k.curthread = some t := by
  cases hcur : k.curthread with
  | none =>
    rw [Op.Enabled, hcur] at he
    exact absurd he hi
  | some t => exact ⟨t, rfl⟩

theorem Op.Enabled.running {t : Addr} (he : op.Enabled k) (hcur : k.curthread = some t) :
    op.Fresh k := by
  rw [Op.Enabled, hcur] at he
  dsimp only at he
  cases hpc : (k.threads t).pc with
  | run =>
    rw [hpc] at he
    exact he.2
  | awake caller =>
    rw [hpc] at he
    subst he
    trivial
  | start | yield | sleep | dead =>
    rw [hpc] at he
    exact he.elim

theorem Op.awp_code (hc : Lenient c) (hr : Easy c ∨ op.HasRoom k)
    (hz : c.fails .pidNotFound ∨ k.zombies.v = [] ∧ ¬ op.Marks) (hf : op.Forks → c.asks)
    (ha : op.Within a k) (hs : ∀ sem, 0 ≤ k.sems sem ∨ c.fails (.semPCount sem))
    (he : op.Enabled k) : awp c (op.code k) (fun d k' => Path a k d.events k') k := by
  cases hcur : k.curthread with
  | none =>
    have hi : op.FromInterrupt := by rwa [Op.Enabled, hcur] at he
    rw [Op.code, hcur]
    refine awp_bind_of (Op.awp_prog_interrupt hc (hr.imp_right And.left)
      (hz.imp_right And.left) ha hi hcur) fun d k' hk => ?_
    refine awp_bind.2 (awp_dispatch hc hk.2.2 fun k₂ hd => ?_)
    have := hk.1.trans (.one (.dispatch hk.2.1 hd))
    rwa [List.append_nil] at this
  | some t =>
    rw [Op.code, hcur]
    exact Op.awp_prog hc hr hz hf ha hs hcur (he.running hcur)

end

/-! ## Runs -/

/-- No panic and no refusal of the allocator is out of the question. -/
def anyTerms : Terms Panic := ⟨fun _ => True, True, True⟩

theorem lenient_any : Lenient anyTerms := fun _ _ => trivial

theorem easy_any : Easy anyTerms := ⟨trivial, fun _ => trivial, fun _ => trivial⟩

section
variable {k k' : Kernel} {op : Op} {script : Script Empty} {d : Done}

theorem Leads.of_awp {Q : Done → Kernel → Prop} (h : Leads k op script d k')
    (hQ : awp anyTerms (op.code k) Q k) : Q d k' := by
  obtain ⟨s, hrun, rfl⟩ := h
  have := awp_run (s := k.machine script) (fun _ => trivial) hQ
  rw [hrun] at this
  exact this.1

/-- A section that comes to its end is a sequence of steps. -/
theorem Leads.path {a : Scope} (h : Leads k op script d k') (ha : op.Within a k)
    (he : op.Enabled k) : Path a k d.events k' :=
  h.of_awp (Op.awp_code lenient_any (.inl easy_any) (.inl trivial) (fun _ => trivial) ha
    (fun _ => .inr trivial) he)

end

/-- The states that the system can get into, with the operations completed on
the way. `ok` is what is asked of a section. -/
inductive Run (ok : Kernel → Op → Script Empty → Prop) (k₀ : Kernel) :
    List Event → Kernel → Prop
  | start : Run ok k₀ [] k₀
  | step (op : Op) (script : Script Empty) {tr : List Event} {k k' : Kernel} {d : Done}
      (h : Run ok k₀ tr k) (he : op.Enabled k) (ho : ok k op script)
      (hl : Leads k op script d k') : Run ok k₀ (tr ++ d.events) k'
  | elsewhere {tr : List Event} {k k' : Kernel} (h : Run ok k₀ tr k) (he : Elsewhere k k') :
      Run ok k₀ tr k'

/-- What every step keeps holds all along a run. -/
theorem Run.invariant {ok : Kernel → Op → Script Empty → Prop} {k₀ : Kernel} {tr : List Event}
    {I : Kernel → List Event → Prop} (h : Run ok k₀ tr k)
    (ha : ∀ k op script, ok k op script → op.Within a k) (hw : a.writes)
    (hI : ∀ {k e k' tr}, Prim a k e k' → I k tr → I k' (tr ++ e)) (h0 : I k₀ []) : I k tr := by
  induction h with
  | start => exact h0
  | step _ _ _ he ho hl ih => exact (hl.path (ha _ _ _ ho) he).invariant hI _ ih
  | elsewhere _ he ih =>
    have := hI (Prim.quiet (he.quiet hw)) ih
    rwa [List.append_nil] at this

/-- The state in which `thread_bootstrap` leaves the system: one thread, arrays
without storage, and a run queue of 32 cells. -/
structure Booted (k : Kernel) (me : Addr) : Prop where
  curthread : k.curthread = some me
  sleepers : k.sleepers = KArray.empty
  zombies : k.zombies = KArray.empty
  numthreads : k.numthreads = 1
  ready : k.runqueue.toList = []
  size : k.runqueue.size = 32
  allocated : ∀ t, k.allocated t = true ↔ t = me
  pc : (k.threads me).pc = .run
  locks : ∀ l, k.locks l = none

end Os161.Thread
