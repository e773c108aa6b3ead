import Os161.Proofs.Census

/-!
# Reaping

A thread that exits is disposed of by whoever is switched in next: `exorcise`
calls `thread_destroy` on every zombie. `thread_destroy` is handed the zombie,
but takes the pid and the file table from `curthread`, so it is the thread that
does the work that loses its entry and its open files. The entry of the zombie
stays. If there are two zombies, the second call does not find the pid any more
and panics.

What holds is what happens when there is nobody to dispose of. The first part
of this file says once what a step can do to the processes (`ProcStep`); the
runs in which nobody exits follow from it.
-/

namespace Os161.Thread

open Os161.Kern Os161.Lib Function

/-! ## What a step does to the processes -/

/-- Somebody else runs. The table may have lost entries of threads that live. -/
structure Switched (k k' : Kernel) : Prop where
  tPid : ∀ t, (k'.threads t).tPid = (k.threads t).tPid
  live : ∀ t, k'.Live t → k.Live t
  pidlock : k'.pidlock = k.pidlock
  nobody : k.zombies.v = [] → k'.zombies.v = [] ∧ k'.pids = k.pids
  spared : k.pids.Ok → k.pids.Legible → k'.pids.Ok ∧ k'.pids.Legible ∧
    ∀ q, (∀ t, k.Live t → (k.threads t).tPid ≠ q) → k'.pids.toMap q = k.pids.toMap q

inductive ProcStep (a : Scope) (k k' : Kernel) : Prop
  | same (hp : SameProcs k k') (hm : k'.pids.mem = k.pids.mem ∨ a.writes)
      (hl : ∀ t, k'.Live t → k.Live t) (hz : k'.zombies.v = k.zombies.v)
  | fork {newguy info : Addr} {r : Except PidErr Unit} (ha : a.forks)
      (hf : k.allocated newguy = false) (hi : ∀ b ∈ k.pids.infos.v, Apart info b)
      (h : Forked k newguy info r k')
  | mark {cur : Addr} {i : Nat} {f : Field} {w : Word} (ha : a.marks)
      (hcur : k.curthread = some cur) (hi : k.pids.findpidindex (k.threads cur).tPid = some i)
      (hf : f ≠ .pid) (hk : k' = { k with pids := k.pids.store (k.pids.guy i) f w })
  | switch {k₁ : Kernel} (hp : k₁.pids = k.pids)
      (ht : ∀ t, (k₁.threads t).tPid = (k.threads t).tPid) (hlock : k₁.pidlock = k.pidlock)
      (hl : ∀ t, k₁.Live t → k.Live t) (hz : k₁.zombies.v = k.zombies.v ∨ a.marks)
        (h : Switched k₁ k')

variable {k k' : Kernel} {threads : Addr → Thread} {u t : Addr} {x : Thread}

theorem SameProcs.of_eq (hp : k'.pids = k.pids) (ht : ∀ t, (k'.threads t).tPid = (k.threads t).tPid)
    (hl : k'.pidlock = k.pidlock) : SameProcs k k' :=
  ⟨by rw [hp], by rw [hp], fun _ _ _ => by rw [hp], ht, hl⟩

theorem tPid_update (hx : x.tPid = (threads u).tPid) (t : Addr) :
    (update threads u x t).tPid = (threads t).tPid := by
  by_cases ht : t = u
  · rw [ht, update_self, hx]
  · rw [update_of_ne ht]

theorem pc_update (ht : t ≠ u) : (update threads u x t).pc = (threads t).pc := by
  rw [update_of_ne ht]

/-- Changing where a thread that lives goes on does not change who lives. -/
theorem Kernel.Live.of_pc (ha : k'.allocated = k.allocated) (hu : (k.threads u).pc ≠ .dead)
    (ht : ∀ t, t ≠ u → (k'.threads t).pc = (k.threads t).pc) (h : k'.Live t) : k.Live t := by
  refine ⟨ha ▸ h.1, ?_⟩
  by_cases he : t = u
  · exact he ▸ hu
  · exact ht t he ▸ h.2

/-- Entries that are there stay as they are. -/
theorem PidGrown.keeps {t u : PidTable} {info b : Addr} {ppid : Word} (h : PidGrown t info ppid u)
    (hi : ∀ b ∈ t.infos.v, Apart info b) (hb : b ∈ t.infos.v) :
    b ∈ u.infos.v ∧ ∀ f, u.load b f = t.load b f := by
  cases h with
  | same => exact ⟨hb, fun _ => rfl⟩
  | filled cv => exact ⟨hb, fun _ => PidTable.load_fill_apart (hi b hb) _ _ _ _⟩
  | added cv infos hv =>
    exact ⟨hv ▸ List.mem_append_left _ hb, fun _ => PidTable.load_fill_apart (hi b hb) _ _ _ _⟩

namespace Forked

variable {k k' : Kernel} {newguy info : Addr} {r : Except PidErr Unit}
  (h : Forked k newguy info r k')

include h

theorem grown : ∃ ppid, ParentPid k newguy ppid ∧ PidGrown k.pids info ppid k'.pids := by
  cases h with
  | failed _ hp => exact hp
  | made _ hp =>
    obtain ⟨ppid, cv, infos, hpar, hv, hp⟩ := hp
    exact ⟨ppid, hpar, hp ▸ .added cv infos hv⟩

/-- Who lives after a fork: those who did, and perhaps the new thread, with the
new entry. -/
theorem live (hf : k.allocated newguy = false) {t : Addr} (ht : k'.Live t) :
    k.Live t ∧ k'.threads t = k.threads t ∨
      t = newguy ∧ (k'.threads t).pc = .start ∧ (k'.threads t).tPid = k.pids.nextpid ∧
        info ∈ k'.pids.infos.v ∧ k'.pids.load info .pid = (k'.threads t).tPid := by
  by_cases he : t = newguy
  · subst he
    cases h with
    | failed _ _ _ ha _ =>
      have := ht.1
      rw [ha, hf] at this
      cases this
    | made _ hp _ _ _ _ _ _ hpc _ hpid =>
      obtain ⟨ppid, cv, infos, -, hv, hp⟩ := hp
      refine .inr ⟨rfl, hpc, hpid, ?_, ?_⟩
      · rw [hp]
        exact hv ▸ List.mem_append_right _ List.mem_cons_self
      · rw [hp, hpid]
        exact (k.pids.load_fill info ppid 0 cv).1
  · have hthr := h.frame.threads t he
    refine .inl ⟨⟨?_, hthr ▸ ht.2⟩, hthr⟩
    have := ht.1
    cases h with
    | failed _ _ _ ha _ => rwa [ha] at this
    | made _ _ _ ha => rwa [ha, update_of_ne he] at this

end Forked

section
variable {a : Scope} {e : List Event} {k k' k₁ : Kernel}

theorem Dispatched.switched (h : Census k) (hcur : k.curthread = none) (hd : Dispatched k k') :
    Switched k k' := by
  have hready : ∀ {next : Addr} {q : Queue Addr}, k.runqueue.toList = next :: q.toList →
      k.Live next := fun hq => (h.live _).1 (by
    rw [Kernel.places, hcur, hq]
    exact List.mem_append_left _ List.mem_cons_self)
  -- the thread that is switched in does the reaping
  have hreap : ∀ {next : Addr} {q : Queue Addr} {k2 k3 : Kernel},
      k.runqueue.toList = next :: q.toList → Reaped (k.pick next q) k2 →
      (∀ t, (k3.threads t).tPid = (k2.threads t).tPid) →
      (∀ t, t ≠ next → (k3.threads t).pc = (k2.threads t).pc) →
      k3.allocated = k2.allocated → k3.pidlock = k2.pidlock → k3.zombies = k2.zombies →
      k3.pids = k2.pids → Switched k k3 := by
    intro next q k2 k3 hq hr htPid hpc halloc hlock hz hpids
    have hlive := hready hq
    obtain ⟨⟨z, al, p, o, rfl⟩, hzv, -, hal, hnobody, hspared⟩ := hr
    refine ⟨htPid, fun t ht => ⟨?_, ?_⟩, hlock, fun hn => ?_, fun hok hleg => ?_⟩
    · exact ((hal t).1 (halloc ▸ ht.1)).1
    · by_cases he : t = next
      · exact he ▸ hlive.2
      · have hne := ht.2
        rwa [hpc t he] at hne
    · exact ⟨hz ▸ hzv, hpids.trans (hnobody hn).1⟩
    · obtain ⟨hok', hleg', hmap⟩ := hspared hok hleg
      rw [hpids]
      refine ⟨hok', hleg', fun r hr => hmap r fun cur hc => ?_⟩
      obtain rfl : next = cur := Option.some.inj hc
      exact hr next hlive
  cases hd with
  | idle _ =>
    exact ⟨fun _ => rfl, fun _ => id, rfl, fun hz => ⟨hz, rfl⟩,
      fun hok hleg => ⟨hok, hleg, fun _ _ => rfl⟩⟩
  | @start next q hq _ hpc =>
    refine ⟨fun t => ?_, fun t ht => ?_, rfl, fun hz => ⟨hz, rfl⟩,
      fun hok hleg => ⟨hok, hleg, fun _ _ => rfl⟩⟩
    · exact tPid_update (by rfl) t
    · refine Kernel.Live.of_pc ?_ (hready hq).2 (fun u hu => ?_) ht
      · rfl
      · exact pc_update hu
  | @yield next q k2 spl hq _ hpc hr =>
    refine hreap hq hr (fun t => ?_) (fun t ht => ?_) rfl rfl rfl rfl
    · exact tPid_update (by rfl) t
    · exact pc_update ht
  | @sleep next q k2 caller hq _ hpc hr =>
    refine hreap hq hr (fun t => ?_) (fun t ht => ?_) rfl rfl rfl rfl
    · exact tPid_update (by rfl) t
    · exact pc_update ht

variable {cur : Addr} {pc : Pc} {st : NextState}

/-- A thread that has been put away is the process that it was. -/
theorem Stashed.procs (h : Stashed k cur pc st k') :
    k'.pids = k.pids ∧ (∀ t, (k'.threads t).tPid = (k.threads t).tPid) ∧
      k'.pidlock = k.pidlock := by
  refine ⟨?_, fun t => ?_, ?_⟩
  · cases h <;> rfl
  · cases h <;> exact tPid_update (by rfl) t
  · cases h <;> rfl

theorem Stashed.live (h : Stashed k cur pc st k') (hcur : (k.threads cur).pc ≠ .dead) {t : Addr}
    (ht : k'.Live t) : k.Live t := by
  refine Kernel.Live.of_pc ?_ hcur (fun t ht => by rw [h.threads_ne ht]) ht
  cases h <;> rfl

variable {addr : Option Chan}

theorem Kernel.sleepaddr_pc (k : Kernel) (cur t : Addr) :
    ((k.onThread cur fun t => { t with tSleepaddr := addr }).threads t).pc = (k.threads t).pc := by
  by_cases ht : t = cur
  · rw [ht, Kernel.onThread_threads_self]
  · rw [Kernel.onThread_threads_ne ht]

theorem Stashed.live_slept
    (h : Stashed (k.onThread cur fun t => { t with tSleepaddr := addr }) cur pc st k')
    (hcur : (k.threads cur).pc ≠ .dead) {t : Addr} (ht : k'.Live t) : k.Live t := by
  have := h.live (by rwa [k.sleepaddr_pc]) ht
  exact ⟨this.1, k.sleepaddr_pc cur t ▸ this.2⟩

theorem Stashed.zombies (h : Stashed k cur pc st k') (hst : st ≠ .zomb) :
    k'.zombies = k.zombies := by
  cases h with
  | ready => rfl
  | sleep => rfl
  | zomb => exact absurd rfl hst

/-- Every step is one of four. -/
theorem Prim.procStep (hp : Prim a k e k') (h : Census k) : ProcStep a k k' := by
  have hsame : ∀ {k₁ : Kernel}, k₁.pids = k.pids → k₁.threads = k.threads →
      k₁.pidlock = k.pidlock → k₁.allocated = k.allocated → k₁.zombies = k.zombies →
      ProcStep a k k₁ := fun h1 h2 h3 h4 h5 =>
    .same (.of_eq h1 (fun _ => by rw [h2]) h3) (.inl (by rw [h1]))
      (fun t ht => by rwa [Kernel.Live, h4, h2] at ht) (by rw [h5])
  have hwoke : ∀ {k₁ k2 : Kernel} {addr : Option Chan}, WokeAll k₁ addr k2 →
      k₁.pids = k.pids → k₁.threads = k.threads → k₁.pidlock = k.pidlock →
      k₁.allocated = k.allocated → k₁.zombies = k.zombies → ProcStep a k k2 := by
    rintro k₁ k2 addr ⟨s, q, -, -, -, -, rfl⟩ h1 h2 h3 h4 h5
    exact hsame h1 h2 h3 h4 h5
  cases hp with
  | quiet hq =>
    exact .same hq.procs hq.mem hq.live (by rw [hq.zombies])
  | wakeAll _ hw => exact hwoke hw rfl rfl rfl rfl rfl
  | wakeOne _ hw =>
    obtain ⟨-, rfl⟩ | ⟨pre, post, u, s, q, -, -, -, -, -, -, -, rfl⟩ := hw <;>
      exact hsame rfl rfl rfl rfl rfl
  | take _ => exact hsame rfl rfl rfl rfl rfl
  | give _ _ _ hw => exact hwoke hw rfl rfl rfl rfl rfl
  | acquire _ _ _ => exact hsame rfl rfl rfl rfl rfl
  | release _ _ _ hw => exact hwoke hw rfl rfl rfl rfl rfl
  | waited _ _ => exact hsame rfl rfl rfl rfl rfl
  | fork ha hf hi hk => exact .fork ha hf hi hk
  | mark ha hcur hi hf => exact .mark ha hcur hi hf rfl
  | dispatch hcur hd =>
    exact .switch rfl (fun _ => rfl) rfl (fun _ => id) (.inl rfl) (hd.switched h hcur)
  | yield hcur hs hd =>
    obtain ⟨h1, hnone⟩ := h.stashed hcur hs (by simp) (by simp)
    obtain ⟨hp, ht, hlock⟩ := hs.procs
    exact .switch hp ht hlock (fun t => hs.live (h.running hcur).2)
      (.inl (by rw [hs.zombies (by simp)])) (hd.switched h1 hnone)
  | sleep _ _ hcur _ hs hd =>
    obtain ⟨h1, hnone⟩ := h.slept hcur hs
    obtain ⟨hp, ht, hlock⟩ := hs.procs
    refine .switch hp (fun t => (ht t).trans (tPid_update (by rfl) t)) hlock
      (fun t => hs.live_slept (h.running hcur).2) (.inl ?_) (hd.switched h1 hnone)
    rw [hs.zombies (by simp)]
    rfl
  | exit _ hm hcur _ hs hd =>
    obtain ⟨h1, hnone⟩ := h.exited hcur hs
    obtain ⟨hp, ht, hlock⟩ := hs.procs
    exact .switch hp ht hlock
      (fun t ht => hs.live (k := { k with numthreads := k.numthreads - 1 })
        (h.running hcur).2 ht) (.inr hm) (hd.switched h1 hnone)

end

/-! ## One call -/

/-- What `exorcise` is for: the zombies go, with their entries and their open
files, and the others keep theirs. -/
structure ReapsOnly (k k' : Kernel) : Prop where
  zombies : k'.zombies.v = []
  infos : k'.pids.infos.v = k.pids.infos.v.filter fun b =>
    decide (∀ z ∈ k.zombies.v, k.pids.load b .pid ≠ (k.threads z).tPid)
  disposed : ∀ a, k'.openfiles a = true ↔ k.openfiles a = true ∧
    ∀ z ∈ k.zombies.v, some a ∉ k.filetables (k.threads z).tFiletable
  entry : ∀ t, k.curthread = some t ∨ k.Live t →
    k'.pids.toMap (k.threads t).tPid = k.pids.toMap (k.threads t).tPid
  filetable : ∀ t, k.curthread = some t ∨ k.Live t →
    k'.filetables (k.threads t).tFiletable = k.filetables (k.threads t).tFiletable
  openfiles : ∀ t, k.curthread = some t ∨ k.Live t →
    ∀ a, some a ∈ k.filetables (k.threads t).tFiletable → k'.openfiles a = k.openfiles a

/-- `exorcise` comes to its end, and has done that. -/
def Kernel.Reaps (k : Kernel) : Prop :=
  ∀ script, ∃ s, exorcise.run (k.machine script) = (.done (), s) ∧ ReapsOnly k s.mem

section
variable {k : Kernel}

/-- Nobody to dispose of. -/
theorem Kernel.Reaps.of_nil (hspl : 0 < k.curspl) (hz : k.zombies.v = []) : k.Reaps := by
  intro script
  have hawp : awp ⟨fun _ => False, False, True⟩ exorcise (fun _ k' => ReapsOnly k k') k := by
    refine awp_bind.2 (awp_bind.2 (awp_assert.2 ⟨fun _ => awp_bind.2 ?_, fun hn => hn hspl⟩))
    rw [hz]
    have hr : ∀ z : KArray Addr, z.v = [] → ReapsOnly k { k with zombies := z } := fun z hv =>
      ⟨hv, by simp [hz], fun a => by simp [hz], fun _ _ => rfl, fun _ _ => rfl, fun _ _ _ _ => rfl⟩
    refine awp_bind.2 ?_
    rw [awp_run_iff, arraySetsize, if_neg (by omega)]
    split
    · exact hr _ rfl
    · exact hr _ rfl
  obtain ⟨_, s, hrun, hr⟩ := awp_run_done (fun _ => id) (s := k.machine script)
    (fun _ => trivial) hawp
  exact ⟨s, hrun, hr⟩

/-- `thread_destroy` costs the thread that calls it its entry. -/
theorem awp_threadDestroy_entry {z cur : Addr} (hcur : k.curthread = some cur) (hok : k.pids.Ok)
    (hs : k.pids.Sees) :
    awp anyTerms (threadDestroy z) (fun _ k' => k'.curthread = some cur ∧
      k'.threads = k.threads ∧ k.pids.toMap (k.threads cur).tPid ≠ none ∧
      k'.pids.toMap (k.threads cur).tPid = none ∧ k'.pids.Ok ∧ k'.pids.Sees) k := by
  refine awp_bind.2 (awp_self trivial fun cur' hcur' => ?_)
  obtain rfl : cur = cur' := Option.some.inj (hcur.symm.trans hcur')
  refine awp_bind.2 (awp_bind.2 (awp_assert_of trivial fun _ => ?_))
  refine awp_bind.2 (awp_assert_of trivial fun _ => ?_)
  refine awp_bind.2 (awp_assert_of trivial fun _ => ?_)
  refine awp_bind.2 (awpE_call_bind.2 (awpE_bind.2 ?_))
  refine awpE_bind.2 ?_
  rw [findpid]
  cases hf : k.pids.findpidindex (k.threads cur).tPid with
  | none => trivial
  | some i =>
    refine awpE_call_bind.2 (awp_assert_of trivial fun _ => ?_)
    obtain ⟨hi, hguy, -, hpid⟩ := PidTable.findpidindex_some hok hs hf
    refine ⟨hcur, rfl, fun hn => ?_, ?_, hok.remove i,
      fun a ha => hs a (List.mem_of_mem_eraseIdx ha)⟩
    · exact Option.some_ne_none i (hf.symm.trans ((PidTable.findpidindex_none hs).2 hn))
    · show PidTable.toMap { k.pids with infos := k.pids.infos.remove i } _ = none
      rw [PidTable.toMap_remove hok hi, ← hguy, hpid, update_self]

/-- Somebody to dispose of: the entry of the thread that runs is gone, or there
is a panic. -/
theorem awp_exorcise_entry {cur : Addr} (hcur : k.curthread = some cur) (hok : k.pids.Ok)
    (hs : k.pids.Sees) (hz : k.zombies.v ≠ []) :
    awp anyTerms exorcise (fun _ k' => k.pids.toMap (k.threads cur).tPid ≠ none ∧
      k'.pids.toMap (k.threads cur).tPid = none) k := by
  obtain ⟨z, zs, hv⟩ := List.exists_cons_of_ne_nil hz
  refine awp_bind.2 (awp_bind.2 (awp_assert_of trivial fun _ => awp_bind.2 ?_))
  rw [hv]
  refine awp_bind.2 (awp_bind.2 (awp_assert_of trivial fun _ => ?_))
  refine awp_bind_of (awp_threadDestroy_entry hcur hok hs) ?_
  rintro _ k₁ ⟨hcur1, hthr, hsome, hnone, hok1, hs1⟩
  cases zs with
  | nil =>
    refine awp_bind.2 ?_
    rw [awp_run_iff, arraySetsize, if_neg (by omega)]
    split <;> exact ⟨hsome, hnone⟩
  | cons z' zs =>
    -- the pid is not found a second time
    refine awp_bind.2 (awp_bind.2 (awp_assert_of trivial fun _ => awp_bind.2 ?_))
    refine awp_mono (awp_threadDestroy_entry hcur1 hok1 hs1) fun _ _ h => ?_
    rw [hthr] at h
    exact absurd hnone h.2.2.1

/-- With a table in which the search finds what it should, `exorcise` does what
it is for exactly if there is nobody to dispose of. -/
theorem Kernel.reaps_iff {cur : Addr} (hspl : 0 < k.curspl) (hcur : k.curthread = some cur)
    (hok : k.pids.Ok) (hf : k.pids.FindsPids) : k.Reaps ↔ k.zombies.v = [] := by
  refine ⟨fun h => ?_, .of_nil hspl⟩
  by_contra hz
  obtain ⟨s, hrun, hr⟩ := h {}
  have hends := awp_run (s := k.machine {}) (fun _ => trivial)
    (awp_exorcise_entry hcur hok ((PidTable.sees_iff hok).1 hf) hz)
  rw [hrun] at hends
  obtain ⟨⟨hsome, hnone⟩, -⟩ := hends
  exact hsome ((hr.entry cur (.inl hcur)).symm.trans hnone)

end

/-! ## Runs -/

/-- Nobody waits to be disposed of, and whoever lives has an entry. -/
structure Enrolled (k : Kernel) : Prop where
  census : Census k
  zombies : k.zombies.v = []
  entry : ∀ t, k.Live t → ∃ b ∈ k.pids.infos.v, k.pids.load b .pid = (k.threads t).tPid

namespace Enrolled

variable {k k' : Kernel}

theorem congr (h : Enrolled k) (hc : Census k') (hz : k'.zombies.v = []) (hp : SameProcs k k')
    (hl : ∀ t, k'.Live t → k.Live t) : Enrolled k' := by
  refine ⟨hc, hz, fun t ht => ?_⟩
  obtain ⟨b, hb, hpid⟩ := h.entry t (hl t ht)
  refine ⟨b, hp.infos ▸ hb, ?_⟩
  rw [hp.load b hb, hpid, hp.tPid t]

/-- The new thread has the new entry, and the others are where they were. -/
theorem forked (h : Enrolled k) {newguy info : Addr} {r : Except PidErr Unit}
    (hf : k.allocated newguy = false) (hi : ∀ b ∈ k.pids.infos.v, Apart info b)
    (hk : Forked k newguy info r k') : Enrolled k' := by
  refine ⟨h.census.forked hf hk, hk.frame.zombies.trans h.zombies, fun t ht => ?_⟩
  rcases hk.live hf ht with ⟨hlive, hthr⟩ | ⟨-, -, -, hin, hpid⟩
  · obtain ⟨b, hb, hpid⟩ := h.entry t hlive
    obtain ⟨ppid, -, hg⟩ := hk.grown
    obtain ⟨hb', hload⟩ := hg.keeps hi hb
    exact ⟨b, hb', by rw [hload, hpid, hthr]⟩
  · exact ⟨info, hin, hpid⟩

/-- A step in which nobody exits. -/
theorem step {a : Scope} {e : List Event} (hp : Prim a k e k') (hm : ¬ a.marks)
    (h : Enrolled k) : Enrolled k' := by
  have hc := h.census.step hp
  cases hp.procStep h.census with
  | same hs _ hl hz => exact h.congr hc (hz.trans h.zombies) hs hl
  | fork _ hf hi hk => exact h.forked hf hi hk
  | mark ha => exact absurd ha hm
  | switch hp ht hlock hl hz hsw =>
    obtain ⟨hz', hpids⟩ := hsw.nobody ((hz.resolve_right hm).trans h.zombies)
    exact h.congr hc hz' (.of_eq (hpids.trans hp) (fun t => (hsw.tPid t).trans (ht t))
      (hsw.pidlock.trans hlock)) fun t ht => hl t (hsw.live t ht)

end Enrolled

/-- A missing pid is the only thing that is not tolerated. -/
def pidTerms : Terms Panic := ⟨fun f => f ≠ .pidNotFound, True, True⟩

/-- Nobody to dispose of, nobody to become a zombie: the pid is not looked up. -/
theorem Op.run_ne_pidNotFound {op : Op} (hz : k.zombies.v = []) (ho : ¬ op.Marks)
    (he : op.Enabled k) (script : Script Empty) :
    ((op.code k).run (k.machine script)).1 ≠ .crash .pidNotFound := by
  have hc : Lenient pidTerms := fun f hf hx => by
    subst hx
    exact absurd hf nofun
  have hawp := Op.awp_code (c := pidTerms) hc (.inl ⟨trivial, fun _ => nofun, fun _ => nofun⟩)
    (.inr ⟨hz, ho⟩) (fun _ => trivial) (op.within_any k) (fun _ => .inr nofun) he
  exact (awp_run (s := k.machine script) (fun _ => trivial) hawp).ne_crash fun hn => hn rfl

/-- One call of `exorcise`, and the runs in which it has nobody to dispose of. -/
theorem reaping_takes_from_runner (k : Kernel) :
    (0 < k.curspl → k.zombies.v = [] → k.Reaps) ∧
    (∀ cur, 0 < k.curspl → k.curthread = some cur → k.pids.Ok → k.pids.FindsPids →
      (k.Reaps ↔ k.zombies.v = [])) ∧
    ∀ k₀ me tr, Booted k₀ me →
      (∃ b ∈ k₀.pids.infos.v, k₀.pids.load b .pid = (k₀.threads me).tPid) →
      Run (fun _ op _ => ¬ op.Marks) k₀ tr k →
      (∀ t, k.Live t → ∃ b ∈ k.pids.infos.v, k.pids.load b .pid = (k.threads t).tPid) ∧
      ∀ (op : Op) (script : Script Empty), op.Enabled k → ¬ op.Marks →
        ((op.code k).run (k.machine script)).1 ≠ .crash .pidNotFound := by
  refine ⟨.of_nil, fun cur hspl hcur hok hf => k.reaps_iff hspl hcur hok hf, ?_⟩
  intro k₀ me tr h0 hentry hr
  have hinv : Enrolled k := by
    refine hr.invariant (a := { Scope.any with marks := False }) (I := fun k _ => Enrolled k)
      (fun k op _ ho => { op.within_any k with marks := ho }) trivial
      (fun hp hk => hk.step hp id) ⟨h0.census, by rw [h0.zombies]; rfl, fun t ht => ?_⟩
    rw [(h0.allocated t).1 ht.1]
    exact hentry
  exact ⟨hinv.entry, fun op script he ho => Op.run_ne_pidNotFound hinv.zombies ho he script⟩

/-- The table after the boot thread has got its pid, over memory in which the
search sees the pids of entries at 100, 200 and 400. -/
def bootPids : PidTable :=
  { (PidTable.pidInitialize fun a => if a = 180 then 1 else if a = 280 then 2 else
      if a = 480 then 3 else 0).fill 100 0 0 50 with
    infos := KArray.empty.push 100
    nextpid := 2 }

/-- The boot thread forks. Both threads have an entry, and in a state with a
zombie `exorcise` would do the wrong thing. -/
theorem reaping_takes_from_runner_fork :
    ∃ k : Kernel, k.Live 9 ∧ (∃ b ∈ k.pids.infos.v, k.pids.load b .pid = 2) ∧
      { Kernel.boot 7 bootPids with curspl := 15 }.Reaps ∧
      ¬ { Kernel.boot 7 bootPids with curspl := 15, zombies := KArray.empty.push 9 }.Reaps := by
  have hentry : ∃ b ∈ (Kernel.boot 7 bootPids).pids.infos.v,
      (Kernel.boot 7 bootPids).pids.load b .pid = ((Kernel.boot 7 bootPids).threads 7).tPid :=
    ⟨100, List.mem_cons_self, rfl⟩
  have hok : bootPids.Ok := ⟨List.pairwise_singleton _ _, List.nodup_singleton _⟩
  have hfinds : bootPids.FindsPids := (PidTable.sees_iff hok).2 fun a ha => by
    rw [List.mem_singleton.1 ha]
    rfl
  obtain ⟨tr, k, hr, hlive, hpid⟩ : ∃ tr k, Run (fun _ op _ => ¬ op.Marks)
      (Kernel.boot 7 bootPids) tr k ∧ k.Live 9 ∧ (k.threads 9).tPid = 2 := by
    refine ⟨_, _, .step (.fork 9 200 300 ⟨0, 0⟩) {} .start
      (And.intro nofun (And.intro rfl fun b hb => ?_)) nofun ⟨_, rfl, rfl⟩, ⟨rfl, nofun⟩, rfl⟩
    rw [List.mem_singleton.1 hb]
    decide
  refine ⟨k, hlive, ?_, (reaping_takes_from_runner _).1 (by decide) rfl, fun h => ?_⟩
  · rw [← hpid]
    exact ((reaping_takes_from_runner k).2.2 _ 7 tr (Kernel.booted_boot 7 bootPids) hentry
      hr).1 9 hlive
  · exact absurd (((reaping_takes_from_runner _).2.1 7 (by decide) rfl hok hfinds).1 h) nofun

/-- The boot thread forks and yields, the new thread exits, the boot thread
disposes of it: the entry that is gone is the boot thread's. -/
theorem reaper_loses_entry :
    ∃ tr k, Run (fun _ _ _ => True) (Kernel.boot 7 bootPids) tr k ∧ k.curthread = some 7 ∧
      (k.threads 7).tPid = 1 ∧ k.zombies.v = [] ∧ k.allocated 9 = false ∧
      k.pids.toMap 1 = none ∧ k.pids.toMap 2 = some ⟨1, 0, 1⟩ := by
  refine ⟨_, _, .step .exit {} (.step .yield {} (.step (.fork 9 200 300 ⟨0, 0⟩) {} .start
    (And.intro nofun (And.intro rfl fun b hb => ?_)) trivial ⟨_, rfl, rfl⟩)
    (And.intro nofun trivial) trivial ⟨_, rfl, rfl⟩) (And.intro nofun trivial) trivial
    ⟨_, rfl, rfl⟩, rfl, rfl, rfl, rfl, rfl, rfl⟩
  rw [List.mem_singleton.1 hb]
  decide

end Os161.Thread
