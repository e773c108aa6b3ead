import Os161.Proofs.Census

/-!
# Room for the threads

`thread_fork` makes the two arrays and the run queue large enough for one thread
more, so that a context switch or a wakeup need not ask for memory. That works
under three conditions, and no longer without them.

* Nobody forks with more than thirteen threads around. The capacity that comes
  after 14 is 30, and an array for more than sixteen entries gives its storage
  back when `exorcise` empties it.
* When a thread forks, the zombies that wait to be disposed of leave room for
  all threads. `mi_threadstart` does not call `exorcise`, so zombies pile up as
  long as only new threads are switched in.
* Nobody goes to sleep or exits before the first fork: the arrays of the boot
  thread have no storage.

Then the run queue, which holds one entry less than it has cells, has room as
well (`Stocked`).
-/

namespace Os161.Thread

open Os161.Kern Os161.Lib

/-- The arrays have storage. -/
def Kernel.Prepared (k : Kernel) : Prop := k.sleepers.max ≠ 0 ∧ k.zombies.max ≠ 0

/-- What is asked of a section. -/
def Op.Foresees (k : Kernel) (op : Op) : Prop :=
  (op.Forks → k.numthreads ≤ 13 ∧
    k.zombies.v.length + k.numthreads + 1 ≤ (k.zombies.reserve (k.numthreads + 1)).max) ∧
  (op.Leaves → k.Prepared)

/-- The capacities that the zombies go through with at most fourteen threads. -/
def capacities : List Nat := [0, 2, 6, 14]

structure Stocked (k : Kernel) : Prop where
  census : Census k
  few : k.numthreads ≤ 14
  size : 32 ≤ k.runqueue.size
  sleepers : k.numthreads ≤ 1 ∨ k.numthreads ≤ k.sleepers.max
  zombies : k.zombies.v.length + k.numthreads ≤ 1 ∨
    k.zombies.v.length + k.numthreads ≤ k.zombies.max
  capacity : k.zombies.max ∈ capacities

theorem mem_capacities_newmax {n m : Nat} (hn : n ≤ 14) (hm : m ∈ capacities) :
    KArray.newmax n n m ∈ capacities := by
  have : ∀ n < 15, ∀ m ∈ capacities, KArray.newmax n n m ∈ capacities := by decide
  exact this n (by omega) m hm

theorem le_of_mem_capacities {m : Nat} (hm : m ∈ capacities) : m ≤ 14 := by
  have : ∀ m ∈ capacities, m ≤ 14 := by decide
  exact this m hm

namespace Stocked

variable {k k' : Kernel}

/-- A step that keeps the numbers, and does not make anything smaller. -/
theorem congr (h : Stocked k) (hc : Census k') (hn : k'.numthreads = k.numthreads)
    (hsize : k.runqueue.size ≤ k'.runqueue.size) (hs : k.sleepers.max ≤ k'.sleepers.max)
    (hz : k'.zombies.v.length ≤ k.zombies.v.length) (hzm : k'.zombies.max = k.zombies.max) :
    Stocked k' := by
  obtain ⟨-, hfew, hsz, hsl, hzo, hcap⟩ := h
  refine ⟨hc, by omega, by omega, by omega, by omega, hzm ▸ hcap⟩

theorem dispatched (h : Stocked k) (hcur : k.curthread = none) (hd : Dispatched k k') :
    Stocked k' ∧ k'.sleepers.max = k.sleepers.max ∧ k'.zombies.max = k.zombies.max := by
  have hc := h.census.dispatched hcur hd
  have hcap := le_of_mem_capacities h.capacity
  have hreap : ∀ {k1 k2 : Kernel}, Reaped k1 k2 → k1.zombies = k.zombies →
      k2.zombies.v.length ≤ k.zombies.v.length ∧ k2.zombies.max = k.zombies.max := by
    intro k1 k2 hr hk
    have hm := hr.max
    rw [hk] at hm
    exact ⟨by simp [hr.zombies], hm.resolve_right (by omega)⟩
  cases hd with
  | idle _ => exact ⟨h, rfl, rfl⟩
  | start _ hs _ =>
    exact ⟨h.congr hc rfl (Nat.le_of_eq hs.symm) le_rfl le_rfl rfl, rfl, rfl⟩
  | yield _ hs _ hr =>
    obtain ⟨hz, hm⟩ := hreap hr rfl
    obtain ⟨z, a, p, o, rfl⟩ := hr.frame
    exact ⟨h.congr hc rfl (Nat.le_of_eq hs.symm) le_rfl hz hm, rfl, hm⟩
  | sleep _ hs _ hr =>
    obtain ⟨hz, hm⟩ := hreap hr rfl
    obtain ⟨z, a, p, o, rfl⟩ := hr.frame
    exact ⟨h.congr hc rfl (Nat.le_of_eq hs.symm) le_rfl hz hm, rfl, hm⟩

/-- With storage there is room for the running thread among the zombies. -/
theorem zombies_lt (h : Stocked k) (hp : k.Prepared) {cur : Addr}
    (hcur : k.curthread = some cur) : k.zombies.v.length < k.zombies.max := by
  have hn : 0 < k.numthreads := by
    rw [h.census.count, Kernel.places, hcur]
    simp
  have hz := h.zombies
  have := hp.2
  omega

theorem sleepers_lt (h : Stocked k) (hp : k.Prepared) {cur : Addr}
    (hcur : k.curthread = some cur) : k.sleepers.v.length < k.sleepers.max := by
  have hn : k.sleepers.v.length < k.numthreads := by
    rw [h.census.count, Kernel.places, hcur]
    simp only [Option.toList_some, List.length_append, List.length_singleton]
    omega
  have hs := h.sleepers
  have := hp.1
  omega

theorem roomy (h : Stocked k) : k.Roomy := by
  have hn : k.runqueue.len + k.sleepers.v.length ≤ k.numthreads := by
    rw [h.census.count, Kernel.places, List.length_append, List.length_append, Queue.length_toList]
    omega
  have := h.few
  have := h.size
  rw [Kernel.Roomy]
  omega

/-- A step without a fork. -/
theorem step {a : Scope} {e : List Event} (hp : Prim a k e k') (hf : ¬ a.forks)
    (hl : a.leaves → k.Prepared) (h : Stocked k) : Stocked k' ∧ (k.Prepared → k'.Prepared) := by
  have hc := h.census.step hp
  have hwoke : ∀ {k1 k2 : Kernel} {addr : Option Chan}, WokeAll k1 addr k2 → Census k2 →
      k1.numthreads = k.numthreads → k1.runqueue = k.runqueue → k1.sleepers = k.sleepers →
      k1.zombies = k.zombies → Stocked k2 ∧ (k.Prepared → k2.Prepared) := by
    rintro k1 k2 addr ⟨s, q, -, hsm, -, hsz, rfl⟩ hc hn hq hs hz
    rw [hq] at hsz
    rw [hs] at hsm
    refine ⟨h.congr hc hn hsz (Nat.le_of_eq hsm.symm) ?_ ?_, fun hp => ⟨?_, ?_⟩⟩
    · exact Nat.le_of_eq (by rw [← hz])
    · exact congrArg KArray.max hz
    · exact hsm ▸ hp.1
    · exact (congrArg KArray.max hz) ▸ hp.2
  cases hp with
  | quiet hq =>
    refine ⟨h.congr hc hq.numthreads (by rw [hq.runqueue]) (by rw [hq.sleepers])
      (by rw [hq.zombies]) (by rw [hq.zombies]), fun hp => ?_⟩
    rwa [Kernel.Prepared, hq.sleepers, hq.zombies]
  | wakeAll _ hw => exact hwoke hw hc rfl rfl rfl rfl
  | wakeOne _ hw =>
    obtain ⟨-, rfl⟩ | ⟨pre, post, u, s, q, -, -, -, -, hsm, -, hsz, rfl⟩ := hw
    · exact ⟨h, id⟩
    · exact ⟨h.congr hc rfl hsz (Nat.le_of_eq hsm.symm) le_rfl rfl, fun hp => ⟨hsm ▸ hp.1, hp.2⟩⟩
  | take _ => exact ⟨h.congr hc rfl le_rfl le_rfl le_rfl rfl, id⟩
  | give _ _ _ hw => exact hwoke hw hc rfl rfl rfl rfl
  | acquire _ _ _ =>
    exact ⟨h.congr hc rfl le_rfl le_rfl le_rfl rfl, id⟩
  | release _ _ _ hw => exact hwoke hw hc rfl rfl rfl rfl
  | waited _ _ => exact ⟨h, id⟩
  | fork ha _ _ _ => exact absurd ha hf
  | mark _ _ _ _ =>
    exact ⟨h.congr hc rfl le_rfl le_rfl le_rfl rfl, id⟩
  | dispatch hcur hd =>
    obtain ⟨h1, hs, hz⟩ := h.dispatched hcur hd
    exact ⟨h1, fun hp => ⟨hs ▸ hp.1, hz ▸ hp.2⟩⟩
  | yield hcur hst hd =>
    have h1 := h.census.stashed hcur hst nofun nofun
    cases hst with
    | ready _ hsz =>
      obtain ⟨h2, hs, hz⟩ := (h.congr h1.1 rfl hsz le_rfl le_rfl rfl).dispatched rfl hd
      exact ⟨h2, fun hp => ⟨hs ▸ hp.1, hz ▸ hp.2⟩⟩
  | sleep _ _ hcur _ hst hd =>
    have h1 := h.census.slept hcur hst
    cases hst with
    | @sleep s _ hm =>
      obtain ⟨h2, hs, hz⟩ := (h.congr h1.1 rfl le_rfl hm le_rfl rfl).dispatched rfl hd
      have hm : k.sleepers.max ≤ s.max := hm
      refine ⟨h2, fun hp => ⟨fun hx => ?_, hz ▸ hp.2⟩⟩
      have hx : s.max = 0 := hs.symm.trans hx
      have := hp.1
      omega
  | @exit _ _ cur ha _ hcur hn hst hd =>
    have h1 := h.census.exited hcur hst
    have hroom := h.zombies_lt (hl ha) hcur
    cases hst with
    | @zomb z hv _ hkeep =>
      have hv : z.v = k.zombies.v ++ [cur] := hv
      have hm : z.max = k.zombies.max := hkeep hroom
      have hlen : z.v.length = k.zombies.v.length + 1 := by rw [hv]; simp
      obtain ⟨-, hfew, hsz, hsl, hzo, hcap⟩ := h
      have hstocked : Stocked { { k with numthreads := k.numthreads - 1 }.leave cur .dead with
          zombies := z } := by
        refine ⟨h1.1, ?_, hsz, ?_, ?_, hm ▸ hcap⟩
        · show k.numthreads - 1 ≤ 14
          omega
        · show k.numthreads - 1 ≤ 1 ∨ k.numthreads - 1 ≤ k.sleepers.max
          omega
        · show z.v.length + (k.numthreads - 1) ≤ 1 ∨ z.v.length + (k.numthreads - 1) ≤ z.max
          omega
      obtain ⟨h2, hs, hz⟩ := hstocked.dispatched rfl hd
      exact ⟨h2, fun hp => ⟨hs ▸ hp.1, hz ▸ hm ▸ hp.2⟩⟩

/-- A fork that is foreseen. -/
theorem forked (h : Stocked k) {newguy info : Addr} {r : Except PidErr Unit}
    (hfresh : k.allocated newguy = false) (hn : k.numthreads ≤ 13)
    (hroom : k.zombies.v.length + k.numthreads + 1 ≤ (k.zombies.reserve (k.numthreads + 1)).max)
    (hk : Forked k newguy info r k') : Stocked k' := by
  have hc := h.census.forked hfresh hk
  obtain ⟨-, hfew, hsz, hsl, hzo, hcap⟩ := h
  have hres : (k.zombies.reserve (k.numthreads + 1)).max ∈ capacities :=
    mem_capacities_newmax (by omega) hcap
  have hle := k.zombies.max_le_reserve_max (k.numthreads + 1)
  cases hk with
  | failed hfr _ _ _ hn' =>
    have h1 := hfr.sleepersMax
    have h2 := hfr.size
    have h3 : k'.zombies.v.length = k.zombies.v.length := by rw [hfr.zombies]
    rcases hfr.zombiesMax with hz | hz
    · exact ⟨hc, by omega, by omega, by omega, by omega, hz ▸ hcap⟩
    · exact ⟨hc, by omega, by omega, by omega, by omega, hz ▸ hres⟩
  | made hfr _ _ _ hn' hs hz' _ _ _ _ =>
    have h2 := hfr.size
    have h3 : k'.zombies.v.length = k.zombies.v.length := by rw [hfr.zombies]
    have hz : k'.zombies.max = (k.zombies.reserve (k.numthreads + 1)).max := by
      rcases hfr.zombiesMax with hz | hz
      · exact hz.trans (KArray.newmax_of_le (hz ▸ hz')).symm
      · exact hz
    exact ⟨hc, by omega, by omega, by omega, by omega, hz ▸ hres⟩

theorem hasRoom {op : Op} (h : Stocked k) (ho : op.Foresees k) : op.HasRoom k := by
  refine ⟨h.roomy, fun hl => ⟨h.roomy, fun hc => ?_, fun hc => ?_⟩⟩ <;>
    obtain ⟨cur, hcur⟩ := Option.ne_none_iff_exists'.1 hc
  · exact h.sleepers_lt (ho.2 hl) hcur
  · exact h.zombies_lt (ho.2 hl) hcur

end Stocked

theorem Booted.stocked {k : Kernel} {me : Addr} (h : Booted k me) : Stocked k where
  census := h.census
  few := by rw [h.numthreads]; decide
  size := Nat.le_of_eq h.size.symm
  sleepers := .inl (Nat.le_of_eq h.numthreads)
  zombies := .inl (by rw [h.zombies, h.numthreads]; exact le_rfl)
  capacity := by rw [h.zombies]; decide

/-- One section that is foreseen. -/
theorem Stocked.leads {k k' : Kernel} {op : Op} {script : Script Empty} {d : Done} (h : Stocked k)
    (he : op.Enabled k) (ho : op.Foresees k) (hl : Leads k op script d k') : Stocked k' := by
  by_cases hf : op.Forks
  · cases op with
    | fork newguy info cv g =>
      obtain ⟨t, hcur⟩ := he.curthread id
      have hfresh := he.running hcur
      refine hl.of_awp (Q := fun _ k' => Stocked k') ?_
      rw [Op.code, hcur]
      exact awp_bind.2 (awp_threadFork lenient_any trivial hfresh.1 fun r k' hk =>
        h.forked hfresh.1 (ho.1 trivial).1 (ho.1 trivial).2 hk)
    | _ => exact hf.elim
  · have hpath := hl.path (a := { Scope.any with forks := False, leaves := op.Leaves })
      { op.within_any k with forks := hf, leaves := id } he
    exact (hpath.invariant (I := fun k _ => Stocked k ∧ (op.Leaves → k.Prepared)) (fun hp hk => by
        obtain ⟨h1, hprep⟩ := hk.1.step hp id hk.2
        exact ⟨h1, fun hl => hprep (hk.2 hl)⟩) [] ⟨h, ho.2⟩).1

theorem Run.stocked {k₀ k : Kernel} {me : Addr} {tr : List Event} (h₀ : Booted k₀ me)
    (h : Run (fun k op _ => op.Foresees k) k₀ tr k) : Stocked k := by
  induction h with
  | start => exact h₀.stocked
  | step _ _ _ he ho hl ih => exact ih.leads he ho hl
  | elsewhere _ he ih =>
    exact (ih.step (a := { Scope.any with forks := False, leaves := False })
      (.quiet (he.quiet trivial)) id
      False.elim).1

/-- Asking the allocator is not tolerated, and neither are the two panics that
follow a failed addition. -/
def frugalTerms : Terms Panic :=
  ⟨fun f => f ≠ .switchResult ∧ f ≠ .wakeupResult, False, True⟩

/-- In a run in which everything is foreseen, no section other than a fork asks
the allocator, and none fails for want of memory, whatever the allocator would
answer. -/
theorem switch_needs_no_memory {k₀ k : Kernel} {me : Addr} {tr : List Event} {op : Op}
    (h₀ : Booted k₀ me) (h : Run (fun k op _ => op.Foresees k) k₀ tr k) (he : op.Enabled k)
    (ho : op.Foresees k) (hf : ¬ op.Forks) (script : Script Empty) :
    ((op.code k).run (k.machine script)).2.script = script ∧
      ((op.code k).run (k.machine script)).1 ≠ .crash .switchResult ∧
      ((op.code k).run (k.machine script)).1 ≠ .crash .wakeupResult := by
  have hawp := Op.awp_code (c := frugalTerms) (fun f hm => ?_)
    (.inr ((h.stocked h₀).hasRoom ho)) (.inl ⟨nofun, nofun⟩) (fun hx => absurd hx hf)
    (op.within_any k)
    (fun _ => .inr ⟨nofun, nofun⟩) he
  · have hends := awp_run (s := k.machine script) (fun _ => trivial) hawp
    refine ⟨awp_run_script id hawp, ?_⟩
    cases hrun : (op.code k).run (k.machine script) with
    | mk o m =>
      rw [hrun] at hends
      cases o with
      | done d => exact ⟨nofun, nofun⟩
      | crash f =>
        exact ⟨fun hx => hends.1 (Outcome.crash.inj hx),
          fun hx => hends.2 (Outcome.crash.inj hx)⟩
  · exact ⟨fun hx => absurd (hx ▸ hm) nofun, fun hx => absurd (hx ▸ hm) nofun⟩

/-- After a fork the boot thread can go to sleep, with an allocator that has
nothing left. -/
theorem switch_needs_no_memory_sleep :
    ∃ tr k, Run (fun k op _ => op.Foresees k)
        (Kernel.boot 7 (PidTable.pidInitialize fun _ => 0)) tr k ∧
      (((Op.sleep (some (.other 5))).code k).run (k.machine { mem := [false, false] })).2.script =
        { mem := [false, false] } ∧
      (((Op.sleep (some (.other 5))).code k).run (k.machine { mem := [false, false] })).1 ≠
        .crash .switchResult := by
  obtain ⟨tr, k, hrun, he, ho⟩ : ∃ tr k, Run (fun k op _ => op.Foresees k)
      (Kernel.boot 7 (PidTable.pidInitialize fun _ => 0)) tr k ∧
        (Op.sleep (some (.other 5))).Enabled k ∧ (Op.sleep (some (.other 5))).Foresees k := by
    refine ⟨_, _, .step (.fork 9 100 200 ⟨0, 0⟩) {} .start
      (And.intro nofun (And.intro rfl fun b hb => ?_))
      ⟨fun _ => ⟨by decide, by decide⟩, False.elim⟩ ⟨_, rfl, rfl⟩,
      And.intro nofun trivial, False.elim, fun _ => ⟨nofun, nofun⟩⟩
    cases hb
  have h := switch_needs_no_memory (Kernel.booted_boot 7 _) hrun he ho id
    { mem := [false, false] }
  exact ⟨tr, k, hrun, h.1, h.2.1⟩

/-- The boot thread goes to sleep before it has forked: `array_add` asks for
memory, does not get it, and the assertion in `mi_switch` fails. -/
theorem first_sleep_needs_memory :
    ∃ s, ((Op.sleep (some (.other 5))).code
        (Kernel.boot 7 (PidTable.pidInitialize fun _ => 0))).run
      ((Kernel.boot 7 (PidTable.pidInitialize fun _ => 0)).machine { mem := [false] }) =
        (.crash .switchResult, s) :=
  ⟨_, rfl⟩

end Os161.Thread
