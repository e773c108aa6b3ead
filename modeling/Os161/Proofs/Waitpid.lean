import Os161.Proofs.Reap
import Os161.Proofs.Synch

/-!
# Waiting for a process

`sys_waitpid` returns zero whatever `pid_wait` has returned, and it puts that
return value where the status ought to be. `pid_wait` turns away the parent
instead of everybody else, and it releases `pidlock`, or waits with it, though
all the calls that would have acquired it are commented out. So the call comes
to an end only for somebody who is not the parent of a process that has exited,
or because the arguments are bad, and what is delivered is an error code or
zero. The parent of the process runs into the panic of `lock_release`.

Two invariants carry this. Nobody ever holds `pidlock`, waits for it, or sleeps
in `pid_wait` (`Unlocked`). And what a process has told `sys__exit` stays in
its entry, since reaping takes away the entries of threads that live
(`Records`). The second one has to know that a pid is given to one thread only,
that the search sees the pids, and that the process still had its entry when it
exited.
-/

namespace Os161.Thread

open Os161.Kern Os161.Lib Function

/-! ## The lock that nobody takes -/

/-- `lock_acquire` was not called for `pid_wait`. -/
def AcquireRet.Plain : AcquireRet → Prop
  | user => True
  | cvWait _ _ ret => ret = .user

/-- A caller of `thread_sleep` that has nothing to do with the lock `l` and is not
`pid_wait`. -/
def Caller.Avoids (l : Addr) : Caller → Prop
  | plain _ => True
  | semP _ _ => True
  | lockAcquire lock _ ret => lock ≠ l ∧ ret.Plain
  | cvWait _ lock _ ret => lock ≠ l ∧ ret = .user

def Pc.Avoids (l : Addr) : Pc → Prop
  | sleep c | awake c => c.Avoids l
  | _ => True

variable {l : Addr}

theorem Caller.Avoids.again {c c' : Caller} (h : c.Avoids l) (ha : c.Again c') : c'.Avoids l := by
  cases c with
  | cvWait cv lock spl ret =>
    obtain ⟨s, rfl⟩ := ha
    exact h
  | plain | semP | lockAcquire =>
    obtain rfl : c' = _ := ha
    exact h

theorem Caller.Avoids.lock_ne {l x : Addr} {c : Caller} (h : c.Avoids l) (hx : c.lock = some x) :
    x ≠ l := by
  cases c with
  | plain | semP => cases hx
  | lockAcquire | cvWait =>
    cases hx
    exact h.1

/-- Nobody holds `l`, which is the lock of the table of processes, or waits for
it. -/
structure Unlocked (l : Addr) (k : Kernel) : Prop where
  census : Census k
  pidlock : k.pidlock = l
  free : k.locks l = none
  avoids : ∀ t, k.Live t → (k.threads t).pc.Avoids l

section
variable {l : Addr} {a : Scope} {e : List Event} {k k' : Kernel} {op : Op}

theorem Dispatched.avoids {t : Addr} (hd : Dispatched k k') (h : (k.threads t).pc.Avoids l) :
    (k'.threads t).pc.Avoids l := by
  have hupd : ∀ {threads : Addr → Thread} {u : Addr} {x : Thread},
      (threads t).pc.Avoids l → (t = u → x.pc.Avoids l) →
      (update threads u x t).pc.Avoids l := fun {threads u x} h hx => by
    by_cases ht : t = u
    · rw [ht, update_self]
      exact hx ht
    · rwa [update_of_ne ht]
  cases hd with
  | idle => exact h
  | start => exact hupd h fun _ => trivial
  | yield _ _ _ hr =>
    obtain ⟨z, a, p, o, rfl⟩ := hr.frame
    exact hupd h fun _ => trivial
  | sleep _ _ hpc hr =>
    obtain ⟨z, a, p, o, rfl⟩ := hr.frame
    refine hupd h fun ht => ?_
    rw [ht, hpc] at h
    exact h

theorem Stashed.pc {cur : Addr} {pc : Pc} {st : NextState} (hs : Stashed k cur pc st k') :
    (k'.threads cur).pc = pc := by
  cases hs <;> simp [Kernel.leave]

theorem Stashed.avoids {cur t : Addr} {pc : Pc} {st : NextState} (hs : Stashed k cur pc st k')
    (hpc : pc.Avoids l) (h : (k.threads t).pc.Avoids l) : (k'.threads t).pc.Avoids l := by
  by_cases ht : t = cur
  · rwa [ht, hs.pc]
  · rwa [hs.threads_ne ht]

/-- A switch moves threads about, and nothing else. -/
theorem Unlocked.switched {k1 : Kernel} (h : Unlocked l k) (hc : Census k')
    (ha : ∀ t, (k.threads t).pc.Avoids l → (k1.threads t).pc.Avoids l)
    (hlive : ∀ t, k1.Live t → k.Live t) (hlocks : k1.locks = k.locks) (hp : k1.pidlock = k.pidlock)
    (hd : Dispatched k1 k') (hsw : Switched k1 k') : Unlocked l k' := by
  refine ⟨hc, hsw.pidlock.trans (hp.trans h.pidlock), ?_, fun t ht => ?_⟩
  · rw [hd.sems_locks.2, hlocks, h.free]
  · exact hd.avoids (ha t (h.avoids t (hlive t (hsw.live t ht))))

theorem Unlocked.step (hp : Prim a k e k') (hw : ∀ c, a.waits c → c.Avoids l)
    (hl : ∀ x, a.acquires x → x ≠ l) (h : Unlocked l k) : Unlocked l k' := by
  have hc := h.census.step hp
  have hkeep : ∀ {k1 : Kernel}, Census k1 → k1.pidlock = k.pidlock → k1.locks l = none →
      k1.allocated = k.allocated → k1.threads = k.threads → Unlocked l k1 :=
    fun hc h1 h2 h3 h4 => ⟨hc, h1.trans h.pidlock, h2, fun t ht => by
      rw [Kernel.Live, h3, h4] at ht
      exact h4 ▸ h.avoids t ht⟩
  cases hp with
  | quiet hq =>
    refine ⟨hc, hq.procs.pidlock.trans h.pidlock, by rw [hq.locks, h.free], fun t ht => ?_⟩
    rcases hq.pc t with he | ⟨he, -⟩
    · exact he ▸ h.avoids t (hq.live t ht)
    · rw [he]
      trivial
  | wakeAll _ hw =>
    obtain ⟨s, q, -, -, -, -, rfl⟩ := hw
    exact hkeep hc rfl h.free rfl rfl
  | wakeOne _ hw =>
    obtain ⟨-, rfl⟩ | ⟨pre, post, u, s, q, -, -, -, -, -, -, -, rfl⟩ := hw
    · exact h
    · exact hkeep hc rfl h.free rfl rfl
  | take _ => exact hkeep hc rfl h.free rfl rfl
  | give _ _ _ hw =>
    obtain ⟨s, q, -, -, -, -, rfl⟩ := hw
    exact hkeep hc rfl h.free rfl rfl
  | acquire ha _ _ =>
    refine hkeep hc rfl ?_ rfl rfl
    show update k.locks _ _ l = none
    rw [update_of_ne (hl _ ha).symm, h.free]
  | @release _ t lock hcur _ hh hw =>
    obtain ⟨s, q, -, -, -, -, rfl⟩ := hw
    refine hkeep hc rfl ?_ rfl rfl
    show update k.locks _ _ l = none
    by_cases he : l = lock
    · rw [he, update_self]
    · rw [update_of_ne he, h.free]
  | waited _ _ => exact h
  | mark _ _ _ _ => exact hkeep hc rfl h.free rfl rfl
  | fork _ hf _ hk =>
    refine ⟨hc, hk.frame.pidlock.trans h.pidlock, by rw [hk.frame.locks, h.free],
      fun t ht => ?_⟩
    rcases hk.live hf ht with ⟨hlive, hthr⟩ | ⟨-, hpc, -⟩
    · rw [hthr]
      exact h.avoids t hlive
    · rw [hpc]
      trivial
  | dispatch hcur hd =>
    exact h.switched hc (fun _ => id) (fun _ => id) rfl rfl hd (hd.switched h.census hcur)
  | yield hcur hs hd =>
    obtain ⟨h1, hnone⟩ := h.census.stashed hcur hs (by simp) (by simp)
    exact h.switched hc (fun t => hs.avoids trivial)
      (fun t => hs.live (h.census.running hcur).2) hs.sems_locks.2 hs.procs.2.2 hd
      (hd.switched h1 hnone)
  | @sleep _ _ cur _ _ _ hcw hcur _ hs hd =>
    obtain ⟨h1, hnone⟩ := h.census.slept hcur hs
    exact h.switched hc (fun t ht => hs.avoids (hw _ hcw) (k.sleepaddr_pc cur t ▸ ht))
      (fun t => hs.live_slept (h.census.running hcur).2) hs.sems_locks.2 hs.procs.2.2 hd
      (hd.switched h1 hnone)
  | exit _ _ hcur _ hs hd =>
    obtain ⟨h1, hnone⟩ := h.census.exited hcur hs
    exact h.switched hc (fun t => hs.avoids trivial)
      (fun t ht => hs.live (k := { k with numthreads := k.numthreads - 1 })
        (h.census.running hcur).2 ht) hs.sems_locks.2 hs.procs.2.2 hd (hd.switched h1 hnone)

/-- What a thread in such a state may go to sleep for, and which locks it may
take. -/
theorem Unlocked.waits (h : Unlocked l k) (he : op.Enabled k) (ho : op ≠ .lockAcquire l)
    {c : Caller} (hw : op.Waits k c) : c.Avoids l := by
  have hheld : ∀ {lock : Addr}, ¬ op.FromInterrupt → k.locks lock = k.curthread → lock ≠ l :=
    fun hi hh hl => by
      obtain ⟨t, ht⟩ := he.curthread hi
      rw [hl, h.free, ht] at hh
      cases hh
  cases op with
  | sleep addr =>
    obtain ⟨spl, rfl⟩ := hw
    trivial
  | semP sem =>
    obtain ⟨spl, rfl⟩ := hw
    trivial
  | lockAcquire lock =>
    obtain ⟨spl, rfl⟩ := hw
    exact ⟨fun hl => ho (by rw [hl]), trivial⟩
  | cvWait cv lock =>
    obtain ⟨hh, spl, rfl⟩ := hw
    exact ⟨hheld id hh, rfl⟩
  | sysWaitpid pid flags => exact absurd h.pidlock (hheld id hw.1)
  | resume =>
    obtain ⟨cur, c0, hcur, hpc, ha⟩ := hw
    have := h.avoids cur (h.census.running hcur)
    rw [hpc] at this
    exact Caller.Avoids.again this ha
  | _ => exact hw.elim

theorem Unlocked.acquires (h : Unlocked l k) (ho : op ≠ .lockAcquire l) {x : Addr}
    (hx : op.Acquires k x) : x ≠ l := by
  cases op with
  | lockAcquire lock =>
    obtain rfl : x = lock := hx
    exact fun hl => ho (by rw [hl])
  | resume =>
    obtain ⟨cur, c, hcur, hpc, hlock⟩ := hx
    have := h.avoids cur (h.census.running hcur)
    rw [hpc] at this
    exact Caller.Avoids.lock_ne this hlock
  | _ => exact hx.elim

end

/-! ## What has been told to `sys__exit` -/

/-- The calls of `sys__exit` in a section: which process, and the code. -/
def Op.exits (k : Kernel) : Op → List (Word × Word)
  | sysExit code => k.curthread.toList.map fun t => ((k.threads t).tPid, code)
  | _ => []

/-- The exit status is in the entry, the entry says that the process has exited,
and the pid is nobody else's. -/
structure Records (exits : List (Word × Word)) (k : Kernel) : Prop where
  census : Census k
  ok : k.pids.Ok
  distinct : ∀ t u, k.Live t → k.Live u → (k.threads t).tPid = (k.threads u).tPid → t = u
  kept : ∀ c v, (c, v) ∈ exits → ∃ p, k.pids.toMap c = some ⟨p, v, 1⟩
  gone : ∀ c v, (c, v) ∈ exits → ∀ t, k.Live t → (k.threads t).tPid ≠ c

namespace Records

variable {exits : List (Word × Word)} {k k' : Kernel}

theorem congr (h : Records exits k) (hc : Census k') (hok : k'.pids.Ok)
    (hl : ∀ t, k'.Live t → k.Live t) (ht : ∀ t, (k'.threads t).tPid = (k.threads t).tPid)
    (hm : ∀ c v, (c, v) ∈ exits → k'.pids.toMap c = k.pids.toMap c) : Records exits k' := by
  refine ⟨hc, hok, fun t u htl hul he => ?_, fun c v hcv => ?_, fun c v hcv t htl => ?_⟩
  · rw [ht, ht] at he
    exact h.distinct t u (hl t htl) (hl u hul) he
  · rw [hm c v hcv]
    exact h.kept c v hcv
  · rw [ht]
    exact h.gone c v hcv t (hl t htl)

theorem sameProcs (h : Records exits k) (hc : Census k') (hs : SameProcs k k')
    (hl : ∀ t, k'.Live t → k.Live t) : Records exits k' := by
  have hv : k'.pids.infos.v = k.pids.infos.v := by rw [hs.infos]
  refine h.congr hc (h.ok.congr hv fun b hb => hs.load b hb _) hl hs.tPid fun c v _ => ?_
  rw [PidTable.toMap_congr hv hs.load]

/-- A step without a fork, in which nothing is written behind the entries. -/
theorem step {a : Scope} {e : List Event} (hp : Prim a k e k') (hf : ¬ a.forks) (hw : ¬ a.writes)
    (h : Records exits k) (hleg : k.pids.Legible) : Records exits k' ∧ k'.pids.Legible := by
  have hc := h.census.step hp
  cases hp.procStep h.census with
  | same hs hm hl _ =>
    have hv : k'.pids.infos.v = k.pids.infos.v := by rw [hs.infos]
    refine ⟨h.sameProcs hc hs hl, fun b hb => ?_, ?_⟩
    · rw [hm.resolve_right hw, hs.load b (hv ▸ hb), hleg.sees b (hv ▸ hb)]
    · rw [hv]
      exact hleg.outside
  | fork ha => exact absurd ha hf
  | @mark cur i f w _ hcur hi hfield hk =>
    have hmark : k.pids.store (k.pids.guy i) f w = k.pids.mark (k.threads cur).tPid f w := by
      rw [PidTable.mark, hi]
    rw [hmark] at hk
    subst hk
    obtain ⟨hok, hleg'⟩ := hleg.mark (p := (k.threads cur).tPid) (w := w) h.ok hfield
    refine ⟨h.congr hc hok (fun _ => id) (fun _ => rfl) fun c v hcv => ?_, hleg'⟩
    exact PidTable.toMap_mark_ne h.ok hfield hleg.sees
      (h.gone c v hcv cur (h.census.running hcur)).symm
  | @switch k1 hpids ht _ hl _ hsw =>
    obtain ⟨hok, hleg', hm⟩ := hsw.spared (hpids ▸ h.ok) (hpids ▸ hleg)
    refine ⟨h.congr hc hok (fun t htl => hl t (hsw.live t htl))
      (fun t => (hsw.tPid t).trans (ht t)) fun c v hcv => ?_, hleg'⟩
    rw [← hpids]
    refine hm c fun t htl => ?_
    rw [ht]
    exact h.gone c v hcv t (hl t htl)

/-- A new entry, with a pid that is not in use. -/
theorem added (h : Records exits k) {info : Addr} (hi : ∀ b ∈ k.pids.infos.v, Apart info b)
    (hp : k.pids.toMap k.pids.nextpid = none) {ppid cv : Word} {infos : KArray Addr}
    (hv : infos.v = k.pids.infos.v ++ [info])
    {p : PidTable} (hk : p = { k.pids.fill info ppid 0 cv with
      infos := infos, nextpid := PidTable.advance k.pids.nextpid }) :
    p.Ok ∧ ∀ c v, (c, v) ∈ exits → p.toMap c = k.pids.toMap c := by
  obtain ⟨hpid, -⟩ := k.pids.load_fill info ppid 0 cv
  have hadd := PidTable.toMap_add h.ok (u := p) (by rw [hk]; exact hv) hi
    (fun b hb f => by rw [hk]; exact PidTable.load_fill_apart (hi b hb) _ _ _ f)
    (by rw [hk]; exact (congrArg k.pids.toMap hpid).trans hp)
  refine ⟨hadd.1, fun c v hcv => ?_⟩
  obtain ⟨q, hq⟩ := h.kept c v hcv
  rw [hadd.2, update_of_ne]
  rintro rfl
  have hpid' : p.load info .pid = k.pids.nextpid := by rw [hk]; exact hpid
  rw [hpid', hp] at hq
  cases hq

/-- A fork that gives away a pid that is not in use. -/
theorem forked (h : Records exits k) {newguy info : Addr} {r : Except PidErr Unit}
    (hf : k.allocated newguy = false) (hi : ∀ b ∈ k.pids.infos.v, Apart info b)
    (hp : k.pids.toMap k.pids.nextpid = none)
    (hu : ∀ t, k.Live t → (k.threads t).tPid ≠ k.pids.nextpid)
    (hk : Forked k newguy info r k') : Records exits k' := by
  have hmap : k'.pids.Ok ∧ ∀ c v, (c, v) ∈ exits → k'.pids.toMap c = k.pids.toMap c := by
    obtain ⟨ppid, -, hg⟩ := hk.grown
    generalize k'.pids = p at hg
    cases hg with
    | same => exact ⟨h.ok, fun _ _ _ => rfl⟩
    | filled cv =>
      have := PidTable.fill_frame hi h.ok ppid 0 cv
      exact ⟨this.1, fun _ _ _ => by rw [this.2]⟩
    | added cv infos hv => exact h.added hi hp hv rfl
  refine ⟨h.census.forked hf hk, hmap.1, fun t u ht hu' he => ?_, fun c v hcv => ?_,
    fun c v hcv t ht => ?_⟩
  · rcases hk.live hf ht with ⟨htl, htt⟩ | ⟨htn, -, htp, -⟩ <;>
      rcases hk.live hf hu' with ⟨hul, hut⟩ | ⟨hun, -, hup, -⟩
    · rw [htt, hut] at he
      exact h.distinct t u htl hul he
    · rw [htt, hup] at he
      exact absurd he (hu t htl)
    · rw [hut, htp] at he
      exact absurd he.symm (hu u hul)
    · rw [htn, hun]
  · rw [hmap.2 c v hcv]
    exact h.kept c v hcv
  · rcases hk.live hf ht with ⟨htl, htt⟩ | ⟨-, -, htp, -⟩
    · rw [htt]
      exact h.gone c v hcv t htl
    · obtain ⟨q, hq⟩ := h.kept c v hcv
      rw [htp]
      rintro rfl
      rw [hp] at hq
      cases hq

end Records

/-- Sections that do not fork and keep away from the lock `l`. -/
def keptScope (l : Addr) : Scope :=
  { Scope.any with
    forks := False
    waits := fun c => c.Avoids l
    acquires := fun x => x ≠ l
    writes := False }

variable {exits : List (Word × Word)}

theorem Records.path {k k' : Kernel} {es : List Event} (h : Records exits k) (hleg : k.pids.Legible)
    (hp : Path (keptScope l) k es k') : Records exits k' ∧ k'.pids.Legible :=
  hp.invariant (I := fun k _ => Records exits k ∧ k.pids.Legible)
    (fun hp hk => hk.1.step hp id id hk.2) [] ⟨h, hleg⟩

/-- `sys__exit` of a process that has its entry. -/
theorem Records.awp_sysExit {k : Kernel} {cur : Addr} {code : Word}
    (h : Records exits k) (hleg : k.pids.Legible) (hcur : k.curthread = some cur)
    (hen : k.pids.toMap (k.threads cur).tPid ≠ none) :
    awp anyTerms (sysExit code) (fun _ k' =>
      (∃ p, k'.pids.toMap (k.threads cur).tPid = some ⟨p, code, 1⟩) ∧
        ∀ t, k'.Live t → (k'.threads t).tPid ≠ (k.threads cur).tPid) k := by
  refine awp_bind.2 (awp_self trivial fun cur' hcur' => awp_bind.2 (awp_bind.2 ?_))
  obtain rfl : cur = cur' := Option.some.inj (hcur.symm.trans hcur')
  refine awpE_call_bind.2 (awpE_bind.2 (awpE_bind.2 ?_))
  obtain ⟨e, he⟩ := Option.ne_none_iff_exists'.1 hen
  rw [findpid]
  cases hf : k.pids.findpidindex (k.threads cur).tPid with
  | none => exact absurd ((PidTable.findpidindex_none hleg.sees).1 hf) hen
  | some i =>
    have hmark : k.pids.store (k.pids.guy i) .exitstatus code =
        k.pids.mark (k.threads cur).tPid .exitstatus code := by rw [PidTable.mark, hf]
    obtain ⟨h1, hleg1⟩ := h.step (a := keptScope 0) (e := [])
      (.mark (f := .exitstatus) (w := code) trivial hcur hf (by decide)) id id hleg
    refine awp_threadExit_switch (a := keptScope 0) lenient_any (.inl easy_any) trivial trivial
      (fun _ _ => trivial) fun cur' k2 k3 k4 hcur' hpath hcur2 htPid hpids _ hs hd => ?_
    obtain rfl : cur = cur' := Option.some.inj (hcur.symm.trans hcur')
    obtain ⟨h2, hleg2⟩ := h1.path hleg1 (hpath _ _ .refl)
    have hmap : k2.pids.toMap (k.threads cur).tPid = some ⟨e.parent, code, 1⟩ := by
      have hpids : k2.pids = (k.pids.store (k.pids.guy i) .exitstatus code).mark
        (k.threads cur).tPid .hasexited 1 := hpids
      have hm1 : (k.pids.store (k.pids.guy i) .exitstatus code).toMap (k.threads cur).tPid =
          some (e.put code .exitstatus) := by
        rw [hmark, PidTable.toMap_mark (f := .exitstatus) h.ok (by decide) hleg.sees he,
          update_self]
      have hm2 := PidTable.toMap_mark (f := .hasexited) (w := 1) h1.ok (by decide) hleg1.sees hm1
      rw [hpids]
      exact (congrFun hm2 _).trans (update_self _ _ _)
    obtain ⟨hp3, ht3, -⟩ := hs.procs
    obtain ⟨hc3, hnone⟩ := h2.census.exited hcur2 hs
    have hsw := hd.switched hc3 hnone
    -- whoever lives is not the thread that has exited
    have hother : ∀ t, k3.Live t → (k3.threads t).tPid ≠ (k.threads cur).tPid := fun t ht => by
      have hne : t ≠ cur := fun hx => ht.2 (hx ▸ hs.pc)
      have hlive : k2.Live t := hs.live (k := { k2 with numthreads := k2.numthreads - 1 })
        (h2.census.running hcur2).2 ht
      have hpid : (k2.threads cur).tPid = (k.threads cur).tPid := htPid cur
      rw [ht3, ← hpid]
      exact fun hx => hne (h2.distinct t cur hlive (h2.census.running hcur2) hx)
    obtain ⟨-, -, hspared⟩ := hsw.spared (hp3 ▸ h2.ok) (hp3 ▸ hleg2)
    refine ⟨⟨e.parent, ?_⟩, fun t ht => ?_⟩
    · rw [hspared _ hother, hp3]
      exact hmap
    · rw [hsw.tPid]
      exact hother t (hsw.live t ht)

/-! ## How `sys_waitpid` ends -/

/-- `p`, who runs, is the recorded parent of the process, and the process has told
`sys__exit` this value. -/
def Answers (exits : List (Word × Word)) (k : Kernel) (pid v : Word) : Prop :=
  ∃ p e, k.curthread = some p ∧ k.pids.toMap pid = some e ∧ e.parent = (k.threads p).tPid ∧
    (pid, v) ∈ exits

/-- The calls of `sys_waitpid` by `p` that do not come to a wrong end. -/
structure Awaitable (exits : List (Word × Word)) (k : Kernel) (p : Addr) (pid flags : Word) :
    Prop where
  /-- An error code is delivered, as if it were the status. -/
  bad : pid = (k.threads p).tPid ∨ flags ≠ 0 →
    Answers exits k pid (PidErr.errno .EINVAL).code
  /-- The call does not come to an end. -/
  stuck : pid ≠ (k.threads p).tPid → flags = 0 →
    ∃ e, k.pids.toMap pid = some e ∧ (e.parent = (k.threads p).tPid ∨ e.hasexited = 0)

section
variable {k k' : Kernel} {p : Addr} {pid flags : Word} {exits : List (Word × Word)}

/-- A section that cannot panic comes to its end. -/
theorem Leads.of_awp_done {op : Op} {c : Terms Panic} {Q : Done → Kernel → Prop}
    (hc : ∀ f, ¬ c.fails f) (h : awp c (op.code k) Q k) : ∃ d k', Leads k op {} d k' ∧ Q d k' := by
  obtain ⟨d, s, hrun, hq⟩ := awp_run_done hc (s := k.machine {}) (nofun) h
  exact ⟨d, s.mem, ⟨s, hrun, rfl⟩, hq⟩

/-- A call of `sys_waitpid` ends as it should, if it ends, exactly under that
condition. -/
theorem waitpid_ends_iff (hcur : k.curthread = some p) (hok : k.pids.Ok) (hs : k.pids.Sees)
    (hl : k.locks k.pidlock = none) :
    (∀ script d k' q v, Leads k (.sysWaitpid pid flags) script d k' → d.ret = .waitpid q v →
      Answers exits k q v) ↔ Awaitable exits k p pid flags := by
  -- an entry that the search finds is the entry of the map
  have hentry : ∀ {i}, k.pids.findpidindex pid = some i →
      k.pids.toMap pid = some (k.pids.entry (k.pids.guy i)) := fun hi => by
    obtain ⟨-, -, hmem, hp⟩ := PidTable.findpidindex_some hok hs hi
    exact hp ▸ PidTable.toMap_of_mem hok hmem
  constructor
  · intro h
    by_contra hn
    obtain ⟨d, k', hl, v, hret, hwrong⟩ : ∃ d k', Leads k (.sysWaitpid pid flags) {} d k' ∧
        ∃ v, d.ret = .waitpid pid v ∧ ¬ Answers exits k pid v := by
      refine Leads.of_awp_done (c := ⟨fun _ => False, False, False⟩) (fun _ => id) ?_
      rw [Op.code_of_curthread hcur]
      refine awp_sysWaitpid_ends hcur (fun hb => ⟨_, rfl, fun ha => hn ⟨fun _ => ha, ?_⟩⟩)
        (fun _ _ hf => ⟨_, rfl, ?_⟩) (fun i _ _ hf hpar _ => ⟨_, rfl, ?_⟩) hl
        fun i h1 h2 hf hx => hn ⟨fun hb => ?_, fun _ _ => ?_⟩
      · exact fun h1 h2 => absurd hb (not_or.2 ⟨h1, not_not_intro h2⟩)
      · rintro ⟨-, e, -, he, -⟩
        exact absurd (((PidTable.findpidindex_none hs).1 hf).symm.trans he) nofun
      · rintro ⟨p', e, hp', he, hpe, -⟩
        obtain rfl : p = p' := Option.some.inj (hcur.symm.trans hp')
        obtain rfl := Option.some.inj ((hentry hf).symm.trans he)
        exact hpar hpe
      · exact absurd hb (not_or.2 ⟨h1, not_not_intro h2⟩)
      · exact ⟨_, hentry hf, hx⟩
    exact hwrong (h {} d k' pid v hl hret)
  · intro h script d k' q v hlead
    refine hlead.of_awp (Q := fun d _ => d.ret = .waitpid q v → Answers exits k q v) ?_
    rw [Op.code_of_curthread hcur]
    refine awp_sysWaitpid_ends hcur (fun hb hret => ?_) (fun h1 h2 hf hret => ?_)
      (fun i h1 h2 hf hpar hex hret => ?_) hl fun _ _ _ _ _ => trivial
    · cases hret
      exact h.bad hb
    · obtain ⟨e, he, -⟩ := h.stuck h1 h2
      exact absurd (((PidTable.findpidindex_none hs).1 hf).symm.trans he) nofun
    · obtain ⟨e, he, hx⟩ := h.stuck h1 h2
      obtain rfl := Option.some.inj ((hentry hf).symm.trans he)
      exact (hx.elim hpar hex).elim

end

/-! ## Other sections -/

/-- The section has not returned from `sys_waitpid`. -/
def Ret.NoWait (r : Ret) : Prop := ∀ q v, r ≠ .waitpid q v

theorem Ret.noWait_blocked : Ret.blocked.NoWait := fun _ _ => Ret.noConfusion

theorem Ret.noWait_returned : Ret.returned.NoWait := fun _ _ => Ret.noConfusion

theorem Ret.noWait_forked {r : Except PidErr Unit} : (Ret.forked r).NoWait :=
  fun _ _ => Ret.noConfusion

section
variable {k : Kernel}

theorem awp_cvWait_ret {cv lock : Addr} {ret : WaitRet} :
    awp anyTerms (cvWait cv lock ret) (fun d _ => d.ret.NoWait) k :=
  awp_mono awp_cvWait_done fun _ _ hd => hd ▸ Ret.noWait_blocked

theorem awp_semP_loop_ret {sem : Addr} {spl : Nat} :
    awp anyTerms (semP.loop sem spl) (fun d _ => d.ret.NoWait) k := by
  refine awp_mono awp_semP_loop_done fun d _ hd => ?_
  obtain ⟨rfl, -⟩ | ⟨rfl, -⟩ := hd
  · exact Ret.noWait_returned
  · exact Ret.noWait_blocked

variable {ret : AcquireRet}

theorem AcquireRet.noWait {lock : Addr} {spl : Nat} (hr : ret.Plain) (d : Done)
    (hd : (Caller.lockAcquire lock spl ret).Reports k k.curthread d) : d.ret.NoWait := by
  obtain ⟨rfl, -⟩ | ⟨rfl, -⟩ := hd
  · cases ret with
    | user => exact Ret.noWait_returned
    | cvWait cv spl' ret =>
      obtain rfl : ret = .user := hr
      exact Ret.noWait_returned
  · exact Ret.noWait_blocked

theorem awp_lockAcquire_loop_ret {lock : Addr} {spl : Nat} (hr : ret.Plain) :
    awp anyTerms (lockAcquire.loop lock spl ret) (fun d _ => d.ret.NoWait) k :=
  awp_mono awp_lockAcquire_loop_done fun d _ hd => AcquireRet.noWait hr d hd

theorem awp_lockAcquire_ret {lock : Addr} (hr : ret.Plain) :
    awp anyTerms (lockAcquire lock ret) (fun d _ => d.ret.NoWait) k :=
  awp_mono (awp_lockAcquire_done 0) fun d _ hd => AcquireRet.noWait hr d hd

theorem awp_resume_ret (h : Unlocked l k) : awp anyTerms resume (fun d _ => d.ret.NoWait) k := by
  refine awp_bind.2 (awp_self trivial fun cur hcur => awp_bind.2 ?_)
  have ha := h.avoids cur (h.census.running hcur)
  rw [awp_mem]
  cases hpc : (k.threads cur).pc with
  | awake caller =>
    rw [hpc] at ha
    refine awp_bind.2 ((awp_put _).2 ?_)
    cases caller with
    | plain spl => exact awp_reports _ Ret.noWait_returned
    | semP sem spl => exact awp_semP_loop_ret
    | lockAcquire lock spl ret => exact awp_lockAcquire_loop_ret ha.2
    | cvWait cv lock spl ret => exact awp_lockAcquire_ret ha.2
  | start | run | yield | sleep | dead => trivial

/-- Nobody but `sys_waitpid` returns from `sys_waitpid`. -/
theorem Op.awp_ret {op : Op} (h : Unlocked l k) (ho : ∀ pid flags, op ≠ .sysWaitpid pid flags) :
    awp anyTerms (op.code k) (fun d _ => d.ret.NoWait) k := by
  have hprog : awp anyTerms op.prog (fun d _ => d.ret.NoWait) k := by
    cases op with
    | fork newguy info cv g =>
      exact awp_bind_of (awp_true (fun _ => trivial) trivial _) fun _ _ _ => Ret.noWait_forked
    | yield | exit | sysExit => exact awp_reports _ Ret.noWait_blocked
    | cvSignal | cvBroadcast => exact awp_reports _ Ret.noWait_returned
    | sleep addr => exact awp_bind.2 (awp_splhigh.2 (awp_reports _ Ret.noWait_blocked))
    | wakeup addr | wakeone addr =>
      refine awp_bind.2 (awp_splhigh.2 (awp_bind_of (awp_true (fun _ => trivial) trivial _)
        fun _ _ _ => awp_reports _ Ret.noWait_returned))
    | semP sem => exact awp_bind.2 (awp_splhigh.2 awp_semP_loop_ret)
    | semV sem => exact awp_mono awp_semV_done fun d _ hd => hd ▸ Ret.noWait_returned
    | lockAcquire lock => exact awp_lockAcquire_ret trivial
    | lockRelease lock => exact awp_bind.2 (awp_reports _ Ret.noWait_returned)
    | cvWait cv lock => exact awp_cvWait_ret
    | sysWaitpid pid flags => exact absurd rfl (ho pid flags)
    | resume => exact awp_resume_ret h
  cases hcur : k.curthread with
  | none =>
    rw [Op.code, hcur]
    exact awp_bind_of hprog fun d _ hd => awp_reports _ hd
  | some t => rwa [Op.code_of_curthread hcur]

end

/-! ## Runs -/

/-- The states that the system can get into, with what has been told to
`sys__exit` on the way. -/
inductive ProcRun (ok : List (Word × Word) → Kernel → Op → Prop) (k₀ : Kernel) :
    List (Word × Word) → Kernel → Prop
  | start : ProcRun ok k₀ [] k₀
  | step (op : Op) (script : Script Empty) {exits : List (Word × Word)} {k k' : Kernel}
      {d : Done} (h : ProcRun ok k₀ exits k) (he : op.Enabled k) (ho : ok exits k op)
      (hl : Leads k op script d k') : ProcRun ok k₀ (op.exits k ++ exits) k'
  | elsewhere {exits : List (Word × Word)} {k k' : Kernel} (h : ProcRun ok k₀ exits k)
      (he : Elsewhere k k') : ProcRun ok k₀ exits k'

/-- What is asked of a section. The lock of the table of processes has no name
outside `pid.c`, so nobody can take it. -/
structure Op.Orderly (exits : List (Word × Word)) (k : Kernel) (op : Op) : Prop where
  pidlock : op ≠ .lockAcquire k.pidlock
  legible : k.pids.Legible
  fork : op.Forks → k.pids.toMap k.pids.nextpid = none ∧
    ∀ t, k.Live t → (k.threads t).tPid ≠ k.pids.nextpid
  enrolled : op.Marks → ∀ p, k.curthread = some p → k.pids.toMap (k.threads p).tPid ≠ none
  awaitable : ∀ p pid flags, k.curthread = some p → op = .sysWaitpid pid flags →
    Awaitable exits k p pid flags

section
variable {exits : List (Word × Word)} {k k' : Kernel} {op : Op} {script : Script Empty} {d : Done}

theorem Records.leads (h : Records exits k) (hu : Unlocked l k) (he : op.Enabled k)
    (ho : op.Orderly exits k) (hl : Leads k op script d k') :
    Records (op.exits k ++ exits) k' ∧ Unlocked l k' := by
  have hlock : op ≠ .lockAcquire l := hu.pidlock ▸ ho.pidlock
  by_cases hf : op.Forks
  · cases op with
    | fork newguy info cv g =>
      obtain ⟨t, hcur⟩ := he.curthread id
      obtain ⟨hfresh, hi⟩ := he.running hcur
      refine hl.of_awp (Q := fun _ k' => Records exits k' ∧ Unlocked l k') ?_
      rw [Op.code_of_curthread hcur]
      refine awp_bind.2 (awp_threadFork lenient_any trivial hfresh fun r k' hk => ⟨?_, ?_⟩)
      · exact h.forked hfresh hi (ho.fork trivial).1 (ho.fork trivial).2 hk
      · exact Unlocked.step (a := { keptScope l with forks := True })
          (.fork trivial hfresh hi hk) (fun _ => id) (fun _ => id) hu
    | _ => exact hf.elim
  · have hpath := hl.path (a := keptScope l) { op.within_any k with
      forks := hf
      waits := fun _ => hu.waits he hlock
      acquires := fun _ => hu.acquires hlock } he
    have hu' : Unlocked l k' := hpath.invariant (I := fun k _ => Unlocked l k)
      (fun hp hk => hk.step hp (fun _ => id) fun _ => id) [] hu
    have h' := (h.path ho.legible hpath).1
    refine ⟨?_, hu'⟩
    cases op with
    | sysExit code =>
      obtain ⟨cur, hcur⟩ := he.curthread id
      obtain ⟨hkept, hgone⟩ := hl.of_awp (Q := fun _ k' =>
        (∃ p, k'.pids.toMap (k.threads cur).tPid = some ⟨p, code, 1⟩) ∧
          ∀ t, k'.Live t → (k'.threads t).tPid ≠ (k.threads cur).tPid) (by
        rw [Op.code_of_curthread hcur]
        exact awp_bind_of (h.awp_sysExit ho.legible hcur (ho.enrolled trivial cur hcur))
          fun _ _ hq => hq)
      have hexits : (Op.sysExit code).exits k = [((k.threads cur).tPid, code)] := by
        rw [Op.exits, hcur]
        rfl
      rw [hexits]
      refine ⟨h'.census, h'.ok, h'.distinct, fun c v hcv => ?_, fun c v hcv => ?_⟩ <;>
        rcases List.mem_cons.1 hcv with hx | hx
      · cases hx
        exact hkept
      · exact h'.kept c v hx
      · cases hx
        exact hgone
      · exact h'.gone c v hx
    | _ => exact h'

theorem ProcRun.records {k₀ : Kernel} {me : Addr} (h0 : Booted k₀ me) (hok : k₀.pids.Ok)
    (h : ProcRun (fun exits k op => op.Orderly exits k) k₀ exits k) :
    Records exits k ∧ Unlocked k₀.pidlock k := by
  induction h with
  | start =>
    have hme : ∀ t, k₀.Live t → t = me := fun t ht => (h0.allocated t).1 ht.1
    refine ⟨⟨h0.census, hok, fun t u ht hu _ => by rw [hme t ht, hme u hu], nofun, nofun⟩,
      h0.census, rfl, h0.locks _, fun t ht => ?_⟩
    rw [hme t ht, h0.pc]
    trivial
  | step _ _ _ he ho hl ih => exact ih.1.leads ih.2 he ho hl
  | elsewhere _ he ih =>
    have hq := he.quiet (a := { keptScope k₀.pidlock with writes := True }) trivial
    exact ⟨ih.1.sameProcs (ih.1.census.step (.quiet hq)) hq.procs hq.live,
      ih.2.step (.quiet hq) (fun _ => id) fun _ => id⟩

end

/-- One call of `sys_waitpid`, and runs of orderly sections: if a call comes to
its end, it is right; the parent of a process that is in the table does not get
its status, and is not turned away either, but runs into a panic; and what was
told to `sys__exit` stays in the table. -/
theorem waitpid_never_wrong (exits : List (Word × Word)) (k : Kernel) :
    (∀ p pid flags, k.curthread = some p → k.pids.Ok → k.pids.FindsPids →
      k.locks k.pidlock = none →
      ((∀ script d k' q v, Leads k (.sysWaitpid pid flags) script d k' →
        d.ret = .waitpid q v → Answers exits k q v) ↔ Awaitable exits k p pid flags)) ∧
    ∀ k₀ me, Booted k₀ me → k₀.pids.Ok →
      ProcRun (fun exits k op => op.Orderly exits k) k₀ exits k →
      (∀ op script d k' q v, op.Enabled k → op.Orderly exits k → Leads k op script d k' →
        d.ret = .waitpid q v → Answers exits k q v) ∧
      (∀ p pid e script, k.curthread = some p → k.pids.Legible → pid ≠ (k.threads p).tPid →
        k.pids.toMap pid = some e → e.parent = (k.threads p).tPid →
        (((Op.sysWaitpid pid 0).code k).run (k.machine script)).1 =
          .crash (.releaseDeadlock k.pidlock)) ∧
      ∀ c v, (c, v) ∈ exits → ∃ parent, k.pids.toMap c = some ⟨parent, v, 1⟩ := by
  refine ⟨fun p pid flags hcur hok hf hl =>
    waitpid_ends_iff hcur hok ((PidTable.sees_iff hok).1 hf) hl, ?_⟩
  intro k₀ me h0 hok hrun
  obtain ⟨h, hu⟩ := hrun.records h0 hok
  have hfree : k.locks k.pidlock = none := hu.pidlock.symm ▸ hu.free
  refine ⟨fun op script d k' q v he ho hl hret => ?_,
    fun p pid e script hcur hleg hne hm hpar => ?_, h.kept⟩
  · by_cases hw : ∃ pid flags, op = .sysWaitpid pid flags
    · obtain ⟨pid, flags, rfl⟩ := hw
      obtain ⟨p, hcur⟩ := he.curthread id
      exact (waitpid_ends_iff hcur h.ok ho.legible.sees hfree).2 (ho.awaitable p pid flags hcur rfl)
        script d k' q v hl hret
    · exact absurd hret (hl.of_awp (Op.awp_ret hu fun pid flags hx => hw ⟨pid, flags, hx⟩) q v)
  · have hawp : awp ⟨fun f => f = .releaseDeadlock k.pidlock, True, True⟩
        ((Op.sysWaitpid pid 0).code k) (fun _ _ => False) k := by
      rw [Op.code_of_curthread hcur]
      refine awp_sysWaitpid_ends hcur (fun hb => ?_) (fun _ _ hf => ?_)
        (fun i _ _ hf hp _ => ?_) hfree fun _ _ _ _ _ => rfl
      · exact hb.elim hne fun hx => hx rfl
      · exact absurd (((PidTable.findpidindex_none hleg.sees).1 hf).symm.trans hm) nofun
      · obtain ⟨-, -, hmem, hpid⟩ := PidTable.findpidindex_some h.ok hleg.sees hf
        obtain rfl := Option.some.inj ((hpid ▸ PidTable.toMap_of_mem h.ok hmem).symm.trans hm)
        exact hp hpar
    exact awp_run_crash (s := k.machine script) hawp

theorem bootPids_legible : bootPids.Legible := by
  refine ⟨fun a ha => ?_, fun a ha b hb => ?_⟩
  · rw [List.mem_singleton.1 ha]
    rfl
  · rw [List.mem_singleton.1 ha, List.mem_singleton.1 hb]
    decide

/-- The boot thread forks. It may not wait for a process that does not exist, and
it cannot wait for the one that does. -/
theorem waitpid_never_wrong_fork :
    ∃ k : Kernel, k.curthread = some 7 ∧ k.pids.toMap 2 = some ⟨1, 0, 0⟩ ∧
      ¬ Awaitable [] k 7 42 0 ∧
      (((Op.sysWaitpid 2 0).code k).run (k.machine {})).1 = .crash (.releaseDeadlock 0) := by
  have hok : bootPids.Ok := ⟨List.pairwise_singleton _ _, List.nodup_singleton _⟩
  obtain ⟨k, hrun, hcur, hpid, hlock, hmap, hnone, hv, hb1, hb2, hp1, hp2⟩ : ∃ k,
      ProcRun (fun exits k op => op.Orderly exits k) (Kernel.boot 7 bootPids) [] k ∧
        k.curthread = some 7 ∧ (k.threads 7).tPid = 1 ∧ k.pidlock = 0 ∧
        k.pids.toMap 2 = some ⟨1, 0, 0⟩ ∧ k.pids.toMap 42 = none ∧
        k.pids.infos.v = [100, 200] ∧ k.pids.mem 180 = 1 ∧ k.pids.mem 280 = 2 ∧
        k.pids.mem 100 = 1 ∧ k.pids.mem 200 = 2 := by
    refine ⟨_, .step (.fork 9 200 300 ⟨0, 0⟩) {} .start (And.intro nofun (And.intro rfl
      fun b hb => ?_)) ⟨nofun, bootPids_legible, fun _ => ⟨rfl, fun t ht => ?_⟩, nofun, nofun⟩
      ⟨_, rfl, rfl⟩, rfl, rfl, rfl, rfl, rfl, rfl, rfl, rfl, rfl, rfl⟩
    · rw [List.mem_singleton.1 hb]
      decide
    · show (1 : Word) ≠ 2
      decide
  have hleg : k.pids.Legible := by
    refine ⟨fun a ha => ?_, ?_⟩
    · rw [hv] at ha
      obtain rfl | rfl : a = 100 ∨ a = 200 := by simpa using ha
      · exact hb1.trans hp1.symm
      · exact hb2.trans hp2.symm
    · rw [hv]
      decide
  obtain ⟨-, hstuck, -⟩ := (waitpid_never_wrong [] k).2 _ 7 (Kernel.booted_boot 7 bootPids) hok hrun
  refine ⟨k, hcur, hmap, fun h => ?_, ?_⟩
  · obtain ⟨e, he, -⟩ := h.stuck (by rw [hpid]; decide) rfl
    exact absurd (hnone.symm.trans he) nofun
  · rw [← hlock]
    exact hstuck 7 2 ⟨1, 0, 0⟩ {} hcur hleg (by rw [hpid]; decide) hmap hpid.symm

/-- Two processes are forked, the first one exits with code 5, and the second
one, which is not its parent, waits for it: the call succeeds and delivers
zero. -/
theorem waitpid_delivers_zero :
    ∃ exits k, ProcRun (fun _ _ _ => True) (Kernel.boot 7 bootPids) exits k ∧
      exits = [(2, 5)] ∧ k.curthread = some 11 ∧ (k.threads 11).tPid = 3 ∧
      k.pids.toMap 2 = some ⟨1, 5, 1⟩ ∧
      ∃ d k', Leads k (.sysWaitpid 2 0) {} d k' ∧ d.ret = .waitpid 2 0 := by
  refine ⟨_, _, .step (.sysExit 5) {} (.step .yield {} (.step (.fork 11 400 500 ⟨0, 0⟩) {}
    (.step (.fork 9 200 300 ⟨0, 0⟩) {} .start (And.intro nofun (And.intro rfl fun b hb => ?_))
      trivial ⟨_, rfl, rfl⟩) (And.intro nofun (And.intro rfl fun b hb => ?_)) trivial
      ⟨_, rfl, rfl⟩) (And.intro nofun trivial) trivial ⟨_, rfl, rfl⟩)
    (And.intro nofun trivial) trivial ⟨_, rfl, rfl⟩, rfl, rfl, rfl, rfl, _, _,
    ⟨_, rfl, rfl⟩, rfl⟩
  · rw [List.mem_singleton.1 hb]
    decide
  · obtain rfl | rfl : b = 100 ∨ b = 200 := by simpa using (show b ∈ [100, 200] from hb)
    · decide
    · decide

end Os161.Thread
