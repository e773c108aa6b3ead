import Os161.Proofs.Census
import Os161.Thread.Fork

/-!
# A fork that fails

What a call of `thread_fork` leaves behind that has returned an error. The lists of
threads and the number of threads are as before, and so is the count of the current
directory, which is dropped again if it was taken.

The table of processes is not, once `pid_create` has gone through: nobody calls
`pid_destroy`. And the interrupt level is not if it was `pid_create` that failed, because
the label `fail` restores a level that has not been saved yet.
-/

namespace Os161.Thread

open Os161.Kern Os161.Lib Function

variable {s : ForkState} {newguy info cv cur : Addr} {g : Garbage}

def ForkState.machine (s : ForkState) (script : Script Empty) :
    Machine ForkState Empty Unit Empty :=
  ⟨s, fun _ => (), script⟩

/-! ## The pieces -/

/-- The counts with one reference more, if there is a directory. -/
def taken (cwd : Option Addr) (refcount : Addr → Nat) : Addr → Nat :=
  match cwd with
  | none => refcount
  | some vn => update refcount vn (refcount vn + 1)

/-- What is left of the new thread when `thread_fork` gives up. -/
def Kernel.freed (k : Kernel) (newguy : Addr) (spl : Nat) : Kernel :=
  { k with curspl := spl, allocated := update k.allocated newguy false }

section
variable {t : Terms ForkPanic} {n : Addr → Nat}

variable {cwd : Option Addr}

theorem awp_vopIncref {Q : Unit → ForkState → Prop}
    (hQ : Q () { s with refcount := taken cwd s.refcount }) : awp t (vopIncref cwd) Q s := by
  cases cwd with
  | none => exact hQ
  | some vn => exact hQ

/-- The reference that was taken is the one that is dropped. -/
theorem awp_vopDecref {Q : Unit → ForkState → Prop}
    (hs : s.refcount = taken cwd n) (hQ : Q () { s with refcount := n }) :
    awp t (vopDecref cwd) Q s := by
  cases cwd with
  | none =>
    rw [← show s.refcount = n from hs] at hQ
    exact hQ
  | some vn =>
    have hvn : s.refcount vn = n vn + 1 := by rw [hs, taken, update_self]
    refine awp_bind.2 ?_
    rw [awp_mem]
    refine awp_bind.2 (awp_assert.2 ⟨fun _ => ?_, fun hn => absurd (by omega) hn⟩)
    rw [awp_put, hvn, Nat.add_sub_cancel, hs, taken, update_idem, update_eq_self]
    exact hQ

theorem awp_forkAt_fail {spl : Nat} {point : ForkPoint} {e : PidErr}
    {Q : ForkResult → ForkState → Prop} (hs : s.refcount = taken (s.kernel.threads newguy).tCwd n)
    (hQ : Q (.error (point, e)) ⟨s.kernel.freed newguy spl, n⟩) :
    awp t (forkAt.fail newguy spl point e) Q s := by
  refine awp_bind.2 (awp_zoom.2 (awp_splx.2 (awp_bind.2 ?_)))
  rw [awp_mem]
  refine awp_bind.2 (awp_vopDecref hs (awp_bind.2 (awp_zoom.2 ?_)))
  rw [freeThread, awp_modify]
  exact hQ

/-- The last part of `thread_fork` leaves the threads and their table alone. -/
theorem awp_forkPlace_frame {k : Kernel} : awp anyTerms (forkPlace newguy).run
      (fun _ k' => k'.threads = k.threads ∧ k'.pids = k.pids) k :=
  awpE_forkPlace lenient_any trivial (fun _ _ _ _ => ⟨rfl, rfl⟩)
    fun _ _ _ _ _ _ _ _ _ => ⟨rfl, rfl⟩

end

/-! ## The references make no difference -/

/-- What is to hold of a kernel that has forked holds whatever the references are. -/
def Forgets (Q : Except PidErr Unit → Kernel → Prop) (r : ForkResult) (s : ForkState) : Prop :=
  Q (r.mapError Prod.snd) s.kernel

/-- What a call leaves behind that failed at `point`. -/
structure Left (s : ForkState) (info : Addr) (g : Garbage) (point : ForkPoint) (s' : ForkState) :
    Prop where
  refcount : s'.refcount = s.refcount
  curspl : s'.kernel.curspl = if point = .pid then g.spl else s.kernel.curspl
  same : point = .thread → s'.kernel.pids = s.kernel.pids
  filled : point = .pid → s'.kernel.pids = s.kernel.pids ∨
    ∃ ppid exitcv, s'.kernel.pids = s.kernel.pids.fill info ppid 0 exitcv
  added : point = .stack ∨ point = .place →
    s'.kernel.pids.infos.v = s.kernel.pids.infos.v ++ [info]

/-- Both. -/
def ForkEnds (Q : Except PidErr Unit → Kernel → Prop) (s : ForkState) (info : Addr) (g : Garbage)
    (r : ForkResult) (s' : ForkState) : Prop :=
  Forgets Q r s' ∧ ∀ point e, r = .error (point, e) → Left s info g point s'

section
variable {t : Terms ForkPanic} {Q : Except PidErr Unit → Kernel → Prop} {s₁ : ForkState}

/-- What the last part of `thread_fork` has to end in. -/
def PlaceEnds (Q : Except PidErr Unit → Kernel → Prop) (newguy : Addr) (spl : Nat) :
    Except Errno Unit → Kernel → Prop
  | .error e, k => Q (.error (.errno e)) (k.freed newguy spl)
  | .ok (), k => Q (.ok ()) { k with numthreads := k.numthreads + 1, curspl := spl }

/-- `thread_fork` from where the new thread has a stack. -/
theorem awp_forkAt_place
    (h : awp (t.zoom .kernel) (forkPlace newguy).run (PlaceEnds Q newguy s₁.kernel.curspl)
      { s₁.kernel with curspl := 15 })
    (hrefs : s₁.refcount = taken (s₁.kernel.threads newguy).tCwd s.refcount)
    (hspl : s₁.kernel.curspl = s.kernel.curspl)
    (hpids : s₁.kernel.pids.infos.v = s.kernel.pids.infos.v ++ [info]) :
    awp t (forkAt.place newguy) (ForkEnds Q s info g) s₁ := by
  refine awp_bind.2 (awp_zoom.2 (awp_splhigh.2 (awp_bind.2 (awp_zoom.2 ?_))))
  refine awp_mono (awp_and h awp_forkPlace_frame fun _ => trivial) ?_
  rintro r k ⟨hQ, hthreads, hp⟩
  cases r with
  | error e =>
    refine awp_forkAt_fail (n := s.refcount) ?_ ⟨hQ, fun point e' hr => ?_⟩
    · show s₁.refcount = taken (k.threads newguy).tCwd s.refcount
      rw [hthreads]
      exact hrefs
    · cases hr
      refine ⟨rfl, hspl, fun hf => (by cases hf), fun hf => (by cases hf), fun _ => ?_⟩
      show k.pids.infos.v = _
      rw [hp]
      exact hpids
  | ok x => exact ⟨hQ, fun point e hr => (by cases hr)⟩

/-- `thread_fork` from the allocation of the stack on. -/
theorem awp_forkAt_stack (h : awp (t.zoom .kernel) (forkStack newguy cur) Q s₁.kernel)
    (hrefs : s₁.refcount = s.refcount) (hspl : s₁.kernel.curspl = s.kernel.curspl)
    (hpids : s₁.kernel.pids.infos.v = s.kernel.pids.infos.v ++ [info]) :
    awp t (forkAt.stack newguy cur) (ForkEnds Q s info g) s₁ := by
  obtain ⟨ha, htrue, hfalse⟩ := awp_kmalloc.1 (awp_bind.1 h)
  refine awp_bind.2 (awp_kmalloc.2 ⟨ha, ?_, fun hr => ?_⟩)
  · rw [if_pos rfl] at htrue ⊢
    refine awp_bind.2 ?_
    rw [awp_mem]
    refine awp_bind.2 (awp_vopIncref (awp_bind.2 (awp_zoom.2 ?_)))
    rw [awp_modify]
    have hplace := awp_bind.1 (awp_splhigh.1 (awp_bind.1 ((awp_modify _).1 (awp_bind.1 htrue))))
    refine awp_forkAt_place (awp_mono hplace fun r k hk => ?_) ?_ hspl hpids
    · cases r with
      | error e => exact hk
      | ok x => exact hk
    · dsimp only [ForkState.kernelPart]
      rw [hrefs, Kernel.onThread_threads_self]
  · rw [if_neg (by decide)]
    refine awp_bind.2 (awp_zoom.2 ?_)
    rw [freeThread, awp_modify]
    refine ⟨hfalse hr, fun point e he => ?_⟩
    cases he
    exact ⟨hrefs, hspl, fun hf => (by cases hf), fun hf => (by cases hf), fun _ => hpids⟩

/-- `thread_fork` from `pid_create` on. -/
theorem awp_forkAt_pid (h : awp (t.zoom .kernel) (forkPid newguy info cv g) Q s₁.kernel)
    (hcwd : (s₁.kernel.threads newguy).tCwd = none) (hrefs : s₁.refcount = s.refcount)
    (hspl : s₁.kernel.curspl = s.kernel.curspl) (hpids : s₁.kernel.pids = s.kernel.pids) :
    awp t (forkAt.pid newguy info cv g) (ForkEnds Q s info g) s₁ := by
  have hself : awp anyTerms self (fun _ k => k = s₁.kernel) s₁.kernel :=
    awp_self trivial fun _ _ => rfl
  refine awp_bind.2 (awp_zoom.2 (awp_mono (awp_and (awp_bind.1 h) hself fun _ => trivial) ?_))
  rintro cur _ ⟨hcur, rfl⟩
  refine awp_bind.2 ?_
  rw [awp_mem]
  refine awp_bind.2 (awp_zoom.2 ?_)
  have hcreate : awp anyTerms (pidCreate .pidCreateParent s₁.kernel.pids info cv
        (s₁.kernel.threads cur).tPid 0 : KProg _) (fun x k => k = s₁.kernel ∧
        ((∃ npid, x.1 = .ok npid) → x.2.infos.v = s.kernel.pids.infos.v ++ [info]) ∧
        ((∃ e, x.1 = .error e) → x.2 = s.kernel.pids ∨
          ∃ ppid exitcv, x.2 = s.kernel.pids.fill info ppid 0 exitcv)) s₁.kernel := by
    rw [hpids]
    refine awp_pidCreate trivial (.inr trivial) (fun exitcv infos hv _ => ?_) (fun exitcv _ => ?_)
      fun _ => ?_
    · exact ⟨rfl, fun _ => hv, fun he => by obtain ⟨e, he⟩ := he; cases he⟩
    · exact ⟨rfl, fun hp => (by obtain ⟨p, hp⟩ := hp; cases hp), fun _ => .inr ⟨_, exitcv, rfl⟩⟩
    · exact ⟨rfl, fun hp => (by obtain ⟨p, hp⟩ := hp; cases hp), fun _ => .inl rfl⟩
  refine awp_mono (awp_and (awp_bind.1 ((awp_mem).1 (awp_bind.1 hcur))) hcreate fun _ => trivial) ?_
  rintro ⟨r, pids⟩ _ ⟨hk, rfl, hok, herr⟩
  refine awp_bind.2 (awp_zoom.2 ?_)
  rw [awp_modify]
  have hk' := (awp_modify _).1 (awp_bind.1 hk)
  cases r with
  | error e =>
    refine awp_forkAt_fail (n := s.refcount) ?_ ⟨hk', fun point e' he => ?_⟩
    · show s₁.refcount = taken (s₁.kernel.threads newguy).tCwd s.refcount
      rw [hcwd, hrefs]
      rfl
    · cases he
      exact ⟨rfl, rfl, fun hf => (by cases hf), fun _ => herr ⟨e, rfl⟩, fun hf => by
        rcases hf with hf | hf <;> cases hf⟩
  | ok npid =>
    refine awp_bind.2 (awp_zoom.2 ?_)
    rw [awp_modify]
    exact awp_forkAt_stack ((awp_modify _).1 (awp_bind.1 hk')) hrefs hspl (hok ⟨npid, rfl⟩)

/-- Whatever holds of `thread_fork` without the references holds of it with them. -/
theorem awp_forkAt (h : awp (t.zoom .kernel) (threadFork newguy info cv g) Q s.kernel) :
    awp t (forkAt newguy info cv g) (ForkEnds Q s info g) s := by
  have hthread : ∀ (e : PidErr), Q (.error e) s.kernel →
      ForkEnds Q s info g (.error (.thread, e)) s := fun e hQ => by
    refine ⟨hQ, fun point e' he => ?_⟩
    cases he
    exact ⟨rfl, rfl, fun _ => rfl, fun hf => (by cases hf), fun hf => by
      rcases hf with hf | hf <;> cases hf⟩
  obtain ⟨ha, htrue, hfalse⟩ := awp_kmalloc.1 (awp_bind.1 h)
  refine awp_bind.2 (awp_kmalloc.2 ⟨ha, ?_, fun hr => hthread _ (hfalse hr)⟩)
  rw [if_pos rfl] at htrue ⊢
  obtain ⟨-, htrue, hfalse⟩ := awp_kmalloc.1 (awp_bind.1 htrue)
  refine awp_bind.2 (awp_kmalloc.2 ⟨ha, ?_, fun hr => hthread _ (hfalse hr)⟩)
  rw [if_pos rfl] at htrue ⊢
  refine awp_bind.2 (awp_zoom.2 ?_)
  rw [awp_modify]
  refine awp_forkAt_pid ((awp_modify _).1 (awp_bind.1 htrue)) ?_ rfl rfl rfl
  show (update s.kernel.threads newguy _ newguy).tCwd = none
  rw [update_self]

end

/-! ## What has changed -/

/-- The same entries, with the same contents. -/
structure SamePids (t t' : PidTable) : Prop where
  nextpid : t'.nextpid = t.nextpid
  infos : t'.infos.v = t.infos.v
  fields : ∀ b ∈ t.infos.v, ∀ f, t'.load b f = t.load b f

/-- Nothing of what `thread_fork` works on has changed. -/
structure Unchanged (s s' : ForkState) : Prop where
  pids : SamePids s.kernel.pids s'.kernel.pids
  runqueue : s'.kernel.runqueue.toList = s.kernel.runqueue.toList
  sleepers : s'.kernel.sleepers.v = s.kernel.sleepers.v
  zombies : s'.kernel.zombies.v = s.kernel.zombies.v
  numthreads : s'.kernel.numthreads = s.kernel.numthreads
  refcount : s'.refcount = s.refcount
  curspl : s'.kernel.curspl = s.kernel.curspl

theorem SamePids.fill {t : PidTable} (hinfo : ∀ b ∈ t.infos.v, Apart info b) (ppid exitcv : Word) :
    SamePids t (t.fill info ppid 0 exitcv) where
  nextpid := rfl
  infos := rfl
  fields b hb f := PidTable.load_fill_apart (hinfo b hb) ppid 0 exitcv f

theorem Left.samePids_iff {s' : ForkState} {point : ForkPoint} (h : Left s info g point s')
    (hinfo : ∀ b ∈ s.kernel.pids.infos.v, Apart info b) :
    SamePids s.kernel.pids s'.kernel.pids ↔ point = .thread ∨ point = .pid := by
  have hgrown : s'.kernel.pids.infos.v = s.kernel.pids.infos.v ++ [info] →
      ¬ SamePids s.kernel.pids s'.kernel.pids := fun hv hs => by
    rw [hs.infos] at hv
    exact absurd (congrArg List.length hv) (by simp)
  cases point with
  | thread =>
    rw [h.same rfl]
    exact iff_of_true ⟨rfl, rfl, fun _ _ _ => rfl⟩ (.inl rfl)
  | pid =>
    refine iff_of_true ?_ (.inr rfl)
    rcases h.filled rfl with he | ⟨ppid, exitcv, he⟩
    · rw [he]
      exact ⟨rfl, rfl, fun _ _ _ => rfl⟩
    · rw [he]
      exact .fill hinfo ppid exitcv
  | stack => exact iff_of_false (hgrown (h.added (.inl rfl))) (by simp)
  | place => exact iff_of_false (hgrown (h.added (.inr rfl))) (by simp)

/-- Kernel panics are tolerated; the assertion on the reference count is not. -/
def forkTerms : Terms ForkPanic := ⟨fun f => f ≠ .decref, True, True⟩

/-- A call of `thread_fork` that has failed has changed nothing exactly if it failed in
`thread_create`, or in `pid_create` with the level that was never saved being the
current one by chance. -/
theorem fork_unchanged_iff (hfree : s.kernel.allocated newguy = false)
    (hinfo : ∀ b ∈ s.kernel.pids.infos.v, Apart info b) {script : Script Empty}
    {point : ForkPoint} {e : PidErr} {m : Machine ForkState Empty Unit Empty}
    (hrun : (forkAt newguy info cv g).run (s.machine script) = (.done (.error (point, e)), m)) :
    Unchanged s m.mem ↔ point = .thread ∨ point = .pid ∧ g.spl = s.kernel.curspl := by
  have hfork : awp (forkTerms.zoom .kernel) (threadFork newguy info cv g)
      (Forked s.kernel newguy info) s.kernel :=
    awp_threadFork (fun p _ hp => by cases hp) trivial hfree fun r k' hk => hk
  have hends := awp_run (s := s.machine script) (fun _ => trivial)
    (awp_forkAt (t := forkTerms) hfork)
  rw [hrun] at hends
  obtain ⟨⟨hk, hl⟩, -⟩ := hends
  have hleft : Left s info g point m.mem := hl point e rfl
  have hfailed : Forked s.kernel newguy info (.error e) m.mem.kernel := hk
  cases hfailed with
  | failed hframe _ hq _ hn =>
    have hiff := hleft.samePids_iff hinfo
    have hspl := hleft.curspl
    constructor
    · intro hu
      rcases hiff.1 hu.pids with hp | hp
      · exact .inl hp
      · rw [if_pos hp] at hspl
        exact .inr ⟨hp, hspl.symm.trans hu.curspl⟩
    · intro hp
      refine ⟨hiff.2 (hp.imp_right And.left), hq, hframe.sleepers, hframe.zombies, hn,
        hleft.refcount, hspl.trans ?_⟩
      rcases hp with hp | ⟨hp, hg⟩
      · rw [if_neg (by rw [hp]; decide)]
      · rw [if_pos hp, hg]

/-- The kernel after boot, with a directory that two others use. -/
def bootFork : ForkState :=
  ⟨Kernel.boot 7 (PidTable.pidInitialize fun _ => 0), fun _ => 2⟩

/-- No memory for the thread, and none for the slot in the table of processes. -/
theorem fork_unchanged_twice :
    (∃ m, (forkAt 9 1000 2000 ⟨3, 0⟩).run (bootFork.machine { mem := [false] }) =
      (.done (.error (.thread, .errno .ENOMEM)), m) ∧ Unchanged bootFork m.mem) ∧
    ∃ m, (forkAt 9 1000 2000 ⟨0, 0⟩).run
        (bootFork.machine { mem := [true, true, true, true, true, false] }) =
      (.done (.error (.pid, .errno .ENOMEM)), m) ∧ Unchanged bootFork m.mem := by
  obtain ⟨m, hfirst⟩ : ∃ m, (forkAt 9 1000 2000 ⟨3, 0⟩).run (bootFork.machine { mem := [false] }) =
      (.done (.error (.thread, .errno .ENOMEM)), m) := ⟨_, rfl⟩
  obtain ⟨m', hsecond⟩ : ∃ m, (forkAt 9 1000 2000 ⟨0, 0⟩).run
      (bootFork.machine { mem := [true, true, true, true, true, false] }) =
      (.done (.error (.pid, .errno .ENOMEM)), m) := ⟨_, rfl⟩
  exact ⟨⟨m, hfirst, (fork_unchanged_iff rfl (fun _ hb => by cases hb) hfirst).2 (.inl rfl)⟩,
    m', hsecond, (fork_unchanged_iff rfl (fun _ hb => by cases hb) hsecond).2
      (.inr ⟨rfl, rfl⟩)⟩

/-- No memory for the stack: the process is in the table, and there is no thread. -/
theorem fork_leaves_pid : ∃ m,
    (forkAt 9 1000 2000 ⟨3, 0⟩).run
        (bootFork.machine { mem := [true, true, true, true, true, true, false] }) =
      (.done (.error (.stack, .errno .ENOMEM)), m) ∧
      bootFork.kernel.pids.infos.v = [] ∧ m.mem.kernel.pids.infos.v = [1000] :=
  ⟨_, rfl, rfl, rfl⟩

end Os161.Thread
