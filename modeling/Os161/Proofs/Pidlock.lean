import Os161.Proofs.Waitpid
import Os161.Thread.Pidlock

/-!
# Who holds the lock of the table of processes

A routine of `pid.c` that keeps to the protocol calls `lock_release`, `cv_wait` and
`cv_broadcast` only while `pidlock` is held, and returns without it. No routine takes
the lock, so one that makes none of these calls keeps to the protocol if its caller
does not hold the lock. One that makes such a call needs a caller who does; only
`pid_wait` on behalf of the parent then gives the lock back, `cv_wait` returns with it
and `cv_broadcast` leaves it alone.
-/

namespace Os161.Thread

open Os161.Kern Os161.Lib

/-- The routine `c` has ended so, and this is what it leaves. -/
structure Disciplined (c : PidRoutine) (out : Outcome LockPanic (Except PidErr Unit))
    (v : PidView) : Prop where
  holding : ∀ e ∈ v.calls, e.2 = true
  returns : ∀ r, out = .done r → v.held = false
  releases : out ≠ .crash .deadlock
  /-- `pid_wait` returns zero only for a process that has exited. -/
  exited : ∀ wpid null flags, c = .wait wpid null flags → out = .done (.ok ()) →
    ∃ b ∈ v.pids.infos.v, v.pids.load b .pid = wpid ∧ v.pids.load b .hasexited ≠ 0

/-- The routine begins. -/
def PidView.start (pids : PidTable) (held : Bool) (tPid : Word) (script : Script Empty) :
    Machine PidView Empty Unit Empty :=
  ⟨⟨pids, held, tPid, []⟩, fun _ => (), script⟩

/-- Every path through the routine keeps to the protocol. -/
def Respects (pids : PidTable) (held : Bool) (tPid : Word) (c : PidRoutine) : Prop :=
  ∀ later script,
    Disciplined c (Prog.run (c.prog later) (PidView.start pids held tPid script)).1
      (Prog.run (c.prog later) (PidView.start pids held tPid script)).2.mem

/-- The calls that may be made with the lock held, or not. A null condition variable
stops the routine at an assertion. -/
def Orderly (pids : PidTable) (held : Bool) (tPid : Word) : PidRoutine → Prop
  | .create _ _ ppid _ => 0 ≤ ppid.toInt → held = false
  | .destroy dpid =>
    match pids.findpidindex dpid with
    | none => held = false
    | some i => pids.load (pids.guy i) .exitcv ≠ 0 → held = false
  | .get _ => held = false
  | .setexitstatus _ _ => held = false
  | .sethasexited spid hasexited =>
    match pids.findpidindex spid with
    | none => held = false
    | some i =>
      if hasexited = 0 then held = false
      else held = true ∧ pids.load (pids.guy i) .exitcv = 0
  | .wait wpid null flags =>
    if wpid = tPid ∨ flags ≠ 0 ∨ null = true then held = false
    else
      match pids.findpidindex wpid with
      | none => held = false
      | some i =>
        if pids.load (pids.guy i) .parentPid = tPid then held = true
        else if pids.load (pids.guy i) .hasexited = 0 then
          held = true ∧ pids.load (pids.guy i) .exitcv = 0
        else held = false ∧
          ∃ b ∈ pids.infos.v, pids.load b .pid = wpid ∧ pids.load b .hasexited ≠ 0

/-- How `pid_wait` ends once it has found the entry. -/
def waitEnd (pids : PidTable) (held : Bool) (tPid : Word) (info : Addr) :
    Outcome LockPanic (Except PidErr Unit) :=
  if pids.load info .parentPid = tPid then
    if held then .done (.error (.errno .EINVAL)) else .crash .deadlock
  else if pids.load info .hasexited = 0 then
    if pids.load info .exitcv = 0 then .crash .cvWaitNull
    else if held then .done (.ok ()) else .crash .deadlock
  else .done (.ok ())

/-- What it leaves then. -/
def waitLeaves (later pids : PidTable) (held : Bool) (tPid : Word) (info : Addr) : PidView :=
  if pids.load info .parentPid = tPid then ⟨pids, false, tPid, [(.lockRelease, held)]⟩
  else if pids.load info .hasexited = 0 then
    if pids.load info .exitcv = 0 then ⟨pids, held, tPid, [(.cvWait, held)]⟩
    else if held then ⟨later, true, tPid, [(.cvWait, held), (.lockRelease, held)]⟩
    else ⟨pids, held, tPid, [(.cvWait, held), (.lockRelease, held)]⟩
  else ⟨pids, held, tPid, []⟩

section
variable {pids : PidTable} {held : Bool} {tPid : Word} {c : PidRoutine} {v : PidView}

/-- How a routine ends need not be the same on every path, but whether it ends well is. -/
theorem respects_iff {P : Prop} (h : ∀ later script, ∃ out s,
      Prog.run (c.prog later) (PidView.start pids held tPid script) = (out, s) ∧
        (Disciplined c out s.mem ↔ P)) : Respects pids held tPid c ↔ P := by
  constructor
  · intro hr
    obtain ⟨out, s, hrun, hiff⟩ := h pids {}
    have := hr pids {}
    rw [hrun] at this
    exact hiff.1 this
  · intro hp later script
    obtain ⟨out, s, hrun, hiff⟩ := h later script
    rw [hrun]
    exact hiff.2 hp

/-- `pid_wait` has not just returned zero. -/
def NotZero (c : PidRoutine) (out : Outcome LockPanic (Except PidErr Unit)) : Prop :=
  ∀ wpid null flags, c = .wait wpid null flags → out ≠ .done (.ok ())

theorem NotZero.error {e : PidErr} : NotZero c (.done (.error e)) :=
  nofun

variable {r : Except PidErr Unit} {info : Addr} {status spid wpid flags : Word} {later : PidTable}
  {null : Bool}

/-- A routine that has returned. -/
theorem disciplined_returned (hcalls : ∀ e ∈ v.calls, e.2 = true) (hz : NotZero c (.done r)) :
    Disciplined c (.done r) v ↔ v.held = false := by
  constructor
  · exact fun h => h.returns r rfl
  · intro h
    exact
      { holding := hcalls
        returns := fun _ _ => h
        releases := nofun
        exited := fun _ _ _ hc hr => absurd hr (hz _ _ _ hc) }

/-- A routine that has come to an assertion, perhaps in a call that was made with the
lock held. -/
theorem disciplined_stopped {f : LockPanic} (hf : f ≠ .deadlock) :
    Disciplined c (.crash f) v ↔ ∀ e ∈ v.calls, e.2 = true := by
  constructor
  · exact fun h => h.holding
  · intro h
    exact
      { holding := h
        returns := nofun
        releases := fun hx => hf (Outcome.crash.inj hx)
        exited := fun _ _ _ _ hr => by cases hr }

theorem not_disciplined_deadlock : ¬ Disciplined c (.crash .deadlock) v :=
  fun h => h.releases rfl

theorem not_disciplined_held (h : v.held = true) : ¬ Disciplined c (.done r) v := fun hd => by
  rw [hd.returns r rfl] at h
  cases h

/-- There has been one call. -/
theorem holding_singleton (x : LockCall) : (∀ e ∈ [(x, held)], e.2 = true) ↔ held = true := by
  simp

/-! ## Routine by routine -/

theorem respects_create_iff {cv : Addr} {ppid : Word} :
    Respects pids held tPid (.create info cv ppid status) ↔
      Orderly pids held tPid (.create info cv ppid status) := by
  refine respects_iff fun later script => ?_
  by_cases hp : 0 ≤ ppid.toInt
  · obtain ⟨r, s, hrun, hend⟩ : ∃ r s, Prog.run
        ((PidRoutine.create info cv ppid status).prog later)
        (PidView.start pids held tPid script) = (.done r, s) ∧
          s.mem.calls = [] ∧ s.mem.held = held := by
      refine awp_run_done (t := ⟨fun _ => False, True, True⟩) (fun _ => id)
        (Q := fun _ (v : PidView) => v.calls = [] ∧ v.held = held) (fun _ => trivial)
        (awp_bind.2 (awp_bind.2 (awp_bind.2 (awp_pidCreate trivial (.inl hp) ?_ ?_ ?_))))
      · exact fun _ _ _ _ => ⟨rfl, rfl⟩
      · exact fun _ _ => ⟨rfl, rfl⟩
      · exact fun _ => ⟨rfl, rfl⟩
    refine ⟨_, s, hrun, ?_⟩
    rw [disciplined_returned (hend.1 ▸ List.forall_mem_nil _) (by rintro _ _ _ ⟨⟩), hend.2]
    exact ⟨fun h _ => h, fun h => h hp⟩
  · refine ⟨.crash .parent, PidView.start pids held tPid script, ?_, ?_⟩
    · show Prog.run ((Thread.pidCreate LockPanic.parent pids info cv ppid status >>= fun r =>
        Pidlock.setPids r.2 >>= fun _ => pure r.1) >>= fun r => pure (r.map fun _ => ())) _ = _
      rw [Thread.pidCreate, Prog.assert, if_neg hp]
      rfl
    · rw [disciplined_stopped (by decide)]
      exact iff_of_true (by rintro _ ⟨⟩) fun h => absurd h hp

theorem respects_destroy_iff {dpid : Word} :
    Respects pids held tPid (.destroy dpid) ↔ Orderly pids held tPid (.destroy dpid) := by
  refine respects_iff fun later script => ?_
  rw [Orderly]
  show ∃ out s, Prog.run (ExceptT.run (Thread.pidDestroy LockPanic.cvDestroyNull pids dpid >>=
    fun t => call (Pidlock.setPids t))) _ = (out, s) ∧ _
  rw [Thread.pidDestroy, findpid]
  cases pids.findpidindex dpid with
  | none => exact ⟨_, _, rfl, disciplined_returned (List.forall_mem_nil _) .error⟩
  | some i =>
    rw [pure_bind]
    by_cases hcv : pids.load (pids.guy i) .exitcv = 0
    · rw [Prog.assert, if_neg (not_not_intro hcv)]
      refine ⟨_, _, rfl, ?_⟩
      rw [disciplined_stopped (by decide)]
      exact iff_of_true (by rintro _ ⟨⟩) (absurd hcv)
    · rw [Prog.assert, if_pos hcv]
      refine ⟨_, _, rfl, ?_⟩
      rw [disciplined_returned (List.forall_mem_nil _) (by rintro _ _ _ ⟨⟩)]
      exact ⟨fun h _ => h, fun h => h hcv⟩

theorem respects_get_iff {gpid : Word} :
    Respects pids held tPid (.get gpid) ↔ Orderly pids held tPid (.get gpid) := by
  refine respects_iff fun later script => ?_
  show ∃ out s, Prog.run (ExceptT.run (Thread.pidGet pids gpid) >>=
    fun r => pure (r.map fun _ => ())) _ = (out, s) ∧ _
  rw [Thread.pidGet, findpid]
  cases pids.findpidindex gpid with
  | none => exact ⟨_, _, rfl, disciplined_returned (List.forall_mem_nil _) .error⟩
  | some i => exact ⟨_, _, rfl, disciplined_returned (List.forall_mem_nil _) (by rintro _ _ _ ⟨⟩)⟩

theorem respects_setexitstatus_iff : Respects pids held tPid (.setexitstatus spid status) ↔
      Orderly pids held tPid (.setexitstatus spid status) := by
  refine respects_iff fun later script => ?_
  show ∃ out s, Prog.run (ExceptT.run (Thread.pidSetexitstatus pids spid status >>=
    fun t => call (Pidlock.setPids t))) _ = (out, s) ∧ _
  rw [Thread.pidSetexitstatus, findpid]
  cases pids.findpidindex spid with
  | none => exact ⟨_, _, rfl, disciplined_returned (List.forall_mem_nil _) .error⟩
  | some i => exact ⟨_, _, rfl, disciplined_returned (List.forall_mem_nil _) (by rintro _ _ _ ⟨⟩)⟩

section
variable {later : PidTable} {spid hasexited : Word} {script : Script Empty}

theorem run_sethasexited :
    Prog.run ((PidRoutine.sethasexited spid hasexited).prog later)
        (PidView.start pids held tPid script) =
      Prog.run (ExceptT.run (findpid pids spid >>= fun i =>
        call (Pidlock.pidSethasexited.found (pids.guy i) hasexited)))
          (PidView.start pids held tPid script) := rfl

theorem run_sethasexited_none (hf : pids.findpidindex spid = none) :
    Prog.run ((PidRoutine.sethasexited spid hasexited).prog later)
        (PidView.start pids held tPid script) =
      (.done (.error .minusOne), PidView.start pids held tPid script) := by
  rw [run_sethasexited, findpid, hf]
  rfl

/-- The entry is marked, and the lock stays as it is. -/
theorem run_sethasexited_some {i : Nat} (hf : pids.findpidindex spid = some i) :
    ∃ s, Prog.run ((PidRoutine.sethasexited spid hasexited).prog later)
        (PidView.start pids held tPid script) =
      (if hasexited ≠ 0 ∧ pids.load (pids.guy i) .exitcv = 0 then .crash .cvBroadcastNull
        else .done (.ok ()), s) ∧
      s.mem = ⟨pids.store (pids.guy i) .hasexited hasexited, held, tPid,
        if hasexited = 0 then [] else [(.cvBroadcast, held)]⟩ := by
  rw [run_sethasexited, findpid, hf]
  rw [pure_bind]
  show ∃ s, Prog.run (Prog.bind (Pidlock.pidSethasexited.found (pids.guy i) hasexited)
    fun u => Prog.ret (Except.ok u)) _ = (_, s) ∧ _
  rw [Pidlock.pidSethasexited.found]
  by_cases hz : hasexited = 0
  · rw [if_neg (not_not_intro hz), if_neg (fun h => h.1 hz), if_pos hz]
    exact ⟨_, rfl, rfl⟩
  rw [if_pos hz, if_neg hz]
  show ∃ s, Prog.run (Prog.bind (Prog.assert ((pids.store (pids.guy i) .hasexited
    hasexited).load (pids.guy i) .exitcv ≠ 0) LockPanic.cvBroadcastNull)
    fun u => Prog.ret (Except.ok u)) _ = (_, s) ∧ _
  rw [PidTable.load_store_field (by decide), Prog.assert]
  by_cases hcv : pids.load (pids.guy i) .exitcv = 0
  · rw [if_neg (not_not_intro hcv), if_pos ⟨hz, hcv⟩]
    exact ⟨_, rfl, rfl⟩
  · rw [if_pos hcv, if_neg (fun h => hcv h.2)]
    exact ⟨_, rfl, rfl⟩

end

theorem respects_sethasexited_iff {hasexited : Word} :
    Respects pids held tPid (.sethasexited spid hasexited) ↔
      Orderly pids held tPid (.sethasexited spid hasexited) := by
  refine respects_iff fun later script => ?_
  rw [Orderly]
  cases hf : pids.findpidindex spid with
  | none =>
    exact ⟨_, _, run_sethasexited_none hf, disciplined_returned (List.forall_mem_nil _) .error⟩
  | some i =>
    obtain ⟨s, hrun, hs⟩ := run_sethasexited_some hf
    refine ⟨_, s, hrun, ?_⟩
    dsimp only
    rw [hs]
    by_cases hz : hasexited = 0
    · rw [if_neg (fun h => h.1 hz), if_pos hz, if_pos hz]
      exact disciplined_returned (List.forall_mem_nil _) nofun
    rw [if_neg hz, if_neg hz]
    by_cases hcv : pids.load (pids.guy i) .exitcv = 0
    · rw [if_pos ⟨hz, hcv⟩, disciplined_stopped (by decide)]
      exact (holding_singleton _).trans (and_iff_left hcv).symm
    · rw [if_neg (fun h => hcv h.2)]
      refine iff_of_false (fun hd => ?_) fun h => hcv h.2
      -- the lock is still as it was during the broadcast
      have hheld : held = true := (holding_singleton _).1 hd.holding
      exact absurd hd (not_disciplined_held hheld)

/-- `pid_wait` once it has found the entry. -/
theorem run_wait_found {script : Script Empty} :
    ∃ s, Prog.run (ExceptT.run (Pidlock.pidWait.found later info wpid) >>=
        fun r => pure (r.map fun _ => ())) (PidView.start pids held tPid script) =
      (waitEnd pids held tPid info, s) ∧ s.mem = waitLeaves later pids held tPid info := by
  rw [Pidlock.pidWait.found, waitEnd, waitLeaves]
  show ∃ s, Prog.run (ExceptT.run (if pids.load info .parentPid = tPid then
    call Pidlock.lockRelease >>= fun _ => throw (PidErr.errno .EINVAL)
    else if pids.load info .hasexited = 0 then
      call (Pidlock.cvWait later (pids.load info .exitcv)) >>= fun _ =>
        Pidlock.pidWait.deliver info wpid
    else Pidlock.pidWait.deliver info wpid) >>= fun r => pure (r.map fun _ => ())) _ = (_, s) ∧ _
  by_cases hpar : pids.load info .parentPid = tPid
  · rw [if_pos hpar, if_pos hpar, if_pos hpar]
    cases held <;> exact ⟨_, rfl, rfl⟩
  rw [if_neg hpar, if_neg hpar, if_neg hpar]
  by_cases hex : pids.load info .hasexited = 0
  · rw [if_pos hex, if_pos hex, if_pos hex, Pidlock.cvWait]
    by_cases hcv : pids.load info .exitcv = 0
    · rw [Prog.assert, if_neg (not_not_intro hcv), if_pos hcv, if_pos hcv]
      exact ⟨_, rfl, rfl⟩
    · rw [Prog.assert, if_pos hcv, if_neg hcv, if_neg hcv]
      cases held <;> exact ⟨_, rfl, rfl⟩
  · rw [if_neg hex, if_neg hex, if_neg hex]
    exact ⟨_, rfl, rfl⟩

section
variable {later : PidTable} {wpid : Word} {null : Bool} {flags : Word} {script : Script Empty}

theorem run_wait :
    Prog.run ((PidRoutine.wait wpid null flags).prog later) (PidView.start pids held tPid script) =
      Prog.run (ExceptT.run (if wpid = tPid then throw (.errno .EINVAL)
        else if flags ≠ 0 then throw (.errno .EINVAL)
        else if null = true then throw (.errno .EFAULT)
        else findpid pids wpid >>= fun i => Pidlock.pidWait.found later (pids.guy i) wpid) >>=
          fun r => pure (r.map fun _ => ())) (PidView.start pids held tPid script) := rfl

theorem run_wait_bad (h : wpid = tPid ∨ flags ≠ 0) :
    Prog.run ((PidRoutine.wait wpid null flags).prog later) (PidView.start pids held tPid script) =
      (.done (.error (.errno .EINVAL)), PidView.start pids held tPid script) := by
  rw [run_wait]
  by_cases hself : wpid = tPid
  · rw [if_pos hself]
    rfl
  · rw [if_neg hself, if_pos (h.resolve_left hself)]
    rfl

theorem run_wait_null (h1 : wpid ≠ tPid) (h2 : flags = 0) :
    Prog.run ((PidRoutine.wait wpid true flags).prog later) (PidView.start pids held tPid script) =
      (.done (.error (.errno .EFAULT)), PidView.start pids held tPid script) := by
  rw [run_wait, if_neg h1, if_neg (not_not_intro h2), if_pos rfl]
  rfl

theorem run_wait_none (h1 : wpid ≠ tPid) (h2 : flags = 0) (hf : pids.findpidindex wpid = none) :
    Prog.run ((PidRoutine.wait wpid false flags).prog later) (PidView.start pids held tPid script) =
      (.done (.error .minusOne), PidView.start pids held tPid script) := by
  rw [run_wait, if_neg h1, if_neg (not_not_intro h2), if_neg Bool.false_ne_true, findpid, hf]
  rfl

theorem run_wait_some {i : Nat} (h1 : wpid ≠ tPid) (h2 : flags = 0)
    (hf : pids.findpidindex wpid = some i) :
    ∃ s, Prog.run ((PidRoutine.wait wpid false flags).prog later)
        (PidView.start pids held tPid script) = (waitEnd pids held tPid (pids.guy i), s) ∧
      s.mem = waitLeaves later pids held tPid (pids.guy i) := by
  rw [run_wait, if_neg h1, if_neg (not_not_intro h2), if_neg Bool.false_ne_true, findpid, hf]
  rw [pure_bind]
  exact run_wait_found

end

theorem disciplined_wait_iff :
    Disciplined (.wait wpid null flags) (waitEnd pids held tPid info)
        (waitLeaves later pids held tPid info) ↔
      if pids.load info .parentPid = tPid then held = true
      else if pids.load info .hasexited = 0 then held = true ∧ pids.load info .exitcv = 0
      else held = false ∧
        ∃ b ∈ pids.infos.v, pids.load b .pid = wpid ∧ pids.load b .hasexited ≠ 0 := by
  rw [waitEnd, waitLeaves]
  by_cases hpar : pids.load info .parentPid = tPid
  · rw [if_pos hpar, if_pos hpar, if_pos hpar]
    -- the lock is given back
    cases held with
    | true =>
      refine iff_of_true ?_ rfl
      exact (disciplined_returned ((holding_singleton _).2 rfl) .error).2 rfl
    | false => exact iff_of_false not_disciplined_deadlock Bool.false_ne_true
  rw [if_neg hpar, if_neg hpar, if_neg hpar]
  by_cases hex : pids.load info .hasexited = 0
  · rw [if_pos hex, if_pos hex, if_pos hex]
    by_cases hcv : pids.load info .exitcv = 0
    · rw [if_pos hcv, if_pos hcv, disciplined_stopped (by decide)]
      exact (holding_singleton _).trans (and_iff_left hcv).symm
    · rw [if_neg hcv, if_neg hcv]
      -- the lock is there again when `cv_wait` returns
      cases held with
      | true => exact iff_of_false (not_disciplined_held rfl) fun h => hcv h.2
      | false => exact iff_of_false not_disciplined_deadlock fun h => hcv h.2
  · rw [if_neg hex, if_neg hex, if_neg hex]
    refine ⟨fun hd => ⟨hd.returns _ rfl, hd.exited wpid null flags rfl rfl⟩, fun h => ?_⟩
    exact
      { holding := List.forall_mem_nil _
        returns := fun _ _ => h.1
        releases := nofun
        exited := fun _ _ _ hc _ => by
          cases hc
          exact h.2 }

theorem respects_wait_iff : Respects pids held tPid (.wait wpid null flags) ↔
      Orderly pids held tPid (.wait wpid null flags) := by
  refine respects_iff fun later script => ?_
  by_cases hbad : wpid = tPid ∨ flags ≠ 0
  · rw [Orderly, if_pos (hbad.imp_right .inl)]
    exact ⟨_, _, run_wait_bad hbad, disciplined_returned (List.forall_mem_nil _) .error⟩
  obtain ⟨h1, h2⟩ := not_or.1 hbad
  rw [not_not] at h2
  cases null with
  | true =>
    rw [Orderly, if_pos (.inr (.inr rfl))]
    exact ⟨_, _, run_wait_null h1 h2, disciplined_returned (List.forall_mem_nil _) .error⟩
  | false =>
    rw [Orderly, if_neg (by simp [h1, h2])]
    cases hf : pids.findpidindex wpid with
    | none =>
      exact ⟨_, _, run_wait_none h1 h2 hf, disciplined_returned (List.forall_mem_nil _) .error⟩
    | some i =>
      obtain ⟨s, hrun, hs⟩ := run_wait_some h1 h2 hf
      exact ⟨_, s, hrun, hs ▸ disciplined_wait_iff⟩

end

/-- The boot thread and its child, over memory in which the search sees their
pids. -/
def familyPids : PidTable :=
  { bootPids.fill 200 1 0 60 with
    infos := (KArray.empty.push 100).push 200
    nextpid := 3 }

/-- Exactly these calls keep to the protocol on every path. -/
theorem pid_protocol_iff (pids : PidTable) (held : Bool) (tPid : Word) (c : PidRoutine) :
    Respects pids held tPid c ↔ Orderly pids held tPid c := by
  cases c with
  | create info cv ppid status => exact respects_create_iff
  | destroy dpid => exact respects_destroy_iff
  | get gpid => exact respects_get_iff
  | wait wpid null flags => exact respects_wait_iff
  | setexitstatus spid status => exact respects_setexitstatus_iff
  | sethasexited spid hasexited => exact respects_sethasexited_iff

/-- Nobody holds the lock and a status is set; the parent waits with the lock. -/
theorem pid_protocol_kept :
    Respects familyPids false 1 (.setexitstatus 1 0) ∧ Respects familyPids true 1
      (.wait 2 false 0) :=
  ⟨(pid_protocol_iff _ _ _ _).2 rfl, (pid_protocol_iff _ _ _ _).2 rfl⟩

/-- Nobody holds the lock. The parent that waits for its child runs into the panic, and so
does a stranger; a process that exits broadcasts without the lock. -/
theorem pid_protocol_broken :
    ¬ Respects familyPids false 1 (.wait 2 false 0) ∧
      ¬ Respects familyPids false 3 (.wait 2 false 0) ∧
      ¬ Respects familyPids false 2 (.sethasexited 2 1) ∧
      (Prog.run ((PidRoutine.wait 2 false 0).prog familyPids)
        (PidView.start familyPids false 1 {})).1 = .crash .deadlock := by
  rw [respects_wait_iff, respects_wait_iff, respects_sethasexited_iff]
  exact ⟨Bool.false_ne_true, fun h => Bool.false_ne_true h.1, fun h => Bool.false_ne_true h.1, rfl⟩

/-! ## The kernel's side -/

section
variable {k : Kernel} {t : Addr} {later : PidTable} {pid flags : Word}

/-- What the running thread sees of `pidlock`. -/
def Kernel.holdsPidlock (k : Kernel) (t : Addr) : Bool := k.locks k.pidlock = some t

/-- The value that `sys_waitpid` hands to its caller. -/
def waitCode : Except PidErr Unit → Word
  | .ok () => 0
  | .error e => e.code

/-- A panic of `lock_release` in `pid_wait` is one of the kernel. -/
theorem sysWaitpid_deadlock (hcur : k.curthread = some t)
    (h : (Prog.run ((PidRoutine.wait pid false flags).prog later)
      (PidView.start k.pids (k.holdsPidlock t) (k.threads t).tPid {})).1 = .crash .deadlock)
    (script : Script Empty) : (Prog.run (sysWaitpid pid flags) (k.machine script)).1 =
      .crash (.releaseDeadlock k.pidlock) := by
  have hlock : k.holdsPidlock t ≠ true → k.locks k.pidlock ≠ k.curthread := fun hno hmine =>
    hno (decide_eq_true (hmine.trans hcur))
  have hend : ∀ {i}, pid ≠ (k.threads t).tPid → flags = 0 → k.pids.findpidindex pid = some i →
      waitEnd k.pids (k.holdsPidlock t) (k.threads t).tPid (k.pids.guy i) = .crash .deadlock :=
    fun h1 h2 hi => by rwa [(run_wait_some h1 h2 hi).choose_spec.1] at h
  have hawp : awp ⟨fun f => f = .releaseDeadlock k.pidlock, True, True⟩ (sysWaitpid pid flags)
      (fun _ _ => False) k := by
    refine awp_sysWaitpid_cases hcur (fun hb => ?_) (fun h1 h2 hn => ?_)
      (fun i h1 h2 hi hpar hex => ?_) (fun i h1 h2 hi hpar => ?_) fun i h1 h2 hi hpar hex => ?_
    · rw [run_wait_bad hb] at h
      cases h
    · rw [run_wait_none h1 h2 hn] at h
      cases h
    · have h := hend h1 h2 hi
      rw [waitEnd, if_neg hpar, if_neg hex] at h
      cases h
    · have h := hend h1 h2 hi
      rw [waitEnd, if_pos hpar] at h
      split at h
      · cases h
      · exact awp_lockRelease_deadlock (hlock ‹_›) rfl
    · have h := hend h1 h2 hi
      rw [waitEnd, if_neg hpar, if_pos hex] at h
      split at h
      · cases h
      split at h
      · cases h
      · exact awp_cvWait_deadlock (hlock ‹_›) rfl
  exact awp_run_crash (s := k.machine script) hawp

/-- When `sys_waitpid` returns without having slept, `pid_wait` has returned that, and it has
left the lock so. -/
theorem awp_sysWaitpid_returns (hcur : k.curthread = some t) :
    awp anyTerms (sysWaitpid pid flags) (fun d k' => ∀ v, d.ret = .waitpid pid v →
      ∃ r s, Prog.run ((PidRoutine.wait pid false flags).prog later)
        (PidView.start k.pids (k.holdsPidlock t) (k.threads t).tPid {}) = (.done r, s) ∧
          v = waitCode r ∧ (k'.locks k.pidlock = some t ↔ s.mem.held = true)) k := by
  have hheld : ∀ k' : Kernel, k'.locks k.pidlock = k.locks k.pidlock →
      (k'.locks k.pidlock = some t ↔ k.holdsPidlock t = true) := fun k' hk => by
    rw [hk]
    exact decide_eq_true_iff.symm
  refine awp_sysWaitpid_cases hcur (fun hb v hv => ?_) (fun h1 h2 hf v hv => ?_)
    (fun i h1 h2 hf hpar hex v hv => ?_) (fun i h1 h2 hf hpar => ?_) fun i _ _ _ _ _ => ?_
  · cases hv
    exact ⟨_, _, run_wait_bad hb, rfl, hheld k rfl⟩
  · cases hv
    exact ⟨_, _, run_wait_none h1 h2 hf, rfl, hheld k rfl⟩
  · cases hv
    obtain ⟨s, hrun, hs⟩ := run_wait_some h1 h2 hf
    rw [waitEnd, if_neg hpar, if_neg hex] at hrun
    rw [waitLeaves, if_neg hpar, if_neg hex] at hs
    refine ⟨_, s, hrun, rfl, ?_⟩
    rw [hs]
    exact hheld k rfl
  · refine awp_lockRelease (a := Scope.any) lenient_any (.inl easy_any) hcur trivial
      fun k' _ hlock _ hfree _ _ v hv => ?_
    cases hv
    obtain ⟨s, hrun, hs⟩ := run_wait_some h1 h2 hf
    have hmine : k.holdsPidlock t = true := (hheld k rfl).1 (hlock.trans hcur)
    rw [waitEnd, if_pos hpar, if_pos hmine] at hrun
    rw [waitLeaves, if_pos hpar] at hs
    refine ⟨_, s, hrun, rfl, ?_⟩
    rw [hs, hfree]
    exact iff_of_false (Option.some_ne_none t).symm Bool.false_ne_true
  · exact awp_mono awp_cvWait_ret fun d k' hd v hv => absurd hv (hd _ _)

/-- In the kernel `pid_wait` ends as it ends alone: with the same panic, or, if it has not slept,
with the same result and `pidlock` held or free as there. -/
theorem sysWaitpid_refines_pid_wait (hcur : k.curthread = some t) (script : Script Empty) :
    ((Prog.run ((PidRoutine.wait pid false flags).prog later)
        (PidView.start k.pids (k.holdsPidlock t) (k.threads t).tPid {})).1 = .crash .deadlock →
      (Prog.run (sysWaitpid pid flags) (k.machine script)).1 =
        .crash (.releaseDeadlock k.pidlock)) ∧
    ∀ d s' v, Prog.run (sysWaitpid pid flags) (k.machine script) = (.done d, s') →
      d.ret = .waitpid pid v → ∃ r s, Prog.run ((PidRoutine.wait pid false flags).prog later)
        (PidView.start k.pids (k.holdsPidlock t) (k.threads t).tPid {}) = (.done r, s) ∧
          v = waitCode r ∧ (s'.mem.locks k.pidlock = some t ↔ s.mem.held = true) := by
  refine ⟨fun h => sysWaitpid_deadlock hcur h script, fun d s' v hrun hv => ?_⟩
  have hends := awp_run (s := k.machine script) (fun _ => trivial)
    (@awp_sysWaitpid_returns k t later pid flags hcur)
  rw [hrun] at hends
  exact hends.1 v hv

end

/-- A parent that has not taken `pidlock` waits for its child. -/
theorem sysWaitpid_refines_pid_wait_unlocked :
    (Prog.run (sysWaitpid 2 0) (((Kernel.boot 100 familyPids).onThread 100 fun t =>
      { t with tPid := 1 }).machine {})).1 = .crash (.releaseDeadlock 0) :=
  (@sysWaitpid_refines_pid_wait _ 100 familyPids 2 0 rfl {}).1 rfl

end Os161.Thread
