import Os161.Proofs.Pid

/-!
# How long pids are unique

Whatever `findpidindex` sees behind the entries, the routines of `pid.c` do one
of two things to the pids in the table: `pid_create` appends `nextpid` and
moves on, everything else leaves a sublist of them. So the pids stay in their
range, and they stay distinct exactly as long as `nextpid` is not in use when
`pid_create` comes to give it away.

Nothing sees to that. `nextpid` goes from the largest pid back to one, and the
first process may still be there. A process table that is never larger than two
entries gets there by starting and ending one process after the other
(`pid_given_twice`).
-/

namespace Os161.Thread

open Os161.Kern Os161.Lib

/-- The pids in the table, in its order. -/
def PidTable.pids (t : PidTable) : List Word := t.infos.v.map fun a => t.load a .pid

/-- PID_MIN. -/
def pidMin : Nat := 1

/-- PID_MAX. -/
def pidMax : Nat := 2147483647

/-! ## One call -/

def PidCall.IsCreate : PidCall → Prop
  | create _ _ _ _ => True
  | _ => False

/-- What a call does to the pids. -/
def PidMoves (t : PidTable) (c : PidCall) (ans : PidAnswer) (t' : PidTable) : Prop :=
  t'.infos.v.Pairwise Apart ∧
    ((c.IsCreate ∧ ans = .created t.nextpid ∧ t'.pids = t.pids ++ [t.nextpid] ∧
        t'.nextpid = PidTable.advance t.nextpid) ∨
      ((∀ p, ans ≠ .created p) ∧ t'.pids.Sublist t.pids ∧ t'.nextpid = t.nextpid))

/-- Anything but a success of `pid_create`, with the entries as they were. -/
theorem PidMoves.still {t t' : PidTable} {c : PidCall} {ans : PidAnswer}
    (h : t.infos.v.Pairwise Apart)
    (hans : ∀ p, ans ≠ .created p) (hn : t'.nextpid = t.nextpid) (hv : t'.infos.v = t.infos.v)
    (hl : ∀ a ∈ t.infos.v, t'.load a .pid = t.load a .pid) : PidMoves t c ans t' := by
  have hpids : t'.pids = t.pids := by
    rw [PidTable.pids, PidTable.pids, hv]
    exact List.map_congr_left hl
  refine ⟨by rw [hv]; exact h, .inr ⟨hans, ?_, hn⟩⟩
  rw [hpids]

/-- A panic may stop the call, and the allocator does what it likes. -/
def lenient : Terms PidPanic := ⟨fun _ => True, True, True⟩

section
variable {t : PidTable} {p : Word}

theorem mem_of_findpidindex {i : Nat} (h : t.findpidindex p = some i) : t.guy i ∈ t.infos.v := by
  obtain ⟨hi, -, -⟩ := List.findIdx?_eq_some_iff_getElem.1 h
  rw [PidTable.guy, List.getD_eq_getElem?_getD, List.getElem?_eq_getElem hi, Option.getD_some]
  exact List.getElem_mem hi

/-- The search, whatever it finds. -/
theorem awp_answer_findpid {X : Type} {body : Nat → ExceptT PidErr PidProg X}
    {k : X → PidProg PidAnswer} {Q : PidAnswer → PidTable → Prop} (hnone : Q (.error .minusOne) t)
    (hsome : ∀ i, t.guy i ∈ t.infos.v → awpE lenient (body i) (fun x t' => match x with
      | .ok x => awp lenient (k x) Q t'
      | .error e => Q (.error e) t') t) :
    awp lenient (answer (findpid t p >>= body) k) Q t := by
  apply awp_answer
  rw [findpid]
  cases hi : t.findpidindex p with
  | none => exact hnone
  | some i => exact hsome i (mem_of_findpidindex hi)

variable {c : PidCall} {info : Addr}

section
variable (h : t.infos.v.Pairwise Apart)
include h

/-- A field other than the pid is set in one of the entries. -/
theorem PidMoves.store {f : Field} (hf : f ≠ .pid) {a : Addr}
    (ha : a ∈ t.infos.v) (w : Word) : PidMoves t c .done (t.store a f w) := by
  refine PidMoves.still h (by simp) rfl rfl ?_
  intro b hb
  rcases PidTable.eq_or_apart h ha hb with rfl | hab
  · exact PidTable.load_store_field hf
  · exact PidTable.load_store_apart hab

theorem PidMoves.remove (i : Nat) : PidMoves t c .done { t with infos := t.infos.remove i } :=
  ⟨h.sublist (List.eraseIdx_sublist _ _), .inr ⟨by simp, (List.eraseIdx_sublist _ _).map _, rfl⟩⟩

theorem PidMoves.fill (hh : ∀ b ∈ t.infos.v, Apart info b) (ppid status exitcv : Word) {e : PidErr}
    : PidMoves t c (.error e) (t.fill info ppid status exitcv) :=
  PidMoves.still h (by simp) rfl rfl fun b hb => PidTable.load_fill_apart (hh b hb) _ _ _ _

theorem PidMoves.add (hh : ∀ b ∈ t.infos.v, Apart info b)
    (ppid status exitcv : Word) {infos : KArray Addr} (hv : infos.v = t.infos.v ++ [info])
    (hc : c.IsCreate) : PidMoves t c (.created t.nextpid) { t.fill info ppid status exitcv with
      infos := infos, nextpid := PidTable.advance t.nextpid } := by
  constructor
  · show infos.v.Pairwise Apart
    rw [hv, List.pairwise_append]
    refine ⟨h, List.pairwise_singleton _ _, fun b hb c hc => ?_⟩
    rw [List.mem_singleton.1 hc]
    exact (hh b hb).symm
  · refine .inl ⟨hc, rfl, ?_, rfl⟩
    show infos.v.map (fun a => (t.fill info ppid status exitcv).load a .pid) = _
    rw [hv, List.map_append, List.map_singleton, (t.load_fill info ppid status exitcv).1]
    congr 1
    exact List.map_congr_left fun b hb => PidTable.load_fill_apart (hh b hb) _ _ _ _

theorem PidCall.awp_moves (hh : c.Honest t) :
    awp lenient c.prog (PidMoves t c) t := by
  cases c with
  | create info cv ppid status =>
    apply awp_bind.2
    apply awp_bind.2
    refine awp_pidCreate trivial (.inr trivial) ?_ ?_ ?_
    · intro exitcv infos hv _
      exact PidMoves.add h hh ppid status exitcv hv trivial
    · intro exitcv _
      exact PidMoves.fill h hh ppid status exitcv
    · intro _
      exact PidMoves.still h (by simp) rfl rfl fun _ _ => rfl
  | destroy p =>
    apply awp_bind.2
    apply awp_answer_findpid
    · exact PidMoves.still h (by simp) rfl rfl fun _ _ => rfl
    · intro i _
      exact awpE_call_bind.2 (awp_assert_of trivial fun _ => PidMoves.remove h i)
  | get p =>
    apply awp_bind.2
    apply awp_answer_findpid
    · exact PidMoves.still h (by simp) rfl rfl fun _ _ => rfl
    · intro i _
      exact PidMoves.still h (by simp) rfl rfl fun _ _ => rfl
  | setexitstatus p status =>
    apply awp_bind.2
    apply awp_answer_findpid
    · exact PidMoves.still h (by simp) rfl rfl fun _ _ => rfl
    · intro i hmem
      exact PidMoves.store h (by decide) hmem status
  | sethasexited p hasexited =>
    apply awp_bind.2
    apply awp_answer_findpid
    · exact PidMoves.still h (by simp) rfl rfl fun _ _ => rfl
    · intro i hmem
      have hstore := PidMoves.store h (f := .hasexited) (by decide) hmem hasexited
        (c := .sethasexited p hasexited)
      apply awpE_call_bind.2
      rw [exitBroadcast]
      split
      · exact awp_bind.2 (awp_assert_of trivial fun _ => hstore)
      · exact hstore
  | elsewhere a w =>
    refine PidMoves.still h (by simp) rfl rfl ?_
    intro b hb
    exact PidTable.load_outside (hh b hb)

/-- What a call that returns has done. -/
theorem PidCall.run_moves (hh : c.Honest t) {script : Script Empty}
    {ans : PidAnswer} {s : Machine PidTable Empty Unit Empty}
    (hr : c.prog.run (t.machine script) = (.done ans, s)) : PidMoves t c ans s.mem := by
  have hends := awp_run (s := t.machine script) (fun _ => trivial) (c.awp_moves h hh)
  rw [hr] at hends
  exact hends.1

end

end

/-! ## Runs -/

/-- The tables that calls lead to, if each of them meets the condition `ok` when
it is made. -/
inductive PidRun (ok : PidTable → PidCall → Prop) (mem : Addr → Word) : PidTable → Prop
  | start : PidRun ok mem (PidTable.pidInitialize mem)
  | call {t : PidTable} (h : PidRun ok mem t) (c : PidCall) (hh : c.Honest t) (hok : ok t c)
      (script : Script Empty) {ans : PidAnswer} {s : Machine PidTable Empty Unit Empty}
      (hc : c.prog.run (t.machine script) = (.done ans, s)) : PidRun ok mem s.mem

/-- The pids that are in use or come next, as numbers. -/
def InRange (w : Word) : Prop := pidMin ≤ w.toNat ∧ w.toNat < pidMax

theorem InRange.advance {w : Word} (h : InRange w) : InRange (PidTable.advance w) := by
  obtain ⟨h1, h2⟩ := h
  rw [pidMin] at h1
  rw [pidMax] at h2
  have hadd : (w + 1).toNat = w.toNat + 1 := by
    rw [BitVec.toNat_add]
    simp
    omega
  rw [PidTable.advance]
  split
  · exact ⟨by decide, by decide⟩
  · next hne =>
    have hne' : (w + 1).toNat ≠ 2147483647 := fun he => hne (BitVec.eq_of_toNat_eq he)
    exact ⟨by rw [hadd, pidMin]; omega, by rw [hadd, pidMax]; omega⟩

section
variable {ok : PidTable → PidCall → Prop} {mem : Addr → Word} {t : PidTable}

theorem PidRun.apart (h : PidRun ok mem t) : t.infos.v.Pairwise Apart := by
  induction h with
  | start => exact List.Pairwise.nil
  | call _ c hh _ script hc ih => exact (PidCall.run_moves ih hh hc).1

theorem PidRun.inRange (h : PidRun ok mem t) : InRange t.nextpid ∧ ∀ p ∈ t.pids, InRange p := by
  induction h with
  | start => exact ⟨⟨Nat.le_refl 1, show 1 < pidMax by decide⟩, nofun⟩
  | call h c hh _ script hc ih =>
    obtain ⟨hnext, hpids⟩ := ih
    obtain ⟨-, hm⟩ := PidCall.run_moves h.apart hh hc
    rcases hm with ⟨-, -, hp, hn⟩ | ⟨-, hp, hn⟩
    · rw [hp, hn]
      refine ⟨hnext.advance, fun p hmem => ?_⟩
      rcases List.mem_append.1 hmem with hmem | hmem
      · exact hpids p hmem
      · rw [List.mem_singleton.1 hmem]
        exact hnext
    · rw [hn]
      exact ⟨hnext, fun p hmem => hpids p (hp.subset hmem)⟩

end

/-- The pid that `pid_create` gives away next is not in use. -/
def PidCall.Unused (t : PidTable) : PidCall → Prop
  | create _ _ _ _ => t.nextpid ∉ t.pids
  | _ => True

theorem nodup_concat_iff {l : List Word} {w : Word} (h : l.Nodup) : (l ++ [w]).Nodup ↔ w ∉ l := by
  rw [List.nodup_append]
  simp [h]
  constructor
  · intro hne hw
    exact hne w hw rfl
  · intro hw a ha he
    rw [he] at ha
    exact hw ha

theorem PidRun.nodup {mem : Addr → Word} {t : PidTable}
    (h : PidRun (fun t c => c.Unused t) mem t) : t.pids.Nodup := by
  induction h with
  | start => exact List.nodup_nil
  | call h c hh hok script hc ih =>
    obtain ⟨-, hm⟩ := PidCall.run_moves h.apart hh hc
    rcases hm with ⟨hcreate, -, hp, -⟩ | ⟨-, hp, -⟩
    · rw [hp, nodup_concat_iff ih]
      cases c with
      | create info cv ppid status => exact hok
      | _ => exact hcreate.elim
    · exact ih.sublist hp

/-- In every run the pids are in their range. A `pid_create` that succeeds returns
`nextpid`, and the pids are distinct afterwards exactly if that was not in the
table; so they are distinct along every run in which it never is. -/
theorem live_pids_unique (mem : Addr → Word) :
    (∀ (ok : PidTable → PidCall → Prop) (t : PidTable), PidRun ok mem t →
      ∀ p ∈ t.pids, pidMin ≤ p.toNat ∧ p.toNat ≤ pidMax) ∧
    (∀ (ok : PidTable → PidCall → Prop) (t : PidTable), PidRun ok mem t → t.pids.Nodup →
      ∀ (c : PidCall) (script : Script Empty) (p : Word)
        (s : Machine PidTable Empty Unit Empty), c.Honest t →
        c.prog.run (t.machine script) = (.done (.created p), s) →
        p = t.nextpid ∧ (s.mem.pids.Nodup ↔ c.Unused t) ∧ (p ∉ t.pids ↔ c.Unused t)) ∧
    ∀ t : PidTable, PidRun (fun t c => c.Unused t) mem t → t.pids.Nodup := by
  refine ⟨fun ok t h p hp => ?_, fun ok t h hn c script p s hh hr => ?_, fun t h => h.nodup⟩
  · obtain ⟨h1, h2⟩ := h.inRange.2 p hp
    exact ⟨h1, Nat.le_of_lt h2⟩
  · obtain ⟨-, hm⟩ := PidCall.run_moves h.apart hh hr
    rcases hm with ⟨hcreate, hans, hp, -⟩ | ⟨hans, -, -⟩
    · have hpn : p = t.nextpid := by
        injection hans
      have hunused : t.nextpid ∉ t.pids ↔ c.Unused t := by
        cases c with
        | create info cv ppid status => exact Iff.rfl
        | _ => exact hcreate.elim
      rw [hp, hpn]
      exact ⟨rfl, (nodup_concat_iff hn).trans hunused, hunused⟩
    · exact absurd rfl (hans p)

/-- The first process, and the second. -/
theorem live_pids_unique_two :
    ∃ t, PidRun (fun t c => c.Unused t) (fun _ => 0) t ∧ t.pids = [1, 2] ∧ t.pids.Nodup := by
  have hrun : ∃ t, PidRun (fun t c => c.Unused t) (fun _ => 0) t ∧ t.pids = [1, 2] := by
    refine ⟨_, (PidRun.start.call (.create 100 200 0 0) ?_ ?_ {} rfl).call
      (.create 300 400 1 0) ?_ ?_ {} rfl, rfl⟩
    · intro b hb
      cases hb
    · exact List.not_mem_nil
    · intro b hb
      rw [List.mem_singleton.1 hb]
      exact .inr (by decide)
    · show (2 : Word) ∉ [1]
      decide
  obtain ⟨t, h, hp⟩ := hrun
  exact ⟨t, h, hp, (live_pids_unique _).2.2 t h⟩

/-! ## A pid that is given twice

The first process stays, and others come and go: each is created, the kernel
happens to leave its pid where the search looks for it, and it is destroyed. -/

/-- The first process is alone, and `k` comes next. -/
structure Lone (t : PidTable) (k : Word) : Prop where
  infos : t.infos.v = [100]
  max : t.infos.max = 2
  pid : t.load 100 .pid = 1
  sees : t.mem (100 + tPidOffset) = 1
  next : t.nextpid = k

/-- Every call is allowed. -/
abbrev AnyPidRun : PidTable → Prop := PidRun (fun _ _ => True) (fun a => if a = 180 then 1 else 0)

theorem Lone.start : ∃ t, AnyPidRun t ∧ Lone t 2 := by
  refine ⟨_, PidRun.start.call (.create 100 200 0 0) ?_ trivial {} rfl, rfl, rfl, rfl, rfl, rfl⟩
  intro b hb
  cases hb

theorem run_destroy {t : PidTable} {p : Word} {i : Nat} (hi : t.findpidindex p = some i)
    (hcv : t.load (t.guy i) .exitcv ≠ 0) :
    ∃ ans s, (PidCall.destroy p).prog.run (t.machine {}) = (.done ans, s) ∧
      s.mem = { t with infos := t.infos.remove i } := by
  refine awp_run_done (t := strict) (s := t.machine {}) (Q := fun _ t' => t' = _)
    (fun _ hf => hf) (fun _ => trivial) ?_
  apply awp_bind.2
  apply awp_answer
  rw [pidDestroy, findpid, PidTable.machine, hi]
  exact awpE_call_bind.2 (awp_assert.2 ⟨fun _ => rfl, fun hn => hn hcv⟩)

/-- One process comes and goes. -/
theorem Lone.round {t : PidTable} {k : Word} (h : AnyPidRun t) (ht : Lone t k) (hk : k ≠ 1) :
    ∃ t', AnyPidRun t' ∧ Lone t' (PidTable.advance k) := by
  obtain ⟨next, ⟨v, max, hle⟩, mem⟩ := t
  obtain ⟨hv, hmax, hpid, hsees, hnext⟩ := ht
  dsimp only at hv hmax hnext hsees
  subst hv hmax hnext
  -- the entry is put at 300, and the word at 380 is the one that the search reads
  obtain ⟨t', h', hnew⟩ : ∃ t' : PidTable, AnyPidRun t' ∧ t' = ⟨PidTable.advance next,
      ⟨[100, 300], 2, Nat.le_refl 2⟩, Function.update
        (PidTable.fill ⟨next, ⟨[100], 2, hle⟩, mem⟩ 300 1 0 500).mem 380 next⟩ := by
    have h1 := h.call (.create 300 500 1 0) (fun b hb => by
      rw [List.mem_singleton.1 hb]
      exact .inr (by decide)) trivial {} rfl
    have h2 := h1.call (.elsewhere 380 next) (fun b hb => by
      rcases List.mem_cons.1 hb with rfl | hb
      · exact .inr (by decide)
      · rw [List.mem_singleton.1 hb]
        exact .inr (by decide)) trivial {} rfl
    exact ⟨_, h2, rfl⟩
  have hinfos : t'.infos.v = [100, 300] := by rw [hnew]
  have h180 : t'.mem 180 = 1 := by rw [hnew]; exact hsees
  have h380 : t'.mem 380 = next := by rw [hnew]; rfl
  have h316 : t'.load 300 .exitcv = 500 := by rw [hnew]; rfl
  have hfind : t'.findpidindex next = some 1 := by
    have hne : (t'.mem (100 + tPidOffset) == next) = false := by
      rw [beq_eq_false_iff_ne]
      exact fun he => hk (he.symm.trans h180)
    have heq : (t'.mem (300 + tPidOffset) == next) = true := beq_iff_eq.2 h380
    rw [PidTable.findpidindex, hinfos]
    simp [List.findIdx?_cons, hne, heq]
  have hguy : t'.guy 1 = 300 := by rw [PidTable.guy, hinfos]; rfl
  obtain ⟨ans, s, hr, hs⟩ := run_destroy hfind (by rw [hguy, h316]; decide)
  refine ⟨s.mem, h'.call (.destroy next) trivial trivial {} hr, ?_⟩
  rw [hs, hnew]
  exact ⟨rfl, rfl, hpid, hsees, rfl⟩

/-- It can go on until the pids are used up. -/
theorem Lone.reach (n : Nat) (hn : n < 2147483645) :
    ∃ t, AnyPidRun t ∧ Lone t (BitVec.ofNat 32 (n + 2)) := by
  induction n with
  | zero => exact Lone.start
  | succ n ih =>
    obtain ⟨t, h, ht⟩ := ih (by omega)
    have hk : BitVec.ofNat 32 (n + 2) ≠ 1 := by
      intro he
      have := congrArg BitVec.toNat he
      simp at this
      omega
    obtain ⟨t', h', ht'⟩ := Lone.round h ht hk
    refine ⟨t', h', ?_⟩
    have hadd : BitVec.ofNat 32 (n + 2) + 1 = BitVec.ofNat 32 (n + 1 + 2) := by
      rw [show n + 1 + 2 = (n + 2) + 1 by omega]
      exact (BitVec.ofNat_add (n + 2) 1).symm
    have hadv : PidTable.advance (BitVec.ofNat 32 (n + 2)) = BitVec.ofNat 32 (n + 1 + 2) := by
      rw [PidTable.advance, hadd, if_neg]
      intro he
      have := congrArg BitVec.toNat he
      simp at this
      omega
    rwa [hadv] at ht'

/-- The first process is still there when `nextpid` is one again. -/
theorem Lone.around : ∃ t, AnyPidRun t ∧ Lone t 1 := by
  obtain ⟨t, h, ht⟩ := Lone.reach 2147483644 (by decide)
  exact Lone.round h ht (by decide)

/-- After 2147483646 processes have been created, of which only the first one is
left, `pid_create` returns the pid of that one. -/
theorem pid_given_twice :
    ∃ t, AnyPidRun t ∧ 1 ∈ t.pids ∧
      ∃ s, (PidCall.create 300 500 1 0).prog.run (t.machine {}) = (.done (.created 1), s) ∧
        s.mem.pids = [1, 1] := by
  obtain ⟨t, h, ht⟩ := Lone.around
  obtain ⟨next, ⟨v, max, hle⟩, mem⟩ := t
  obtain ⟨hv, hmax, hpid, hsees, hnext⟩ := ht
  dsimp only at hv hmax hnext
  subst hv hmax hnext
  refine ⟨_, h, ?_, _, rfl, ?_⟩
  · show (1 : Word) ∈ [PidTable.load _ 100 .pid]
    rw [hpid]
    exact List.mem_cons_self
  · show [PidTable.load _ 100 .pid, 1] = [1, 1]
    exact congrArg (fun w => [w, 1]) hpid

end Os161.Thread
