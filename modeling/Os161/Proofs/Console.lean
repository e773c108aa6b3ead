import Os161.Dev.Console
import Os161.Lib.Headcount

/-!
# One character at a time

`cs_wsem` has one token. It is in the semaphore, or with the thread that is about to
write, or the port has it while `ls_wbusy`, or `lser_irq` does on the way from one to
the other. That the port gives it back once only is `Port.Fits`: a character is on its
way or has been reported ready, and not both, exactly while somebody waits for it.

The characters that come in have no such token.
-/

namespace Os161.Dev

open Os161.Lib

/-! ## Writing -/

/-- The token that `lser_irq` has taken from the port and not given to `cs_wsem`. -/
def Cpu.owes : Cpu → Nat
  | .irqAck => 1
  | .irqRead true => 1
  | .irqChar true => 1
  | .irqReadAck true _ => 1
  | .irqStart true _ => 1
  | _ => 0

/-- A character has been sent or reported ready. -/
def Port.Sent (p : Port) : Prop := p.sending = 1 ∧ p.wirq = false ∨ p.sending = 0 ∧ p.wirq = true

def Port.Quiet (p : Port) : Prop := p.sending = 0 ∧ p.wirq = false

/-- It has been reported ready. -/
def Port.Done (p : Port) : Prop := p.sending = 0 ∧ p.wirq = true

/-- The port, as far as the processor has come. -/
def Console.Fits (c : Console) : Cpu → Prop
  | .irqAck => c.lsWbusy = false ∧ c.port.Done
  | .spin _ => c.lsWbusy = true ∧ c.port.Sent
  | .spinAck _ => c.lsWbusy = true ∧ c.port.Done
  | .send irqpending _ => c.lsWbusy = irqpending ∧ c.port.Quiet
  | .finish irqpending => c.lsWbusy = irqpending ∧ c.port.Sent
  | .finishAck => c.lsWbusy = false ∧ c.port.Done
  | cpu => if c.lsWbusy then c.port.Sent ∧ cpu.owes = 0 else c.port.Quiet

/-- The token, when no thread has it. -/
def Console.tokens (c : Console) (cpu : Cpu) : Nat := c.csWsem + c.lsWbusy.toNat + cpu.owes

/-- The characters the port still has to give a token back for. -/
def Console.pending (c : Console) (cpu : Cpu) : Nat := c.started + c.lsWbusy.toNat + cpu.owes

theorem Port.Sent.done {p : Port} (h : p.Sent) (hready : p.wirq = true) : p.Done := by
  rcases h with ⟨-, hno⟩ | hdone
  · rw [hno] at hready
    cases hready
  · exact hdone

/-- One access of the processor. -/
theorem Cpu.next_spec {cpu cpu' : Cpu} {c c' : Console} (h : cpu.next c = some (cpu', c'))
    (hfits : c.Fits cpu) :
    c'.Fits cpu' ∧ c'.tokens cpu' = c.tokens cpu ∧ c'.pending cpu' = c.pending cpu ∧
      c'.written = c.written := by
  cases cpu with
  | idle => cases h
  | irq =>
    by_cases hready : c.port.wirq = true
    · rw [Cpu.next, if_pos hready] at h
      cases h
      -- ready, so that somebody waits
      cases hbusy : c.lsWbusy with
      | true =>
        simp only [Console.Fits, hbusy, if_true] at hfits
        exact ⟨⟨rfl, hfits.1.done hready⟩, by simp [Console.tokens, Cpu.owes, hbusy],
          by simp [Console.pending, Cpu.owes, hbusy], rfl⟩
      | false =>
        simp [Console.Fits, hbusy, Port.Quiet, hready] at hfits
    · rw [Cpu.next, if_neg hready] at h
      cases h
      exact ⟨hfits, rfl, rfl, rfl⟩
  | irqAck =>
    cases h
    obtain ⟨hbusy, hzero, -⟩ := hfits
    refine ⟨?_, rfl, rfl, rfl⟩
    simp [Console.Fits, Console.ackWrite, hbusy, Port.Quiet, hzero]
  | irqRead clearToWrite =>
    by_cases hread : c.port.rirq = true
    · rw [Cpu.next, if_pos hread] at h
      cases h
      cases clearToWrite <;> exact ⟨hfits, rfl, rfl, rfl⟩
    · rw [Cpu.next, if_neg hread] at h
      cases h
      cases clearToWrite <;> exact ⟨hfits, rfl, rfl, rfl⟩
  | irqChar clearToWrite =>
    cases h
    cases clearToWrite <;> exact ⟨hfits, rfl, rfl, rfl⟩
  | irqReadAck clearToWrite ch =>
    cases h
    cases clearToWrite <;> exact ⟨hfits, rfl, rfl, rfl⟩
  | irqStart clearToWrite gotARead =>
    cases h
    cases clearToWrite with
    | true =>
      -- the token goes over to `cs_wsem`
      cases hbusy : c.lsWbusy with
      | true => simp [Console.Fits, Cpu.owes, hbusy] at hfits
      | false =>
        simp [Console.Fits, Cpu.owes, Console.conStart, Console.tokens, Console.pending, hbusy]
          at hfits ⊢
        exact hfits
    | false => exact ⟨hfits, rfl, rfl, rfl⟩
  | irqInput gotARead =>
    cases h
    cases gotARead <;> exact ⟨hfits, rfl, rfl, rfl⟩
  | polled ch =>
    cases hbusy : c.lsWbusy with
    | true =>
      simp only [Cpu.next, hbusy, if_true] at h
      cases h
      simp only [Console.Fits, hbusy, if_true] at hfits
      exact ⟨⟨hbusy, hfits.1⟩, rfl, rfl, rfl⟩
    | false =>
      simp only [Cpu.next, hbusy] at h
      cases h
      simp only [Console.Fits, hbusy] at hfits
      exact ⟨⟨hbusy, hfits⟩, rfl, rfl, rfl⟩
  | spin ch =>
    by_cases hready : c.port.wirq = true
    · rw [Cpu.next, if_pos hready] at h
      cases h
      exact ⟨⟨hfits.1, hfits.2.done hready⟩, rfl, rfl, rfl⟩
    · rw [Cpu.next, if_neg hready] at h
      cases h
      exact ⟨hfits, rfl, rfl, rfl⟩
  | spinAck ch =>
    cases h
    exact ⟨⟨hfits.1, hfits.2.1, rfl⟩, rfl, rfl, rfl⟩
  | send irqpending ch =>
    cases h
    obtain ⟨hbusy, hzero, hno⟩ := hfits
    exact ⟨⟨hbusy, .inl ⟨congrArg (· + 1) hzero, hno⟩⟩, rfl, rfl, rfl⟩
  | finish irqpending =>
    by_cases hready : c.port.wirq = true
    · rw [Cpu.next, if_pos hready] at h
      cases h
      obtain ⟨hbusy, hsent⟩ := hfits
      cases irqpending with
      | true => exact ⟨by simp [Console.Fits, Cpu.owes, hbusy, hsent], rfl, rfl, rfl⟩
      | false => exact ⟨⟨hbusy, hsent.done hready⟩, rfl, rfl, rfl⟩
    · rw [Cpu.next, if_neg hready] at h
      cases h
      exact ⟨hfits, rfl, rfl, rfl⟩
  | finishAck =>
    cases h
    obtain ⟨hbusy, hzero, -⟩ := hfits
    exact ⟨by simp [Console.Fits, Console.ackWrite, hbusy, Port.Quiet, hzero], rfl, rfl, rfl⟩

/-- The port goes on by itself. -/
theorem Console.Fits.port {c : Console} {cpu : Cpu} {p : Port} (h : c.Fits cpu)
    (hquiet : c.port.Quiet → p.Quiet) (hdone : c.port.Done → p.Done)
    (hsent : c.port.Sent → p.Sent) : Console.Fits { c with port := p } cpu := by
  have hrest : ∀ o, (if c.lsWbusy then c.port.Sent ∧ o else c.port.Quiet) →
      if c.lsWbusy then p.Sent ∧ o else p.Quiet := by
    intro o
    cases c.lsWbusy with
    | true => exact fun h => ⟨hsent h.1, h.2⟩
    | false => exact hquiet
  cases cpu with
  | irqAck | spinAck | finishAck => exact ⟨h.1, hdone h.2⟩
  | spin | finish => exact ⟨h.1, hsent h.2⟩
  | send => exact ⟨h.1, hquiet h.2⟩
  | idle | irq | irqRead | irqChar | irqReadAck | irqStart | irqInput | polled => exact hrest _ h

namespace ConSystem

variable {ι : Type} [DecidableEq ι] {s s' : ConSystem ι}

/-- The thread has the token. -/
def Sends (_ : ι) : ConPc → Prop
  | .putch _ => True
  | _ => False

structure Inv (s : ConSystem ι) : Prop where
  calm : s.panicked = false
  fits : s.console.Fits s.cpu
  token : ∃ n, Headcount Sends s.pc n ∧ s.console.tokens s.cpu + n = 1
  counted : s.console.written.length = s.console.pending s.cpu

theorem Inv.step (h : s.Inv) (hstep : s.Step s') : s'.Inv := by
  obtain ⟨n, hn, htoken⟩ := h.token
  have hfits := h.fits
  have hcount := h.counted
  cases hstep with
  | waitWrite i ch hcpu hpc hsem =>
    refine ⟨h.calm, hfits, ⟨n + 1, hn.enters (by rw [hpc]; exact id) trivial, ?_⟩, hcount⟩
    simp only [goes, Console.tokens] at htoken ⊢
    omega
  | @write i ch c hcpu hpc hw =>
    have hin : Sends i (s.pc i) := by
      rw [hpc]
      trivial
    have hpos := hn.pos hin
    cases hbusy : s.console.lsWbusy with
    | true => simp [Console.lserWrite, hbusy] at hw
    | false =>
      simp only [Console.lserWrite, hbusy] at hw
      cases hw
      simp only [hcpu, Console.Fits, Console.tokens, Console.pending, Cpu.owes, hbusy]
        at hfits htoken hcount
      refine ⟨h.calm, ?_, ⟨n - 1, hn.leaves hin id, ?_⟩, ?_⟩
      · simp [goes, hcpu, Console.Fits, Console.putChar, Port.Sent, Cpu.owes, hfits.1, hfits.2]
      · simp only [goes, hcpu, Console.tokens, Console.putChar, Cpu.owes]
        simp at htoken ⊢
        omega
      · simp [goes, hcpu, Console.pending, Console.putChar, Cpu.owes] at hcount ⊢
        omega
  | panic i hcpu hpc hw =>
    have hin : Sends i (s.pc i) := by
      rw [hpc]
      trivial
    have hpos := hn.pos hin
    cases hbusy : s.console.lsWbusy with
    | true =>
      -- the thread has the token, and the port cannot have it too
      simp only [Console.tokens, hbusy, Bool.toNat_true] at htoken
      omega
    | false => simp [Console.lserWrite, hbusy] at hw
  | waitRead i hcpu hpc hsem =>
    exact ⟨h.calm, hfits, ⟨n, hn.stays (by rw [hpc]; exact Iff.rfl), htoken⟩, hcount⟩
  | read i hcpu hpc =>
    exact ⟨h.calm, hfits, ⟨n, hn.stays (by rw [hpc]; exact Iff.rfl), htoken⟩, hcount⟩
  | interrupt hcpu =>
    rw [hcpu] at hfits htoken hcount
    exact ⟨h.calm, hfits, ⟨n, hn, htoken⟩, hcount⟩
  | printPolled ch hcpu =>
    rw [hcpu] at hfits htoken hcount
    exact ⟨h.calm, hfits, ⟨n, hn, htoken⟩, hcount⟩
  | next hnext =>
    obtain ⟨hfits', htoken', hcount', hsame⟩ := Cpu.next_spec hnext hfits
    refine ⟨h.calm, hfits', ⟨n, hn, ?_⟩, ?_⟩
    · dsimp only
      rw [htoken', htoken]
    · dsimp only
      rw [hsame, hcount', hcount]
  | ready hsending =>
    refine ⟨h.calm, hfits.port ?_ ?_ ?_, ⟨n, hn, htoken⟩, hcount⟩
    · intro hquiet
      exact absurd hquiet.1 hsending
    · intro hdone
      exact absurd hdone.1 hsending
    · rintro (⟨hone, -⟩ | ⟨hzero, -⟩)
      · exact .inr ⟨by simp [hone], rfl⟩
      · exact absurd hzero hsending
  | typed ch => exact ⟨h.calm, hfits.port id id id, ⟨n, hn, htoken⟩, hcount⟩

omit [DecidableEq ι] in
theorem Inv.initial : (ConSystem.initial : ConSystem ι).Inv :=
  ⟨rfl, ⟨rfl, rfl⟩, ⟨0, .zero fun _ h => h, rfl⟩, rfl⟩

theorem Inv.of_reachable (h : s.Reachable) : s.Inv := by
  induction h with
  | refl => exact .initial
  | tail _ hstep ih => exact ih.step hstep

/-- In every state of every run the token is in one place: in `cs_wsem`, with one thread on
its way to `lser_write`, with the port, or in the hands of `lser_irq`, which has cleared
`ls_wbusy` and is about to call `con_start`. So `lser_write` finds the port free, and
`con_start` is called once for each of its characters. -/
theorem write_token (h : s.Reachable) :
    s.panicked = false ∧
    (∀ i ch, s.pc i = .putch ch → s.console.lserWrite ch ≠ none) ∧
    (∃ n : ℕ, {i | ∃ ch, s.pc i = .putch ch}.encard = n ∧
      s.console.csWsem + n + s.console.lsWbusy.toNat + s.cpu.owes = 1) ∧
    s.console.written.length =
      s.console.started + s.console.lsWbusy.toNat + s.cpu.owes := by
  have hinv := Inv.of_reachable h
  obtain ⟨n, hn, htoken⟩ := hinv.token
  have hset : {i | ∃ ch, s.pc i = .putch ch} = {i | Sends i (s.pc i)} := by
    ext i
    cases hpc : s.pc i <;> simp [Sends, hpc]
  unfold Console.tokens at htoken
  refine ⟨hinv.calm, ?_, ⟨n, hset ▸ hn, by omega⟩, hinv.counted⟩
  intro i ch hpc hpanic
  have hpos := hn.pos (i := i) (by rw [hpc]; trivial)
  cases hbusy : s.console.lsWbusy with
  | true =>
    rw [hbusy, Bool.toNat_true] at htoken
    omega
  | false => simp [Console.lserWrite, hbusy] at hpanic

/-- A thread has written a character. -/
theorem write_token_one_char :
    ∃ s : ConSystem Unit, s.Reachable ∧ s.console.written = [97] ∧ s.console.lsWbusy = true ∧
      s.panicked = false ∧ s.console.written.length =
        s.console.started + s.console.lsWbusy.toNat + s.cpu.owes := by
  have h : ∃ s : ConSystem Unit, s.Reachable ∧ s.console.written = [97] ∧
      s.console.lsWbusy = true :=
    ⟨_, (Relation.ReflTransGen.refl.tail (.waitWrite () 97 rfl rfl (by decide))).tail
      (.write () rfl rfl rfl), rfl, rfl⟩
  obtain ⟨s, hs, hwritten, hbusy⟩ := h
  have hall := write_token hs
  exact ⟨s, hs, hwritten, hbusy, hall.1, hall.2.2.2⟩

/-! ## Reading -/

/-- The thread has been let through for a character. -/
def Gets (_ : ι) (pc : ConPc) : Prop := pc = .getch

/-- The last character is waited for by nobody else, and has not been returned. -/
structure Reads (s : ConSystem ι) (n : ℕ) : Prop where
  threads : Headcount Gets s.pc n
  none : s.console.csRsem + n = 0 → s.console.returned.Sublist s.console.received
  one : s.console.csRsem + n = 1 →
    (s.console.returned ++ [s.console.csGotchar]).Sublist s.console.received
  le : s.console.csRsem + n ≤ 1

/-- A character that comes in finds that the one before has been returned. -/
def Calm (s : ConSystem ι) : Prop :=
  ∀ ch, s.cpu = .irqInput (some ch) → s.console.csRsem = 0 ∧ ∀ i, s.pc i ≠ .getch

/-- Only `con_input` touches the variables of `getch`. -/
theorem next_read {cpu cpu' : Cpu} {c c' : Console} (h : cpu.next c = some (cpu', c')) :
    (∃ ch, cpu = .irqInput (some ch) ∧ c' = c.conInput ch) ∨
      c'.csRsem = c.csRsem ∧ c'.csGotchar = c.csGotchar ∧ c'.received = c.received ∧
        c'.returned = c.returned := by
  cases cpu with
  | idle => cases h
  | irqInput gotARead =>
    cases h
    cases gotARead with
    | none => exact .inr ⟨rfl, rfl, rfl, rfl⟩
    | some ch => exact .inl ⟨ch, rfl, rfl⟩
  | irqStart clearToWrite gotARead =>
    cases h
    cases clearToWrite <;> exact .inr ⟨rfl, rfl, rfl, rfl⟩
  | irqAck | irqChar | irqReadAck | spinAck | send | finishAck =>
    cases h
    exact .inr ⟨rfl, rfl, rfl, rfl⟩
  | irq | irqRead | polled | spin | finish =>
    right
    simp only [Cpu.next] at h
    split at h <;> cases h <;> exact ⟨rfl, rfl, rfl, rfl⟩

theorem Reads.step {n : ℕ} (h : s.Reads n) (hcalm : s.Calm) (hstep : s.Step s') :
    ∃ n, s'.Reads n := by
  obtain ⟨hn, hnone, hone, hle⟩ := h
  cases hstep with
  | waitWrite i ch hcpu hpc hsem =>
    exact ⟨n, hn.stays (by rw [hpc]; simp [Gets]), hnone, hone, hle⟩
  | @write i ch c hcpu hpc hw =>
    have hc : c.csRsem = s.console.csRsem ∧ c.csGotchar = s.console.csGotchar ∧
        c.received = s.console.received ∧ c.returned = s.console.returned := by
      unfold Console.lserWrite at hw
      split at hw <;> cases hw
      exact ⟨rfl, rfl, rfl, rfl⟩
    refine ⟨n, hn.stays (by rw [hpc]; simp [Gets]), ?_, ?_, ?_⟩ <;>
      simp only [goes, hc] <;> assumption
  | panic i hcpu hpc hw => exact ⟨n, hn, hnone, hone, hle⟩
  | waitRead i hcpu hpc hsem =>
    -- the character goes from the semaphore to the thread
    have hsum : s.console.csRsem - 1 + (n + 1) = s.console.csRsem + n := by omega
    refine ⟨n + 1, hn.enters (by rw [hpc]; simp [Gets]) rfl, ?_, ?_, ?_⟩ <;>
      simp only [goes, hsum] <;> assumption
  | read i hcpu hpc =>
    have hpos := hn.pos (i := i) hpc
    refine ⟨n - 1, hn.leaves hpc (by simp [Gets]), fun _ => ?_, fun hsum => ?_, ?_⟩
    · exact hone (by omega)
    · simp only [goes, Console.getchar] at hsum
      omega
    · simp only [goes, Console.getchar]
      omega
  | interrupt hcpu => exact ⟨n, hn, hnone, hone, hle⟩
  | printPolled ch hcpu => exact ⟨n, hn, hnone, hone, hle⟩
  | next hnext =>
    rcases next_read hnext with ⟨ch, hcpu, rfl⟩ | hc
    · obtain ⟨hsem, hget⟩ := hcalm ch hcpu
      have hzero := hn.eq_zero hget
      subst hzero
      refine ⟨0, hn, fun hsum => ?_, fun _ => ?_, ?_⟩
      · exact absurd hsum (by simp [Console.conInput])
      · exact (hnone (by omega)).append (.refl [ch])
      · simp [Console.conInput, hsem]
    · refine ⟨n, hn, ?_, ?_, ?_⟩ <;> simp only [hc] <;> assumption
  | ready hsending => exact ⟨n, hn, hnone, hone, hle⟩
  | typed ch => exact ⟨n, hn, hnone, hone, hle⟩

/-- If each character that comes in finds the one before returned, no character is returned
twice, and they are returned in their order. -/
theorem returned_sublist
    (h : Relation.ReflTransGen (fun s s' : ConSystem ι => s.Calm ∧ s.Step s') initial s) :
    s.console.returned.Sublist s.console.received := by
  have hreads : ∃ n, s.Reads n := by
    induction h with
    | refl => exact ⟨0, .zero (fun i hi => by cases hi), fun _ => .refl _, nofun, Nat.zero_le 1⟩
    | tail _ hstep ih =>
      obtain ⟨n, hn⟩ := ih
      exact hn.step hstep.1 hstep.2
  obtain ⟨n, hn⟩ := hreads
  rcases Nat.eq_zero_or_pos (s.console.csRsem + n) with hzero | hpos
  · exact hn.none hzero
  · exact (List.sublist_append_left ..).trans (hn.one (Nat.le_antisymm hn.le hpos))

/-- A character comes in and is passed on to the console. -/
def hears (s : ConSystem ι) (ch : Int) : ConSystem ι :=
  { s with console := Console.conInput { s.console with
      port.rirq := false, port.char := ch } ch }

/-- The steps of `lser_irq` for it. -/
theorem steps_hears {R : ConSystem ι → ConSystem ι → Prop} (hcpu : s.cpu = .idle)
    (hready : s.console.port.wirq = false) (ch : Int)
    (hR : ∀ {s1 s2 : ConSystem ι}, s1.pc = s.pc → s1.console.csRsem = s.console.csRsem →
      s1.Step s2 → R s1 s2) : Relation.ReflTransGen R s (s.hears ch) := by
  have hirq : Cpu.next .irq (s.typed ch).console = some (.irqRead false, (s.typed ch).console) := by
    simp [Cpu.next, typed, hready]
  have hpass : s.hears ch = { s with cpu := .idle, console := (s.hears ch).console } := by
    rw [← hcpu]
    rfl
  refine .head (hR rfl rfl (.typed ch)) (.head (hR rfl rfl (.interrupt hcpu)) ?_)
  refine .head (hR rfl rfl (.next hirq)) (.head (hR rfl rfl (.next rfl)) ?_)
  refine .head (hR rfl rfl (.next rfl)) (.head (hR rfl rfl (.next rfl)) ?_)
  refine .head (hR rfl rfl (.next rfl)) (.head (hR rfl rfl (.next rfl)) ?_)
  rw [hpass]
  exact .refl

/-- Two characters come in before the first is read, and the second is read twice. -/
theorem returned_twice :
    ∃ s : ConSystem Unit, s.Reachable ∧ s.console.received = [97, 98] ∧
      s.console.returned = [98, 98] ∧ ¬ s.console.returned.Sublist s.console.received := by
  have hheard : ((ConSystem.initial : ConSystem Unit).hears 97 |>.hears 98).Reachable :=
    (steps_hears rfl rfl 97 fun _ _ h => h).trans (steps_hears rfl rfl 98 fun _ _ h => h)
  exact ⟨_, (((hheard.tail (.waitRead () rfl rfl (by decide))).tail (.read () rfl rfl)).tail
    (.waitRead () rfl rfl (by decide))).tail (.read () rfl rfl), rfl, rfl, by decide⟩

/-- Two characters, each read before the next one comes in. -/
theorem returned_sublist_two :
    ∃ s : ConSystem Unit,
      Relation.ReflTransGen (fun s s' => s.Calm ∧ s.Step s') initial s ∧
      s.console.returned = [97, 98] ∧ s.console.returned.Sublist s.console.received := by
  have hears : ∀ {s : ConSystem Unit}, s.cpu = .idle → s.console.port.wirq = false → ∀ ch,
      s.console.csRsem = 0 → s.pc () = .idle →
      Relation.ReflTransGen (fun s s' => s.Calm ∧ s.Step s') s (s.hears ch) := by
    intro s hcpu hready ch hsem hpc
    refine steps_hears hcpu hready ch fun hpcs hrsem hstep =>
      ⟨fun _ _ => ⟨hrsem.trans hsem, ?_⟩, hstep⟩
    intro i
    rw [hpcs, hpc]
    nofun
  have hidle : ∀ {s : ConSystem Unit}, s.cpu = .idle → s.Calm := by
    intro s hcpu ch hirq
    rw [hcpu] at hirq
    cases hirq
  have h1 := hears (s := initial) rfl rfl 97 rfl rfl
  have h2 := (h1.tail ⟨hidle rfl, .waitRead () rfl rfl (by decide)⟩).tail
    ⟨hidle rfl, .read () rfl rfl⟩
  have h3 := h2.trans (hears rfl rfl 98 rfl rfl)
  have h4 := (h3.tail ⟨hidle rfl, .waitRead () rfl rfl (by decide)⟩).tail
    ⟨hidle rfl, .read () rfl rfl⟩
  exact ⟨_, h4, rfl, returned_sublist h4⟩

end ConSystem

end Os161.Dev
