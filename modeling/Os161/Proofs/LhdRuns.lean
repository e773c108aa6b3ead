import Os161.Dev.Lhd
import Os161.Lib.Headcount

/-!
# Requests do not mix

A call that has passed `P(lh_clear)` is the only one that has, so the registers, the
buffer, `lh_result` and `lh_done` are its own until it lets go. `Busy` says what it finds
there, access by access; `Out` is what is known of a call that is not there, and speaks
of nothing shared. A step of the holder, of the card or of the interrupt handler is thus
a matter of one `Busy` alone.
-/

namespace Os161.Dev

open Os161.Kern Os161.Lib Function

/-- `lh_clear` has been taken. -/
def LhdPc.Held : LhdPc → Prop
  | .call => False
  | .clear _ => False
  | .returned _ => False
  | _ => True

section Calls

variable {ι : Type}

/-- The first `n` sectors of a request have been dealt with. -/
structure Request.Did (r : Request) (n : Nat) (ops : List (Op ι)) (got : List Block) : Prop where
  sectors : ops.map Op.sector = (List.range n).map r.sectorAt
  ok : ∀ op ∈ ops, op.code = .LHD_OK ∧ op.rw = r.rw
  source : r.rw = .UIO_WRITE → ops.map (fun op => .ok op.data) = (List.range n).map r.source
  sink : r.rw = .UIO_READ → got = ops.map Op.data

/-- An operation on its sector `n`. -/
structure Request.Made (r : Request) (n : Nat) (op : Op ι) : Prop where
  sector : op.sector = r.sectorAt n
  rw : op.rw = r.rw
  source : r.rw = .UIO_WRITE → r.source n = .ok op.data

/-- As many sectors as have been tried, and the last one may have failed. -/
def Request.Tried (r : Request) (ops : List (Op ι)) : Prop :=
  ∃ n ≤ r.len.toNat, ops.map Op.sector = (List.range n).map r.sectorAt

variable {r : Request} {n k : Nat} {ops : List (Op ι)} {got : List Block} {op : Op ι}
  {dBlocks : UInt32}

theorem Request.Did.tried (h : r.Did n ops got) (hn : n ≤ r.len.toNat) : r.Tried ops :=
    ⟨n, hn, h.sectors⟩

theorem Request.Did.made (h : r.Did n ops got) (hop : r.Made n op) :
    (ops ++ [op]).map Op.sector = (List.range (n + 1)).map r.sectorAt := by
  rw [List.range_succ, List.map_append, List.map_append, h.sectors]
  simp [hop.sector]

theorem Request.Did.succ {got' : List Block} (h : r.Did n ops got) (hop : r.Made n op)
    (hok : op.code = .LHD_OK) (hgot : r.rw = .UIO_READ → got' = got ++ [op.data]) :
    r.Did (n + 1) (ops ++ [op]) got' where
  sectors := h.made hop
  ok := by
    intro op' hop'
    rcases List.mem_append.1 hop' with hmem | hmem
    · exact h.ok op' hmem
    · rw [List.mem_singleton] at hmem
      subst hmem
      exact ⟨hok, hop.rw⟩
  source hrw := by
    rw [List.range_succ, List.map_append, List.map_append, h.source hrw]
    simp [hop.source hrw]
  sink hrw := by
    rw [hgot hrw, h.sink hrw]
    simp

/-- What is known of a call outside. -/
def Request.Out (r : Request) (ops : List (Op ι)) (got : List Block) : LhdPc → Prop
  | .call => r.Did 0 ops got
  | .clear k => k < r.len.toNat ∧ r.Did k ops got
  | .returned none => r.Did r.len.toNat ops got
  | .returned (some _) => r.Tried ops
  | _ => True

theorem Request.next_not_held : ¬ (r.next k).Held := by
  unfold Request.next
  split <;> exact id

theorem Request.enter_not_held : ¬ (r.enter dBlocks).Held := by
  unfold Request.enter
  split
  · exact id
  · split
    · exact id
    · exact next_not_held

/-- The loop goes on, or all sectors have been done. -/
theorem Request.Did.next (h : r.Did k ops got) (hk : k ≤ r.len.toNat) :
    r.Out ops got (r.next k) := by
  unfold Request.next
  split
  · rename_i hlt
    exact ⟨hlt, h⟩
  · rename_i hge
    obtain rfl : k = r.len.toNat := Nat.le_antisymm hk (Nat.not_lt.1 hge)
    exact h

theorem Request.Did.enter (h : r.Did 0 ops got) : r.Out ops got (r.enter dBlocks) := by
  have htried : r.Tried ops := h.tried (Nat.zero_le _)
  unfold Request.enter
  split
  · exact htried
  · split
    · exact htried
    · exact h.next (Nat.zero_le _)

/-- What belongs to the call that has `lh_clear`. -/
structure Desk (ι : Type) where
  card : Card ι
  lhDone : Nat
  lhResult : Option Errno
  got : ι → List Block
  log : List (Op ι)

def LhdSystem.desk (s : LhdSystem ι) : Desk ι := ⟨s.card, s.lhDone, s.lhResult, s.got, s.log⟩

namespace Desk

/-- Nothing is under way at the card. -/
def Rests (d : Desk ι) : Prop := d.card.stat = .LHD_IDLE ∧ d.lhDone = 0

variable [DecidableEq ι]

/-- The last operation of the card is the one of call `i` on sector `k`, and the buffer is as it
has left it. -/
structure Ended (d : Desk ι) (r : Request) (i : ι) (k : Nat) (op : Op ι) : Prop where
  before : ∃ ops, opsOf i d.log = ops ++ [op] ∧ r.Did k ops (d.got i)
  last : d.log.getLast? = some op
  made : r.Made k op
  buf : op.code = .LHD_OK → d.card.buf = op.data

theorem Ended.owner {d : Desk ι} {i : ι}
    (h : d.Ended r i k op) : op.owner = i := by
  obtain ⟨ops, hops, -⟩ := h.before
  have hmem : op ∈ opsOf i d.log := by
    rw [hops]
    exact List.mem_append_right _ List.mem_cons_self
  simpa using (List.mem_filter.1 hmem).2

theorem Ended.tried {d : Desk ι} {i : ι}
    (h : d.Ended r i k op) (hk : k < r.len.toNat) : r.Tried (opsOf i d.log) := by
  obtain ⟨ops, hops, hdid⟩ := h.before
  refine ⟨k + 1, hk, ?_⟩
  rw [hops]
  exact hdid.made h.made

/-- How far the operation has come that a call waits for. -/
inductive Awaits (d : Desk ι) (r : Request) (i : ι) (k : Nat) : Prop where
  | working : r.Did k (opsOf i d.log) (d.got i) → d.card.stat = .LHD_WORKING i r.rw →
      d.lhDone = 0 → d.card.sect = r.sectorAt k →
      (r.rw = .UIO_WRITE → r.source k = .ok d.card.buf) → Awaits d r i k
  | finished (op : Op ι) : d.Ended r i k op → d.card.stat = .finished op.code →
      d.lhDone = 0 → Awaits d r i k
  | reported (op : Op ι) : d.Ended r i k op → d.card.stat = .LHD_IDLE → d.lhDone = 1 →
      d.lhResult = lhdCodeToErrno op.code → Awaits d r i k

/-- What the call that has `lh_clear` finds. -/
def Busy (d : Desk ι) (r : Request) (i : ι) : LhdPc → Prop
  | .fill k => k < r.len.toNat ∧ r.Did k (opsOf i d.log) (d.got i) ∧ d.Rests ∧ r.rw = .UIO_WRITE
  | .refused _ => r.Tried (opsOf i d.log) ∧ d.Rests
  | .sect k => k < r.len.toNat ∧ r.Did k (opsOf i d.log) (d.got i) ∧ d.Rests ∧
      (r.rw = .UIO_WRITE → r.source k = .ok d.card.buf)
  | .stat k => k < r.len.toNat ∧ r.Did k (opsOf i d.log) (d.got i) ∧ d.Rests ∧
      (r.rw = .UIO_WRITE → r.source k = .ok d.card.buf) ∧ d.card.sect = r.sectorAt k
  | .done k => k < r.len.toNat ∧ d.Awaits r i k
  | .result k => k < r.len.toNat ∧ d.Rests ∧
      ∃ op, d.Ended r i k op ∧ d.lhResult = lhdCodeToErrno op.code
  | .drain k => k < r.len.toNat ∧ d.Rests ∧ r.rw = .UIO_READ ∧
      ∃ op, d.Ended r i k op ∧ op.code = .LHD_OK
  | .release k none => k < r.len.toNat ∧ d.Rests ∧ r.Did (k + 1) (opsOf i d.log) (d.got i)
  | .release _ (some _) => r.Tried (opsOf i d.log) ∧ d.Rests
  | _ => True

end Desk

namespace LhdSystem

variable [DecidableEq ι]

structure Inv (req : ι → Request) (s : LhdSystem ι) : Prop where
  clear : ∃ n, Headcount (fun _ pc => LhdPc.Held pc) s.pc n ∧ s.lhClear + n = 1
  out : ∀ i, (req i).Out (opsOf i s.log) (s.got i) (s.pc i)
  busy : ∀ i, s.desk.Busy (req i) i (s.pc i)
  rests : (∀ i, ¬ (s.pc i).Held) → s.desk.Rests

variable {req : ι → Request} {s s' : LhdSystem ι} {i : ι} {x : LhdPc}

theorem Inv.out_at (h : s.Inv req) (hpc : s.pc i = x) :
    (req i).Out (opsOf i s.log) (s.got i) x := by
  rw [← hpc]
  exact h.out i

theorem Inv.busy_at (h : s.Inv req) (hpc : s.pc i = x) : s.desk.Busy (req i) i x := by
  rw [← hpc]
  exact h.busy i

/-- The one call that has `lh_clear`. -/
theorem Inv.alone (h : s.Inv req) (hi : (s.pc i).Held) {j : ι} (hj : j ≠ i) : ¬ (s.pc j).Held := by
  obtain ⟨n, hn, hsum⟩ := h.clear
  have hpos := hn.pos (i := i) hi
  obtain rfl : n = 1 := by omega
  exact fun hheld => hj (hn.unique hheld hi)

/-- A call that is out knows of nothing but its own operations. -/
theorem busy_of_not_held {d : Desk ι} (hx : ¬ x.Held) : d.Busy r i x := by
  cases x <;> first | trivial | exact absurd trivial hx

/-- The call that has `lh_clear` goes on, with the card or without it. -/
theorem Inv.holder (h : s.Inv req) (hi : (s.pc i).Held) (hpc : s'.pc = update s.pc i x)
    (hops : ∀ j, j ≠ i → opsOf j s'.log = opsOf j s.log) (hgot : ∀ j, j ≠ i → s'.got j = s.got j)
    (hout : (req i).Out (opsOf i s'.log) (s'.got i) x) (hbusy : s'.desk.Busy (req i) i x)
    (hclear : x.Held ∧ s'.lhClear = s.lhClear ∨
      ¬ x.Held ∧ s'.lhClear = s.lhClear + 1 ∧ s'.desk.Rests) : s'.Inv req where
  clear := by
    obtain ⟨n, hn, hsum⟩ := h.clear
    have hpos := hn.pos (i := i) hi
    rw [hpc]
    rcases hclear with ⟨hx, heq⟩ | ⟨hx, heq, -⟩
    · exact ⟨n, hn.stays ⟨fun _ => hi, fun _ => hx⟩, by omega⟩
    · exact ⟨n - 1, hn.leaves hi hx, by omega⟩
  out j := by
    rw [hpc]
    by_cases hj : j = i
    · subst hj
      rw [update_self]
      exact hout
    · rw [update_of_ne hj, hops j hj, hgot j hj]
      exact h.out j
  busy j := by
    rw [hpc]
    by_cases hj : j = i
    · subst hj
      rw [update_self]
      exact hbusy
    · rw [update_of_ne hj]
      exact busy_of_not_held (h.alone hi hj)
  rests hno := by
    rcases hclear with ⟨hx, -⟩ | ⟨-, -, hrests⟩
    · have hxi := hno i
      rw [hpc, update_self] at hxi
      exact absurd hx hxi
    · exact hrests

/-- It keeps `lh_clear`, and no operation ends. -/
theorem Inv.keeps {y : LhdPc} (h : s.Inv req) (hpc : s.pc i = y) (hy : y.Held)
    (hpc' : s'.pc = update s.pc i x) (hlog : s'.log = s.log)
    (hgot : ∀ j, j ≠ i → s'.got j = s.got j) (hclear : s'.lhClear = s.lhClear) (hx : x.Held)
    (hbusy : s'.desk.Busy (req i) i x) : s'.Inv req := by
  refine h.holder (hpc ▸ hy) hpc' (fun _ _ => by rw [hlog]) hgot ?_ hbusy (.inl ⟨hx, hclear⟩)
  cases x <;> trivial

/-- A call outside goes on to another place outside. -/
theorem Inv.outside (h : s.Inv req) (hi : ¬ (s.pc i).Held) (hx : ¬ x.Held)
    (hout : (req i).Out (opsOf i s.log) (s.got i) x) : (s.goes i x).Inv req where
  clear := by
    obtain ⟨n, hn, hsum⟩ := h.clear
    exact ⟨n, hn.stays ⟨fun hno => absurd hno hx, fun hno => absurd hno hi⟩, hsum⟩
  out j := by
    show (req j).Out (opsOf j s.log) (s.got j) (update s.pc i x j)
    by_cases hj : j = i
    · subst hj
      rw [update_self]
      exact hout
    · rw [update_of_ne hj]
      exact h.out j
  busy j := by
    show s.desk.Busy (req j) j (update s.pc i x j)
    by_cases hj : j = i
    · subst hj
      rw [update_self]
      exact busy_of_not_held hx
    · rw [update_of_ne hj]
      exact h.busy j
  rests hno := by
    refine h.rests fun j => ?_
    by_cases hj : j = i
    · subst hj
      exact hi
    · have hj' : ¬ (update s.pc i x j).Held := hno j
      rwa [update_of_ne hj] at hj'

/-- `P(lh_clear)` lets a call in when nobody is there. -/
theorem Inv.enters (h : s.Inv req) (hi : ¬ (s.pc i).Held) (hx : x.Held) (hclear : s.lhClear ≠ 0)
    (hbusy : s.desk.Rests → s.desk.Busy (req i) i x) :
    ({ s with lhClear := s.lhClear - 1 }.goes i x).Inv req := by
  obtain ⟨n, hn, hsum⟩ := h.clear
  obtain rfl : n = 0 := by omega
  have hnone : ∀ j, ¬ (s.pc j).Held := fun j hj => absurd (hn.pos (i := j) hj) (Nat.lt_irrefl 0)
  refine ⟨⟨1, hn.enters hi hx, ?_⟩, fun j => ?_, fun j => ?_, fun hno => ?_⟩
  · show s.lhClear - 1 + 1 = 1
    omega
  · show (req j).Out (opsOf j s.log) (s.got j) (update s.pc i x j)
    by_cases hj : j = i
    · subst hj
      rw [update_self]
      cases x <;> trivial
    · rw [update_of_ne hj]
      exact h.out j
  · show s.desk.Busy (req j) j (update s.pc i x j)
    by_cases hj : j = i
    · subst hj
      rw [update_self]
      exact hbusy (h.rests hnone)
    · rw [update_of_ne hj]
      exact busy_of_not_held (hnone j)
  · have hxi : ¬ (update s.pc i x i).Held := hno i
    rw [update_self] at hxi
    exact absurd hx hxi

theorem opsOf_append_self (op : Op ι) (log : List (Op ι)) :
    opsOf op.owner (log ++ [op]) = opsOf op.owner log ++ [op] := by
  simp [opsOf]

theorem opsOf_append_of_ne {op : Op ι} (h : op.owner ≠ i) (log : List (Op ι)) :
    opsOf i (log ++ [op]) = opsOf i log := by
  simp [opsOf, h]

/-- Where the card is at work, somebody waits for it. -/
theorem Inv.awaits (h : s.Inv req) (hstat : s.card.stat ≠ .LHD_IDLE) :
    ∃ i k, s.pc i = .done k ∧ k < (req i).len.toNat ∧ s.desk.Awaits (req i) i k := by
  have hbusy : ¬ s.desk.Rests := fun hrests => hstat hrests.1
  have hsome : ∃ i, (s.pc i).Held := by
    by_contra hno
    exact hbusy (h.rests fun i hi => hno ⟨i, hi⟩)
  obtain ⟨i, hi⟩ := hsome
  cases hpc : s.pc i with
  | call | clear k | returned r =>
    rw [hpc] at hi
    exact hi.elim
  | done k => exact ⟨i, k, hpc, h.busy_at hpc⟩
  | fill k | sect k | stat k => exact absurd (h.busy_at hpc).2.2.1 hbusy
  | refused e => exact absurd (h.busy_at hpc).2 hbusy
  | result k | drain k => exact absurd (h.busy_at hpc).2.1 hbusy
  | release k result =>
    cases result with
    | none => exact absurd (h.busy_at hpc).2.1 hbusy
    | some e => exact absurd (h.busy_at hpc).2 hbusy

theorem code_eq_ok {code : LhdStatus} (h : lhdCodeToErrno code = none) : code = .LHD_OK := by
  cases code
  · rfl
  · cases h
  · cases h

/-- The card finishes the operation that it was given. -/
theorem Operates.ended
    (hdid : r.Did k (opsOf i s.log) (s.got i)) (hsect : s.card.sect = r.sectorAt k)
    (hbuf : r.rw = .UIO_WRITE → r.source k = .ok s.card.buf) (h : s.Operates dBlocks i r.rw s') :
    ∃ op, s'.desk.Ended r i k op ∧ op.owner = i ∧ s'.log = s.log ++ [op] ∧
      s'.card.stat = .finished op.code ∧ s'.pc = s.pc ∧ s'.got = s.got ∧
      s'.lhClear = s.lhClear ∧ s'.lhDone = s.lhDone := by
  have hmade : ∀ {op : Op ι}, op.owner = i → op.sector = s.card.sect → op.rw = r.rw →
      (r.rw = .UIO_WRITE → op.data = s.card.buf) → ∀ buf sectors,
      (op.code = .LHD_OK → buf = op.data) → (s.finish op buf sectors).desk.Ended r i k op := by
    intro op hown hsector hrw hdata buf sectors hok
    subst hown
    exact ⟨⟨_, opsOf_append_self op s.log, hdid⟩, List.getLast?_concat ..,
      ⟨hsector.trans hsect, hrw, fun hw => (hdata hw).symm ▸ hbuf hw⟩, hok⟩
  generalize hrw : r.rw = rw at h
  cases h with
  | read hlt =>
    exact ⟨_, hmade rfl rfl hrw.symm (fun hw => by rw [hw] at hrw; cases hrw) _ _ fun _ => rfl,
      rfl, rfl, rfl, rfl, rfl, rfl, rfl⟩
  | write hlt =>
    exact ⟨_, hmade rfl rfl hrw.symm (fun _ => rfl) _ _ fun _ => rfl, rfl, rfl, rfl, rfl, rfl, rfl,
      rfl⟩
  | media buf hlt =>
    exact ⟨_, hmade rfl rfl hrw.symm (fun _ => rfl) _ _ (by simp), rfl, rfl, rfl, rfl, rfl, rfl,
      rfl⟩
  | invsect buf hge =>
    exact ⟨_, hmade rfl rfl hrw.symm (fun _ => rfl) _ _ (by simp), rfl, rfl, rfl, rfl, rfl, rfl,
      rfl⟩

theorem Inv.step (h : s.Inv req) (hstep : s.Step dBlocks req s') :
    s'.Inv req := by
  cases hstep with
  | call i hpc =>
    exact h.outside (by rw [hpc]; exact id) Request.enter_not_held
      (Request.Did.enter (h.out_at hpc))
  | @clear i k hpc hclear =>
    have hout := h.out_at hpc
    have hi : ¬ (s.pc i).Held := by
      rw [hpc]
      exact id
    by_cases hrw : (req i).rw = .UIO_WRITE
    · rw [if_pos hrw]
      exact h.enters hi trivial hclear fun hrests => ⟨hout.1, hout.2, hrests, hrw⟩
    · rw [if_neg hrw]
      exact h.enters hi trivial hclear fun hrests => ⟨hout.1, hout.2, hrests, (absurd · hrw)⟩
  | @fill i k buf hpc hsource =>
    obtain ⟨hk, hdid, hrests, -⟩ := h.busy_at hpc
    exact h.keeps hpc trivial rfl rfl (fun _ _ => rfl) rfl trivial
      ⟨hk, hdid, hrests, fun _ => hsource⟩
  | @fault i k e hpc hsource =>
    obtain ⟨hk, hdid, hrests, -⟩ := h.busy_at hpc
    exact h.keeps hpc trivial rfl rfl (fun _ _ => rfl) rfl trivial
      ⟨hdid.tried (Nat.le_of_lt hk), hrests⟩
  | @refused i e hpc =>
    have hbusy := h.busy_at hpc
    exact h.holder (i := i) (by rw [hpc]; trivial) rfl (fun _ _ => rfl) (fun _ _ => rfl) hbusy.1
      trivial (.inr ⟨id, rfl, hbusy.2⟩)
  | @sect i k hpc =>
    obtain ⟨hk, hdid, hrests, hbuf⟩ := h.busy_at hpc
    exact h.keeps hpc trivial rfl rfl (fun _ _ => rfl) rfl trivial
      ⟨hk, hdid, hrests, hbuf, rfl⟩
  | @stat i k hpc =>
    obtain ⟨hk, hdid, hrests, hbuf, hsect⟩ := h.busy_at hpc
    exact h.keeps hpc trivial rfl rfl (fun _ _ => rfl) rfl trivial
      ⟨hk, .working hdid rfl hrests.2 hsect hbuf⟩
  | @done i k hpc hdone =>
    obtain ⟨hk, hawaits⟩ := h.busy_at hpc
    cases hawaits with
    | working _ _ hzero => exact absurd hzero hdone
    | finished _ _ _ hzero => exact absurd hzero hdone
    | reported op hended hidle hone hresult =>
      exact h.keeps hpc trivial rfl rfl (fun _ _ => rfl) rfl trivial
        ⟨hk, ⟨hidle, congrArg (· - 1) hone⟩, op,
          ⟨hended.before, hended.last, hended.made, hended.buf⟩, hresult⟩
  | @result i k hpc =>
    obtain ⟨hk, hrests, op, hended, hresult⟩ := h.busy_at hpc
    obtain ⟨ops, hops, hdid⟩ := hended.before
    by_cases hgo : s.lhResult = none ∧ (req i).rw = .UIO_READ
    · rw [if_pos hgo]
      have hok := code_eq_ok (hresult.symm.trans hgo.1)
      exact h.keeps hpc trivial rfl rfl (fun _ _ => rfl) rfl trivial
        ⟨hk, hrests, hgo.2, op, hended, hok⟩
    · rw [if_neg hgo]
      refine h.keeps hpc trivial rfl rfl (fun _ _ => rfl) rfl trivial ?_
      cases hres : s.lhResult with
      | none =>
        have hok := code_eq_ok (hresult.symm.trans hres)
        have hread : (req i).rw ≠ .UIO_READ := fun hr => hgo ⟨hres, hr⟩
        refine ⟨hk, hrests, ?_⟩
        show (req i).Did (k + 1) (opsOf i s.log) (s.got i)
        rw [show opsOf i s.log = _ from hops]
        exact hdid.succ hended.made hok (absurd · hread)
      | some e =>
        exact ⟨hended.tried hk, hrests⟩
  | @drain i k hpc hsink =>
    obtain ⟨hk, hrests, hread, op, hended, hok⟩ := h.busy_at hpc
    obtain ⟨ops, hops, hdid⟩ := hended.before
    refine h.keeps hpc trivial rfl rfl (fun j hj => update_of_ne hj ..) rfl trivial
      ⟨hk, hrests, ?_⟩
    show (req i).Did (k + 1) (opsOf i s.log) (update s.got i (s.got i ++ [s.card.buf]) i)
    rw [update_self, show opsOf i s.log = _ from hops]
    refine hdid.succ hended.made hok fun _ => ?_
    rw [show s.card.buf = _ from hended.buf hok]
    rfl
  | @drainFault i k e hpc hsink =>
    obtain ⟨hk, hrests, hread, op, hended, hok⟩ := h.busy_at hpc
    exact h.keeps hpc trivial rfl rfl (fun _ _ => rfl) rfl trivial
      ⟨hended.tried hk, hrests⟩
  | @release i k result hpc =>
    have hbusy := h.busy_at hpc
    have hi : (s.pc i).Held := by
      rw [hpc]
      trivial
    cases result with
    | none =>
      rw [if_neg (not_not.2 rfl)]
      obtain ⟨hk, hrests, hdid⟩ := h.busy_at hpc
      exact h.holder hi rfl (fun _ _ => rfl) (fun _ _ => rfl) (hdid.next hk)
        (busy_of_not_held Request.next_not_held) (.inr ⟨Request.next_not_held, rfl, hrests⟩)
    | some e =>
      rw [if_pos (by simp)]
      exact h.holder hi rfl (fun _ _ => rfl) (fun _ _ => rfl) hbusy.1 trivial
        (.inr ⟨id, rfl, hbusy.2⟩)
  | @card i rw _ hstat hop =>
    obtain ⟨j, k, hpc, hk, hawaits⟩ := h.awaits (hstat.trans_ne fun hn => by cases hn)
    cases hawaits with
    | working hdid hwork hzero hsect hbuf =>
      obtain ⟨rfl, rfl⟩ := LhdStat.LHD_WORKING.inj (hstat.symm.trans hwork)
      obtain ⟨op, hended, rfl, hlog, hfin, hpcs, hgot, hclear, hdone⟩ := hop.ended hdid hsect hbuf
      refine h.holder (x := .done k) (by rw [hpc]; trivial) ?_ ?_ (fun _ _ => by rw [hgot])
        trivial ⟨hk, .finished op hended hfin (hdone.trans hzero)⟩ (.inl ⟨trivial, hclear⟩)
      · rw [hpcs, ← hpc, update_eq_self]
      · intro j hj
        rw [hlog, opsOf_append_of_ne hj.symm]
    | finished _ _ hfin => cases hstat.symm.trans hfin
    | reported _ _ hidle => cases hstat.symm.trans hidle
  | irq =>
    unfold LhdSystem.lhdIrq
    split
    · rename_i code hstat
      obtain ⟨j, k, hpc, hk, hawaits⟩ := h.awaits (hstat.trans_ne fun hn => by cases hn)
      cases hawaits with
      | working _ hwork => cases hstat.symm.trans hwork
      | finished op hended hfin hzero =>
        cases hstat.symm.trans hfin
        refine h.keeps (x := .done k) hpc trivial ?_ rfl (fun _ _ => rfl) rfl trivial
          ⟨hk, .reported op ⟨hended.before, hended.last, hended.made, hended.buf⟩ rfl
            (congrArg (· + 1) hzero) rfl⟩
        rw [← hpc, update_eq_self]
      | reported _ _ hidle => cases hstat.symm.trans hidle
    · exact h

theorem Inv.initial (sectors : UInt32 → Block) : (LhdSystem.initial sectors).Inv req where
  clear := ⟨0, .zero fun _ hheld => hheld, rfl⟩
  out _ := ⟨rfl, fun _ hop => absurd hop List.not_mem_nil, fun _ => rfl, fun _ => rfl⟩
  busy _ := trivial
  rests _ := ⟨rfl, rfl⟩

theorem Inv.of_reachable (h : s.Reachable dBlocks req) : s.Inv req := by
  obtain ⟨sectors, hrun⟩ := h
  induction hrun with
  | refl => exact .initial sectors
  | tail _ hstep ih => exact ih.step hstep

/-- What has been finished of a request is its sectors from the first one on. -/
theorem Inv.tried (h : s.Inv req) (i : ι) : (req i).Tried (opsOf i s.log) := by
  cases hpc : s.pc i with
  | call =>
    exact Request.Did.tried (h.out_at hpc) (Nat.zero_le _)
  | clear k =>
    have hout := h.out_at hpc
    exact hout.2.tried (Nat.le_of_lt hout.1)
  | fill k | sect k | stat k =>
    have hbusy := h.busy_at hpc
    exact hbusy.2.1.tried (Nat.le_of_lt hbusy.1)
  | refused e => exact (h.busy_at hpc).1
  | done k =>
    obtain ⟨hk, hawaits⟩ := h.busy_at hpc
    cases hawaits with
    | working hdid => exact hdid.tried (Nat.le_of_lt hk)
    | finished op hended => exact hended.tried hk
    | reported op hended => exact hended.tried hk
  | result k =>
    obtain ⟨hk, -, op, hended, -⟩ := h.busy_at hpc
    exact hended.tried hk
  | drain k =>
    obtain ⟨hk, -, -, op, hended, -⟩ := h.busy_at hpc
    exact hended.tried hk
  | release k result =>
    have hbusy := h.busy_at hpc
    cases result with
    | none => exact hbusy.2.2.tried hbusy.1
    | some e => exact hbusy.1
  | returned result =>
    have hout := h.out_at hpc
    cases result with
    | none => exact Request.Did.tried hout le_rfl
    | some e => exact hout

/-- In every state of every run: an operation is started on an idle card, with the sector and
the data of the call that starts it, and only one call waits for one; `lh_clear` is one less
the calls that have taken it; the result and the buffer that a call looks at are those of
the last operation of the card, which was its own; the operations of a call are on its
sectors in their order; and if it returns zero they have all been done. -/
theorem requests_apart {dBlocks : UInt32} (h : s.Reachable dBlocks req) :
    (∀ i k, s.pc i = .stat k → s.card.stat = .LHD_IDLE ∧ s.lhDone = 0 ∧
      s.card.sect = (req i).sectorAt k ∧
      ((req i).rw = .UIO_WRITE → (req i).source k = .ok s.card.buf)) ∧
    (∀ i j k l, s.pc i = .done k → s.pc j = .done l → i = j) ∧
    (∃ n : ℕ, {i | (s.pc i).Held}.encard = n ∧ s.lhClear + n = 1) ∧
    (∀ i k, s.pc i = .result k → ∃ op, s.log.getLast? = some op ∧ op.owner = i ∧
      (req i).Made k op ∧ s.lhResult = lhdCodeToErrno op.code) ∧
    (∀ i k, s.pc i = .drain k → ∃ op, s.log.getLast? = some op ∧ op.owner = i ∧
      (req i).Made k op ∧ op.code = .LHD_OK ∧ s.card.buf = op.data) ∧
    (∀ i, (req i).Tried (opsOf i s.log)) ∧
    ∀ i, s.pc i = .returned none →
      (req i).Did (req i).len.toNat (opsOf i s.log) (s.got i) := by
  have hinv := Inv.of_reachable h
  refine ⟨fun i k hpc => ?_, fun i j k l hi hj => ?_, hinv.clear, fun i k hpc => ?_,
    fun i k hpc => ?_, hinv.tried, fun i hpc => ?_⟩
  · obtain ⟨-, -, hrests, hbuf, hsect⟩ := hinv.busy_at hpc
    exact ⟨hrests.1, hrests.2, hsect, hbuf⟩
  · by_contra hij
    have hheld : (s.pc j).Held := by
      rw [hj]
      trivial
    refine hinv.alone hheld hij ?_
    rw [hi]
    trivial
  · obtain ⟨-, -, op, hended, hresult⟩ := hinv.busy_at hpc
    exact ⟨op, hended.last, hended.owner, hended.made, hresult⟩
  · obtain ⟨-, -, -, op, hended, hok⟩ := hinv.busy_at hpc
    exact ⟨op, hended.last, hended.owner, hended.made, hok, hended.buf hok⟩
  · exact hinv.out_at hpc

/-! ## Something always goes on -/

/-- While a call has not returned, something goes on: no call waits for ever at `lh_clear`, and
none at `lh_done`. -/
theorem requests_progress (h : s.Reachable dBlocks req) (hi : ∀ r, s.pc i ≠ .returned r) :
    ∃ s', s.Step dBlocks req s' ∧ s' ≠ s := by
  have hinv := Inv.of_reachable h
  have hgoes : ∀ {t : LhdSystem ι} {j x y}, s.pc j = y → x ≠ y → t.goes j x ≠ s := by
    rintro t j x y hpc hne rfl
    exact hne ((update_self ..).symm.trans hpc)
  by_cases hheld : ∃ j, (s.pc j).Held
  · -- the call that has `lh_clear` goes on, or what it waits for happens
    obtain ⟨j, hj⟩ := hheld
    cases hpc : s.pc j with
    | call | clear k | returned r =>
      rw [hpc] at hj
      exact hj.elim
    | fill k =>
      cases hsource : (req j).source k with
      | ok buf => exact ⟨_, .fill j hpc hsource, hgoes hpc nofun⟩
      | error e => exact ⟨_, .fault j hpc hsource, hgoes hpc nofun⟩
    | refused e => exact ⟨_, .refused j hpc, hgoes hpc nofun⟩
    | sect k => exact ⟨_, .sect j hpc, hgoes hpc nofun⟩
    | stat k => exact ⟨_, .stat j hpc, hgoes hpc nofun⟩
    | done k =>
      cases (hinv.busy_at hpc).2 with
      | working _ hstat =>
        have hlonger : ∀ {op buf sectors}, s.finish op buf sectors ≠ s := fun he => by
          simpa [finish] using congrArg (fun t => t.log.length) he
        by_cases hsect : s.card.sect < dBlocks
        · cases hrw : (req j).rw with
          | UIO_READ => exact ⟨_, .card (hrw ▸ hstat) (.read hsect), hlonger⟩
          | UIO_WRITE => exact ⟨_, .card (hrw ▸ hstat) (.write hsect), hlonger⟩
        · exact ⟨_, .card hstat (.invsect _ .zero (UInt32.not_lt.1 hsect)), hlonger⟩
      | finished op _ hstat =>
        have hirq : s.lhdIrq.card.stat ≠ s.card.stat := by
          simp [lhdIrq, show s.card.stat = _ from hstat]
        exact ⟨_, .irq, fun he => hirq (by rw [he])⟩
      | reported op _ _ hdone =>
        exact ⟨_, .done j hpc (hdone.trans_ne one_ne_zero), hgoes hpc nofun⟩
    | result k => exact ⟨_, .result j hpc, hgoes hpc (by split <;> nofun)⟩
    | drain k =>
      cases hsink : (req j).sink k with
      | none => exact ⟨_, .drain j hpc hsink, hgoes hpc nofun⟩
      | some e => exact ⟨_, .drainFault j hpc hsink, hgoes hpc nofun⟩
    | release k r =>
      exact ⟨_, .release j hpc, hgoes hpc (by unfold Request.next; split_ifs <;> nofun)⟩
  · -- nobody has it, so it is there for the taking
    obtain ⟨n, hn, hsum⟩ := hinv.clear
    rw [not_exists] at hheld
    obtain rfl : n = 0 := Nat.cast_injective (hn.symm.trans (Headcount.zero hheld))
    cases hpc : s.pc i with
    | call =>
      exact ⟨_, .call i hpc, hgoes hpc (by unfold Request.enter Request.next; split_ifs <;> nofun)⟩
    | clear k => exact ⟨_, .clear i hpc (by omega), hgoes hpc (by split <;> nofun)⟩
    | returned r => exact absurd hpc (hi r)
    | _ => exact (hheld i (by rw [hpc]; trivial)).elim

end LhdSystem

/-- Two sectors are read, and the second of them is written by somebody else. -/
def readAndWrite : Bool → Request
  | false => ⟨.UIO_READ, 512, 1024, fun _ => .error .EINVAL, fun _ => none⟩
  | true => ⟨.UIO_WRITE, 1024, 512, fun _ => .ok .zero, fun _ => none⟩

/-- The writer comes between the two sectors of the reader. -/
theorem requests_apart_readAndWrite : ∃ s : LhdSystem Bool,
    s.Reachable 4 readAndWrite ∧ s.pc false = .returned none ∧ s.pc true = .returned none ∧
      s.log.map (·.owner) = [false, true, false] ∧
      (readAndWrite false).Did 2 (opsOf false s.log) (s.got false) ∧
      (readAndWrite true).Did 1 (opsOf true s.log) (s.got true) := by
  have h1 : Relation.ReflTransGen (LhdSystem.Step 4 readAndWrite) (.initial fun _ => .zero) _ :=
    .tail .refl (.call false rfl)
  have h2 := (h1.tail (.call true rfl)).tail (.clear false (k := 0) (by decide) (by decide))
  have h3 := (h2.tail (.sect false rfl)).tail (.stat false rfl)
  have h4 := ((h3.tail (.card rfl (.read (by decide)))).tail .irq).tail
    (.done false rfl (by decide))
  have h5 := ((h4.tail (.result false rfl)).tail (.drain false rfl rfl)).tail (.release false rfl)
  have h6 := (h5.tail (.clear true (k := 0) (by decide) (by decide))).tail (.fill true rfl rfl)
  have h7 := (h6.tail (.sect true rfl)).tail (.stat true rfl)
  have h8 := ((h7.tail (.card rfl (.write (by decide)))).tail .irq).tail
    (.done true rfl (by decide))
  have h9 := (h8.tail (.result true rfl)).tail (.release true rfl)
  have h10 := (h9.tail (.clear false (k := 1) (by decide) (by decide))).tail (.sect false rfl)
  have h11 := (h10.tail (.stat false rfl)).tail (.card rfl (.read (by decide)))
  have h12 := ((h11.tail .irq).tail (.done false rfl (by decide))).tail (.result false rfl)
  have h13 := (h12.tail (.drain false rfl rfl)).tail (.release false rfl)
  have hdid := (LhdSystem.requests_apart ⟨_, h13⟩).2.2.2.2.2.2
  have hfalse : (readAndWrite false).next 2 = .returned none := by decide
  have htrue : (readAndWrite true).next 1 = .returned none := by decide
  exact ⟨_, ⟨_, h13⟩, hfalse, htrue, rfl, hdid false hfalse, hdid true htrue⟩

/-- The reader waits for the card, and the writer for the reader. -/
theorem requests_progress_waits : ∃ s : LhdSystem Bool,
    s.card.stat = .LHD_WORKING false .UIO_READ ∧ s.pc true = .clear 0 ∧ s.lhClear = 0 ∧
    ∃ s', s.Step 4 readAndWrite s' ∧ s' ≠ s := by
  have h1 : Relation.ReflTransGen (LhdSystem.Step 4 readAndWrite) (.initial fun _ => .zero) _ :=
    .tail .refl (.call false rfl)
  have h2 := (h1.tail (.call true rfl)).tail (.clear false (k := 0) (by decide) (by decide))
  have h3 := (h2.tail (.sect false rfl)).tail (.stat false rfl)
  have hwaits : (readAndWrite true).enter 4 = .clear 0 := by decide
  exact ⟨_, rfl, hwaits, rfl, LhdSystem.requests_progress ⟨_, h3⟩ (i := true)
    fun r hr => nomatch hwaits.symm.trans hr⟩

end Calls

end Os161.Dev
