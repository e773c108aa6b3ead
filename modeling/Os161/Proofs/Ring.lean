import Mathlib.Data.List.Basic
import Os161.Kern.Ring

/-!
# The queue is a FIFO list

A ring in use shows a `Queue` (`Shows`): the same indices, and all cells of the
storage are there. `q_grow` first has a new storage with nothing in it, and then each
round of its loop adds one of the old entries; the new ring has a cell to spare until
the last of them is in, so `q_addtail` never finds it full there and the recursion
stops.
-/

namespace Os161.Kern

open Os161.Lib

variable {α : Type}

namespace Ring

/-! ## Rings and queues -/

/-- The ring `q` is the queue `c`. -/
structure Shows (q : Ring α) (c : Queue α) : Prop where
  size : q.size = c.size
  nextwrite : q.nextwrite = c.nextwrite
  nextread : q.nextread = c.nextread
  length : q.data.length = c.size
  data : ∀ i < c.size, q.data[i]? = some (c.data i)

section
variable {q q' : Ring α} {c e : Queue α}

theorem Shows.contents (h : q.Shows c) : q.contents = c.toList := by
  rw [Ring.contents, Queue.toList, Queue.len, h.size, h.nextwrite, h.nextread,
    ← List.filterMap_eq_map]
  refine List.filterMap_congr fun i _ => ?_
  exact h.data _ (Nat.mod_lt _ c.size_pos)

theorem Shows.full (h : q.Shows c) : (q.nextwrite + 1) % q.size = q.nextread ↔ c.isFull = true := by
  rw [Queue.isFull, beq_iff_eq, h.size, h.nextwrite, h.nextread]

theorem Shows.empty (h : q.Shows c) : q.nextwrite = q.nextread ↔ c.isEmpty = true := by
  rw [Queue.isEmpty, beq_iff_eq, h.nextwrite, h.nextread]

variable {n depth targetsize k : Nat} {Q : Except Errno Unit → Ring α → Prop}

/-- New storage of less than 2^30 cells. -/
theorem shows_newCells (hn : 0 < n) (hlt : n < 1073741824) (garbage : Nat → α) :
    Shows { size := n, nextwrite := 0, nextread := 0, data := newCells garbage n }
      (Queue.blank n hn garbage) := by
  have hcells : n * 4 % 4294967296 / 4 = n := by omega
  refine ⟨rfl, rfl, rfl, ?_, fun i hi => ?_⟩
  · show (newCells garbage n).length = n
    rw [newCells, List.length_map, List.length_range, hcells]
  · have hi : i < n := hi
    show (newCells garbage n)[i]? = some (garbage i)
    rw [newCells, hcells, List.getElem?_map, List.getElem?_range hi, Option.map_some]

theorem Shows.put (h : q.Shows c) (ptr : α) :
    Shows { q with
      nextwrite := (q.nextwrite + 1) % q.size
      data := q.data.set q.nextwrite ptr } (c.put ptr) := by
  have hlt := c.write_lt
  have hlen := h.length
  have hw := h.nextwrite
  refine ⟨h.size, ?_, h.nextread, ?_, fun i hi => ?_⟩
  · show (q.nextwrite + 1) % q.size = (c.nextwrite + 1) % c.size
    rw [h.size, hw]
  · exact List.length_set.trans hlen
  · show (q.data.set q.nextwrite ptr)[i]? = some (Function.update c.data c.nextwrite ptr i)
    rw [List.getElem?_set, Function.update_apply, hw, hlen]
    by_cases hi' : i = c.nextwrite
    · rw [if_pos hi'.symm, if_pos hi', if_pos hlt]
    · rw [if_neg (Ne.symm hi'), if_neg hi', h.data i hi]

/-! ## The routines -/

variable {t : Terms Panic} {garbage : Nat → α} {ptr : α}

theorem awp_store {Q : Unit → Ring α → Prop} (h : q.Shows c)
    (hQ : ∀ q', q'.Shows (c.put ptr) → Q () q') : awp t (qAddtail.store ptr) Q q := by
  have hlt := c.write_lt
  have hlen := h.length
  have hw := h.nextwrite
  rw [qAddtail.store, awp_bind, awp_mem, awp_bind]
  exact awp_assert.2 ⟨fun _ => hQ _ (h.put ptr), fun hn => absurd (by omega) hn⟩

/-- A ring with a cell to spare takes an entry without asking. -/
theorem awp_addtail_room (h : q.Shows c) (hroom : c.isFull = false)
    (hQ : ∀ q', q'.Shows (c.put ptr) → Q (.ok ()) q') :
    awpE t (qAddtail garbage (depth + 1) ptr) Q q := by
  have hpos := c.size_pos
  have hsize := h.size
  have hfull : ¬ (q.nextwrite + 1) % q.size = q.nextread := by
    rw [h.full, hroom]
    decide
  rw [qAddtail, awpE_call_bind, awp_mem, awpE_call_bind]
  refine awp_assert.2 ⟨fun _ => ?_, fun hn => absurd (by omega) hn⟩
  rw [if_neg hfull, awpE_call]
  exact awp_store h hQ

theorem awp_double {Q : Nat → Ring α → Prop} (hn : 0 < n) (hk : targetsize ≤ n + k)
    (hlt : Queue.newsize targetsize k n < 1073741824) (hQ : Q (Queue.newsize targetsize k n) q) :
    awp t (qGrow.double targetsize k n) Q q := by
  induction k generalizing n with
  | zero =>
    rw [qGrow.double, if_neg (by omega)]
    exact hQ
  | succ k ih =>
    rw [Queue.newsize] at hlt hQ
    rw [qGrow.double]
    by_cases hlt' : n < targetsize
    · rw [if_pos hlt'] at hlt hQ ⊢
      have hle := Queue.le_newsize targetsize k (n * 2)
      rw [awp_bind]
      exact awp_assert.2 ⟨fun _ => ih (by omega) (by omega) hlt hQ,
        fun hno => absurd (by omega) hno⟩
    · rw [if_neg hlt'] at hQ ⊢
      exact hQ

/-- The loop that adds the old entries: `j` of them have been added, and the ring that
they are added to is `e` by now. -/
theorem awp_copy {old : Ring α} {add : α → RingM α Unit} {j : Nat} {Q : Unit → Ring α → Prop}
    (hold : old.Shows c)
    (hadd : ∀ {q : Ring α} {e : Queue α} {ptr : α} {Q : Except Errno Unit → Ring α → Prop},
      q.Shows e → e.isFull = false → (∀ q', q'.Shows (e.put ptr) → Q (.ok ()) q') →
      awpE t (add ptr) Q q) (h : q.Shows e) (hj : j ≤ c.len) (hk : c.len ≤ j + k)
    (hroom : e.len + (c.len - j) < e.size)
    (hQ : ∀ q' e', q'.Shows e' → e'.toList = e.toList ++ c.toList.drop j → e'.size = e.size →
      Q () q') : awp t (qGrow.copy add old k ((c.nextread + j) % c.size)) Q q := by
  have hlen := c.len_lt
  have hend : ∀ {j}, j ≤ c.len → ((c.nextread + j) % c.size = old.nextwrite ↔ j = c.len) := by
    intro j hj
    rw [hold.nextwrite]
    exact ⟨fun he => (Queue.len_of_read_add (by omega) he).symm, fun he => he ▸ c.read_add_len⟩
  have hdrop : c.toList.drop c.len = [] := by
    rw [← Queue.length_toList, List.drop_length]
  induction k generalizing q e j with
  | zero =>
    have hlast : j = c.len := by omega
    rw [qGrow.copy, if_pos ((hend hj).2 hlast)]
    exact hQ q e h (by rw [hlast, hdrop, List.append_nil]) rfl
  | succ k ih =>
    rw [qGrow.copy]
    by_cases hlast : j = c.len
    · rw [if_pos ((hend hj).2 hlast)]
      exact hQ q e h (by rw [hlast, hdrop, List.append_nil]) rfl
    · rw [if_neg (fun he => hlast ((hend hj).1 he)), awp_bind, cell,
        hold.data _ (Nat.mod_lt _ c.size_pos), awp_pure, awp_bind, awp_run_iff]
      have hroom' : e.isFull = false := by
        rw [← Bool.not_eq_true, Queue.isFull_iff]
        omega
      refine hadd h hroom' fun q' hq' => ?_
      rw [hold.size, Nat.mod_add_mod, Nat.add_assoc]
      have hlt : j < c.toList.length := by
        rw [Queue.length_toList]
        omega
      -- the entry that has been added is the next one of the old queue
      have hnext : c.toList[j] = c.data ((c.nextread + j) % c.size) := by
        simp [Queue.toList]
      refine ih hq' (by omega) (by omega) ?_ fun q'' e'' hq'' he'' hs => hQ q'' e'' hq'' ?_ hs
      · rw [Queue.len_put hroom', Queue.put_size]
        omega
      · rw [he'', Queue.toList_put hroom', List.append_assoc, ← hnext, List.singleton_append,
          ← List.drop_eq_getElem_cons hlt]

/-- `q_grow`: the same entries in a larger ring, or nothing has changed. -/
theorem awp_grow (ha : t.asks) (h : q.Shows c) (hlt : q.grown targetsize < 1073741824)
    (hok : ∀ q' e, q'.Shows e → e.toList = c.toList → e.size = q.grown targetsize → Q (.ok ()) q')
    (herr : t.refuses → Q (.error .ENOMEM) q) :
    awpE t (qGrow garbage (qAddtail garbage (depth + 1)) targetsize) Q q := by
  have hpos := c.size_pos
  have hlen := c.len_lt
  have hsize := h.size
  have hle : q.size ≤ q.grown targetsize := Queue.le_newsize _ _ _
  rw [qGrow, awpE_call_bind, awp_mem, awpE_call_bind]
  refine awp_double (by omega) (Nat.le_add_left _ _) hlt ?_
  rw [awpE_call_bind, awp_kmalloc]
  refine ⟨ha, ?_, herr⟩
  rw [if_pos rfl, awpE_call_bind, awp_put, awpE_call]
  have hnew := shows_newCells (show 0 < q.grown targetsize by omega) hlt garbage
  have hstart : q.nextread = (c.nextread + 0) % c.size := by
    rw [Nat.add_zero, Nat.mod_eq_of_lt c.read_lt, h.nextread]
  rw [hstart]
  refine awp_copy (e := Queue.blank _ _ garbage) h (awp_addtail_room)
    hnew (Nat.zero_le _) ?_ ?_ fun q' e' hq' he' hs => hok q' e' hq' ?_ hs
  · omega
  · rw [Queue.blank_len]
    show 0 + (c.len - 0) < q.grown targetsize
    omega
  · rw [he', Queue.toList_blank, List.nil_append, List.drop_zero]

theorem awp_addtail (ha : t.asks) (h : q.Shows c)
    (hlt : c.isFull = true → q.grown (q.size + 1) < 1073741824)
    (hok : ∀ q' e, q'.Shows e → e.toList = c.toList ++ [ptr] → Q (.ok ()) q')
    (herr : t.refuses → Q (.error .ENOMEM) q) : awpE t (qAddtail garbage (depth + 2) ptr) Q q := by
  cases hfull : c.isFull with
  | false =>
    exact awp_addtail_room h hfull fun q' hq' => hok q' _ hq' (Queue.toList_put hfull ptr)
  | true =>
    have hpos := c.size_pos
    have hlen := c.len_lt
    have hsize := h.size
    rw [qAddtail, awpE_call_bind, awp_mem, awpE_call_bind]
    refine awp_assert.2 ⟨fun _ => ?_, fun hn => absurd (by omega) hn⟩
    rw [if_pos (h.full.2 hfull), awpE_bind]
    refine awp_grow ha h (hlt hfull) (fun q' e hq' he hes => ?_) herr
    rw [awpE_call]
    -- there is a cell to spare now
    have hge : q.size + 1 ≤ q.grown (q.size + 1) :=
      Queue.target_le_newsize (by omega) (Nat.le_add_left _ _)
    have hroom : e.isFull = false := by
      have hlen' : e.len = c.len := by rw [← Queue.length_toList, he, Queue.length_toList]
      rw [← Bool.not_eq_true, Queue.isFull_iff]
      omega
    exact awp_store hq' fun q'' hq'' => hok q'' _ hq'' (by rw [Queue.toList_put hroom, he])

theorem awp_preallocate {size : Int} (ha : t.asks) (h : q.Shows c)
    (hlt : (q.size : Int) < size → q.grown size.toNat < 1073741824)
    (hok : ∀ q' e, q'.Shows e → e.toList = c.toList → Q (.ok ()) q') (herr : t.refuses →
      Q (.error .ENOMEM) q) :
    awpE t (qPreallocate garbage (depth + 1) size) Q q := by
  have hpos := c.size_pos
  have hsize := h.size
  rw [qPreallocate, awpE_call_bind, awp_mem, awpE_call_bind]
  refine awp_assert.2 ⟨fun _ => ?_, fun hn => absurd (by omega) hn⟩
  split
  · next hgt => exact awp_grow ha h (hlt hgt) (fun q' e hq' he _ => hok q' e hq' he) herr
  · exact hok q c h rfl

/-- `q_remhead`, of a queue that is not empty. -/
theorem awp_remhead {Q : α → Ring α → Prop} (h : q.Shows c) (hne : c.isEmpty = false)
    (hQ : ∀ q', q'.Shows c.tail → Q c.head q') : awp t qRemhead Q q := by
  have hpos := c.size_pos
  have hsize := h.size
  have hne' : q.nextwrite ≠ q.nextread := by
    rw [Ne, h.empty, hne]
    decide
  rw [qRemhead, awp_bind, awp_mem, awp_bind]
  refine awp_assert.2 ⟨fun _ => ?_, fun hn => absurd (by omega) hn⟩
  rw [awp_bind]
  refine awp_assert.2 ⟨fun _ => ?_, absurd hne'⟩
  rw [awp_bind, cell, h.nextread, h.data _ c.read_lt, awp_pure, awp_bind, awp_put]
  refine hQ _ ⟨h.size, h.nextwrite, ?_, h.length, h.data⟩
  show (c.nextread + 1) % q.size = (c.nextread + 1) % c.size
  rw [h.size]

end

/-! ## Runs -/

/-- A call that keeps to the rules: no head is taken from an empty queue, and no ring
gets to 2^30 cells. -/
def Op.Allowed (q : Ring α) : Op α → Prop
  | .addtail _ => (q.nextwrite + 1) % q.size = q.nextread → q.grown (q.size + 1) < 1073741824
  | .remhead => q.contents ≠ []
  | .preallocate size => (q.size : Int) < size → q.grown size.toNat < 1073741824

/-- A sequence of calls, with their answers. Each call has its own storage and its own
pattern of failures. -/
inductive Runs (q₀ : Ring α) : List (Op α × Answer α) → Ring α → Prop where
  | start : Runs q₀ [] q₀
  | call {trace : List (Op α × Answer α)} {q : Ring α} {op : Op α} {garbage : Nat → α}
      {disk : Empty → Unit} {script : Script Empty} {answer : Answer α}
      {m : Machine (Ring α) Empty Unit Empty} :
      Runs q₀ trace q → op.Allowed q →
      (op.prog garbage).run ⟨q, disk, script⟩ = (.done answer, m) →
      Runs q₀ (trace ++ [(op, answer)]) m.mem

/-- What the calls do to a FIFO list; they fail only if `refused`. -/
inductive FifoStep (refused : Prop) : List α → Op α → Answer α → List α → Prop where
  | added {l : List α} {x : α} : FifoStep refused l (.addtail x) .zero (l ++ [x])
  | addFails {l : List α} {x : α} :
      refused → FifoStep refused l (.addtail x) (.errno .ENOMEM) l
  | removed {l : List α} {x : α} : FifoStep refused (x :: l) .remhead (.ptr x) l
  | grown {l : List α} {size : Int} : FifoStep refused l (.preallocate size) .zero l
  | growFails {l : List α} {size : Int} :
      refused → FifoStep refused l (.preallocate size) (.errno .ENOMEM) l

/-- The lists that a sequence of calls leads to. -/
inductive Fifo : List (Op α × Answer α) → List α → Prop where
  | start : Fifo [] []
  | step {trace : List (Op α × Answer α)} {l l' : List α} {op : Op α} {answer : Answer α} :
      Fifo trace l → FifoStep True l op answer l' → Fifo (trace ++ [(op, answer)]) l'

/-- No panic is tolerated, and the allocator may refuse if `refused`. -/
def strict (refused : Prop) : Terms Panic := ⟨fun _ => False, True, refused⟩

section
variable {q q₀ : Ring α} {c : Queue α} {op : Op α} {trace : List (Op α × Answer α)}

theorem Shows.awp_op {refused : Prop} (h : q.Shows c) (ha : op.Allowed q) (garbage : Nat → α) :
    awp (strict refused) (op.prog garbage)
      (fun answer q' => FifoStep refused c.toList op answer q'.contents ∧ ∃ e, q'.Shows e) q := by
  cases op with
  | addtail ptr =>
    rw [Op.prog, awp_bind, awp_run_iff]
    refine awp_addtail trivial h (fun hf => ha (h.full.2 hf)) (fun q' e hq' he => ?_)
      fun hr => ⟨?_, c, h⟩
    · refine ⟨?_, e, hq'⟩
      rw [hq'.contents, he]
      exact .added
    · rw [h.contents]
      exact .addFails hr
  | remhead =>
    have hne : c.isEmpty = false := by
      rw [← Bool.not_eq_true, Queue.isEmpty_iff_toList, ← h.contents]
      exact ha
    rw [Op.prog, awp_bind]
    refine awp_remhead h hne fun q' hq' => ⟨?_, c.tail, hq'⟩
    rw [hq'.contents, Queue.toList_tail hne]
    exact .removed
  | preallocate size =>
    rw [Op.prog, awp_bind, awp_run_iff]
    refine awp_preallocate trivial h ha (fun q' e hq' he => ?_) fun hr => ⟨?_, c, h⟩
    · refine ⟨?_, e, hq'⟩
      rw [hq'.contents, he]
      exact .grown
    · rw [h.contents]
      exact .growFails hr

/-- After any calls the ring shows a queue, and its entries are those of the list. -/
theorem Runs.fifo (hr : Runs q₀ trace q) (h0 : ∃ c, q₀.Shows c) (he : q₀.contents = []) :
    Fifo trace q.contents ∧ ∃ c, q.Shows c := by
  induction hr with
  | start =>
    rw [he]
    exact ⟨.start, h0⟩
  | @call trace q op garbage disk script answer m _ ha hrun ih =>
    obtain ⟨hfifo, c, hc⟩ := ih
    have hends := awp_run (s := ⟨q, disk, script⟩) (fun _ => trivial) (hc.awp_op ha garbage)
    rw [hrun] at hends
    obtain ⟨hstep, e, hm⟩ := hends.1
    rw [hc.contents] at hfifo
    exact ⟨hfifo.step hstep, e, hm⟩

theorem qCreate_eq {size : Nat} {garbage : Nat → α} {m m' : Machine Unit Empty Unit Empty}
    (h : (qCreate garbage size).run m = (.done (some q₀), m')) :
    q₀ = { size := size, nextwrite := 0, nextread := 0, data := newCells garbage size } := by
  have hw : awp (strict True) (qCreate garbage size) (fun r _ => ∀ q, r = some q →
      q = { size := size, nextwrite := 0, nextread := 0, data := newCells garbage size })
      m.mem := by
    rw [qCreate, awp_bind, awp_kmalloc]
    refine ⟨trivial, ?_, nofun⟩
    rw [if_pos rfl, awp_bind, awp_kmalloc]
    refine ⟨trivial, fun q hq => ?_, nofun⟩
    cases hq
    rfl
  have hends := awp_run (s := m) (fun _ => trivial) hw
  rw [h] at hends
  exact hends.1 q₀ rfl

/-- A queue that `q_create` has made behaves as a FIFO list: the answers to any calls are
those of the list, and the next call that keeps to the rules returns, with an error only if
`kmalloc` has refused. -/
theorem queue_fifo {size : Nat} {garbage : Nat → α} {m m' : Machine Unit Empty Unit Empty}
    (hpos : 1 ≤ size) (hlt : size < 1073741824)
    (hc : (qCreate garbage size).run m = (.done (some q₀), m')) (hr : Runs q₀ trace q) :
    Fifo trace q.contents ∧
      ∀ op, op.Allowed q → ∀ garbage disk script,
        ∃ answer m, (Op.prog garbage op).run ⟨q, disk, script⟩ = (.done answer, m) ∧
          FifoStep (false ∈ script.mem) q.contents op answer m.mem.contents := by
  have hnew := shows_newCells hpos hlt garbage
  obtain rfl := qCreate_eq hc
  obtain ⟨hfifo, c, hc⟩ := hr.fifo ⟨_, hnew⟩ (by rw [hnew.contents, Queue.toList_blank])
  refine ⟨hfifo, fun op ha garbage disk script => ?_⟩
  obtain ⟨answer, m, hm, hstep, -⟩ := awp_run_done (t := strict (false ∈ script.mem))
    (s := ⟨q, disk, script⟩) (fun _ => id) id (hc.awp_op ha garbage)
  rw [hc.contents]
  exact ⟨answer, m, hm, hstep⟩

/-- The ring after a call, when the allocator refuses nothing. -/
def after (op : Op Nat) (q : Ring Nat) : Ring Nat :=
  ((op.prog id).run ⟨q, fun a => a.elim, {}⟩).2.mem

theorem Runs.after {q₀ q : Ring Nat} {trace : List (Op Nat × Answer Nat)} {op : Op Nat}
    {answer : Answer Nat} (hr : Runs q₀ trace q) (ha : op.Allowed q)
    (h : ((op.prog id).run ⟨q, fun a => a.elim, {}⟩).1 = .done answer) :
    Runs q₀ (trace ++ [(op, answer)]) (after op q) :=
  hr.call ha (Prod.ext h rfl)

/-- A ring of one cell, in which two entries have been put and one taken out again. -/
def small : Ring Nat := after .remhead (after (.addtail 6) (after (.addtail 5) ⟨1, 0, 0, [0]⟩))

/-- It had to grow twice. -/
theorem queue_fifo_two :
    Fifo [(.addtail 5, .zero), (.addtail 6, .zero), (.remhead, .ptr 5)] small.contents ∧
      small.contents = [6] ∧ small.size = 4 := by
  have h1 : Runs ⟨1, 0, 0, [0]⟩ [(.addtail 5, .zero)] (after (.addtail 5) ⟨1, 0, 0, [0]⟩) :=
    Runs.after .start (fun _ => by decide) rfl
  have h2 : Runs ⟨1, 0, 0, [0]⟩ [(.addtail 5, .zero), (.addtail 6, .zero)]
      (after (.addtail 6) (after (.addtail 5) ⟨1, 0, 0, [0]⟩)) :=
    h1.after (fun _ => by decide) rfl
  have hne : Op.Allowed (after (.addtail 6) (after (.addtail 5) ⟨1, 0, 0, [0]⟩)) .remhead := by
    show contents _ ≠ []
    decide
  have h3 : Runs ⟨1, 0, 0, [0]⟩ [(.addtail 5, .zero), (.addtail 6, .zero), (.remhead, .ptr 5)]
      small := h2.after hne rfl
  have hc : (qCreate (fun _ => 0) 1).run ⟨(), fun a => a.elim, {}⟩ =
      (.done (some ⟨1, 0, 0, [0]⟩), ⟨(), fun a => a.elim, {}⟩) := rfl
  exact ⟨(queue_fifo (by decide) (by decide) hc h3).1, rfl, rfl⟩

end

end Ring

end Os161.Kern
