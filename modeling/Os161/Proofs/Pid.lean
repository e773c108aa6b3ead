import Mathlib.Data.List.Find
import Mathlib.Data.List.Nodup
import Os161.Thread.Pid

/-!
# What the table of processes is a table of

The table is meant to be a finite map from pids to parent, status and
hasexited. It is one as long as two things hold when a routine is called. The
search must see the pids: behind every entry, where the member `t_pid` of a
`struct thread` would be, there must happen to stand the entry's own pid
(`Sees`). And the pid that `pid_create` is about to give away must not be in
use, which nothing checks after `nextpid` has gone around.

The first of the two is not a matter of luck in one direction only. The search
finds the right entry for every pid exactly if `Sees` holds (`sees_iff`), so
with any other memory there is a pid for which every routine does the wrong
thing.
-/

namespace Os161.Thread

open Os161.Kern Os161.Lib Function

/-- What the map says about a pid. -/
@[ext] structure Entry where
  parent : Word
  status : Word
  hasexited : Word
  deriving DecidableEq

/-- The entry with one of its fields set. -/
def Entry.put (e : Entry) (w : Word) : Field → Entry
  | .parentPid => { e with parent := w }
  | .exitstatus => { e with status := w }
  | .hasexited => { e with hasexited := w }
  | .pid | .exitcv => e

/-- The storage of two entries does not overlap. -/
def Apart (a b : Nat) : Prop := a + sizeofPidinfo ≤ b ∨ b + sizeofPidinfo ≤ a

/-- A word that is not part of an entry. -/
def Outside (info a : Nat) : Prop := a + 4 ≤ info ∨ info + sizeofPidinfo ≤ a

instance (info a : Nat) : Decidable (Outside info a) :=
  inferInstanceAs (Decidable (a + 4 ≤ info ∨ info + sizeofPidinfo ≤ a))

theorem Apart.symm {a b : Addr} (h : Apart a b) : Apart b a := Or.symm h

namespace PidTable

def entry (t : PidTable) (info : Addr) : Entry :=
  ⟨t.load info .parentPid, t.load info .exitstatus, t.load info .hasexited⟩

/-- The map that the table stands for. -/
def toMap (t : PidTable) (p : Word) : Option Entry :=
  (t.infos.v.find? fun a => t.load a .pid == p).map t.entry

structure Ok (t : PidTable) : Prop where
  apart : t.infos.v.Pairwise Apart
  pids : (t.infos.v.map fun a => t.load a .pid).Nodup

/-- Behind every entry stands its pid. -/
def Sees (t : PidTable) : Prop :=
  ∀ a ∈ t.infos.v, t.mem (a + tPidOffset) = t.load a .pid

/-- `findpidindex` as it is meant: the index of the entry with this pid. -/
def FindsPids (t : PidTable) : Prop :=
  ∀ p i, t.findpidindex p = some i ↔ (t.infos.v[i]?).map (fun a => t.load a .pid) = some p

end PidTable

/-! ## Words -/

section
variable {t : PidTable} {a b : Nat} {f g : Field} {w : Word}

theorem Field.offset_lt (f : Field) : f.offset + 4 ≤ sizeofPidinfo := by
  cases f <;> decide

theorem Field.offset_inj (h : f.offset = g.offset) : f = g := by
  cases f <;> cases g <;> first | rfl | (exact absurd h (by decide))

theorem PidTable.load_store_self : (t.store a f w).load a f = w :=
  update_self _ _ _

theorem PidTable.load_store_field (h : f ≠ g) : (t.store a f w).load a g = t.load a g := by
  refine update_of_ne (fun he => h (Field.offset_inj ?_)) _ _
  exact (Nat.add_left_cancel he).symm

theorem PidTable.load_store_apart (h : Apart a b) : (t.store a f w).load b g = t.load b g := by
  have hf := f.offset_lt
  have hg := g.offset_lt
  refine update_of_ne (fun he : b + g.offset = a + f.offset => ?_) _ _
  rcases h with h | h <;> omega

theorem Outside.ne_field (h : Outside b a) : a ≠ b + g.offset := by
  have hg := g.offset_lt
  rcases h with h | h <;> omega

theorem PidTable.load_outside (h : Outside b a) :
    PidTable.load { t with mem := update t.mem a w } b g = t.load b g :=
  update_of_ne h.ne_field.symm _ _

end

/-! ## Tables with equal entries -/

namespace PidTable

variable {t t' : PidTable} {p q : Word} {e : Entry} {a b : Addr}

theorem Ok.load_inj (h : t.Ok) (ha : a ∈ t.infos.v) (hb : b ∈ t.infos.v)
    (he : t.load a .pid = t.load b .pid) : a = b :=
  List.inj_on_of_nodup_map h.pids ha hb he

/-- Two entries are the same or do not overlap. -/
theorem eq_or_apart (h : t.infos.v.Pairwise Apart) (ha : a ∈ t.infos.v)
    (hb : b ∈ t.infos.v) : a = b ∨ Apart a b := by
  have hp : t.infos.v.Pairwise fun x y => x = y ∨ Apart x y := h.imp .inr
  exact List.Pairwise.forall_of_forall_of_flip (fun _ _ => .inl rfl) hp
    (hp.imp fun hxy => hxy.imp Eq.symm Apart.symm) ha hb

theorem toMap_eq_none : t.toMap p = none ↔ ∀ a ∈ t.infos.v, t.load a .pid ≠ p := by
  rw [toMap, Option.map_eq_none_iff, List.find?_eq_none]
  simp only [beq_iff_eq]

theorem toMap_eq_some (h : t.Ok) :
    t.toMap p = some e ↔ ∃ a ∈ t.infos.v, t.load a .pid = p ∧ t.entry a = e := by
  rw [toMap, Option.map_eq_some_iff]
  constructor
  · rintro ⟨a, ha, he⟩
    exact ⟨a, List.mem_of_find?_eq_some ha, by simpa using List.find?_some ha, he⟩
  · rintro ⟨a, ha, hp, he⟩
    refine ⟨a, ?_, he⟩
    obtain ⟨b, hb⟩ : ∃ b, t.infos.v.find? (fun a => t.load a .pid == p) = some b := by
      rw [← Option.isSome_iff_exists, List.find?_isSome]
      exact ⟨a, ha, by simp [hp]⟩
    have hbp : t.load b .pid = p := by simpa using List.find?_some hb
    rw [hb, h.load_inj (List.mem_of_find?_eq_some hb) ha (hbp.trans hp.symm)]

theorem toMap_of_mem (h : t.Ok) (ha : a ∈ t.infos.v) : t.toMap (t.load a .pid) = some (t.entry a) :=
  (toMap_eq_some h).2 ⟨a, ha, rfl, rfl⟩

/-- The same entries with the same fields are the same map. -/
theorem toMap_congr (hv : t'.infos.v = t.infos.v)
    (hl : ∀ a ∈ t.infos.v, ∀ f, t'.load a f = t.load a f) : t'.toMap = t.toMap := by
  funext p
  have hf : t'.infos.v.find? (fun a => t'.load a .pid == p) =
      t.infos.v.find? (fun a => t.load a .pid == p) := by
    rw [hv]
    exact List.find?_congr fun a ha => by rw [hl a ha]
  rw [toMap, toMap, hf]
  cases hr : t.infos.v.find? (fun a => t.load a .pid == p) with
  | none => rfl
  | some a =>
    have ha := List.mem_of_find?_eq_some hr
    simp only [Option.map_some, entry, hl a ha]

theorem Ok.congr (h : t.Ok) (hv : t'.infos.v = t.infos.v)
    (hl : ∀ a ∈ t.infos.v, t'.load a .pid = t.load a .pid) : t'.Ok := by
  refine ⟨hv ▸ h.apart, ?_⟩
  rw [hv, List.map_congr_left hl]
  exact h.pids

/-! ## The search -/

/-- The search finds the right entries exactly if it sees their pids. -/
theorem sees_iff (h : t.Ok) : t.FindsPids ↔ t.Sees := by
  constructor
  · intro hf a ha
    obtain ⟨i, hi, rfl⟩ := List.getElem_of_mem ha
    have hs : t.findpidindex (t.load t.infos.v[i] .pid) = some i :=
      (hf _ i).2 (by rw [List.getElem?_eq_getElem hi]; rfl)
    obtain ⟨_, he, -⟩ := List.findIdx?_eq_some_iff_getElem.1 hs
    exact beq_iff_eq.1 he
  · intro hs p i
    rw [findpidindex, List.findIdx?_eq_some_iff_getElem]
    constructor
    · rintro ⟨hi, he, -⟩
      rw [List.getElem?_eq_getElem hi, Option.map_some, ← hs _ (List.getElem_mem hi),
        beq_iff_eq.1 he]
    · intro he
      obtain ⟨a, ha, hp⟩ := Option.map_eq_some_iff.1 he
      obtain ⟨hi, rfl⟩ := List.getElem?_eq_some_iff.1 ha
      refine ⟨hi, by rw [hs _ (List.getElem_mem hi)]; exact beq_iff_eq.2 hp, fun j hj => ?_⟩
      have hjl : j < t.infos.v.length := Nat.lt_trans hj hi
      -- an earlier entry with this pid would be the same entry
      intro hej
      rw [hs _ (List.getElem_mem hjl), beq_iff_eq, ← hp] at hej
      have hinj := List.nodup_iff_injective_getElem.1 h.pids
      have hn := @hinj ⟨j, by rw [List.length_map]; exact hjl⟩
        ⟨i, by rw [List.length_map]; exact hi⟩ (by simpa using hej)
      exact absurd (Fin.val_eq_of_eq hn) (Nat.ne_of_lt hj)

theorem findpidindex_none (h : t.Sees) : t.findpidindex p = none ↔ t.toMap p = none := by
  rw [findpidindex, List.findIdx?_eq_none_iff, toMap_eq_none]
  refine forall₂_congr fun a ha => ?_
  rw [h a ha, beq_eq_false_iff_ne]

theorem findpidindex_some {i : Nat} (hok : t.Ok) (h : t.Sees) (hi : t.findpidindex p = some i) :
    ∃ hl : i < t.infos.v.length, t.guy i = t.infos.v[i] ∧ t.guy i ∈ t.infos.v ∧
      t.load (t.guy i) .pid = p := by
  obtain ⟨a, ha, hp⟩ := Option.map_eq_some_iff.1 (((sees_iff hok).2 h p i).1 hi)
  obtain ⟨hl, rfl⟩ := List.getElem?_eq_some_iff.1 ha
  have hg : t.guy i = t.infos.v[i] := by
    rw [guy, List.getD_eq_getElem?_getD, List.getElem?_eq_getElem hl, Option.getD_some]
  exact ⟨hl, hg, hg ▸ List.getElem_mem hl, by rw [hg]; exact hp⟩

/-! ## Changing a field, removing and adding an entry -/

theorem Ok.store (h : t.Ok) {f : Field} (hf : f ≠ .pid) (ha : a ∈ t.infos.v) (w : Word) :
    (t.store a f w).Ok := by
  refine h.congr rfl fun b hb => ?_
  rcases eq_or_apart h.apart ha hb with rfl | hab
  · exact load_store_field hf
  · exact load_store_apart hab

theorem toMap_store (h : t.Ok) {f : Field} (hf : f ≠ .pid) (ha : a ∈ t.infos.v) (w : Word) :
    (t.store a f w).toMap = update t.toMap (t.load a .pid) (some ((t.store a f w).entry a)) := by
  have hok := h.store hf ha w
  have hpid : (t.store a f w).load a .pid = t.load a .pid := load_store_field hf
  funext q
  by_cases hq : q = t.load a .pid
  · rw [hq, update_self, ← hpid]
    exact toMap_of_mem hok ha
  · rw [update_of_ne hq]
    have hother : ∀ b ∈ t.infos.v, t.load b .pid = q → Apart a b := fun b hb hbq =>
      (eq_or_apart h.apart ha hb).resolve_left fun hab => hq (by rw [hab, hbq])
    refine Option.ext fun e => ?_
    rw [toMap_eq_some hok, toMap_eq_some h]
    constructor
    · rintro ⟨b, hb, hbq, rfl⟩
      have hab : Apart a b := (eq_or_apart h.apart ha hb).resolve_left fun hab =>
        hq (by rw [← hbq, ← hab, hpid])
      refine ⟨b, hb, by rw [← hbq, load_store_apart hab], ?_⟩
      simp only [entry, load_store_apart hab]
    · rintro ⟨b, hb, hbq, rfl⟩
      have hab := hother b hb hbq
      refine ⟨b, hb, by rw [load_store_apart hab, hbq], ?_⟩
      simp only [entry, load_store_apart hab]

theorem Ok.remove (h : t.Ok) (i : Nat) : Ok { t with infos := t.infos.remove i } := by
  refine ⟨h.apart.sublist (List.eraseIdx_sublist _ _), ?_⟩
  exact h.pids.sublist ((List.eraseIdx_sublist _ _).map _)

theorem toMap_remove (h : t.Ok) {i : Nat} (hi : i < t.infos.v.length) :
    toMap { t with infos := t.infos.remove i } =
      update t.toMap (t.load t.infos.v[i] .pid) none := by
  have hn : t.infos.v.Nodup := List.Nodup.of_map _ h.pids
  have hmem : ∀ b, b ∈ t.infos.v.eraseIdx i ↔ b ∈ t.infos.v ∧ b ≠ t.infos.v[i] := by
    intro b
    rw [← List.Nodup.erase_getElem hn i hi, hn.mem_erase_iff, and_comm]
  funext q
  by_cases hq : q = t.load t.infos.v[i] .pid
  · rw [hq, update_self, toMap_eq_none]
    intro b hb he
    obtain ⟨hb, hne⟩ := (hmem b).1 hb
    exact hne (h.load_inj hb (List.getElem_mem hi) he)
  · rw [update_of_ne hq]
    refine Option.ext fun e => ?_
    rw [toMap_eq_some (h.remove i), toMap_eq_some h]
    constructor
    · rintro ⟨b, hb, hbq, he⟩
      exact ⟨b, ((hmem b).1 hb).1, hbq, he⟩
    · rintro ⟨b, hb, hbq, he⟩
      exact ⟨b, (hmem b).2 ⟨hb, fun hbi => hq (by rw [← hbq, hbi])⟩, hbq, he⟩

/-- The search sees the pids, and looks at no word of an entry. -/
structure Legible (t : PidTable) : Prop where
  sees : t.Sees
  outside : ∀ a ∈ t.infos.v, ∀ b ∈ t.infos.v, Outside a (b + tPidOffset)

theorem Legible.store (h : t.Legible) (hok : t.Ok) {f : Field} (hf : f ≠ .pid)
    (ha : a ∈ t.infos.v) (w : Word) : (t.store a f w).Legible := by
  refine ⟨fun b hb => ?_, h.outside⟩
  have hpid : (t.store a f w).load b .pid = t.load b .pid := by
    rcases eq_or_apart hok.apart ha hb with rfl | hab
    · exact load_store_field hf
    · exact load_store_apart hab
  rw [hpid, ← h.sees b hb]
  exact update_of_ne (h.outside a ha b hb).ne_field _ _

theorem Legible.remove (h : t.Legible) (i : Nat) : Legible { t with infos := t.infos.remove i } :=
  ⟨fun a ha => h.sees a (List.mem_of_mem_eraseIdx ha),
    fun a ha b hb => h.outside a (List.mem_of_mem_eraseIdx ha) b (List.mem_of_mem_eraseIdx hb)⟩

theorem entry_store (t : PidTable) (a : Addr) (f : Field) (w : Word) :
    (t.store a f w).entry a = (t.entry a).put w f := by
  cases f <;> simp [entry, Entry.put, load_store_self, load_store_field]

/-- The table with a field set of the entry that the search finds. -/
def mark (t : PidTable) (p : Word) (f : Field) (w : Word) : PidTable :=
  match t.findpidindex p with
  | none => t
  | some i => t.store (t.guy i) f w

section
variable {f : Field} {w : Word} (hok : t.Ok) (hf : f ≠ .pid)

include hok hf

theorem Legible.mark (h : t.Legible) : (t.mark p f w).Ok ∧ (t.mark p f w).Legible := by
  rw [PidTable.mark]
  cases hi : t.findpidindex p with
  | none => exact ⟨hok, h⟩
  | some i =>
    obtain ⟨-, -, hmem, -⟩ := findpidindex_some hok h.sees hi
    exact ⟨hok.store hf hmem w, h.store hok hf hmem w⟩

theorem toMap_mark (hs : t.Sees) (h : t.toMap p = some e) :
    (t.mark p f w).toMap = update t.toMap p (some (e.put w f)) := by
  rw [PidTable.mark]
  cases hi : t.findpidindex p with
  | none => exact absurd (h.symm.trans ((findpidindex_none hs).1 hi)) nofun
  | some i =>
    obtain ⟨-, -, hmem, hp⟩ := findpidindex_some hok hs hi
    have he : t.entry (t.guy i) = e :=
      Option.some.inj ((hp ▸ toMap_of_mem hok hmem).symm.trans h)
    show (t.store (t.guy i) f w).toMap = _
    rw [toMap_store hok hf hmem, hp, entry_store, he]

theorem toMap_mark_ne (hs : t.Sees) (hq : q ≠ p) : (t.mark p f w).toMap q = t.toMap q := by
  cases h : t.toMap p with
  | none => rw [PidTable.mark, (findpidindex_none hs).2 h]
  | some e => rw [toMap_mark hok hf hs h, update_of_ne hq]

end

/-- What the five assignments leave in the new entry. -/
theorem load_fill (t : PidTable) (info : Addr) (ppid status cv : Word) :
    (t.fill info ppid status cv).load info .pid = t.nextpid ∧
      (t.fill info ppid status cv).entry info = ⟨ppid, status, 0⟩ := by
  constructor
  · simp [fill, load_store_self, load_store_field]
  · simp [fill, entry, load_store_self, load_store_field]

variable {info : Addr}

theorem load_fill_apart (h : Apart info b) (ppid status cv : Word) (f : Field) :
    (t.fill info ppid status cv).load b f = t.load b f := by
  simp [fill, load_store_apart h]

/-- Filling in storage that is not an entry yet changes nothing. -/
theorem fill_frame (hi : ∀ b ∈ t.infos.v, Apart info b) (h : t.Ok) (ppid status cv : Word) :
    (t.fill info ppid status cv).Ok ∧ (t.fill info ppid status cv).toMap = t.toMap := by
  refine ⟨h.congr rfl fun b hb => load_fill_apart (hi b hb) _ _ _ _, ?_⟩
  exact toMap_congr rfl fun b hb f => load_fill_apart (hi b hb) _ _ _ _

/-- A table with one more entry at the end, the others as they were. -/
theorem toMap_add (h : t.Ok) {u : PidTable} (hv : u.infos.v = t.infos.v ++ [info])
    (hi : ∀ b ∈ t.infos.v, Apart info b) (hl : ∀ b ∈ t.infos.v, ∀ f, u.load b f = t.load b f)
    (hp : t.toMap (u.load info .pid) = none) :
    u.Ok ∧ u.toMap = update t.toMap (u.load info .pid) (some (u.entry info)) := by
  have hnone := toMap_eq_none.1 hp
  have hok : u.Ok := by
    constructor
    · rw [hv, List.pairwise_append]
      refine ⟨h.apart, List.pairwise_singleton _ _, fun b hb c hc => ?_⟩
      rw [List.mem_singleton.1 hc]
      exact (hi b hb).symm
    · rw [hv, List.map_append, List.map_congr_left fun b hb => hl b hb .pid, List.map_singleton]
      refine List.nodup_append.2 ⟨h.pids, List.nodup_singleton _, fun x hx y hy => ?_⟩
      obtain ⟨b, hb, rfl⟩ := List.mem_map.1 hx
      rw [List.mem_singleton.1 hy]
      exact hnone b hb
  have hin : info ∈ u.infos.v := by rw [hv]; exact List.mem_append_right _ List.mem_cons_self
  refine ⟨hok, funext fun q => ?_⟩
  by_cases hq : q = u.load info .pid
  · rw [hq, update_self]
    exact toMap_of_mem hok hin
  · rw [update_of_ne hq]
    refine Option.ext fun e => ?_
    rw [toMap_eq_some hok, toMap_eq_some h, hv]
    constructor
    · rintro ⟨b, hb, hbq, he⟩
      rcases List.mem_append.1 hb with hb | hb
      · exact ⟨b, hb, by rw [← hbq, hl b hb], by rw [← he]; simp only [entry, hl b hb]⟩
      · exact absurd (by rw [← hbq, List.mem_singleton.1 hb]) hq
    · rintro ⟨b, hb, hbq, he⟩
      exact ⟨b, List.mem_append_left _ hb, by rw [← hbq, hl b hb],
        by rw [← he]; simp only [entry, hl b hb]⟩

end PidTable

/-! ## The routines -/

section
variable {M A B E F : Type} {c : Terms F} {m : M} {f : F} {t : PidTable}

/-- `pid_create` adds an entry, or has filled in storage that it gave back, or
has done nothing. -/
theorem awp_pidCreate {info cv : Addr} {ppid status : Word}
    {Q : Except PidErr Word × PidTable → M → Prop} (ha : c.asks)
    (hp : 0 ≤ ppid.toInt ∨ c.fails f)
    (hok : ∀ exitcv infos, infos.v = t.infos.v ++ [info] → t.infos.max ≤ infos.max →
      Q (.ok t.nextpid, { t.fill info ppid status exitcv with
        infos := infos, nextpid := PidTable.advance t.nextpid }) m)
    (hfree : ∀ exitcv, c.refuses → Q (.error (.errno .ENOMEM), t.fill info ppid status exitcv) m)
    (herr : c.refuses → Q (.error .minusOne, t) m) :
    awp c (pidCreate f t info cv ppid status : Prog M A B E F _) Q m := by
  refine awp_bind.2 (awp_assert.2 ⟨fun _ => ?_, hp.resolve_left⟩)
  refine awp_bind.2 ⟨ha, ?_, herr⟩
  refine awp_bind.2 (awp_bind.2 ⟨ha, awp_bind.2 ⟨ha, ?_, fun _ => ?_⟩, fun _ => ?_⟩)
  -- whatever `cv_create` has returned
  all_goals exact awp_bind.2 (awpE_arrayAdd ha (hok _)
    (hfree _))

end

/-! ## Calls and the map -/

/-- What the allocator and the rest of the kernel owe the table: a new entry
lies apart from the others, and nobody else writes into an entry. -/
def PidCall.Honest (t : PidTable) : PidCall → Prop
  | create info _ _ _ => ∀ b ∈ t.infos.v, Apart info b
  | elsewhere a _ => ∀ b ∈ t.infos.v, Outside b a
  | _ => True

/-- When a call does to the map what it is meant to do. -/
def PidCall.Meets (t : PidTable) : PidCall → Prop
  | create _ _ ppid _ => 0 ≤ ppid.toInt ∧ ∀ a ∈ t.infos.v, t.load a .pid ≠ t.nextpid
  | destroy p | sethasexited p _ =>
    t.Sees ∧ ∀ a ∈ t.infos.v, t.load a .pid = p → t.load a .exitcv ≠ 0
  | get _ | setexitstatus _ _ => t.Sees
  | elsewhere _ _ => True

/-- The calls as operations on a finite map. -/
inductive MapStep : (Word → Option Entry) → PidCall → PidAnswer → (Word → Option Entry) → Prop
  | created {m info cv ppid status p} (h : m p = none) :
      MapStep m (.create info cv ppid status) (.created p)
        (update m p (some ⟨ppid, status, 0⟩))
  | notCreated {m info cv ppid status e} :
      MapStep m (.create info cv ppid status) (.error e) m
  | destroyed {m p e} (h : m p = some e) :
      MapStep m (.destroy p) .done (update m p none)
  | got {m p parent status hasexited} (h : m p = some ⟨parent, status, hasexited⟩) :
      MapStep m (.get p) (.got parent status hasexited) m
  | setexitstatus {m p e status} (h : m p = some e) :
      MapStep m (.setexitstatus p status) .done
        (update m p (some { e with status := status }))
  | sethasexited {m p e hasexited} (h : m p = some e) :
      MapStep m (.sethasexited p hasexited) .done
        (update m p (some { e with hasexited := hasexited }))
  | absent {m p} (c : PidCall) (hc : c = .destroy p ∨ c = .get p ∨
      (∃ s, c = .setexitstatus p s) ∨ ∃ h, c = .sethasexited p h) (h : m p = none) :
      MapStep m c (.error .minusOne) m
  | elsewhere {m a w} : MapStep m (.elsewhere a w) .done m

/-- Nothing is tolerated, and the allocator does what it likes. -/
def strict : Terms PidPanic := ⟨fun _ => False, True, True⟩

section
variable {t : PidTable} {p : Word}

theorem awp_answer {X : Type} {r : ExceptT PidErr PidProg X} {k : X → PidProg PidAnswer}
    {Q : PidAnswer → PidTable → Prop} {c : Terms PidPanic}
    (h : awpE c r (fun x t' => match x with
      | .ok x => awp c (k x) Q t' | .error e => Q (.error e) t') t) : awp c (answer r k) Q t := by
  refine awp_bind.2 (awp_mono h fun x t' hx => ?_)
  cases x <;> exact hx

/-- The search that four of the routines begin with. -/
theorem awpE_findpid_bind {X : Type} {body : Nat → ExceptT PidErr PidProg X}
    {c : Terms PidPanic} {Q : Except PidErr X → PidTable → Prop} (hok : t.Ok) (hs : t.Sees)
    (hnone : t.toMap p = none → Q (.error .minusOne) t)
    (hsome : ∀ i (hl : i < t.infos.v.length), t.guy i = t.infos.v[i] → t.guy i ∈ t.infos.v →
      t.load (t.guy i) .pid = p → t.toMap p = some (t.entry (t.guy i)) → awpE c (body i) Q t) :
    awpE c (findpid t p >>= body) Q t := by
  rw [findpid]
  cases hi : t.findpidindex p with
  | none => exact hnone ((PidTable.findpidindex_none hs).1 hi)
  | some i =>
    obtain ⟨hl, hg, hmem, hp⟩ := PidTable.findpidindex_some hok hs hi
    exact hsome i hl hg hmem hp (hp ▸ PidTable.toMap_of_mem hok hmem)

theorem PidCall.awp_prog {c : PidCall} (hok : t.Ok) (hh : c.Honest t) (hm : c.Meets t) :
    awp strict c.prog (fun ans t' => t'.Ok ∧ MapStep t.toMap c ans t'.toMap) t := by
  cases c with
  | create info cv ppid status =>
    have hframe := PidTable.fill_frame hh hok ppid status
    refine awp_bind.2 (awp_bind.2 (awp_pidCreate trivial (.inl hm.1) ?_ ?_ ?_))
    · intro exitcv infos hv _
      obtain ⟨hpid, hent⟩ := t.load_fill info ppid status exitcv
      have hadd := PidTable.toMap_add hok (u := { t.fill info ppid status exitcv with
        infos := infos, nextpid := PidTable.advance t.nextpid }) hv hh
        (fun b hb f => PidTable.load_fill_apart (hh b hb) _ _ _ f)
        (PidTable.toMap_eq_none.2 fun a ha => hpid ▸ hm.2 a ha)
      refine ⟨hadd.1, ?_⟩
      rw [hadd.2]
      show MapStep _ _ _ (update t.toMap ((t.fill info ppid status exitcv).load info .pid)
        (some ((t.fill info ppid status exitcv).entry info)))
      rw [hpid, hent]
      exact .created (PidTable.toMap_eq_none.2 hm.2)
    · intro exitcv _
      refine ⟨(hframe exitcv).1, ?_⟩
      rw [(hframe exitcv).2]
      exact .notCreated
    · exact fun _ => ⟨hok, .notCreated⟩
  | destroy p =>
    refine awp_bind.2 (awp_answer (awpE_findpid_bind hok hm.1
      (fun hp => ⟨hok, .absent _ (.inl rfl) hp⟩) fun i hl hg hmem hp he => ?_))
    refine awpE_call_bind.2 (awp_assert.2 ⟨fun _ => ?_, fun hn => hn (hm.2 _ hmem hp)⟩)
    refine ⟨hok.remove i, ?_⟩
    rw [PidTable.toMap_remove hok hl, ← hg, hp]
    exact .destroyed he
  | get p =>
    exact awp_bind.2 (awp_answer (awpE_findpid_bind hok hm
      (fun hp => ⟨hok, .absent _ (.inr (.inl rfl)) hp⟩) fun i hl hg hmem hp he =>
        ⟨hok, .got he⟩))
  | setexitstatus p status =>
    refine awp_bind.2 (awp_answer (awpE_findpid_bind hok hm
      (fun hp => ⟨hok, .absent _ (.inr (.inr (.inl ⟨status, rfl⟩))) hp⟩)
      fun i hl hg hmem hp he => ⟨hok.store (by decide) hmem _, ?_⟩))
    rw [PidTable.toMap_store hok (by decide) hmem, hp, PidTable.entry_store]
    exact .setexitstatus he
  | sethasexited p hasexited =>
    refine awp_bind.2 (awp_answer (awpE_findpid_bind hok hm.1
      (fun hp => ⟨hok, .absent _ (.inr (.inr (.inr ⟨hasexited, rfl⟩))) hp⟩)
      fun i hl hg hmem hp he => ?_))
    have hstep : (t.store (t.guy i) .hasexited hasexited).Ok ∧
        MapStep t.toMap (.sethasexited p hasexited) .done
          (t.store (t.guy i) .hasexited hasexited).toMap := by
      refine ⟨hok.store (by decide) hmem _, ?_⟩
      rw [PidTable.toMap_store hok (by decide) hmem, hp, PidTable.entry_store]
      exact .sethasexited he
    refine awpE_call_bind.2 ?_
    rw [exitBroadcast]
    split
    · refine awp_bind.2 (awp_assert.2 ⟨fun _ => hstep, fun hn => hn ?_⟩)
      rw [PidTable.load_store_field (by decide)]
      exact hm.2 _ hmem hp
    · exact hstep
  | elsewhere a w =>
    have hl : ∀ b ∈ t.infos.v, ∀ f, PidTable.load { t with
        mem := update t.mem a w } b f = t.load b f := fun b hb f =>
      PidTable.load_outside (hh b hb)
    refine ⟨hok.congr rfl fun b hb => hl b hb .pid, ?_⟩
    have hmap : PidTable.toMap { t with mem := update t.mem a w } = t.toMap :=
      PidTable.toMap_congr rfl hl
    rw [hmap]
    exact .elsewhere

end

/-! ## Runs -/

/-- A table in front of an allocator with a script. -/
def PidTable.machine (t : PidTable) (script : Script Empty) :
    Machine PidTable Empty Unit Empty := ⟨t, fun _ => (), script⟩

/-- The tables that calls lead to, each made when it can be made. -/
inductive PidReach (mem : Addr → Word) : PidTable → Prop
  | start : PidReach mem (PidTable.pidInitialize mem)
  | call {t : PidTable} (h : PidReach mem t) (c : PidCall) (hh : c.Honest t) (hm : c.Meets t)
      (script : Script Empty) {ans : PidAnswer} {s : Machine PidTable Empty Unit Empty}
      (hc : c.prog.run (t.machine script) = (.done ans, s)) : PidReach mem s.mem

/-- A call that meets its condition returns, and it has done its operation on
the map. -/
theorem PidCall.run_prog {t : PidTable} {c : PidCall} (hok : t.Ok) (hh : c.Honest t)
    (hm : c.Meets t) (script : Script Empty) :
    ∃ ans s, c.prog.run (t.machine script) = (.done ans, s) ∧ s.mem.Ok ∧
      MapStep t.toMap c ans s.mem.toMap := by
  have h := awp_run (s := t.machine script) (fun _ => trivial) (c.awp_prog hok hh hm)
  revert h
  generalize c.prog.run (t.machine script) = r
  intro h
  obtain ⟨o, s⟩ := r
  cases o with
  | done ans => exact ⟨ans, s, rfl, h.1.1, h.1.2⟩
  | crash f => exact h.elim

theorem PidReach.ok {mem : Addr → Word} {t : PidTable} (h : PidReach mem t) : t.Ok := by
  induction h with
  | start => exact ⟨List.Pairwise.nil, List.nodup_nil⟩
  | call _ c hh hm script hc ih =>
    obtain ⟨ans, s, hr, hok, -⟩ := c.run_prog ih hh hm script
    rw [hr] at hc
    cases hc
    exact hok

/-- In every table that such calls lead to, the search finds the right entries
exactly if it sees their pids, and every further call that meets its condition
returns and does its operation on the map. -/
theorem pidTable_refines_map {mem : Addr → Word} {t : PidTable} (h : PidReach mem t) :
    (t.FindsPids ↔ t.Sees) ∧
      ∀ c : PidCall, c.Honest t → c.Meets t → ∀ script, ∃ ans s,
        c.prog.run (t.machine script) = (.done ans, s) ∧
          MapStep t.toMap c ans s.mem.toMap := by
  refine ⟨PidTable.sees_iff h.ok, fun c hh hm script => ?_⟩
  obtain ⟨ans, s, hr, -, hs⟩ := c.run_prog h.ok hh hm script
  exact ⟨ans, s, hr, hs⟩

/-- Memory that has two pids where the search looks. -/
def twoPids (a : Addr) : Word := if a = 180 then 1 else if a = 380 then 2 else 0

theorem pidTable_refines_map_two :
    ∃ t, PidReach twoPids t ∧ t.toMap 1 = some ⟨0, 7, 0⟩ ∧ t.toMap 2 = some ⟨1, 8, 0⟩ ∧
      t.FindsPids ∧
      ∃ s, (PidCall.get 2).prog.run (t.machine {}) = (.done (.got 1 8 0), s) := by
  have hone := (@PidReach.start twoPids).call (.create 100 200 0 7) (fun b hb => by cases hb)
    ⟨by decide, fun a ha => by cases ha⟩ {} rfl
  obtain ⟨t, h, hfirst, hmap, hs⟩ : ∃ t, PidReach twoPids t ∧
      t.toMap 1 = some ⟨0, 7, 0⟩ ∧ t.toMap 2 = some ⟨1, 8, 0⟩ ∧ t.Sees :=
    ⟨_, hone.call (.create 300 400 1 8) (fun b hb => by
        cases List.mem_singleton.1 hb
        exact .inr (by decide)) ⟨by decide, fun a ha => by
        cases List.mem_singleton.1 ha
        decide⟩ {} rfl, rfl, rfl, fun a ha => by
        rcases List.mem_cons.1 ha with rfl | ha
        · rfl
        cases List.mem_singleton.1 ha
        rfl⟩
  refine ⟨t, h, hfirst, hmap, (pidTable_refines_map h).1.2 hs, ?_⟩
  obtain ⟨ans, s, hrun, hm⟩ := (pidTable_refines_map h).2 (.get 2) trivial hs {}
  generalize t.toMap = m, s.mem.toMap = m' at hm hmap
  cases hm with
  | got he =>
    cases hmap.symm.trans he
    exact ⟨s, hrun⟩
  | absent c hc he =>
    rcases hc with hc | hc | ⟨s, hc⟩ | ⟨h, hc⟩ <;> cases hc
    cases hmap.symm.trans he

/-- Over memory that is zero there: the first process is in the table, and
neither the search nor `pid_get` finds it. -/
theorem pid_get_misses_entry :
    ∃ s, (PidCall.create 100 200 0 7).prog.run
        ((PidTable.pidInitialize fun _ => 0).machine {}) = (.done (.created 1), s) ∧
      s.mem.toMap 1 = some ⟨0, 7, 0⟩ ∧ s.mem.findpidindex 1 = none ∧
      ((PidCall.get 1).prog.run s).1 = .done (.error .minusOne) :=
  ⟨_, rfl, rfl, rfl, rfl⟩

end Os161.Thread
