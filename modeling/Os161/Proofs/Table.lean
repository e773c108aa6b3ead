import Os161.Sfs.State

/-!
# The table of loaded vnodes

What the operations of `VnodeArray` do to a look-up. The table is kept in the
order of loading, but apart from the loops that walk through it nobody depends
on that: everything else is said through `get?`, and through the list `inos` of
inode numbers, which never contains one twice.
-/

namespace Os161.Sfs.VnodeArray

variable {a : VnodeArray} {f g : UInt32} {sv : SfsVnode} {u : SfsVnode → SfsVnode}

theorem mem_of_get? (h : a.get? f = some sv) : sv ∈ a.v :=
  List.mem_of_find?_eq_some h

theorem svIno_of_get? (h : a.get? f = some sv) : sv.svIno = f := by
  simpa using List.find?_some h

theorem get?_eq_none : a.get? f = none ↔ f ∉ a.inos := by
  rw [get?, List.find?_eq_none, inos, List.mem_map]
  constructor
  · rintro h ⟨sv, hsv, rfl⟩
    exact h sv hsv (beq_self_eq_true _)
  · intro h sv hsv he
    exact h ⟨sv, hsv, by simpa using he⟩

theorem get?_isSome : (∃ sv, a.get? f = some sv) ↔ f ∈ a.inos := by
  rw [← not_iff_not, ← get?_eq_none]
  constructor
  · intro h
    by_contra hn
    exact h (Option.ne_none_iff_exists'.1 hn)
  · rintro h ⟨sv, hs⟩
    rw [h] at hs
    cases hs

theorem get?_of_mem (hn : a.inos.Nodup) (h : sv ∈ a.v) : a.get? sv.svIno = some sv := by
  obtain ⟨sv', h'⟩ := get?_isSome.2 (List.mem_map_of_mem h : sv.svIno ∈ a.inos)
  have := List.inj_on_of_nodup_map hn (mem_of_get? h') h (svIno_of_get? h')
  rw [h', this]

/-! ## Changing a vnode -/

section
variable (hu : ∀ sv, (u sv).svIno = sv.svIno)
include hu

theorem inos_update : (a.update f u).inos = a.inos := by
  rw [inos, inos, update, List.map_map]
  refine List.map_congr_left fun sv _ => ?_
  simp only [Function.comp_apply]
  split
  · exact hu sv
  · rfl

theorem get?_update : (a.update f u).get? g = if g = f then (a.get? f).map u else a.get? g := by
  have key : ∀ l : List SfsVnode,
      (l.map fun sv => if sv.svIno = f then u sv else sv).find? (fun sv => sv.svIno == g) =
        if g = f then (l.find? fun sv => sv.svIno == f).map u
        else l.find? fun sv => sv.svIno == g := by
    intro l
    induction l with
    | nil => simp
    | cons sv l ih =>
      rw [List.map_cons, List.find?_cons, List.find?_cons, List.find?_cons, ih]
      by_cases hf : sv.svIno = f
      · by_cases hg : g = f
        · simp [hf, hg, hu]
        · have hfg : (f == g) = false := by simpa using Ne.symm hg
          simp [hf, hg, hu, hfg]
      · have hb : (sv.svIno == f) = false := by simpa using hf
        by_cases hg : g = f
        · simp [hf, hg, hb]
        · simp [hf, hg]
  exact key a.v

theorem get?_update_self (h : a.get? f = some sv) : (a.update f u).get? f = some (u sv) := by
  rw [get?_update hu, if_pos rfl, h]
  rfl

theorem get?_update_ne (h : g ≠ f) : (a.update f u).get? g = a.get? g := by
  rw [get?_update hu, if_neg h]

end

/-! ## Adding and removing one -/

theorem inos_add : (a.add sv).inos = a.inos ++ [sv.svIno] := by
  rw [inos, add, List.map_append]
  rfl

theorem get?_add (h : a.get? sv.svIno = none) :
    (a.add sv).get? g = if g = sv.svIno then some sv else a.get? g := by
  rw [get?, add, List.find?_append]
  split
  · next hg =>
    subst hg
    rw [get?] at h
    rw [h]
    simp
  · next hg =>
    have hne : (sv.svIno == g) = false := by simpa using Ne.symm hg
    simp [get?, hne]

theorem inos_remove_sublist : (a.remove f).inos.Sublist a.inos :=
  (List.eraseP_sublist (l := a.v)).map _

theorem nodup_remove (hn : a.inos.Nodup) : (a.remove f).inos.Nodup :=
  hn.sublist inos_remove_sublist

theorem get?_remove (hn : a.inos.Nodup) :
    (a.remove f).get? g = if g = f then none else a.get? g := by
  have key : ∀ l : List SfsVnode, (l.map SfsVnode.svIno).Nodup →
      (l.eraseP fun sv => sv.svIno == f).find? (fun sv => sv.svIno == g) =
        if g = f then none else l.find? fun sv => sv.svIno == g := by
    intro l hl
    induction l with
    | nil => simp
    | cons sv l ih =>
      rw [List.map_cons, List.nodup_cons] at hl
      by_cases hf : sv.svIno = f
      · subst hf
        rw [List.eraseP_cons_of_pos (by simp)]
        split
        · next hg =>
          subst hg
          rw [List.find?_eq_none]
          intro sv' h' he
          exact hl.1 (List.mem_map.2 ⟨sv', h', by simpa using he⟩)
        · next hg =>
          rw [List.find?_cons_of_neg (by simpa using Ne.symm hg)]
      · rw [List.eraseP_cons_of_neg (by simpa using hf), List.find?_cons,
          List.find?_cons, ih hl.2]
        by_cases hg : g = f
        · have hb : (sv.svIno == f) = false := by simpa using hf
          simp [hb, hg]
        · simp [hg]
  exact key a.v hn

theorem update_update {a : VnodeArray} {ino : UInt32} {g u : SfsVnode → SfsVnode}
    (hg : ∀ sv, (g sv).svIno = sv.svIno) :
    (a.update ino g).update ino u = a.update ino fun sv => u (g sv) := by
  simp only [update, List.map_map, VnodeArray.mk.injEq, and_true]
  refine List.map_congr_left fun sv _ => ?_
  simp only [Function.comp]
  by_cases h : sv.svIno = ino
  · rw [if_pos h, if_pos (by rw [hg, h]), if_pos h]
  · rw [if_neg h, if_neg h, if_neg h]

theorem update_id (a : VnodeArray) (ino : UInt32) : a.update ino (fun sv => sv) = a := by
  obtain ⟨v, max, le⟩ := a
  simp [update]

/-- Only what becomes of the one vnode counts. -/
theorem update_congr {a : VnodeArray} {ino : UInt32} {g u : SfsVnode → SfsVnode} {sv : SfsVnode}
    (hn : a.inos.Nodup) (hl : a.get? ino = some sv) (h : g sv = u sv) :
    a.update ino g = a.update ino u := by
  simp only [update, VnodeArray.mk.injEq, and_true]
  refine List.map_congr_left fun sv' hm => ?_
  by_cases he : sv'.svIno = ino
  · obtain rfl : sv' = sv := Option.some.inj ((get?_of_mem hn hm).symm.trans (he ▸ hl))
    rw [if_pos he, if_pos he, h]
  · rw [if_neg he, if_neg he]

end Os161.Sfs.VnodeArray
