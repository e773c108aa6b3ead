import Os161.Vfs.List
import Mathlib.Data.List.Perm.Basic

/-!
# Names of devices and volumes

An entry of the device table goes by its name, its raw name and the name of the
volume mounted on it. As long as no string names two entries
(`Unambiguous`), `vfs_getroot` has no choice to make, and the order of the
table does not matter.

`vfs_adddev` and `vfs_addfs` refuse a device with a taken name, and unmounting
only takes names away. `vfs_mount` asks nobody: the volume name of the new file
system may be one that another entry goes by already. A table stays unambiguous
over a mount exactly if that is not the case (`DevOp.Fresh`).
-/

namespace Os161.Vfs

open Os161.Kern Os161.Lib

variable {σ : Type}

/-! ## Names -/

/-- What an entry goes by. -/
def KnownDev.names (O : Ops σ) (kd : KnownDev) : List CString :=
  kd.kdName :: (kd.kdRawname.toList ++ (kd.kdFs.bind O.fsGetvolname).toList)

/-- No string names two entries. -/
def Unambiguous (O : Ops σ) (l : List KnownDev) : Prop :=
  l.Pairwise fun a b => (a.names O).Disjoint (b.names O)

section
variable {O : Ops σ} {l l' : List KnownDev} {kd : KnownDev}

theorem KnownDev.mem_names {n : CString} : n ∈ kd.names O ↔
    kd.kdName = n ∨ kd.kdRawname = some n ∨ kd.kdFs.bind O.fsGetvolname = some n := by
  rw [names, List.mem_cons, List.mem_append, Option.mem_toList, Option.mem_toList, eq_comm]

theorem KnownDev.mem_names_mount {n : CString} {fs : Fs} (h : kd.kdFs = none) :
    n ∈ (kd.mount fs).names O ↔ n ∈ kd.names O ∨ O.fsGetvolname fs = some n := by
  rw [mem_names, mem_names, h]
  simp only [Option.bind_none, reduceCtorEq, or_false, or_assoc]
  rfl

theorem KnownDev.names_unmount_subset (h : kd.kdDevice.isSome) :
    (kd.unmount h).names O ⊆ kd.names O := by
  intro n hn
  rw [mem_names] at hn ⊢
  obtain hn | hn | hn := hn
  · exact .inl hn
  · exact .inr (.inl hn)
  · cases hn

variable {i : Nat}

/-- The table with another entry in place `i`, seen from that entry. -/
theorem unambiguous_set (hi : i < l.length) : Unambiguous O (l.set i kd) ↔
      (∀ a ∈ l.eraseIdx i, (kd.names O).Disjoint (a.names O)) ∧ Unambiguous O (l.eraseIdx i) := by
  have hp : (l.set i kd).Perm (kd :: l.eraseIdx i) := List.set_perm_cons_eraseIdx hi kd
  rw [Unambiguous, hp.pairwise_iff List.disjoint_symm, List.pairwise_cons]
  rfl

theorem Unambiguous.at (h : Unambiguous O l) (hi : i < l.length) :
    (∀ a ∈ l.eraseIdx i, (l[i].names O).Disjoint (a.names O)) ∧ Unambiguous O (l.eraseIdx i) :=
  (unambiguous_set hi).1 (by rwa [List.set_getElem_self])

/-- Entry by entry, no name has come in. -/
def Loses (O : Ops σ) (l l' : List KnownDev) : Prop :=
  List.Forall₂ (fun a a' => a'.names O ⊆ a.names O) l l'

theorem Loses.refl (O : Ops σ) (l : List KnownDev) : Loses O l l :=
  List.forall₂_same.2 fun _ _ _ h => h

theorem Loses.trans {l'' : List KnownDev} (h : Loses O l l') (h' : Loses O l' l'') :
    Loses O l l'' := by
  induction h generalizing l'' with
  | nil => exact h'
  | cons ha _ ih =>
    cases h' with
    | cons hb h' => exact .cons (fun _ hn => ha (hb hn)) (ih h')

theorem Loses.set (hi : i < l.length) (hs : kd.names O ⊆ l[i].names O) :
    Loses O l (l.set i kd) := by
  induction l generalizing i with
  | nil => exact absurd hi (Nat.not_lt_zero _)
  | cons a l ih =>
    cases i with
    | zero => exact .cons hs (Loses.refl O l)
    | succ i => exact .cons (fun _ hn => hn) (ih (Nat.lt_of_succ_lt_succ hi) hs)

theorem Loses.mem (h : Loses O l l') {a' : KnownDev} (ha : a' ∈ l') :
    ∃ a ∈ l, a'.names O ⊆ a.names O := by
  induction h with
  | nil => cases ha
  | cons hs _ ih =>
    obtain rfl | ha := List.mem_cons.1 ha
    · exact ⟨_, List.mem_cons_self, hs⟩
    · obtain ⟨a, hm, hs⟩ := ih ha
      exact ⟨a, List.mem_cons_of_mem _ hm, hs⟩

theorem Unambiguous.loses (h : Unambiguous O l) (hl : Loses O l l') : Unambiguous O l' := by
  induction hl with
  | nil => exact h
  | cons hs hl ih =>
    obtain ⟨hd, h⟩ := List.pairwise_cons.1 h
    refine List.pairwise_cons.2 ⟨fun b' hb' n hn hn' => ?_, ih h⟩
    obtain ⟨b, hb, hsb⟩ := Loses.mem hl hb'
    exact hd b hb (hs hn) (hsb hn')

/-- The volume name of `fs` is nobody else's when it is mounted on entry `i`. -/
def FreshVolume (O : Ops σ) (l : List KnownDev) (i : Nat) (fs : Fs) : Prop :=
  ∀ n, O.fsGetvolname fs = some n → ∀ a ∈ l.eraseIdx i, n ∉ a.names O

theorem Unambiguous.mount_iff {fs : Fs} (h : Unambiguous O l) (hi : i < l.length)
    (hfs : l[i].kdFs = none) : Unambiguous O (l.set i (l[i].mount fs)) ↔ FreshVolume O l i fs := by
  obtain ⟨h1, h2⟩ := h.at hi
  rw [unambiguous_set hi, and_iff_left h2]
  constructor
  · intro hd n hn a ha
    exact hd a ha ((KnownDev.mem_names_mount hfs).2 (.inr hn))
  · intro hf a ha n hn
    obtain hn | hn := (KnownDev.mem_names_mount hfs).1 hn
    · exact h1 a ha hn
    · exact hf n hn a ha

/-! ## `badnames` -/

theorem samestring_iff {a b : Option CString} :
    samestring a b = true ↔ ∃ n, a = some n ∧ b = some n := by
  cases a with
  | none => simp [samestring]
  | some x =>
    cases b with
    | none => simp [samestring]
    | some y => simp [samestring, eq_comm]

theorem samestring3_iff {a b c d : Option CString} :
    samestring3 a b c d = true ↔ ∃ n, a = some n ∧ (b = some n ∨ c = some n ∨ d = some n) := by
  simp only [samestring3, Bool.or_eq_true, samestring_iff, or_assoc, ← exists_or, ← and_or_left]

/-- `badnames` finds out whether one of the new entry's names is taken. -/
theorem badnames_eq_false_iff :
    badnames O l (some kd.kdName) kd.kdRawname (kd.kdFs.bind O.fsGetvolname) = false ↔
      ∀ a ∈ l, (a.names O).Disjoint (kd.names O) := by
  rw [← Bool.not_eq_true, badnames, List.any_eq_true, not_exists]
  refine forall_congr' fun a => ?_
  rw [not_and]
  refine imp_congr_right fun _ => ?_
  simp only [Bool.or_eq_true, samestring3_iff, List.Disjoint, KnownDev.mem_names,
    Option.some.injEq, ← exists_or, not_exists]
  refine forall_congr' fun n => ?_
  tauto

theorem Unambiguous.push (h : Unambiguous O l)
    (hb : badnames O l (some kd.kdName) kd.kdRawname (kd.kdFs.bind O.fsGetvolname) = false) :
    Unambiguous O (l ++ [kd]) := by
  refine List.pairwise_append.2 ⟨h, List.pairwise_singleton _ _, fun a ha b hb' => ?_⟩
  rw [List.mem_singleton.1 hb']
  exact badnames_eq_false_iff.1 hb a ha

end

/-! ## `vfs_getroot` -/

section
variable {O : Ops σ} {l l' : List KnownDev} {kd : KnownDev} {devname : CString}

/-- What `vfs_getroot` makes of the entry that it has found. -/
def KnownDev.root (O : Ops σ) (devname : CString) (kd : KnownDev) : VfsM σ Vnode :=
  getroot.loop O devname [kd]

/-- An entry without the name is passed over. -/
theorem getroot_loop_skip (h : devname ∉ kd.names O) :
    getroot.loop O devname (kd :: l) = getroot.loop O devname l := by
  rw [KnownDev.mem_names, not_or, not_or] at h
  obtain ⟨h1, h2, h3⟩ := h
  rw [getroot.loop]
  cases hfs : kd.kdFs with
  | none =>
    rw [if_neg fun h => h1 h.2, getroot.device, if_neg h1, if_neg h2]
  | some fs =>
    rw [hfs] at h3
    show ite _ _ _ = _
    rw [if_neg fun h => h.elim h1 h3, getroot.device, if_neg h1, if_neg h2]

/-- An entry with the name is taken. -/
theorem getroot_loop_take (h : devname ∈ kd.names O) :
    getroot.loop O devname (kd :: l) = kd.root O devname := by
  rw [KnownDev.root, getroot.loop, getroot.loop]
  rw [KnownDev.mem_names] at h
  cases hfs : kd.kdFs with
  | none =>
    rw [hfs] at h
    by_cases h1 : kd.kdName = devname
    · rw [getroot.device, getroot.device, if_pos h1, if_pos h1]
    · have h2 : kd.kdRawname = some devname := (h.resolve_left h1).resolve_right nofun
      rw [getroot.device, getroot.device, if_neg h1, if_neg h1, if_pos h2, if_pos h2]
  | some fs =>
    show ite _ _ _ = ite _ _ _
    rw [hfs] at h
    by_cases h1 : kd.kdName = devname ∨ O.fsGetvolname fs = some devname
    · rw [if_pos h1, if_pos h1]
    · rw [not_or] at h1
      have h2 : kd.kdRawname = some devname := (h.resolve_left h1.1).resolve_right h1.2
      rw [getroot.device, getroot.device, if_neg h1.1, if_neg h1.1, if_pos h2, if_pos h2]

/-- The entries that go by `devname`. -/
def matching (O : Ops σ) (devname : CString) (l : List KnownDev) : List KnownDev :=
  l.filter fun kd => devname ∈ kd.names O

/-- The loop takes the first of them. -/
theorem getroot_loop_eq : getroot.loop O devname l =
    (matching O devname l).head?.elim (throw .ENODEV) (KnownDev.root O devname) := by
  induction l with
  | nil => rfl
  | cons kd l ih =>
    by_cases h : devname ∈ kd.names O
    · rw [getroot_loop_take h, matching, List.filter_cons_of_pos (by simpa using h)]
      rfl
    · rw [getroot_loop_skip h, ih, matching, matching, List.filter_cons_of_neg (by simpa using h)]

/-- In an unambiguous table there is no more than one. -/
theorem Unambiguous.matching_le (h : Unambiguous O l) (devname : CString) :
    (matching O devname l).length ≤ 1 := by
  have hp := h.filter fun kd => decide (devname ∈ kd.names O)
  rw [← matching] at hp
  cases hm : matching O devname l with
  | nil => exact Nat.zero_le _
  | cons a r =>
    cases r with
    | nil => exact le_rfl
    | cons b r =>
      have hmem : ∀ kd ∈ matching O devname l, devname ∈ kd.names O := fun kd hkd => by
        simpa using (List.mem_filter.1 hkd).2
      rw [hm] at hp hmem
      have hd := (List.pairwise_cons.1 hp).1 b List.mem_cons_self
      exact absurd (hmem b (by simp)) (hd (hmem a (by simp)))

/-- The order of an unambiguous table does not matter. -/
theorem Unambiguous.getroot_loop_perm (h : Unambiguous O l) (hp : l.Perm l') :
    getroot.loop O devname l' = getroot.loop O devname l := by
  have hm : (matching O devname l).Perm (matching O devname l') := hp.filter _
  have hle := h.matching_le devname
  have heq : matching O devname l' = matching O devname l := by
    cases hc : matching O devname l with
    | nil => rwa [hc, List.nil_perm] at hm
    | cons a r =>
      rw [hc] at hle hm
      cases r with
      | nil => rwa [List.singleton_perm, eq_comm] at hm
      | cons b r => exact absurd hle (by simp)
  rw [getroot_loop_eq, getroot_loop_eq, heq]

end

/-! ## What the operations do to the table -/

/-- The operations that change the table. -/
inductive DevOp (σ : Type) where
  | adddev (devname : CString) (dev : Device) (mountable : Bool) (vnode : Addr)
  | addfs (devname : CString) (fs : Fs) (vnode : Addr)
  | mount (devname : CString) (mountfunc : Device → BelowE σ Fs)
  | unmount (devname : CString)
  | unmountall

def DevOp.prog (O : Ops σ) : DevOp σ → VfsM σ Unit
  | adddev devname dev mountable vnode => vfsAdddev O devname dev mountable vnode
  | addfs devname fs vnode => vfsAddfs O devname fs vnode
  | mount devname mountfunc => vfsMount devname mountfunc
  | unmount devname => vfsUnmount O devname
  | unmountall => call (vfsUnmountall O)

/-- Anything may go wrong. -/
def Terms.any : Terms Panic := ⟨fun _ => True, True, True⟩

section
variable {O : Ops σ} {s : State σ}

/-- One more entry, with names of its own, or none. -/
def Adds (O : Ops σ) (l l' : List KnownDev) : Prop :=
  l' = l ∨ ∃ kd : KnownDev, l' = l ++ [kd] ∧
    badnames O l (some kd.kdName) kd.kdRawname (kd.kdFs.bind O.fsGetvolname) = false

theorem Unambiguous.adds {l l' : List KnownDev} (h : Unambiguous O l) (ha : Adds O l l') :
    Unambiguous O l' := by
  obtain rfl | ⟨kd, rfl, hb⟩ := ha
  · exact h
  · exact h.push hb

variable {t : Terms Panic} {Q : Except Errno Unit → State σ → Prop} {mountable : Bool}
  {vnode : Addr} {dev : Option Device} {fs : Fs} {devname : CString}
  {mountfunc : Device → BelowE σ Fs} {i : Nat}

theorem awpE_alloc (ha : t.asks) (hok : Q (.ok ()) s) (herr : t.refuses → Q (.error .ENOMEM) s) :
    awpE t (alloc : VfsM σ Unit) Q s :=
  awpE_call_bind.2 ⟨ha, hok, herr⟩

theorem awp_below {α : Type} {c : Below σ α} {Q : α → State σ → Prop}
    (h : Q (c s.vnodes).1 { s with vnodes := (c s.vnodes).2 }) : awp t (below c) Q s := h

theorem awpE_allocRawname (hok : Q (.ok ()) s) (herr : Q (.error .ENOMEM) s) :
    awpE Terms.any (allocRawname mountable : VfsM σ Unit) Q s := by
  cases mountable with
  | true => exact awpE_alloc trivial hok fun _ => herr
  | false => exact hok

theorem awpE_devCreateVnode : awpE Terms.any (devCreateVnode vnode dev : VfsM σ Unit)
      (fun _ s' => s'.knowndevs = s.knowndevs) s := by
  refine awpE_bind_of (awpE_alloc (Q := fun _ s' => s' = s) trivial rfl fun _ => rfl)
    (fun _ s' h => ?_) (fun _ s' h => by rw [h])
  rw [h]
  refine awpE_call_bind.2 (awpE_call_bind.2 (awpE_call_bind.2 ?_))
  refine ⟨trivial, ?_, fun _ => ?_⟩
  · exact ⟨trivial, awpE_call.2 (awp_assert_of trivial fun _ => rfl),
      fun _ => awpE_call.2 (awp_assert_of trivial fun _ => rfl)⟩
  · exact awpE_call.2 (awp_assert_of trivial fun _ => rfl)

theorem awpE_doadd_enter (kd : KnownDev) :
    awpE Terms.any (doadd.enter O kd) (fun _ s' => Adds O s.knowndevs.v s'.knowndevs.v) s := by
  refine awpE_call_bind.2 ?_
  rw [awp_mem]
  cases hb : badnames O s.knowndevs.v (some kd.kdName) kd.kdRawname
      (kd.kdFs.bind O.fsGetvolname) with
  | true => exact .inl rfl
  | false =>
    refine awpE_bind.2 (awpE_arrayAdd trivial (fun a' ha _ => ?_) fun _ => ?_)
    · exact awpE_call.2 (.inr ⟨kd, ha, hb⟩)
    · exact .inl rfl

theorem awpE_vfsDoadd {dname : CString} {fs : Option Fs}
    (hdev : mountable = true ∨ fs = none → dev.isSome) :
    awpE Terms.any (vfsDoadd O dname mountable dev fs hdev vnode)
      (fun _ s' => Adds O s.knowndevs.v s'.knowndevs.v) s := by
  refine awpE_bind_of (awpE_alloc (Q := fun _ s' => s' = s) trivial rfl fun _ => rfl)
    (fun _ s1 h1 => ?_) (fun _ s1 h => .inl (by rw [h]))
  refine awpE_bind_of (awpE_allocRawname (Q := fun _ s' => s' = s1) rfl rfl)
    (fun _ s2 h2 => ?_) (fun _ s2 h => .inl (by rw [h, h1]))
  refine awpE_bind_of awpE_devCreateVnode
    (fun _ s3 h3 => ?_) (fun _ s3 h => .inl (by rw [h, h2, h1]))
  have hk : s3.knowndevs = s.knowndevs := by rw [h3, h2, h1]
  refine awpE_call_bind.2 ⟨trivial, ?_, fun _ => ?_⟩
  · rw [← hk]
    exact awpE_doadd_enter _
  · exact awpE_call_bind.2 (.inl (by rw [← hk]))

/-! ### Mounting -/

/-- The mount will find entry `i` and come back with `fs`. -/
structure Mounts (devname : CString) (mountfunc : Device → BelowE σ Fs) (s : State σ)
    (i : Fin s.knowndevs.v.length) (fs : Fs) : Prop where
  found : findmount devname s.knowndevs.v = some i
  free : (s.knowndevs.v.get i).kdFs = none
  made : ∃ dev, (s.knowndevs.v.get i).kdDevice = some dev ∧ (mountfunc dev s.vnodes).1 = .ok fs

theorem Mounts.unique {i j : Fin s.knowndevs.v.length} {fs' : Fs}
    (h : Mounts devname mountfunc s i fs) (h' : Mounts devname mountfunc s j fs') :
    i = j ∧ fs = fs' := by
  obtain rfl : i = j := Option.some.inj (h.found.symm.trans h'.found)
  obtain ⟨dev, hd, hm⟩ := h.made
  obtain ⟨dev', hd', hm'⟩ := h'.made
  obtain rfl : dev = dev' := Option.some.inj (hd.symm.trans hd')
  exact ⟨rfl, Except.ok.inj (hm.symm.trans hm')⟩

/-- Either the file system is in the table, or the table is what it was. -/
theorem awpE_vfsMount :
    awpE Terms.any (vfsMount devname mountfunc) (fun _ s' =>
      (∃ i fs, Mounts devname mountfunc s i fs ∧
        s'.knowndevs = s.knowndevs.set i ((s.knowndevs.v.get i).mount fs)) ∨
      ((∀ i fs, ¬ Mounts devname mountfunc s i fs) ∧ s'.knowndevs = s.knowndevs)) s := by
  refine awpE_call_bind.2 ?_
  rw [awp_mem]
  cases hf : findmount devname s.knowndevs.v with
  | none => exact .inr ⟨fun i fs h => absurd (hf.symm.trans h.found) (by simp), rfl⟩
  | some i =>
    show awpE _ (mount.entry mountfunc i (s.knowndevs.v.get i)) _ s
    have hi : ∀ j fs, Mounts devname mountfunc s j fs → j = i := fun j fs h =>
      Option.some.inj (h.found.symm.trans hf)
    rw [mount.entry]
    cases hfs : (s.knowndevs.v.get i).kdFs with
    | some fs =>
      refine .inr ⟨fun j fs' h => ?_, rfl⟩
      have := h.free
      rw [hi j fs' h, hfs] at this
      cases this
    | none =>
      refine awpE_call_bind.2 (awp_assert_of trivial fun _ => ?_)
      cases hd : (s.knowndevs.v.get i).kdDevice with
      | none => exact awpE_call.2 trivial
      | some dev =>
        refine awpE_call_bind.2 (awp_below ?_)
        cases hr : (mountfunc dev s.vnodes).1 with
        | error e =>
          refine .inr ⟨fun j fs' h => ?_, rfl⟩
          obtain ⟨dev', hd', hm⟩ := h.made
          rw [hi j fs' h, hd] at hd'
          rw [← Option.some.inj hd', hr] at hm
          cases hm
        | ok fs => exact awpE_call.2 (.inl ⟨i, fs, ⟨hf, hfs, dev, hd, hr⟩, rfl⟩)

/-! ### Unmounting -/

theorem awpE_unmount_drop {kd : KnownDev} {h : kd.kdDevice.isSome}
    (hi : s.knowndevs.v[i]? = some kd) : awpE Terms.any (unmount.drop O i kd fs h)
      (fun _ s' => Loses O s.knowndevs.v s'.knowndevs.v) s := by
  refine awpE_call_bind.2 (awp_below ?_)
  cases (O.fsSync fs s.vnodes).1 with
  | error e => exact Loses.refl O _
  | ok u =>
    refine awpE_call_bind.2 (awp_below ?_)
    cases (O.fsUnmount fs (O.fsSync fs s.vnodes).2).1 with
    | error e => exact Loses.refl O _
    | ok u =>
      obtain ⟨hlt, rfl⟩ := List.getElem?_eq_some_iff.1 hi
      exact awpE_call.2 (Loses.set hlt (KnownDev.names_unmount_subset h))

theorem awpE_vfsUnmount : awpE Terms.any (vfsUnmount O devname)
      (fun _ s' => Loses O s.knowndevs.v s'.knowndevs.v) s := by
  refine awpE_call_bind.2 ?_
  rw [awp_mem]
  cases findmount devname s.knowndevs.v with
  | none => exact Loses.refl O _
  | some i =>
    show awpE _ (unmount.entry O i (s.knowndevs.v.get i)) _ s
    rw [unmount.entry]
    cases (s.knowndevs.v.get i).kdFs with
    | none => exact Loses.refl O _
    | some fs =>
      refine awpE_call_bind.2 (awp_assert_of trivial fun _ => ?_)
      split
      · exact awpE_unmount_drop (List.getElem?_eq_getElem i.isLt)
      · exact awpE_call.2 trivial

theorem awp_unmountall_entry (i : Nat) (kd : KnownDev) :
    awp Terms.any (unmountall.entry O i kd) (fun _ s' => s'.knowndevs = s.knowndevs ∨
      ∃ h, s'.knowndevs = s.knowndevs.set i (kd.unmount h)) s := by
  have hdrop : ∀ {s' : State σ} (fs : Fs) (h : kd.kdDevice.isSome),
      s'.knowndevs = s.knowndevs →
      awp Terms.any (unmountall.drop O i kd fs h) (fun _ s' => s'.knowndevs = s.knowndevs ∨
        ∃ h, s'.knowndevs = s.knowndevs.set i (kd.unmount h)) s' := by
    intro s' fs h hs
    refine awp_bind.2 (awp_below ?_)
    cases (O.fsUnmount fs s'.vnodes).1 with
    | error e => exact .inl hs
    | ok u => exact .inr ⟨h, congrArg (KArray.set · i _) hs⟩
  rw [unmountall.entry]
  split
  · next hraw =>
    cases kd.kdFs with
    | none => exact .inl rfl
    | some fs =>
      refine awp_bind.2 (awp_below ?_)
      cases (O.fsSync fs s.vnodes).1 with
      | ok u => exact hdrop fs _ rfl
      | error e =>
        refine awp_bind.2 (awp_below ?_)
        cases (O.fsSync fs (O.fsSync fs s.vnodes).2).1 with
        | ok u => exact hdrop fs _ rfl
        | error e => exact .inl rfl
  · exact .inl rfl

/-- From entry `i` on the loop sees the table as it is. -/
theorem awp_unmountall_loop {rest : List KnownDev} (h : s.knowndevs.v.drop i = rest) :
    awp Terms.any (unmountall.loop O i rest)
      (fun _ s' => Loses O s.knowndevs.v s'.knowndevs.v) s := by
  induction rest generalizing i s with
  | nil => exact Loses.refl O _
  | cons kd rest ih =>
    have hi : i < s.knowndevs.v.length := by
      by_contra hn
      rw [List.drop_eq_nil_of_le (Nat.le_of_not_lt hn)] at h
      cases h
    rw [List.drop_eq_getElem_cons hi] at h
    obtain ⟨rfl, hrest⟩ := List.cons.inj h
    refine awp_bind_of (awp_unmountall_entry i _) fun _ s' hs => ?_
    obtain hs | ⟨hd, hs⟩ := hs
    · rw [← hs] at hrest ⊢
      exact ih hrest
    · have hl : Loses O s.knowndevs.v s'.knowndevs.v := by
        rw [hs]
        exact Loses.set hi (KnownDev.names_unmount_subset hd)
      refine awp_mono (ih (i := i + 1) ?_) fun _ _ h => hl.trans h
      rw [hs, KArray.set_v, List.drop_set_of_lt (Nat.lt_succ_self i)]
      exact hrest

/-- Whether the table is unambiguous afterwards. -/
def DevOp.Fresh (O : Ops σ) (s : State σ) : DevOp σ → Prop
  | mount devname mountfunc => ∀ i fs, Mounts devname mountfunc s i fs →
      FreshVolume O s.knowndevs.v i fs
  | _ => True

/-- An unambiguous table is left unambiguous exactly if the operation does not
mount a volume under a name that another entry has. -/
theorem awpE_devOp (h : Unambiguous O s.knowndevs.v) (op : DevOp σ) : awpE Terms.any (op.prog O)
      (fun _ s' => Unambiguous O s'.knowndevs.v ↔ op.Fresh O s) s := by
  cases op with
  | adddev devname dev mountable vnode =>
    exact awpE_mono (awpE_vfsDoadd fun _ => rfl) fun _ _ ha => iff_of_true (h.adds ha) trivial
  | addfs devname fs vnode =>
    exact awpE_mono (awpE_vfsDoadd (by simp)) fun _ _ ha => iff_of_true (h.adds ha) trivial
  | mount devname mountfunc =>
    refine awpE_mono awpE_vfsMount fun _ s' hm => ?_
    obtain ⟨i, fs, hm, hs⟩ | ⟨hn, hs⟩ := hm
    · rw [hs, KArray.set_v]
      refine (h.mount_iff i.isLt hm.free).trans ⟨fun hf j fs' hm' => ?_, fun hf => hf i fs hm⟩
      obtain ⟨rfl, rfl⟩ := hm.unique hm'
      exact hf
    · rw [hs]
      exact iff_of_true h fun i fs hm => absurd hm (hn i fs)
  | unmount devname =>
    exact awpE_mono awpE_vfsUnmount fun _ _ hl => iff_of_true (h.loses hl) trivial
  | unmountall =>
    refine awpE_call.2 (awp_bind.2 ?_)
    rw [awp_mem]
    exact awp_mono (awp_unmountall_loop List.drop_zero) fun _ _ hl =>
      iff_of_true (h.loses hl) trivial

end

/-! ## Runs -/

/-- One thread in the VFS layer, in front of an allocator with a script. -/
def State.machine (s : State σ) (script : Script Empty) :
    Machine (State σ) Empty Unit Empty :=
  ⟨s, fun _ => (), script⟩

variable {O : Ops σ} {s : State σ}

theorem DevOp.run {op : DevOp σ} {script : Script Empty}
    {r : Except Errno Unit} {m : Machine (State σ) Empty Unit Empty}
    (h : Unambiguous O s.knowndevs.v) (hr : (op.prog O).run.run (s.machine script) = (.done r, m)) :
    Unambiguous O m.mem.knowndevs.v ↔ op.Fresh O s := by
  have hends := awp_run (t := Terms.any) (s := s.machine script) (fun _ => trivial)
    (awpE_devOp h op)
  rw [hr] at hends
  exact hends.1

/-- The states that can be reached from `s₀` by operations that meet the
condition `ok`, with the rest of the VFS layer at work in between. -/
inductive DevRun (O : Ops σ) (ok : State σ → DevOp σ → Prop) (s₀ : State σ) : State σ → Prop
  | start : DevRun O ok s₀ s₀
  | step {s : State σ} {m : Machine (State σ) Empty Unit Empty} {r : Except Errno Unit}
      (op : DevOp σ) (script : Script Empty) (hs : DevRun O ok s₀ s) (hok : ok s op)
      (hr : (op.prog O).run.run (s.machine script) = (.done r, m)) : DevRun O ok s₀ m.mem
  | other {s s' : State σ} (hs : DevRun O ok s₀ s) (h : s'.knowndevs = s.knowndevs) :
      DevRun O ok s₀ s'

theorem DevRun.unambiguous {s₀ s : State σ} (h0 : s₀.knowndevs.v = [])
    (h : DevRun O (fun s op => op.Fresh O s) s₀ s) : Unambiguous O s.knowndevs.v := by
  induction h with
  | start => rw [h0]; exact List.Pairwise.nil
  | step op script hs hok hr ih => exact (DevOp.run ih hr).2 hok
  | other hs h ih => rw [h]; exact ih

/-! ## The order of the table -/

/-- The program does not look at the table in the state. -/
def Blind {α : Type} (p : VProg σ α) : Prop :=
  ∀ (s : State σ) (a : KArray KnownDev) (script : Script Empty), ∃ (o : Outcome Panic α)
    (s' : State σ),
    p.run (s.machine script) = (o, s'.machine script) ∧
    p.run ({ s with knowndevs := a }.machine script) =
      (o, { s' with knowndevs := a }.machine script)

section
variable {α β : Type}

theorem Blind.pure (x : α) : Blind (Pure.pure x : VProg σ α) :=
  fun s _ _ => ⟨_, s, rfl, rfl⟩

variable {p : VProg σ α}

theorem Blind.bind {f : α → VProg σ β} (hp : Blind p)
    (hf : ∀ x, Blind (f x)) : Blind (p >>= f) := by
  intro s a script
  obtain ⟨o, s1, h, ha⟩ := hp s a script
  cases o with
  | done x =>
    obtain ⟨o, s2, h', ha'⟩ := hf x s1 a script
    exact ⟨o, s2, (Prog.run_bind_done h f).trans h', (Prog.run_bind_done ha f).trans ha'⟩
  | crash e =>
    refine ⟨.crash e, s1, ?_, ?_⟩
    · rw [Prog.bind_eq, Prog.run_bind, h]
    · rw [Prog.bind_eq, Prog.run_bind, ha]

theorem Blind.assert {P : Prop} [Decidable P] {f : Panic} :
    Blind (Prog.assert P f : VProg σ Unit) := by
  rw [Prog.assert]
  split
  · exact Blind.pure ()
  · exact fun s _ _ => ⟨_, s, rfl, rfl⟩

theorem Blind.below (c : Below σ α) : Blind (below c) :=
  fun _ _ _ => ⟨_, _, rfl, rfl⟩

theorem Blind.incref (v : Vnode) : Blind (vnodeIncref v : VProg σ Unit) :=
  fun _ _ _ => ⟨_, _, rfl, rfl⟩

theorem Blind.call_bind {f : α → VfsM σ β} (hp : Blind p)
    (hf : ∀ x, Blind (f x).run) : Blind (call p >>= f : VfsM σ β).run :=
  (hp.bind fun x => Blind.pure (Except.ok x)).bind fun r => by
    cases r with
    | ok x => exact hf x
    | error e => exact Blind.pure _

end

theorem Blind.getroot_loop (O : Ops σ) (devname : CString) (l : List KnownDev) :
    Blind (getroot.loop O devname l).run := by
  have hdevice : ∀ (kd : KnownDev) (next : VfsM σ Vnode), Blind next.run →
      Blind (getroot.device devname kd next).run := by
    intro kd next hn
    have hret : Blind (do call (vnodeIncref kd.vnode); Pure.pure kd.vnode : VfsM σ Vnode).run :=
      (Blind.incref _).call_bind fun _ => Blind.pure _
    rw [getroot.device]
    split
    · exact Blind.assert.call_bind fun _ => Blind.assert.call_bind fun _ =>
        Blind.assert.call_bind fun _ => hret
    · split
      · exact Blind.assert.call_bind fun _ => hret
      · exact hn
  induction l with
  | nil => exact Blind.pure _
  | cons kd l ih =>
    rw [getroot.loop]
    cases kd.kdFs with
    | none =>
      show Blind (ExceptT.run (ite _ _ _))
      split
      · exact Blind.pure _
      · exact hdevice kd _ ih
    | some fs =>
      show Blind (ExceptT.run (ite _ _ _))
      split
      · exact ((Blind.below _).bind fun _ => Blind.pure _).bind fun _ => Blind.pure _
      · exact hdevice kd _ ih

/-- Over an unambiguous table `vfs_getroot` answers the same, and leaves the
same vnodes behind, in whatever order the entries stand. -/
theorem Unambiguous.run_getroot_perm {a : KArray KnownDev}
    (h : Unambiguous O s.knowndevs.v) (hp : a.v.Perm s.knowndevs.v) (devname : CString)
    (script : Script Empty) :
    ∃ (o : Outcome Panic (Except Errno Vnode)) (s' : State σ),
      (vfsGetroot O devname).run.run (s.machine script) = (o, s'.machine script) ∧
      (vfsGetroot O devname).run.run ({ s with knowndevs := a }.machine script) =
        (o, { s' with knowndevs := a }.machine script) := by
  obtain ⟨o, s', h1, h2⟩ := Blind.getroot_loop O devname s.knowndevs.v s a script
  refine ⟨o, s', h1, ?_⟩
  rw [← h.getroot_loop_perm hp.symm] at h2
  exact h2

/-- One operation leaves an unambiguous table unambiguous exactly if it does not
mount a volume under a name that another entry goes by. So along every run in
which no mount does that, no string names two entries; `vfs_getroot` then has
one entry to look at, and the order of the table makes no difference. -/
theorem device_names_unambiguous (O : Ops σ) :
    (∀ (s : State σ) (op : DevOp σ) (script : Script Empty) (r : Except Errno Unit)
        (m : Machine (State σ) Empty Unit Empty), Unambiguous O s.knowndevs.v →
      (op.prog O).run.run (s.machine script) = (.done r, m) →
      (Unambiguous O m.mem.knowndevs.v ↔ op.Fresh O s)) ∧
    ∀ s₀ s : State σ, s₀.knowndevs.v = [] → DevRun O (fun s op => op.Fresh O s) s₀ s →
      Unambiguous O s.knowndevs.v ∧
      ∀ devname : CString, (matching O devname s.knowndevs.v).length ≤ 1 ∧
        ∀ a : KArray KnownDev, a.v.Perm s.knowndevs.v → ∀ script : Script Empty,
          ∃ (o : Outcome Panic (Except Errno Vnode)) (s' : State σ),
            (vfsGetroot O devname).run.run (s.machine script) = (o, s'.machine script) ∧
            (vfsGetroot O devname).run.run ({ s with knowndevs := a }.machine script) =
              (o, { s' with knowndevs := a }.machine script) := by
  refine ⟨fun s op script r m h hr => DevOp.run h hr, fun s₀ s h0 hs => ?_⟩
  have h := hs.unambiguous h0
  exact ⟨h, fun devname => ⟨h.matching_le devname,
    fun a hp script => h.run_getroot_perm hp devname script⟩⟩

/-! ### Two volumes of one name -/

/-- A routine that touches nothing. -/
def answer {α : Type} (r : Except Errno α) : BelowE σ α := fun s => (r, s)

/-- File systems with nothing but a root, file 0. -/
def rootOnly (volname : Fs → Option CString) : Ops Unit where
  fsSync _ := answer (.ok ())
  fsGetvolname := volname
  fsGetroot fs := fun s =>
    (0, { s with refcount :=
      Function.update s.refcount (.file fs 0) (s.refcount (.file fs 0) + 1) })
  fsUnmount _ := answer (.ok ())
  dOpen _ _ := answer (.ok ())
  dClose _ := answer (.ok ())
  dBlocks _ := 1
  dBlocksize _ := 512
  uiomove _ := answer (.ok ())
  vopOpen _ _ _ := answer (.ok ())
  vopClose _ _ := answer (.ok ())
  vopReclaim fs ino := fun s =>
    (.ok (), { s with refcount := Function.update s.refcount (.file fs ino) 0 })
  vopReadlink _ _ := answer (.error .EINVAL)
  vopGettype _ _ := answer (.ok sIfdir)
  vopTruncate _ _ _ := answer (.error .EINVAL)
  vopNamefile _ _ := answer (.ok ())
  vopCreat _ _ _ _ := answer (.error .EINVAL)
  vopSymlink _ _ _ _ := answer (.error .EINVAL)
  vopMkdir _ _ _ := answer (.error .EINVAL)
  vopLink _ _ _ _ := answer (.error .EINVAL)
  vopRemove _ _ _ := answer (.error .ENOENT)
  vopRmdir _ _ _ := answer (.error .ENOENT)
  vopRename _ _ _ _ _ := answer (.error .ENOENT)
  vopLookup _ _ _ := answer (.error .ENOENT)
  vopLookparent _ _ _ _ := answer (.error .ENOENT)

/-- No device, no vnode, one thread. -/
def bootVfs : State Unit where
  vnodes := ⟨fun _ => 0, fun _ => 0, ()⟩
  tCwd := [none]
  curthread := 0
  bootfsVnode := none
  knowndevs := KArray.empty

/-- Two disks. -/
def lhd0 : CString := CString.ofBytes [108, 104, 100, 48]
def lhd1 : CString := CString.ofBytes [108, 104, 100, 49]

/-- What both volumes are called. -/
def vol : CString := CString.ofBytes [118]

/-- The names of two volumes. -/
def volnames : Fs → Option CString
  | 0 => some vol
  | _ => some (CString.ofBytes [119])

theorem device_names_unambiguous_mount :
    ∃ s : State Unit, DevRun (rootOnly volnames) (fun s op => op.Fresh (rootOnly volnames) s)
        bootVfs s ∧
      s.knowndevs.v.map (KnownDev.names (rootOnly volnames)) =
        [[lhd0, mkrawname lhd0, vol], [lhd1, mkrawname lhd1, CString.ofBytes [119]]] ∧
      Unambiguous (rootOnly volnames) s.knowndevs.v := by
  have hfresh : ∀ {l : List KnownDev} {i : Nat} {n : CString},
      (∀ ns ∈ l.map (KnownDev.names (rootOnly volnames)), n ∉ ns) →
        ∀ a ∈ l.eraseIdx i, n ∉ a.names (rootOnly volnames) :=
    fun h a ha => h _ (List.mem_map_of_mem (List.mem_of_mem_eraseIdx ha))
  have hrun : ∃ s : State Unit,
      DevRun (rootOnly volnames) (fun s op => op.Fresh (rootOnly volnames) s) bootVfs s ∧
      s.knowndevs.v.map (KnownDev.names (rootOnly volnames)) =
        [[lhd0, mkrawname lhd0, vol], [lhd1, mkrawname lhd1, CString.ofBytes [119]]] := by
    refine ⟨_, .step (.mount lhd1 fun _ => answer (.ok 1)) {}
      (.step (.mount lhd0 fun _ => answer (.ok 0)) {}
        (.step (.adddev lhd1 6 true 101) {}
          (.step (.adddev lhd0 5 true 100) {} .start trivial rfl) trivial rfl) ?_ rfl)
      ?_ rfl, rfl⟩
    all_goals
      rintro i fs ⟨-, -, dev, -, hok⟩ n hn a ha
      cases hok
      cases hn
      refine hfresh ?_ a ha
      decide
  obtain ⟨s, hs, hnames⟩ := hrun
  exact ⟨s, hs, hnames, ((device_names_unambiguous _).2 bootVfs s rfl hs).1⟩

/-- Two disks whose volumes have the same name: `vfs_getroot` finds the root of
the first one, or of the second if the disks had been added the other way
round. -/
theorem two_volumes_of_one_name :
    ∃ s : State Unit, DevRun (rootOnly fun _ => some vol) (fun _ _ => True) bootVfs s ∧
      ¬ Unambiguous (rootOnly fun _ => some vol) s.knowndevs.v ∧
      ((vfsGetroot (rootOnly fun _ => some vol) vol).run.run (s.machine {})).1 =
        .done (.ok (.file 0 0)) ∧
      ∃ a : KArray KnownDev, a.v.Perm s.knowndevs.v ∧
        ((vfsGetroot (rootOnly fun _ => some vol) vol).run.run
          ({ s with knowndevs := a }.machine {})).1 = .done (.ok (.file 1 0)) := by
  refine ⟨_, .step (.mount lhd1 fun _ => answer (.ok 1)) {}
    (.step (.mount lhd0 fun _ => answer (.ok 0)) {}
      (.step (.adddev lhd1 6 true 101) {}
        (.step (.adddev lhd0 5 true 100) {} .start trivial rfl) trivial rfl) trivial rfl)
    trivial rfl, ?_, rfl, ⟨[_, _], 2, le_rfl⟩, List.Perm.swap _ _ _, rfl⟩
  intro h
  have hd := (List.pairwise_cons.1 h).1 _ List.mem_cons_self
  exact hd (a := vol) (by decide) (by decide)

end Os161.Vfs
