import Os161.Lib.Counts
import Os161.Proofs.Devices
import Os161.Vfs.Getdevice

/-!
# References to vnodes

Every reference to a vnode is in somebody's hands: a thread's current
directory, the boot file system, the table of devices, a file system that keeps
a vnode of its own for good, a file that is open, or a caller that has looked
up a name. A count is right if it is the number of these (`Balanced`).

Inside a routine the references in local variables are held like those of a
caller, so each routine is described by what it adds to the list of held
references: one for a lookup, nothing for an operation on a directory, and
nothing for a call that fails, whatever it is (`Post`). A VOP_DECREF takes one
off again. Opening a file moves its reference from the held ones to the open
ones, closing it moves it back.

For the file systems there is a contract, `Ops.Accounts`: VOP_LOOKUP,
VOP_LOOKPARENT, VOP_CREAT and FSOP_GETROOT hand out one new reference when they
succeed and none otherwise, VOP_RECLAIM gets rid of the vnode and does not fail,
and nothing else has a lasting effect on the counts. Devices are not asked for
anything of the kind: their operations are those of `device.c`.
-/

namespace Os161.Vfs

open Os161.Kern Os161.Lib Function

variable {σ α β : Type}

/-! ## The contract -/

/-- The counts are the same. -/
def SameCounts (n n' : Vnodes σ) : Prop := n'.refcount = n.refcount ∧ n'.opencount = n.opencount

/-- One reference to `v` has come in. -/
def Gains (n n' : Vnodes σ) (v : Vnode) : Prop :=
  n'.refcount = update n.refcount v (n.refcount v + 1) ∧ n'.opencount = n.opencount

/-- A routine that leaves the counts alone. -/
def Neutral (c : Below σ α) : Prop := ∀ n, SameCounts n (c n).2

/-- A routine that leaves the counts alone, called on a vnode that is in use. -/
def NeutralAt (v : Vnode) (c : Below σ α) : Prop :=
  ∀ n : Vnodes σ, 0 < n.refcount v → SameCounts n (c n).2

/-- A routine that hands out a reference if it succeeds. -/
def HandsOut (v : Vnode) (c : BelowE σ α) (give : α → Vnode) : Prop :=
  ∀ n : Vnodes σ, 0 < n.refcount v →
    (∀ x, (c n).1 = .ok x → Gains n (c n).2 (give x)) ∧
    (∀ e, (c n).1 = .error e → SameCounts n (c n).2)

structure Ops.Accounts (O : Ops σ) : Prop where
  getroot : ∀ fs n, Gains n (O.fsGetroot fs n).2 (.file fs (O.fsGetroot fs n).1)
  creat : ∀ fs ino name excl, HandsOut (.file fs ino) (O.vopCreat fs ino name excl) (.file fs)
  lookup : ∀ fs ino path, HandsOut (.file fs ino) (O.vopLookup fs ino path) (.file fs)
  lookparent : ∀ fs ino path buflen, HandsOut (.file fs ino)
    (O.vopLookparent fs ino path buflen) (fun x => .file fs x.1)
  reclaim : ∀ fs ino (n : Vnodes σ), n.refcount (.file fs ino) = 1 →
    n.opencount (.file fs ino) = 0 →
    (O.vopReclaim fs ino n).1 = .ok () ∧
    (O.vopReclaim fs ino n).2.refcount = update n.refcount (.file fs ino) 0 ∧
    (O.vopReclaim fs ino n).2.opencount = n.opencount
  dOpen : ∀ d flags, Neutral (O.dOpen d flags)
  dClose : ∀ d, Neutral (O.dClose d)
  uiomove : ∀ l, Neutral (O.uiomove l)
  opens : ∀ fs ino flags, NeutralAt (.file fs ino) (O.vopOpen fs ino flags)
  closes : ∀ fs ino, NeutralAt (.file fs ino) (O.vopClose fs ino)
  readlink : ∀ fs ino, NeutralAt (.file fs ino) (O.vopReadlink fs ino)
  gettype : ∀ fs ino, NeutralAt (.file fs ino) (O.vopGettype fs ino)
  truncate : ∀ fs ino len, NeutralAt (.file fs ino) (O.vopTruncate fs ino len)
  namefile : ∀ fs ino, NeutralAt (.file fs ino) (O.vopNamefile fs ino)
  symlink : ∀ fs ino name contents, NeutralAt (.file fs ino) (O.vopSymlink fs ino name contents)
  mkdir : ∀ fs ino name, NeutralAt (.file fs ino) (O.vopMkdir fs ino name)
  link : ∀ fs ino name file, NeutralAt (.file fs ino) (O.vopLink fs ino name file)
  remove : ∀ fs ino name, NeutralAt (.file fs ino) (O.vopRemove fs ino name)
  rmdir : ∀ fs ino name, NeutralAt (.file fs ino) (O.vopRmdir fs ino name)
  rename : ∀ fs ino name v2 name2,
    NeutralAt (.file fs ino) (O.vopRename fs ino name v2 name2)

/-! ## The references -/

/-- The references that are in the state itself, and those that a file system
keeps. -/
def State.refs (kept : List Vnode) (s : State σ) : List Vnode :=
  s.tCwd.reduceOption ++ s.bootfsVnode.toList ++ s.knowndevs.v.map KnownDev.vnode ++ kept

/-- Every count is right, with `opened` the files that are open and `held` the
other references. -/
structure Balanced (kept : List Vnode) (s : State σ) (opened held : List Vnode) : Prop where
  refcount : Counted s.vnodes.refcount (s.refs kept ++ opened ++ held)
  opencount : Counted s.vnodes.opencount opened

/-- A vnode that may be handed out: a device of the table, or a file of a file
system in it. -/
def Home (s : State σ) : Vnode → Prop
  | .dev a d => d.isSome ∧ Vnode.dev a d ∈ s.knowndevs.v.map KnownDev.vnode
  | .file fs _ => ∃ kd ∈ s.knowndevs.v, kd.kdFs = some fs

/-- Besides, nobody has any other vnode, and a current directory is not a
device. -/
structure Sound (kept : List Vnode) (s : State σ) (opened held : List Vnode) : Prop
    extends Balanced kept s opened held where
  cur : s.curthread < s.tCwd.length
  cwd : ∀ v, some v ∈ s.tCwd → Home s v ∧ v.vnFs ≠ none
  boot : ∀ v, s.bootfsVnode = some v → Home s v
  home : ∀ v ∈ opened ++ held, Home s v

/-- The state with other vnodes. -/
def State.withVnodes (s : State σ) (n : Vnodes σ) : State σ := { s with vnodes := n }

variable {kept opened held held' : List Vnode} {s : State σ} {n : Vnodes σ} {v : Vnode}
  {O : Ops σ}

namespace Sound

section
variable (h : Sound kept s opened held)
include h

variable {opened' : List Vnode}

/-- Other vnodes, whose counts are right for other references. -/
theorem change (hr : Counted n.refcount (s.refs kept ++ opened' ++ held'))
    (ho : Counted n.opencount opened') (hh : ∀ v ∈ opened' ++ held', Home s v) :
    Sound kept (s.withVnodes n) opened' held' :=
  ⟨⟨hr, ho⟩, h.cur, h.cwd, h.boot, hh⟩

theorem same (hn : SameCounts s.vnodes n) : Sound kept (s.withVnodes n) opened held :=
  h.change (hn.1 ▸ h.refcount) (hn.2 ▸ h.opencount) h.home

theorem perm (hp : held.Perm held') : Sound kept s opened held' :=
  h.change (h.refcount.perm (hp.append_left _)) h.opencount
    fun v hv => h.home v ((hp.append_left _).mem_iff.2 hv)

theorem gains (hv : Home s v) (hn : Gains s.vnodes n v) :
    Sound kept (s.withVnodes n) opened (v :: held) := by
  refine h.change ?_ (hn.2 ▸ h.opencount) fun w hw => ?_
  · rw [hn.1]
    exact (h.refcount.take v).perm List.perm_middle.symm
  · obtain rfl | hw := List.mem_cons.1 (List.perm_middle.mem_iff.1 hw)
    · exact hv
    · exact h.home w hw

theorem permOpened (hp : opened.Perm opened') : Sound kept s opened' held :=
  h.change (h.refcount.perm ((hp.append_left _).append_right _)) (h.opencount.perm hp)
    fun v hv => h.home v ((hp.append_right _).mem_iff.2 hv)

end

theorem perm_opened_held {refs : List Vnode} :
    (refs ++ opened ++ v :: held).Perm (refs ++ (v :: opened) ++ held) := by
  refine List.perm_iff_count.2 fun w => ?_
  simp only [List.count_append, List.count_cons]
  omega

/-- A held vnode is opened. -/
theorem opens (h : Sound kept s opened (v :: held)) (hr : n.refcount = s.vnodes.refcount)
    (ho : n.opencount = update s.vnodes.opencount v (s.vnodes.opencount v + 1)) :
    Sound kept (s.withVnodes n) (v :: opened) held :=
  h.change (hr ▸ h.refcount.perm perm_opened_held) (ho ▸ h.opencount.take v)
    fun w hw => h.home w (List.perm_middle.mem_iff.2 hw)

/-- An open vnode is closed, and its reference is held. -/
theorem closes (h : Sound kept s (v :: opened) held) (hr : n.refcount = s.vnodes.refcount)
    (ho : n.opencount = update s.vnodes.opencount v (s.vnodes.opencount v - 1)) :
    Sound kept (s.withVnodes n) opened (v :: held) :=
  h.change (hr ▸ h.refcount.perm perm_opened_held.symm) (ho ▸ h.opencount.drop)
    fun w hw => h.home w (List.perm_middle.mem_iff.1 hw)

/-- One reference to a held vnode is gone. -/
theorem loses (h : Sound kept s opened (v :: held))
    (hr : n.refcount = update s.vnodes.refcount v (s.vnodes.refcount v - 1))
    (ho : n.opencount = s.vnodes.opencount) : Sound kept (s.withVnodes n) opened held :=
  h.change (hr ▸ (h.refcount.perm List.perm_middle).drop) (ho ▸ h.opencount)
    fun w hw => h.home w (List.perm_middle.mem_iff.2 (List.mem_cons_of_mem _ hw))

section
variable (h : Sound kept s opened held)
include h

theorem pos (hv : v ∈ held) : 0 < s.vnodes.refcount v :=
  h.refcount.pos (List.mem_append_right _ hv)

theorem homeOf (hv : v ∈ held) : Home s v :=
  h.home v (List.mem_append_right _ hv)

/-- The counts tell what has been gained. -/
theorem gains_of {n : Vnodes σ}
    (h' : Sound kept (s.withVnodes n) opened (v :: held)) : Gains s.vnodes n v := by
  have hg : Gains s.vnodes { s.vnodes with
      refcount := update s.vnodes.refcount v (s.vnodes.refcount v + 1) } v := ⟨rfl, rfl⟩
  have hv : Home s v := h'.homeOf List.mem_cons_self
  exact ⟨(h.gains hv hg).refcount.unique h'.refcount, h.opencount.unique h'.opencount⟩

theorem same_of {n : Vnodes σ}
    (h' : Sound kept (s.withVnodes n) opened held) : SameCounts s.vnodes n :=
  ⟨h.refcount.unique h'.refcount, h.opencount.unique h'.opencount⟩

end

/-- Whoever drops the last reference to a vnode has a file in hand, and it is
not open. -/
theorem last (h : Sound kept s opened (v :: held)) (h1 : s.vnodes.refcount v ≤ 1) :
    (∃ fs ino, v = .file fs ino) ∧ s.vnodes.opencount v = 0 := by
  have hlast := (h.refcount.perm List.perm_middle).last h1
  rw [List.mem_append, List.mem_append, not_or, not_or] at hlast
  refine ⟨?_, ?_⟩
  · cases v with
    | file fs ino => exact ⟨fs, ino, rfl⟩
    | dev a d =>
      have hdev := (h.homeOf List.mem_cons_self).2
      exact absurd (List.mem_append_left _ (List.mem_append_right _ hdev)) hlast.1.1
  · rw [h.opencount v, List.count_eq_zero]
    exact hlast.1.2

end Sound

/-! ## What a routine does to the references -/

/-- No assertion fails, and the allocator is not asked. -/
def Terms.none : Terms Panic := ⟨fun _ => False, False, True⟩

/-- What comes with a result. -/
def gained (give : α → List Vnode) : Except Errno α → List Vnode
  | .ok x => give x
  | .error _ => []

/-- The routine has done nothing but gain the references `give` of its result. -/
def Post (kept : List Vnode) (s : State σ) (opened held : List Vnode) (give : α → List Vnode)
    (r : Except Errno α) (s' : State σ) : Prop :=
  ∃ n, s' = s.withVnodes n ∧ Sound kept s' opened (gained give r ++ held)

section
variable {give : α → List Vnode} {give' : β → List Vnode}

theorem Post.bind {p : VfsM σ α} {f : α → VfsM σ β}
    (hp : awpE Terms.none p (Post kept s opened held give) s)
    (hf : ∀ x n, Sound kept (s.withVnodes n) opened (give x ++ held) →
      awpE Terms.none (f x) (Post kept (s.withVnodes n) opened held give') (s.withVnodes n)) :
    awpE Terms.none (p >>= f) (Post kept s opened held give') s := by
  refine awpE_bind_of hp (fun x s' h => ?_) (fun e s' h => h)
  obtain ⟨n, rfl, h⟩ := h
  exact hf x n h

theorem awp_vnodeIncref (h : Sound kept s opened held) (hv : Home s v) :
    awp Terms.none (vnodeIncref v)
      (fun _ s' => ∃ n, s' = s.withVnodes n ∧ Sound kept s' opened (v :: held)) s :=
  ⟨_, rfl, h.gains hv ⟨rfl, rfl⟩⟩

theorem awp_vnodeDecref (hO : O.Accounts) (h : Sound kept s opened (v :: held)) :
    awp Terms.none (vnodeDecref O v)
      (fun _ s' => ∃ n, s' = s.withVnodes n ∧ Sound kept s' opened held) s := by
  have hpos := h.pos List.mem_cons_self
  refine awp_bind.2 ?_
  rw [awp_mem]
  refine awp_bind.2 (awp_assert.2 ⟨fun _ => ?_, fun hn => hn hpos⟩)
  split
  · exact ⟨_, rfl, h.loses rfl rfl⟩
  · next h1 =>
    obtain ⟨⟨fs, ino, rfl⟩, ho⟩ := h.last (Nat.not_lt.1 h1)
    have hone : s.vnodes.refcount (.file fs ino) = 1 := by omega
    obtain ⟨-, hr, hc⟩ := hO.reclaim fs ino s.vnodes hone ho
    refine ⟨_, rfl, h.loses ?_ hc⟩
    rw [hr, hone]

/-- `VOP_DECREF(vn)` between the result and the return. -/
theorem Post.thenDecref (hO : O.Accounts) {p : VfsM σ α}
    (hp : awpE Terms.none p (Post kept s opened (v :: held) give) s) :
    awpE Terms.none (thenDecref O p v) (Post kept s opened held give) s := by
  refine awpE_call_bind.2 (awp_mono hp fun r s' h => ?_)
  obtain ⟨n, rfl, h⟩ := h
  refine awpE_call_bind.2 (awp_mono (awp_vnodeDecref hO (h.perm List.perm_middle))
    fun _ s' h' => ?_)
  cases r with
  | ok x => exact h'
  | error e => exact h'

/-- A routine that succeeds or fails without a trace. -/
theorem Post.done (h : Sound kept s opened held) (r : Except Errno α) (hr : gained give r = []) :
    Post kept s opened held give r s :=
  ⟨s.vnodes, rfl, by rw [hr]; exact h⟩

end

/-! ### Calls to the layers below -/

/-- The routine runs through and leaves the counts alone. -/
def Still (p : VProg σ α) (s : State σ) : Prop :=
  awp Terms.none p (fun _ s' => ∃ n, s' = s.withVnodes n ∧ SameCounts s.vnodes n) s

variable {p : VProg σ (Except Errno α)} {fs : Fs} {x : Except Errno Place} {kd : KnownDev}
  {devname name path : CString} {l : List KnownDev} {b : Books}

theorem Still.post (hp : Still p s) (h : Sound kept s opened held) :
    awpE Terms.none (p : VfsM σ α) (Post kept s opened held fun _ => []) s := by
  refine awp_mono hp fun r s' hs => ?_
  obtain ⟨n, rfl, hn⟩ := hs
  refine ⟨n, rfl, ?_⟩
  cases r <;> exact h.same hn

theorem Still.pure (x : α) : Still (Pure.pure x : VProg σ α) s :=
  ⟨s.vnodes, rfl, rfl, rfl⟩

theorem Still.below {c : Below σ α} (h : Neutral c) : Still (below c) s :=
  ⟨_, rfl, h s.vnodes⟩

theorem awp_vnodeCheck {Q : Unit → State σ → Prop} (h : 0 < s.vnodes.refcount v)
    (hQ : Q () s) : awp Terms.none (vnodeCheck v) Q s :=
  awp_bind.2 (awp_assert.2 ⟨fun _ => hQ, fun hn => hn h⟩)

/-- A device that may be handed out is not NULL. -/
theorem awp_vnDevice {a : Addr} {d : Option Device} {Q : Device → State σ → Prop}
    (hv : Home s (.dev a d)) (hQ : ∀ dev, Q dev s) : awp Terms.none (vnDevice d) Q s := by
  cases d with
  | none => exact absurd hv.1 (by simp)
  | some dev => exact hQ dev

theorem Still.vopOn {dev : Option Device → VProg σ α} {vop : Fs → Ino → Below σ α}
    (h : 0 < s.vnodes.refcount v) (hdev : ∀ a d, v = .dev a d → Still (dev d) s)
    (hvop : ∀ fs ino, NeutralAt (.file fs ino) (vop fs ino)) : Still (vopOn v dev vop) s := by
  refine awp_bind.2 (awp_vnodeCheck h ?_)
  cases v with
  | dev a d => exact hdev a d rfl
  | file fs ino => exact ⟨_, rfl, hvop fs ino s.vnodes h⟩

theorem Still.vopOr {e : Except Errno α} {vop : Fs → Ino → BelowE σ α} (h : 0 < s.vnodes.refcount v)
    (hvop : ∀ fs ino, NeutralAt (.file fs ino) (vop fs ino)) : Still (vopOr e v vop) s :=
  Still.vopOn h (fun _ _ _ => Still.pure e) hvop

section
variable (hO : O.Accounts) (h : 0 < s.vnodes.refcount v) (hv : Home s v)
include hO h hv

theorem Still.vopOpen (flags : UInt32) : Still (vopOpen O v flags) s := by
  refine Still.vopOn h (fun a d hd => ?_) fun fs ino => hO.opens fs ino flags
  subst hd
  refine awp_bind.2 (awp_vnDevice hv fun dev => ?_)
  split
  · exact Still.pure _
  · exact Still.below (hO.dOpen dev flags)

theorem Still.vopClose : Still (vopClose O v) s := by
  refine Still.vopOn h (fun a d hd => ?_) hO.closes
  subst hd
  exact awp_bind.2 (awp_vnDevice hv fun dev => Still.below (hO.dClose dev))

theorem Still.vopTruncate (len : UInt32) : Still (vopTruncate O v len) s := by
  refine Still.vopOn h (fun a d hd => ?_) fun fs ino => hO.truncate fs ino len
  subst hd
  exact awp_bind.2 (awp_vnDevice hv fun dev => Still.pure _)

end

/-! ### Vnodes that are handed out -/

theorem Post.handsOut {c : BelowE σ α} {give : α → Vnode} (hc : HandsOut v c give)
    (h : Sound kept s opened held) (hpos : 0 < s.vnodes.refcount v) (hhome : ∀ x, Home s (give x)) :
    awpE Terms.none (below c : VfsM σ α) (Post kept s opened held fun x => [give x]) s := by
  obtain ⟨hok, herr⟩ := hc s.vnodes hpos
  refine ⟨_, rfl, ?_⟩
  cases hr : (c s.vnodes).1 with
  | ok x => exact h.gains (hhome x) (hok x hr)
  | error e => exact h.same (herr e hr)

theorem Post.map {g : α → β} {give : β → List Vnode}
    (hp : awpE Terms.none (p : VfsM σ α) (Post kept s opened held fun x => give (g x)) s) :
    awpE Terms.none (do let r ← p; Pure.pure (r.map g) : VProg σ (Except Errno β))
      (Post kept s opened held give) s := by
  refine awp_bind.2 (awp_mono hp fun r s' h => ?_)
  cases r with
  | ok x => exact h
  | error e => exact h

section
variable (hO : O.Accounts) (h : Sound kept s opened held) (hv : v ∈ held)
include hO h hv

theorem Post.vopCreat (name : CString) (excl : Bool) :
    awpE Terms.none (vopCreat O v name excl) (Post kept s opened held fun w => [w]) s := by
  have hhome := h.homeOf hv
  refine awp_bind.2 (awp_vnodeCheck (h.pos hv) ?_)
  cases v with
  | dev a d => exact Post.done h _ rfl
  | file fs ino =>
    exact Post.map (Post.handsOut (hO.creat fs ino name excl) h (h.pos hv) fun _ => hhome)

theorem Post.vopLookup (path : CString) :
    awpE Terms.none (vopLookup O v path) (Post kept s opened held fun w => [w]) s := by
  have hhome := h.homeOf hv
  refine awp_bind.2 (awp_vnodeCheck (h.pos hv) ?_)
  cases v with
  | dev a d =>
    show awp _ (devLookup _ path) _ s
    rw [devLookup]
    split
    · exact Post.done h _ rfl
    · exact awp_bind.2 (awp_vnodeIncref h hhome)
  | file fs ino =>
    exact Post.map (Post.handsOut (hO.lookup fs ino path) h (h.pos hv) fun _ => hhome)

theorem Post.vopLookparent (path : CString) (buflen : Nat) :
    awpE Terms.none (vopLookparent O v path buflen) (Post kept s opened held fun x => [x.1]) s := by
  have hhome := h.homeOf hv
  refine awp_bind.2 (awp_vnodeCheck (h.pos hv) ?_)
  cases v with
  | dev a d => exact Post.done h _ rfl
  | file fs ino =>
    exact Post.map (Post.handsOut (hO.lookparent fs ino path buflen) h (h.pos hv) fun _ => hhome)

end

/-! ## Where a path begins -/

/-- The search for a place: its vnode is handed out, or there is none. -/
inductive Found (O : Ops σ) (kept : List Vnode) (s : State σ) (opened held : List Vnode) :
    Except Errno Place → Except Errno Vnode → State σ → Prop where
  | ok {place : Place} {v : Vnode} {n : Vnodes σ} : place.Is O v →
      Sound kept (s.withVnodes n) opened (v :: held) →
      Found O kept s opened held (.ok place) (.ok v) (s.withVnodes n)
  | error {e : Errno} {n : Vnodes σ} : Sound kept (s.withVnodes n) opened held →
      Found O kept s opened held (.error e) (.error e) (s.withVnodes n)

theorem Found.post {r : Except Errno Vnode} {s' : State σ} (h : Found O kept s opened held x r s') :
    Post kept s opened held (fun v => [v]) r s' := by
  cases h with
  | ok _ hs => exact ⟨_, rfl, hs⟩
  | error hs => exact ⟨_, rfl, hs⟩

/-- An entry whose own vnode is given to a caller has a device. -/
theorem KnownDev.home (hkd : kd ∈ s.knowndevs.v) (hd : kd.kdDevice.isSome) : Home s kd.vnode :=
  ⟨hd, List.mem_map_of_mem hkd⟩

theorem Found.incref (h : Sound kept s opened held) (hv : Home s v) :
    awpE Terms.none (do call (vnodeIncref v); Pure.pure v : VfsM σ Vnode)
      (Found O kept s opened held (.ok (.vnode v))) s := by
  refine awpE_call_bind.2 (awp_mono (awp_vnodeIncref h hv) fun _ s' hs => ?_)
  obtain ⟨n, rfl, hs⟩ := hs
  exact .ok rfl hs

theorem Found.getroot_device (h : Sound kept s opened held) {next : VfsM σ Vnode}
    (hkd : kd ∈ s.knowndevs.v) (hname : kd.kdName = devname → kd.kdFs = none ∧ kd.kdRawname = none)
    (hmine : kd.kdName = devname ∨ kd.kdRawname = some devname → x = .ok (.vnode kd.vnode))
    (hnext : ¬ (kd.kdName = devname ∨ kd.kdRawname = some devname) →
      awpE Terms.none next (Found O kept s opened held x) s) :
    awpE Terms.none (getroot.device devname kd next) (Found O kept s opened held x) s := by
  rw [getroot.device]
  split
  · next hn =>
    obtain ⟨hfs, hraw⟩ := hname hn
    have hd := kd.bare hfs
    rw [hmine (.inl hn)]
    refine awpE_call_bind.2 (awp_assert.2 ⟨fun _ => ?_, fun hx => hx hfs⟩)
    refine awpE_call_bind.2 (awp_assert.2 ⟨fun _ => ?_, fun hx => hx hraw⟩)
    exact awpE_call_bind.2
      (awp_assert.2 ⟨fun _ => Found.incref h (kd.home hkd hd), fun hx => hx hd⟩)
  · next hn =>
    split
    · next hr =>
      have hd := kd.raw (by rw [hr]; rfl)
      rw [hmine (.inr hr)]
      exact awpE_call_bind.2
        (awp_assert.2 ⟨fun _ => Found.incref h (kd.home hkd hd), fun hx => hx hd⟩)
    · next hr => exact hnext fun hor => hor.elim hn hr

theorem deviceNamed_cons_pos (h : kd.GoesBy O name) :
    deviceNamed O (kd :: l) name = kd.place O name := by
  rw [deviceNamed, List.find?_cons_of_pos (by simpa using h)]

theorem deviceNamed_cons_neg (h : ¬ kd.GoesBy O name) :
    deviceNamed O (kd :: l) name = deviceNamed O l name := by
  rw [deviceNamed, List.find?_cons_of_neg (by simpa using h), deviceNamed]

theorem Found.getroot_loop (hO : O.Accounts) (h : Sound kept s opened held)
    (hl : ∀ kd ∈ l, kd ∈ s.knowndevs.v) : awpE Terms.none (getroot.loop O devname l)
      (Found O kept s opened held (deviceNamed O l devname)) s := by
  induction l with
  | nil => exact Found.error (n := s.vnodes) h
  | cons kd l ih =>
    have hkd := hl kd List.mem_cons_self
    have hnext := ih fun kd' h' => hl kd' (List.mem_cons_of_mem _ h')
    rw [getroot.loop]
    cases hfs : kd.kdFs with
    | none =>
      -- without a file system there is no volume name either
      have hgoes : kd.GoesBy O devname ↔
          kd.kdName = devname ∨ kd.kdRawname = some devname := by
        rw [KnownDev.GoesBy, hfs]
        exact or_congr_right (or_iff_right (by rintro ⟨⟩))
      show awpE _ (ite _ _ _) _ s
      split
      · next hn =>
        rw [deviceNamed_cons_pos (hgoes.2 (.inl hn.2)), KnownDev.place, hfs]
        rw [if_pos hn.symm]
        exact Found.error (n := s.vnodes) h
      · next hn =>
        refine Found.getroot_device h hkd (fun hname => ⟨hfs, ?_⟩) (fun hmine => ?_) fun hno => ?_
        · cases hraw : kd.kdRawname with
          | none => rfl
          | some r => exact absurd ⟨by rw [hraw]; rfl, hname⟩ hn
        · rw [deviceNamed_cons_pos (hgoes.2 hmine), KnownDev.place, hfs]
          rw [if_neg fun hx => hn hx.symm]
        · rw [deviceNamed_cons_neg fun hg => hno (hgoes.1 hg)]
          exact hnext
    | some fs =>
      show awpE _ (ite _ _ _) _ s
      split
      · next hn =>
        have hgoes : kd.GoesBy O devname := by
          rw [KnownDev.GoesBy, hfs]
          exact hn.elim .inl fun hv => .inr (.inl hv)
        rw [deviceNamed_cons_pos hgoes, KnownDev.place, hfs]
        dsimp only
        rw [if_pos hn]
        exact awpE_call.2 (Found.ok ⟨_, rfl⟩
          (h.gains (v := .file fs _) ⟨kd, hkd, hfs⟩ (hO.getroot fs s.vnodes)))
      · next hn =>
        refine Found.getroot_device h hkd (fun hname => absurd (.inl hname) hn)
          (fun hmine => ?_) fun hno => ?_
        · have hgoes : kd.GoesBy O devname :=
            hmine.elim .inl fun hr => .inr (.inr hr)
          rw [deviceNamed_cons_pos hgoes, KnownDev.place, hfs]
          dsimp only
          rw [if_neg hn]
        · rw [deviceNamed_cons_neg]
          · exact hnext
          · rw [KnownDev.GoesBy, hfs]
            rintro (hname | hvol | hraw)
            · exact hn (.inl hname)
            · exact hn (.inr hvol)
            · exact hno (.inr hraw)

theorem Found.vfsGetroot (hO : O.Accounts) (h : Sound kept s opened held) (devname : CString) :
    awpE Terms.none (vfsGetroot O devname)
      (Found O kept s opened held (deviceNamed O s.knowndevs.v devname)) s :=
  awpE_call_bind.2 (Found.getroot_loop hO h fun _ hkd => hkd)

theorem State.cwd_mem (h : s.cwd = some v) : some v ∈ s.tCwd := by
  rw [State.cwd, List.getD_eq_getElem?_getD] at h
  cases hc : s.tCwd[s.curthread]? with
  | none => rw [hc] at h; cases h
  | some x =>
    rw [hc, Option.getD_some] at h
    exact h ▸ List.mem_of_getElem? hc

variable {Q : Except Errno Vnode → State σ → Prop}

theorem awpE_vfsGetcurdir (h : Sound kept s opened held)
    (hnone : s.cwd = none → Q (.error .ENOENT) s)
    (hsome : ∀ v n, s.cwd = some v → Sound kept (s.withVnodes n) opened (v :: held) →
      Q (.ok v) (s.withVnodes n)) :
    awpE Terms.none (vfsGetcurdir : VfsM σ Vnode) Q s := by
  refine awpE_call_bind.2 ?_
  rw [awp_mem]
  cases hc : s.cwd with
  | none => exact hnone hc
  | some w =>
    refine awpE_call_bind.2 (awp_mono (awp_vnodeIncref h (h.cwd w (State.cwd_mem hc)).1) ?_)
    rintro _ s' ⟨n, rfl, hs⟩
    exact hsome w n hc hs

theorem Found.vfsGetcurdir (h : Sound kept s opened held) :
    awpE Terms.none (vfsGetcurdir : VfsM σ Vnode)
      (Found O kept s opened held (s.startOf O .cwd)) s := by
  refine awpE_vfsGetcurdir h (fun hc => ?_) fun v n hc hs => ?_
  · rw [State.startOf, hc]
    exact Found.error (n := s.vnodes) h
  · rw [State.startOf, hc]
    exact .ok rfl hs

theorem Found.bootStart (h : Sound kept s opened held) : awpE Terms.none (bootStart : VfsM σ Vnode)
      (Found O kept s opened held (s.startOf O .boot)) s := by
  refine awpE_call_bind.2 ?_
  rw [awp_mem, State.startOf]
  cases hb : s.bootfsVnode with
  | none => exact Found.error (n := s.vnodes) h
  | some v => exact Found.incref h (h.boot v hb)

theorem Found.cwdRoot (hO : O.Accounts) (h : Sound kept s opened held) :
    awpE Terms.none (cwdRoot O : VfsM σ Vnode)
      (Found O kept s opened held (s.startOf O .root)) s := by
  refine awpE_bind.2 (awpE_vfsGetcurdir h (fun hc => ?_) fun vn n hcwd hs => ?_)
  · rw [State.startOf, hc]
    exact Found.error (n := s.vnodes) h
  · obtain ⟨hhome, hfs⟩ := h.cwd vn (State.cwd_mem hcwd)
    rw [State.startOf, hcwd]
    cases vn with
    | dev a d => exact absurd rfl hfs
    | file fs ino =>
      have hgains := hs.gains (v := .file fs _) hhome (hO.getroot fs n)
      refine awpE_call_bind.2 (awpE_call_bind.2
        (awp_mono (awp_vnodeDecref hO (hgains.perm (List.Perm.swap _ _ _))) ?_))
      rintro _ s2 ⟨n2, rfl, hs2⟩
      exact .ok ⟨_, rfl⟩ hs2

/-! ### The path -/

/-- The scan stops at the first character that is not plain. -/
theorem scan_eq (path : List UInt8) (i : Nat) :
    getdevice.scan path i =
      match path.dropWhile Start.isPlain with
      | [] => (none, none)
      | c :: _ =>
        if c = chColon then (none, some (i + (path.takeWhile Start.isPlain).length))
        else (some (i + (path.takeWhile Start.isPlain).length), none) := by
  induction path generalizing i with
  | nil => rfl
  | cons c path ih =>
    rw [getdevice.scan]
    by_cases hc : c = chColon
    · simp [hc, Start.isPlain]
    · by_cases hs : c = chSlash
      · simp [hs, Start.isPlain, show chSlash ≠ chColon by decide]
      · have hp : Start.isPlain c = true := by simp [Start.isPlain, hc, hs]
        rw [if_neg hc, if_neg hs, ih, List.dropWhile_cons, if_pos hp, List.takeWhile_cons,
          if_pos hp]
        simp only [List.length_cons, Nat.add_assoc, Nat.add_comm 1]

/-- Where scanning ends there is no plain character. -/
theorem isPlain_of_dropWhile {path rest : List UInt8} {c : UInt8}
    (h : path.dropWhile Start.isPlain = c :: rest) : c = chColon ∨ c = chSlash := by
  have hc : Start.isPlain c = false := by
    have hne : path.dropWhile Start.isPlain ≠ [] := by rw [h]; exact List.cons_ne_nil _ _
    have hhead := List.head_dropWhile_not Start.isPlain hne
    simpa only [h, List.head_cons] using hhead
  by_contra hn
  rw [not_or] at hn
  simp [Start.isPlain, hn.1, hn.2] at hc

theorem getdevice_root_slash (h : path.bytes.head? = some chSlash) :
    getdevice.root O path =
      (do let v ← bootStart; Pure.pure ((path.after 1).skip chSlash, v) :
        VfsM σ (CString × Vnode)) := by
  rw [getdevice.root, if_pos h, Vfs.bootStart, bind_assoc]
  refine bind_congr fun s => ?_
  cases s.bootfsVnode with
  | none => rfl
  | some v => rw [bind_assoc]; rfl

theorem getdevice_root_colon (h : path.bytes.head? = some chColon) :
    getdevice.root O path =
      (do let v ← cwdRoot O; Pure.pure ((path.after 1).skip chSlash, v) :
        VfsM σ (CString × Vnode)) := by
  have hne : path.bytes.head? ≠ some chSlash := by rw [h]; decide
  have hskip : (call (Prog.ret ()) : VfsM σ Unit) = Pure.pure () := rfl
  rw [getdevice.root, if_neg hne, Prog.assert, if_pos h, hskip, pure_bind, Vfs.cwdRoot, bind_assoc]
  refine bind_congr fun vn => ?_
  cases vn.vnFs with
  | none => rfl
  | some fs =>
    rw [bind_assoc]
    refine bind_congr fun v => ?_
    rw [bind_assoc]
    rfl

/-- The vnode of the place, and the rest of the path. -/
def FoundAt (O : Ops σ) (kept : List Vnode) (s : State σ) (opened held : List Vnode)
    (x : Start × List UInt8) (r : Except Errno (CString × Vnode)) (s' : State σ) : Prop :=
  Found O kept s opened held (s.startOf O x.1) (r.map Prod.snd) s' ∧
    ∀ y, r = .ok y → y.1.bytes = x.2

theorem FoundAt.of_found {p : VfsM σ Vnode} {x : Start × List UInt8} {sub : CString}
    (hp : awpE Terms.none p (Found O kept s opened held (s.startOf O x.1)) s)
    (hsub : sub.bytes = x.2) :
    awpE Terms.none (do let v ← p; Pure.pure (sub, v)) (FoundAt O kept s opened held x) s := by
  refine awpE_bind_of hp (fun v s' hv => ⟨hv, fun y hy => ?_⟩) fun e s' he => ⟨he, fun y hy => ?_⟩
  · cases hy
    exact hsub
  · cases hy

section
variable (hO : O.Accounts) (h : Sound kept s opened held)
include hO h

/-- `getdevice` finds what the syntax of paths says. -/
theorem FoundAt.getdevice (path : CString) : awpE Terms.none (getdevice O path)
      (FoundAt O kept s opened held (splitPath path.bytes)) s := by
  have hsplit := List.takeWhile_append_dropWhile (p := Start.isPlain) (l := path.bytes)
  rw [Vfs.getdevice, scan_eq, splitPath]
  generalize path.bytes.takeWhile Start.isPlain = name at hsplit ⊢
  cases hd : path.bytes.dropWhile Start.isPlain with
  | nil =>
    cases name with
    | nil => exact FoundAt.of_found (x := (.cwd, path.bytes)) (Found.vfsGetcurdir h) rfl
    | cons a as => exact FoundAt.of_found (x := (.cwd, path.bytes)) (Found.vfsGetcurdir h) rfl
  | cons c rest =>
    rw [hd] at hsplit
    have hrest : ((path.after (name.length + 1)).skip chSlash).bytes = skipSlashes rest := by
      show (path.bytes.drop (name.length + 1)).dropWhile _ = _
      rw [← hsplit, ← List.drop_drop (i := 1) (j := name.length), List.drop_left]
      rfl
    by_cases hc : c = chColon
    · dsimp only
      rw [if_pos hc]
      cases name with
      | nil =>
        have hhead : path.bytes.head? = some chColon := by rw [← hsplit, hc]; rfl
        dsimp only
        rw [if_pos hc]
        rw [getdevice_root_colon hhead]
        exact FoundAt.of_found (x := (.root, skipSlashes rest)) (Found.cwdRoot hO h) hrest
      | cons a as =>
        have hname : path.cut (as.length + 1) = CString.ofBytes (a :: as) := by
          rw [← CString.ofBytes_bytes (path.cut (as.length + 1))]
          congr 1
          show path.bytes.take _ = _
          rw [← hsplit]
          exact List.take_left' rfl
        dsimp only
        rw [if_pos hc, Nat.zero_add, List.length_cons]
        dsimp only
        rw [hname]
        exact FoundAt.of_found (x := (.device (a :: as), skipSlashes rest))
          (Found.vfsGetroot hO h _) hrest
    · have hslash : c = chSlash := (isPlain_of_dropWhile hd).resolve_left hc
      dsimp only
      rw [if_neg hc]
      cases name with
      | nil =>
        have hhead : path.bytes.head? = some chSlash := by rw [← hsplit, hslash]; rfl
        dsimp only
        rw [if_neg hc, if_neg (by simp), getdevice_root_slash hhead]
        exact FoundAt.of_found (x := (.boot, skipSlashes rest)) (Found.bootStart h) hrest
      | cons a as =>
        dsimp only
        rw [if_neg hc, if_pos (by simp)]
        exact FoundAt.of_found (x := (.cwd, path.bytes)) (Found.vfsGetcurdir h) rfl

theorem Post.getdevice (path : CString) :
    awpE Terms.none (getdevice O path) (Post kept s opened held fun x => [x.2]) s := by
  refine awpE_mono (FoundAt.getdevice hO h path) fun r s' hf => ?_
  obtain ⟨n, hn, hs⟩ := hf.1.post
  refine ⟨n, hn, ?_⟩
  cases r <;> exact hs

theorem Post.vfsLookparent (path : CString) (buflen : Nat) :
    awpE Terms.none (vfsLookparent O path buflen) (Post kept s opened held fun x => [x.1]) s := by
  refine Post.bind (Post.getdevice hO h path) fun start n hs => ?_
  split
  · exact Post.thenDecref hO ((awpE_throw _).2 (Post.done hs _ rfl))
  · exact Post.thenDecref hO (Post.vopLookparent hO hs List.mem_cons_self _ _)

theorem Post.vfsLookup (path : CString) :
    awpE Terms.none (vfsLookup O path) (Post kept s opened held fun v => [v]) s := by
  refine Post.bind (Post.getdevice hO h path) fun start n hs => ?_
  split
  · exact ⟨n, rfl, hs⟩
  · exact Post.thenDecref hO (Post.vopLookup hO hs List.mem_cons_self _)

theorem Post.inParent {vop : Vnode → CString → VfsM σ Unit} (path : CString)
    (hvop : ∀ (dir : Vnode) (name : CString) (n : Vnodes σ), 0 < n.refcount dir →
      Still (vop dir name) (s.withVnodes n)) :
    awpE Terms.none (inParent O path vop) (Post kept s opened held fun _ => []) s := by
  refine Post.bind (Post.vfsLookparent hO h path _) fun dir n hs => ?_
  exact Post.thenDecref hO ((hvop dir.1 dir.2 n (hs.pos List.mem_cons_self)).post hs)

end

/-! ## The current directory and the boot file system -/

theorem State.cwd_eq (h : s.curthread < s.tCwd.length) : s.cwd = s.tCwd[s.curthread] := by
  rw [State.cwd, List.getD_eq_getElem?_getD, List.getElem?_eq_getElem h, Option.getD_some]

theorem State.cwd_setCwd (h : s.curthread < s.tCwd.length) (x : Option Vnode) :
    (s.setCwd x).cwd = x := by
  rw [State.cwd_eq (by simpa [State.setCwd] using h)]
  exact List.getElem_set_self _

namespace Sound

variable {x : Option Vnode}

/-- A held reference goes into `t_cwd`, and what was there is held. -/
theorem setCwd (h : Sound kept s opened (x.toList ++ held)) (hx : ∀ v, x = some v → v.vnFs ≠ none) :
    Sound kept (s.setCwd x) opened (s.cwd.toList ++ held) where
  refcount := by
    refine h.refcount.perm (List.perm_iff_count.2 fun v => ?_)
    have hp := (perm_reduceOption_set h.cur x).count_eq v
    simp only [State.refs, State.setCwd, State.cwd_eq h.cur, List.count_append] at hp ⊢
    omega
  opencount := h.opencount
  cur := by
    show s.curthread < (s.tCwd.set _ _).length
    rw [List.length_set]
    exact h.cur
  cwd := fun v hv => by
    obtain hv | hv := List.mem_or_eq_of_mem_set hv
    · exact h.cwd v hv
    · refine ⟨h.homeOf ?_, hx v hv.symm⟩
      rw [← hv]
      exact List.mem_cons_self
  boot := h.boot
  home := fun v hv => by
    rw [List.mem_append, List.mem_append, Option.mem_toList] at hv
    obtain hv | hv | hv := hv
    · exact h.home v (List.mem_append_left _ hv)
    · exact (h.cwd v (State.cwd_mem hv)).1
    · exact h.homeOf (List.mem_append_right _ hv)

/-- A held reference goes into `bootfs_vnode`, and what was there is held. -/
theorem setBootfs (h : Sound kept s opened (x.toList ++ held)) :
    Sound kept { s with bootfsVnode := x } opened (s.bootfsVnode.toList ++ held) where
  refcount := by
    refine h.refcount.perm (List.perm_iff_count.2 fun v => ?_)
    simp only [State.refs, List.count_append]
    omega
  opencount := h.opencount
  cur := h.cur
  cwd := h.cwd
  boot := fun v hv => h.homeOf (List.mem_append_left _ (Option.mem_toList.2 hv))
  home := fun v hv => by
    rw [List.mem_append, List.mem_append, Option.mem_toList] at hv
    obtain hv | hv | hv := hv
    · exact h.home v (List.mem_append_left _ hv)
    · exact h.boot v hv
    · exact h.homeOf (List.mem_append_right _ hv)

end Sound

section
variable (hO : O.Accounts)
include hO

variable {x : Option Vnode} {Q : Except Errno Unit → State σ → Prop}

theorem awp_decrefOpt (h : Sound kept s opened (x.toList ++ held)) : awp Terms.none (decrefOpt O x)
      (fun _ s' => ∃ n, s' = s.withVnodes n ∧ Sound kept s' opened held) s := by
  cases x with
  | none => exact ⟨s.vnodes, rfl, h⟩
  | some v => exact awp_vnodeDecref hO h

theorem awp_changeBootfs (h : Sound kept s opened (x.toList ++ held)) :
    awp Terms.none (changeBootfs O x) (fun _ s' => Sound kept s' opened held) s := by
  refine awp_bind.2 ?_
  rw [awp_mem]
  refine awp_bind.2 ((awp_put _).2 (awp_mono (awp_decrefOpt hO h.setBootfs) ?_))
  rintro _ _ ⟨n, rfl, hs⟩
  exact hs

theorem awp_vfsClearcurdir (h : Sound kept s opened held) :
    awp Terms.none (vfsClearcurdir O) (fun _ s' => Sound kept s' opened held) s := by
  refine awp_bind.2 ?_
  rw [awp_mem]
  refine awp_bind.2 ((awp_put _).2 (awp_mono
    (awp_decrefOpt hO (Sound.setCwd (x := .none) h nofun)) ?_))
  rintro _ _ ⟨n, rfl, hs⟩
  exact hs

/-- A device is no directory. -/
theorem awpE_vopGettype (h : Sound kept s opened held) (hv : v ∈ held)
    {Q : Except Errno UInt32 → State σ → Prop}
    (hok : ∀ m n, Sound kept (s.withVnodes n) opened held → (sIsdir m → v.vnFs ≠ none) →
      Q (.ok m) (s.withVnodes n))
    (herr : ∀ e n, Sound kept (s.withVnodes n) opened held → Q (.error e) (s.withVnodes n)) :
    awpE Terms.none (vopGettype O v) Q s := by
  have hhome := h.homeOf hv
  have hpos := h.pos hv
  refine awp_bind.2 (awp_vnodeCheck hpos ?_)
  cases v with
  | dev a d =>
    refine awp_bind.2 (awp_vnDevice hhome fun dev => hok _ s.vnodes h fun hdir => ?_)
    split at hdir
    · exact absurd hdir (by decide)
    · exact absurd hdir (by decide)
  | file fs ino =>
    have hsame := h.same (hO.gettype fs ino s.vnodes hpos)
    show Q (O.vopGettype fs ino s.vnodes).1 _
    cases (O.vopGettype fs ino s.vnodes).1 with
    | ok m => exact hok m _ hsame fun _ => by simp [Vnode.vnFs]
    | error e => exact herr e _ hsame

theorem awpE_vfsSetcurdir (h : Sound kept s opened (v :: held))
    (hok : ∀ n, Sound kept ((s.setCwd (some v)).withVnodes n) opened held →
      Q (.ok ()) ((s.setCwd (some v)).withVnodes n))
    (herr : ∀ e n, Sound kept (s.withVnodes n) opened (v :: held) →
      Q (.error e) (s.withVnodes n)) : awpE Terms.none (vfsSetcurdir O v) Q s := by
  refine awpE_bind.2 (awpE_vopGettype hO h List.mem_cons_self (fun m n hs hdir => ?_) herr)
  show awpE _ (ite _ _ _) _ _
  split
  · exact herr _ n hs
  · next hm =>
    refine awpE_call_bind.2 ?_
    rw [awp_mem]
    have hset := Sound.setCwd (x := some v) hs fun w hw => by
      rw [← Option.some.inj hw]
      exact hdir (not_not.1 hm)
    refine awpE_call_bind.2 ((awp_put _).2 (awpE_call.2 (awp_mono (awp_decrefOpt hO hset) ?_)))
    rintro _ _ ⟨n', rfl, hs'⟩
    exact hok n' hs'

theorem awpE_vfsChdir (h : Sound kept s opened held) (path : CString)
    (hok : ∀ v n, Sound kept ((s.setCwd (some v)).withVnodes n) opened held →
      Q (.ok ()) ((s.setCwd (some v)).withVnodes n))
    (herr : ∀ e n, Sound kept (s.withVnodes n) opened held → Q (.error e) (s.withVnodes n)) :
    awpE Terms.none (vfsChdir O path) Q s := by
  refine awpE_bind.2 (awpE_mono (Post.vfsLookup hO h path) ?_)
  rintro r _ ⟨n, rfl, hs⟩
  cases r with
  | error e => exact herr e n hs
  | ok v =>
    refine awpE_call_bind.2 (awpE_vfsSetcurdir hO hs (hok v)
      fun e n' hs' => ?_)
    refine awpE_call_bind.2 (awp_mono (awp_vnodeDecref hO hs') ?_)
    rintro _ _ ⟨n'', rfl, hs''⟩
    exact herr e n'' hs''

theorem awpE_vfsSetbootfs (h : Sound kept s opened held) (fsname : CString)
    (hok : ∀ s', Sound kept s' opened held → Q (.ok ()) s')
    (herr : ∀ e n, Sound kept (s.withVnodes n) opened held → Q (.error e) (s.withVnodes n)) :
    awpE Terms.none (vfsSetbootfs O fsname) Q s := by
  rw [vfsSetbootfs]
  split
  · exact herr _ s.vnodes h
  · refine awpE_bind.2 (awpE_vfsChdir hO h _ (fun v n hs => ?_) herr)
    have hcwd : ((s.setCwd (some v)).withVnodes n).cwd = some v := State.cwd_setCwd h.cur _
    refine awpE_bind.2 (awpE_vfsGetcurdir hs (fun hn => ?_) fun w n' _ hs' => ?_)
    · rw [hcwd] at hn
      cases hn
    · exact awpE_call.2 (awp_mono (awp_changeBootfs hO (x := some w) hs') fun _ s' hs'' =>
        hok s' hs'')

end

/-! ### The name of the current directory -/

/-- A file system that is in the table has a name. -/
theorem awp_getcwd_name (hfs : ∃ kd ∈ s.knowndevs.v, kd.kdFs = some fs)
    {Q : CString → State σ → Prop} (hQ : ∀ name, Q name s) :
    awp Terms.none (getcwd.name O fs) Q s := by
  rw [getcwd.name]
  cases O.fsGetvolname fs with
  | some name => exact hQ name
  | none =>
    refine awp_bind.2 (awp_bind.2 ?_)
    rw [awp_mem, awp_pure]
    cases hf : s.knowndevs.v.find? fun kd => kd.kdFs = some fs with
    | some kd => exact hQ kd.kdName
    | none =>
      obtain ⟨kd, hkd, hk⟩ := hfs
      exact absurd hk (by simpa using List.find?_eq_none.1 hf kd hkd)

theorem Post.vfsGetcwd (hO : O.Accounts) (h : Sound kept s opened held) :
    awpE Terms.none (vfsGetcwd O) (Post kept s opened held fun _ => []) s := by
  refine awpE_bind.2 (awpE_vfsGetcurdir h (fun _ => Post.done h _ rfl) fun cwd n hcwd hs => ?_)
  obtain ⟨hhome, hfs⟩ := h.cwd cwd (State.cwd_mem hcwd)
  cases cwd with
  | dev a d => exact absurd rfl hfs
  | file fs ino =>
    refine awpE_call_bind.2 (awp_getcwd_name (s := s.withVnodes n) hhome fun name => ?_)
    refine Post.thenDecref hO (Post.bind ((Still.below (hO.uiomove _)).post hs) fun _ n1 h1 => ?_)
    refine Post.bind ((Still.below (hO.uiomove _)).post h1) fun _ n2 h2 => ?_
    exact (Still.vopOr (h2.pos List.mem_cons_self) hO.namefile).post h2

/-! ## Open files -/

theorem awp_vnodeIncopen (h : Sound kept s opened (v :: held)) : awp Terms.none (vnodeIncopen v)
      (fun _ s' => ∃ n, s' = s.withVnodes n ∧ Sound kept s' (v :: opened) held) s :=
  ⟨_, rfl, h.opens rfl rfl⟩

section
variable (hO : O.Accounts)
include hO

theorem awp_vnodeDecopen (h : Sound kept s (v :: opened) held) : awp Terms.none (vnodeDecopen O v)
      (fun _ s' => ∃ n, s' = s.withVnodes n ∧ Sound kept s' opened (v :: held)) s := by
  have hpos := h.opencount.pos List.mem_cons_self
  refine awp_bind.2 ?_
  rw [awp_mem]
  refine awp_bind.2 (awp_assert.2 ⟨fun _ => ?_, fun hn => hn hpos⟩)
  refine awp_bind.2 ((awp_modify _).2 ?_)
  have hs := h.closes (n := { s.vnodes with
    opencount := update s.vnodes.opencount v (s.vnodes.opencount v - 1) }) rfl rfl
  split
  · exact ⟨_, rfl, hs⟩
  · refine awp_bind.2 (awp_mono (Still.vopClose hO (hs.pos List.mem_cons_self)
      (hs.homeOf List.mem_cons_self)) ?_)
    rintro _ _ ⟨n, rfl, hn⟩
    exact ⟨n, rfl, hs.same hn⟩

theorem awp_vfsClose (h : Sound kept s (v :: opened) held) : awp Terms.none (vfsClose O v)
      (fun _ s' => ∃ n, s' = s.withVnodes n ∧ Sound kept s' opened held) s := by
  refine awp_bind_of (awp_vnodeDecopen hO h) ?_
  rintro _ _ ⟨n, rfl, hs⟩
  exact awp_vnodeDecref hO hs

theorem Post.open_find (h : Sound kept s opened held) (path : CString) (openflags : UInt32) :
    awpE Terms.none (vfsOpen.find O path openflags) (Post kept s opened held fun v => [v]) s := by
  rw [vfsOpen.find]
  split
  · refine Post.bind (Post.vfsLookparent hO h path _) fun dir n hs => ?_
    exact Post.thenDecref hO (Post.vopCreat hO hs List.mem_cons_self _ _)
  · exact Post.vfsLookup hO h path

theorem awpE_open_enter (h : Sound kept s opened (v :: held)) {canwrite : Bool} {openflags : UInt32}
    (hok : ∀ n, Sound kept (s.withVnodes n) (v :: opened) held → Q (.ok v) (s.withVnodes n))
    (herr : ∀ e n, Sound kept (s.withVnodes n) opened held → Q (.error e) (s.withVnodes n)) :
    awpE Terms.none (vfsOpen.enter O canwrite v openflags) Q s := by
  refine awpE_call_bind.2 (awp_mono (Still.vopOpen hO (h.pos List.mem_cons_self)
    (h.homeOf List.mem_cons_self) openflags) ?_)
  rintro r _ ⟨n, rfl, hn⟩
  have hs := h.same hn
  cases r with
  | error e =>
    refine awpE_call_bind.2 (awp_mono (awp_vnodeDecref hO hs) ?_)
    rintro _ _ ⟨n', rfl, hs'⟩
    exact herr e n' hs'
  | ok u =>
    refine awpE_call_bind.2 (awp_mono (awp_vnodeIncopen hs) ?_)
    rintro _ _ ⟨n1, rfl, ho⟩
    have htrunc : Still (vfsOpen.truncate O canwrite v openflags) (s.withVnodes n1) := by
      rw [vfsOpen.truncate]
      split
      · split
        · exact Still.vopTruncate hO (ho.refcount.pos (by simp)) (ho.home v (by simp)) 0
        · exact Still.pure _
      · exact Still.pure _
    refine awpE_call_bind.2 (awp_mono htrunc ?_)
    rintro r _ ⟨n', rfl, hn'⟩
    have hs' := ho.same hn'
    cases r with
    | ok u => exact hok n' hs'
    | error e =>
      refine awpE_call_bind.2 (awp_mono (awp_vnodeDecopen hO hs') ?_)
      rintro _ _ ⟨n1, rfl, h1⟩
      refine awpE_call_bind.2 (awp_mono (awp_vnodeDecref hO h1) ?_)
      rintro _ _ ⟨n2, rfl, h2⟩
      exact herr e n2 h2

section
variable (h : Sound kept s opened held)
include h

theorem awpE_vfsOpen (path : CString) (openflags : UInt32)
    (hok : ∀ v n, Sound kept (s.withVnodes n) (v :: opened) held → Q (.ok v) (s.withVnodes n))
    (herr : ∀ e n, Sound kept (s.withVnodes n) opened held → Q (.error e) (s.withVnodes n)) :
    awpE Terms.none (vfsOpen O path openflags) Q s := by
  rw [vfsOpen]
  cases vfsOpen.canwrite openflags with
  | none => exact herr _ s.vnodes h
  | some canwrite =>
    refine awpE_bind.2 (awpE_mono (Post.open_find hO h path openflags) ?_)
    rintro r _ ⟨n, rfl, hs⟩
    cases r with
    | error e => exact herr e n hs
    | ok v => exact awpE_open_enter hO hs (hok v) herr

/-! ## Operations on two names -/

theorem Post.withNewdir {old : Vnode} {newpath : CString} {vop : Vnode → CString → VfsM σ Unit}
    (hvop : ∀ (dir : Vnode) (name : CString) (n : Vnodes σ),
      Sound kept (s.withVnodes n) opened (dir :: held) → Still (vop dir name) (s.withVnodes n)) :
    awpE Terms.none (withNewdir O old newpath vop) (Post kept s opened held fun _ => []) s := by
  refine Post.bind (Post.vfsLookparent hO h newpath _) fun new n hs => Post.thenDecref hO ?_
  split
  · exact (hvop new.1 new.2 n hs).post hs
  · exact Post.done hs _ rfl

theorem Post.vfsRename (oldpath newpath : CString) :
    awpE Terms.none (vfsRename O oldpath newpath) (Post kept s opened held fun _ => []) s := by
  refine Post.bind (Post.vfsLookparent hO h oldpath _) fun old n hs => Post.thenDecref hO ?_
  refine Post.withNewdir hO hs fun dir name n' hs' => ?_
  exact Still.vopOr (hs'.pos (by simp)) fun fs ino => hO.rename fs ino old.2 dir name

theorem Post.vfsLink (oldpath newpath : CString) :
    awpE Terms.none (vfsLink O oldpath newpath) (Post kept s opened held fun _ => []) s := by
  refine Post.bind (Post.vfsLookup hO h oldpath) fun old n hs => Post.thenDecref hO ?_
  refine Post.withNewdir hO hs fun dir name n' hs' => ?_
  exact Still.vopOr (hs'.pos (by simp)) fun fs ino => hO.link fs ino name old

theorem Post.vfsReadlink (path : CString) :
    awpE Terms.none (vfsReadlink O path) (Post kept s opened held fun _ => []) s := by
  refine Post.bind (Post.vfsLookup hO h path) fun v n hs => Post.thenDecref hO ?_
  exact (Still.vopOr (hs.pos List.mem_cons_self) hO.readlink).post hs

end

end

/-! ## Calls -/

/-- What the rest of the kernel calls. `release` is the VOP_DECREF with which
the caller of `vfs_lookup` or `vfs_lookparent` lets go of its vnode. -/
inductive Call where
  | openFile (path : CString) (openflags : UInt32)
  | close (vn : Vnode)
  | lookup (path : CString)
  | lookparent (path : CString) (buflen : Nat)
  | release (vn : Vnode)
  | remove (path : CString)
  | rename (oldpath newpath : CString)
  | link (oldpath newpath : CString)
  | symlink (contents path : CString)
  | readlink (path : CString)
  | mkdir (path : CString)
  | rmdir (path : CString)
  | chdir (path : CString)
  | clearcurdir
  | getcwd
  | setbootfs (fsname : CString)
  | clearbootfs

/-- The vnode that a call returns. -/
inductive Ret where
  | none
  | opened (v : Vnode)
  | found (v : Vnode)

/-- A call that returns no vnode. -/
def plain (p : VfsM σ Unit) : VfsM σ Ret := do
  p
  pure .none

def Call.prog (O : Ops σ) : Call → VfsM σ Ret
  | openFile path openflags => do
      let v ← vfsOpen O path openflags
      pure (.opened v)
  | close vn => plain (call (vfsClose O vn))
  | lookup path => do
      let v ← vfsLookup O path
      pure (.found v)
  | lookparent path buflen => do
      let x ← vfsLookparent O path buflen
      pure (.found x.1)
  | release vn => plain (call (vnodeDecref O vn))
  | remove path => plain (vfsRemove O path)
  | rename oldpath newpath => plain (vfsRename O oldpath newpath)
  | link oldpath newpath => plain (vfsLink O oldpath newpath)
  | symlink contents path => plain (vfsSymlink O contents path)
  | readlink path => plain (vfsReadlink O path)
  | mkdir path => plain (vfsMkdir O path)
  | rmdir path => plain (vfsRmdir O path)
  | chdir path => plain (vfsChdir O path)
  | clearcurdir => plain (call (vfsClearcurdir O))
  | getcwd => plain (vfsGetcwd O)
  | setbootfs fsname => plain (vfsSetbootfs O fsname)
  | clearbootfs => plain (call (vfsClearbootfs O))

/-- The vnodes that `vfs_open` has returned and that have not been closed, and
those that lookups have returned and that have not been released. -/
structure Books where
  opened : List Vnode
  held : List Vnode

/-- A caller closes what it has opened and releases what it has looked up. -/
def Call.Allowed (b : Books) : Call → Prop
  | close vn => vn ∈ b.opened
  | release vn => vn ∈ b.held
  | _ => True

/-- The entry of a result. -/
def Books.enter (b : Books) : Except Errno Ret → Books
  | .ok (.opened v) => { b with opened := v :: b.opened }
  | .ok (.found v) => { b with held := v :: b.held }
  | _ => b

/-- The books after a call with result `r`. -/
def Books.after (b : Books) (c : Call) (r : Except Errno Ret) : Books :=
  match c with
  | .close vn => { b with opened := b.opened.erase vn }
  | .release vn => { b with held := b.held.erase vn }
  | _ => b.enter r

/-- The counts are right after the call, and a call that fails changes
nothing. -/
def Settled (kept : List Vnode) (s : State σ) (b : Books) (c : Call) (r : Except Errno Ret)
    (s' : State σ) : Prop :=
  Sound kept s' (b.after c r).opened (b.after c r).held ∧
    ∀ e, r = .error e → Sound kept s' b.opened b.held ∧ ∃ n, s' = s.withVnodes n

section
variable {b : Books} (hO : O.Accounts) (h : Sound kept s b.opened b.held)

variable {c : Call}

theorem Settled.failed {e : Errno} (h : Sound kept (s.withVnodes n) b.opened b.held)
    (hc : b.after c (.error e) = b) : Settled kept s b c (.error e) (s.withVnodes n) := by
  refine ⟨?_, fun _ _ => ⟨h, n, rfl⟩⟩
  rw [hc]
  exact h

theorem Settled.succeeded {r : Ret} {s' : State σ}
    (h : Sound kept s' (b.after c (.ok r)).opened (b.after c (.ok r)).held) :
    Settled kept s b c (.ok r) s' :=
  ⟨h, nofun⟩

/-- A call that returns no vnode, and leaves everything but the vnodes alone. -/
theorem awpE_plain {p : VfsM σ Unit} (hc : ∀ r, b.after c r = b.enter r)
    (hp : awpE Terms.none p (Post kept s b.opened b.held fun _ => []) s) :
    awpE Terms.none (plain p) (Settled kept s b c) s := by
  refine awpE_bind_of hp ?_ ?_
  · rintro _ _ ⟨n, rfl, hs⟩
    refine Settled.succeeded ?_
    rw [hc]
    exact hs
  · rintro e _ ⟨n, rfl, hs⟩
    exact Settled.failed hs (hc _)

include hO h in
theorem awpE_call (c : Call) (hc : c.Allowed b) :
    awpE Terms.none (c.prog O) (Settled kept s b c) s := by
  cases c with
  | openFile path openflags =>
    refine awpE_bind.2 (awpE_vfsOpen hO h path openflags (fun v n hs => ?_) fun e n hs => ?_)
    · exact Settled.succeeded hs
    · exact Settled.failed hs rfl
  | close vn =>
    have hs := h.permOpened (List.perm_cons_erase hc)
    refine awpE_call_bind.2 (awp_mono (awp_vfsClose hO hs) ?_)
    rintro _ _ ⟨n, rfl, hs'⟩
    exact Settled.succeeded hs'
  | lookup path =>
    refine awpE_bind_of (Post.vfsLookup hO h path) ?_ ?_
    · rintro v _ ⟨n, rfl, hs⟩
      exact Settled.succeeded hs
    · rintro e _ ⟨n, rfl, hs⟩
      exact Settled.failed hs rfl
  | lookparent path buflen =>
    refine awpE_bind_of (Post.vfsLookparent hO h path buflen) ?_ ?_
    · rintro x _ ⟨n, rfl, hs⟩
      exact Settled.succeeded hs
    · rintro e _ ⟨n, rfl, hs⟩
      exact Settled.failed hs rfl
  | release vn =>
    have hs := h.perm (List.perm_cons_erase hc)
    refine awpE_call_bind.2 (awp_mono (awp_vnodeDecref hO hs) ?_)
    rintro _ _ ⟨n, rfl, hs'⟩
    exact Settled.succeeded hs'
  | remove path =>
    exact awpE_plain (fun _ => rfl) (Post.inParent hO h path fun dir name n hpos =>
      Still.vopOr hpos fun fs ino => hO.remove fs ino name)
  | rename oldpath newpath =>
    exact awpE_plain (fun _ => rfl) (Post.vfsRename hO h oldpath newpath)
  | link oldpath newpath =>
    exact awpE_plain (fun _ => rfl) (Post.vfsLink hO h oldpath newpath)
  | symlink contents path =>
    exact awpE_plain (fun _ => rfl) (Post.inParent hO h path fun dir name n hpos =>
      Still.vopOr hpos fun fs ino => hO.symlink fs ino name contents)
  | readlink path => exact awpE_plain (fun _ => rfl) (Post.vfsReadlink hO h path)
  | mkdir path =>
    exact awpE_plain (fun _ => rfl) (Post.inParent hO h path fun dir name n hpos =>
      Still.vopOr hpos fun fs ino => hO.mkdir fs ino name)
  | rmdir path =>
    exact awpE_plain (fun _ => rfl) (Post.inParent hO h path fun dir name n hpos =>
      Still.vopOr hpos fun fs ino => hO.rmdir fs ino name)
  | chdir path =>
    refine awpE_bind.2 (awpE_vfsChdir hO h path (fun v n hs => ?_) fun e n hs => ?_)
    · exact Settled.succeeded hs
    · exact Settled.failed hs rfl
  | clearcurdir =>
    refine awpE_call_bind.2 (awp_mono (awp_vfsClearcurdir hO h) fun _ s' hs => ?_)
    exact Settled.succeeded hs
  | getcwd => exact awpE_plain (fun _ => rfl) (Post.vfsGetcwd hO h)
  | setbootfs fsname =>
    refine awpE_bind.2 (awpE_vfsSetbootfs hO h fsname (fun s' hs => ?_) fun e n hs => ?_)
    · exact Settled.succeeded hs
    · exact Settled.failed hs rfl
  | clearbootfs =>
    refine awpE_call_bind.2 (awp_mono (awp_changeBootfs hO (x := .none) h) fun _ s' hs => ?_)
    exact Settled.succeeded hs

end

/-! ## Runs -/

/-- The state when thread `t` makes its call. -/
def State.onThread (s : State σ) (t : Nat) : State σ := { s with curthread := t }

/-- What can be reached by calls of the threads, one after the other. -/
inductive VfsRun (O : Ops σ) (s₀ : State σ) (b₀ : Books) : State σ → Books → Prop
  | start : VfsRun O s₀ b₀ s₀ b₀
  | step {s : State σ} {b : Books} {m : Machine (State σ) Empty Unit Empty}
      {r : Except Errno Ret} (t : Nat) (c : Call) (script : Script Empty)
      (hs : VfsRun O s₀ b₀ s b) (ht : t < s.tCwd.length) (hc : c.Allowed b)
      (hr : (c.prog O).run.run ((s.onThread t).machine script) = (.done r, m)) :
      VfsRun O s₀ b₀ m.mem (b.after c r)

/-- Which thread runs does not matter to the references. -/
theorem Sound.onThread (h : Sound kept s opened held) {t : Nat} (ht : t < s.tCwd.length) :
    Sound kept (s.onThread t) opened held :=
  { h with cur := ht }

/-- A call comes to its end, whatever the answers from below. -/
theorem Call.run (hO : O.Accounts) (h : Sound kept s b.opened b.held) (c : Call)
    (hc : c.Allowed b) (script : Script Empty) :
    ∃ (r : Except Errno Ret) (m : Machine (State σ) Empty Unit Empty),
      (c.prog O).run.run (s.machine script) = (.done r, m) ∧ Settled kept s b c r m.mem :=
  awp_run_done (t := Terms.none) (s := s.machine script) (fun _ hf => hf) (fun _ => trivial)
    (awpE_call hO h c hc)

theorem VfsRun.sound {s₀ : State σ} {b₀ : Books} (hO : O.Accounts)
    (h₀ : Sound kept s₀ b₀.opened b₀.held) (hr : VfsRun O s₀ b₀ s b) :
    Sound kept s b.opened b.held := by
  induction hr with
  | start => exact h₀
  | step t c script hs ht hc hr ih =>
    obtain ⟨r, m, hrun, hset⟩ := Call.run hO (ih.onThread ht) c hc script
    rw [hr] at hrun
    cases hrun
    exact hset.1

/-- In every state that calls of any threads can lead to, the count of a vnode is
the number of references to it, its open count the number of times it is open;
every further call comes to an end, and if it fails the counts are what they
were. -/
theorem vfs_references_balance (O : Ops σ) (hO : O.Accounts) (kept : List Vnode)
    {s₀ s : State σ} {b₀ b : Books} (h₀ : Sound kept s₀ b₀.opened b₀.held)
    (hr : VfsRun O s₀ b₀ s b) :
    (∀ v, s.vnodes.refcount v = (s.tCwd.reduceOption ++ s.bootfsVnode.toList ++
      s.knowndevs.v.map KnownDev.vnode ++ kept ++ b.opened ++ b.held).count v) ∧
    (∀ v, s.vnodes.opencount v = b.opened.count v) ∧
    ∀ t < s.tCwd.length, ∀ c : Call, c.Allowed b → ∀ script : Script Empty,
      ∃ (r : Except Errno Ret) (m : Machine (State σ) Empty Unit Empty),
        (c.prog O).run.run ((s.onThread t).machine script) = (.done r, m) ∧
        ∀ e, r = .error e → m.mem.vnodes.refcount = s.vnodes.refcount ∧
          m.mem.vnodes.opencount = s.vnodes.opencount := by
  have h := hr.sound hO h₀
  refine ⟨h.refcount, h.opencount, fun t ht c hc script => ?_⟩
  obtain ⟨r, m, hrun, hset⟩ := Call.run hO (h.onThread ht) c hc script
  refine ⟨r, m, hrun, fun e he => ?_⟩
  obtain ⟨hs, n, hn⟩ := hset.2 e he
  rw [hn] at hs ⊢
  exact ⟨h.refcount.unique hs.refcount, h.opencount.unique hs.opencount⟩

/-! ### A file system with nothing but a root -/

theorem rootOnly_accounts (volname : Fs → Option CString) : (rootOnly volname).Accounts where
  getroot _ _ := ⟨rfl, rfl⟩
  creat _ _ _ _ _ _ := ⟨fun _ h => (by cases h), fun _ _ => ⟨rfl, rfl⟩⟩
  lookup _ _ _ _ _ := ⟨fun _ h => (by cases h), fun _ _ => ⟨rfl, rfl⟩⟩
  lookparent _ _ _ _ _ _ := ⟨fun _ h => (by cases h), fun _ _ => ⟨rfl, rfl⟩⟩
  reclaim _ _ _ _ _ := ⟨rfl, rfl, rfl⟩
  dOpen _ _ _ := ⟨rfl, rfl⟩
  dClose _ _ := ⟨rfl, rfl⟩
  uiomove _ _ := ⟨rfl, rfl⟩
  opens _ _ _ _ _ := ⟨rfl, rfl⟩
  closes _ _ _ _ := ⟨rfl, rfl⟩
  readlink _ _ _ _ := ⟨rfl, rfl⟩
  gettype _ _ _ _ := ⟨rfl, rfl⟩
  truncate _ _ _ _ _ := ⟨rfl, rfl⟩
  namefile _ _ _ _ := ⟨rfl, rfl⟩
  symlink _ _ _ _ _ _ := ⟨rfl, rfl⟩
  mkdir _ _ _ _ _ := ⟨rfl, rfl⟩
  link _ _ _ _ _ _ := ⟨rfl, rfl⟩
  remove _ _ _ _ _ := ⟨rfl, rfl⟩
  rmdir _ _ _ _ _ := ⟨rfl, rfl⟩
  rename _ _ _ _ _ _ _ := ⟨rfl, rfl⟩

/-- `lhd0`, with file system 0 on it. -/
def lhd0Dev : KnownDev where
  kdName := lhd0
  kdRawname := some (mkrawname lhd0)
  kdDevice := some 5
  kdVnode := 100
  kdFs := some 0
  raw := fun _ => rfl
  bare := fun _ => rfl

/-- One device, with its own vnode and none other in memory. -/
def oneDev : State Unit where
  vnodes := ⟨fun v => [lhd0Dev.vnode].count v, fun _ => 0, ()⟩
  tCwd := [none]
  curthread := 0
  bootfsVnode := none
  knowndevs := ⟨[lhd0Dev], 1, le_rfl⟩

theorem oneDev_sound : Sound [] oneDev [] [] where
  refcount _ := rfl
  opencount _ := rfl
  cur := by decide
  cwd _ h := by cases List.mem_singleton.1 h
  boot _ h := by cases h
  home _ h := by cases h

/-- `lhd0:` is opened, and becomes the current directory. -/
theorem vfs_references_balance_open :
    ∃ (s : State Unit) (b : Books), VfsRun (rootOnly fun _ => none) oneDev ⟨[], []⟩ s b ∧
      b.opened = [.file 0 0] ∧ s.tCwd = [some (.file 0 0)] ∧
      s.vnodes.refcount (.file 0 0) = 2 ∧ s.vnodes.opencount (.file 0 0) = 1 := by
  have hrun : ∃ (s : State Unit) (b : Books),
      VfsRun (rootOnly fun _ => none) oneDev ⟨[], []⟩ s b ∧
      b.opened = [.file 0 0] ∧ b.held = [] ∧ s.tCwd = [some (.file 0 0)] ∧
      s.bootfsVnode = none ∧ s.knowndevs.v = [lhd0Dev] :=
    ⟨_, _, .step 0 (.chdir (lhd0.strcat colonString)) {}
      (.step 0 (.openFile (lhd0.strcat colonString) oRdonly) {} .start (by decide) trivial rfl)
      (by decide) trivial rfl, rfl, rfl, rfl, rfl, rfl⟩
  obtain ⟨s, b, hr, ho, hh, hc, hb, hk⟩ := hrun
  obtain ⟨h1, h2, -⟩ := vfs_references_balance _ (rootOnly_accounts _) [] oneDev_sound hr
  refine ⟨s, b, hr, ho, hc, ?_, ?_⟩
  · rw [h1, ho, hh, hc, hb, hk]
    decide
  · rw [h2, ho]
    decide

end Os161.Vfs
