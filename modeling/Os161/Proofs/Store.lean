import Os161.Proofs.Dir
import Os161.Proofs.Truncate
import Os161.Sfs.Open

/-!
# The volume as a store

What the routines on vnodes and names do, for a thread alone, on a device and with
an allocator that may fail. A `Store` is what a caller can tell of a volume: which
files there are, the entries of the root directory, what the other files look like,
and how often each vnode is referred to and open. `Holds A L w` says that the volume
in `w` is the store `A`; `L` is the set of blocks that are marked and lost.

A routine is then told by the store that it leaves behind. Loading a vnode adds a
reference, letting go of it takes one away, and if it was the last one the vnode
leaves the table. That takes a write if the inode is dirty; if the write fails,
nothing has changed and the reference is there for good.
-/

namespace Os161.Sfs

open Os161.Kern Os161.Lib Function

/-! ## Stores -/

structure Store where
  live : Set UInt32
  es : Entries
  file : UInt32 → FileView
  rootLinks : UInt16
  refs : UInt32 → Nat
  opens : UInt32 → Nat

namespace Store

/-- The link count of a file or of the root directory. -/
def links (A : Store) (f : UInt32) : UInt16 :=
  if f = sfsRootLocation then A.rootLinks else (A.file f).inode.sfiLinkcount

/-- The counts of a vnode are these. -/
def count (A : Store) (f : UInt32) (r o : Nat) : Store :=
  { A with refs := update A.refs f r, opens := update A.opens f o }

/-- One more reference. -/
def ref (A : Store) (f : UInt32) : Store := A.count f (A.refs f + 1) (A.opens f)

/-- One reference less. -/
def unref (A : Store) (f : UInt32) : Store := A.count f (A.refs f - 1) (A.opens f)

/-- Open once more. -/
def incopen (A : Store) (f : UInt32) : Store := A.count f (A.refs f) (A.opens f + 1)

/-- Open once less. -/
def decopen (A : Store) (f : UInt32) : Store := A.count f (A.refs f) (A.opens f - 1)

theorem count_self {A : Store} {f : UInt32} {r o : Nat} (hr : r = A.refs f)
    (ho : o = A.opens f) : A.count f r o = A := by
  rw [count, hr, ho, update_eq_self, update_eq_self]

theorem ref_unref {A : Store} {f : UInt32} (h : A.refs f ≠ 0) : (A.unref f).ref f = A := by
  simp only [ref, unref, count, update_self, update_idem, update_eq_self,
    Nat.sub_add_cancel (Nat.pos_of_ne_zero h)]

/-- The directory has other entries. -/
def setEs (A : Store) (es : Entries) : Store := { A with es := es }

/-- A file looks different. -/
def setFile (A : Store) (f : UInt32) (v : FileView) : Store :=
  { A with file := update A.file f v }

end Store

/-- What `sfs_makeobj` makes, as a file. -/
def blankFile : FileView := ⟨newFile, fun _ => 0, fun _ => 0⟩

/-- A new file, which its maker refers to. -/
def Store.add (A : Store) (f : UInt32) : Store :=
  { A with
    live := insert f A.live
    file := update A.file f blankFile }.count f 1 0

/-- A file that nobody refers to goes out of existence. -/
def Store.erase (A : Store) (f : UInt32) : Store :=
  { A with live := A.live \ {f} }.count f 0 0

/-- The volume is this store. -/
structure Holds (A : Store) (L : Set UInt32) (w : SfsWorld Unit) : Prop where
  sound : Sound A.live L w.mem w.disk
  dir : IsDir (w.view sfsRootLocation) A.es
  rootLinks : (w.view sfsRootLocation).inode.sfiLinkcount = A.rootLinks
  file : ∀ g ∈ A.live, g ≠ sfsRootLocation → w.view g = A.file g
  refs : ∀ g, SfsWorld.refs w g = A.refs g
  opens : ∀ g, SfsWorld.opens w g = A.opens g
  started : w.started = true

/-! ## Counts -/

section
variable {G : Type} {w : SfsWorld G} {f : UInt32} {sv : SfsVnode}

theorem refs_of_get? (h : w.mem.sfsVnodes.get? f = some sv) :
    SfsWorld.refs w f = sv.vnRefcount := by
  rw [SfsWorld.refs, SfsWorld.get?, h]
  rfl

theorem opens_of_get? (h : w.mem.sfsVnodes.get? f = some sv) :
    SfsWorld.opens w f = sv.vnOpencount := by
  rw [SfsWorld.opens, SfsWorld.get?, h]
  rfl

theorem refs_of_none (h : w.mem.sfsVnodes.get? f = none) : SfsWorld.refs w f = 0 := by
  rw [SfsWorld.refs, SfsWorld.get?, h]
  rfl

theorem opens_of_none (h : w.mem.sfsVnodes.get? f = none) : SfsWorld.opens w f = 0 := by
  rw [SfsWorld.opens, SfsWorld.get?, h]
  rfl

end

variable {A : Store} {L L' : Set UInt32} {w w' : SfsWorld Unit} {f : UInt32} {sv : SfsVnode}
  {x : Faults}

namespace Holds

section
variable (h : Holds A L w)
include h

theorem loaded (hr : A.refs f ≠ 0) :
    ∃ sv, w.mem.sfsVnodes.get? f = some sv ∧ sv.vnRefcount = A.refs f ∧
      sv.vnOpencount = A.opens f := by
  rw [← h.refs f] at hr
  cases hl : w.mem.sfsVnodes.get? f with
  | none => exact absurd (refs_of_none hl) hr
  | some sv =>
    refine ⟨sv, rfl, ?_, ?_⟩
    · rw [← h.refs f, refs_of_get? hl]
    · rw [← h.opens f, opens_of_get? hl]

theorem not_loaded (hr : A.refs f = 0) : w.mem.sfsVnodes.get? f = none := by
  cases hl : w.mem.sfsVnodes.get? f with
  | none => rfl
  | some sv =>
    have hpos := h.sound.table.ref hl
    rw [← h.refs f, refs_of_get? hl] at hr
    omega

theorem refs_of_not_live (hf : f ∉ A.live) : A.refs f = 0 := by
  by_contra hr
  obtain ⟨sv, hl, -⟩ := h.loaded hr
  exact hf (h.sound.table.live hl)

theorem opens_of_refs (hr : A.refs f = 0) : A.opens f = 0 := by
  rw [← h.opens f, opens_of_none (h.not_loaded hr)]

theorem links (hf : f ∈ A.live) : (w.view f).inode.sfiLinkcount = A.links f := by
  rw [Store.links]
  split
  · next he =>
    rw [he]
    exact h.rootLinks
  · next he => rw [h.file f hf he]

/-- What is not a file is not in the table. -/
theorem same_counts {S : Set UInt32} {g : UInt32} (hs : Sound A.live L' w'.mem w'.disk)
    (hf : Frame (A.live \ S) w w') (hg : g ∉ S) : SameCounts g w w' := by
  by_cases hlive : g ∈ A.live
  · exact .of_get? (hf.same g ⟨hlive, hg⟩).get?
  · have hnone : ∀ {v : SfsWorld Unit} {M : Set UInt32}, Sound A.live M v.mem v.disk →
        v.mem.sfsVnodes.get? g = none := by
      intro v M hv
      rw [Option.eq_none_iff_forall_not_mem]
      exact fun sv hsv => hlive (hv.table.live hsv)
    refine .of_get? ?_
    rw [SfsWorld.get?, SfsWorld.get?, hnone hs, hnone h.sound]

/-- No file of the store has changed. -/
theorem of_frame (hs : Sound A.live L' w'.mem w'.disk)
    (hf : Frame A.live w w') (hst : w'.started = true) : Holds A L' w' := by
  have hcounts : ∀ g, SameCounts g w w' := fun g =>
    h.same_counts hs (hf.mono fun _ hg => hg.1) (Set.notMem_empty g)
  have hroot := (hf.same _ h.sound.root).view
  exact ⟨hs, hroot ▸ h.dir, hroot ▸ h.rootLinks,
    fun g hg hne => (hf.same g hg).view.trans (h.file g hg hne),
    fun g => (hcounts g).refs.trans (h.refs g), fun g => (hcounts g).opens.trans (h.opens g), hst⟩

/-- One vnode has come or gone, or its counts have changed. -/
theorem retable {live : Set UInt32} {file : UInt32 → FileView} {r o : Nat}
    (hs : Sound live L' w'.mem w'.disk) (hroot : w'.view sfsRootLocation = w.view sfsRootLocation)
    (hfile : ∀ g ∈ live, g ≠ sfsRootLocation → w'.view g = file g)
    (hother : ∀ g, g ≠ f → SfsWorld.get? w' g = SfsWorld.get? w g)
    (hr : SfsWorld.refs w' f = r) (ho : SfsWorld.opens w' f = o) (hst : w'.started = true) :
    Holds ({ A with live := live, file := file }.count f r o) L' w' := by
  subst hr ho
  refine ⟨hs, hroot ▸ h.dir, hroot ▸ h.rootLinks, hfile, fun g => ?_, fun g => ?_, hst⟩
  · show _ = update A.refs f _ g
    by_cases hg : g = f
    · rw [hg, update_self]
    · rw [update_of_ne hg, (SameCounts.of_get? (hother g hg)).refs, h.refs g]
  · show _ = update A.opens f _ g
    by_cases hg : g = f
    · rw [hg, update_self]
    · rw [update_of_ne hg, (SameCounts.of_get? (hother g hg)).opens, h.opens g]

/-- The counts of one vnode have changed. -/
theorem recount {r o : Nat} (hs : Sound A.live L w'.mem w'.disk)
    (hv : ∀ g ∈ A.live, w'.view g = w.view g)
    (hother : ∀ g, g ≠ f → SfsWorld.get? w' g = SfsWorld.get? w g) (hr : SfsWorld.refs w' f = r)
    (ho : SfsWorld.opens w' f = o) (hst : w'.started = true) : Holds (A.count f r o) L w' :=
  h.retable hs (hv _ h.sound.root) (fun g hg hne => (hv g hg).trans (h.file g hg hne)) hother
    hr ho hst

/-- Counts and flags of a vnode are assigned to. -/
theorem setVnode {u : SfsVnode → SfsVnode}
    (hs : VnodeStep w.mem w.disk f sv u) (hi : (u sv).svI = sv.svI) :
    Holds (A.count f (u sv).vnRefcount (u sv).vnOpencount) L (w.withMem (w.mem.withVnode f u)) := by
  have hl : (w.withMem (w.mem.withVnode f u)).mem.sfsVnodes.get? f = some (u sv) :=
    VnodeArray.get?_update_self hs.ino hs.loaded
  refine h.recount (h.sound.keepBlocks hs (by rw [hi]) (by rw [hi])) (fun g _ => ?_)
    (fun g hg => VnodeArray.get?_update_ne hs.ino hg) (refs_of_get? hl) (opens_of_get? hl)
    h.started
  rw [SfsWorld.view, World.withMem_mem, World.withMem_disk, view_withVnode hs.ino hs.loaded]
  split
  · next hg =>
    rw [hg, hi]
    exact (view_of_get? hs.loaded).symm
  · rfl

/-- One file looks different. -/
theorem refile (hne : f ≠ sfsRootLocation)
    (hs : Sound A.live L' w'.mem w'.disk) (hf : Frame (A.live \ {f}) w w')
    (hc : SameCounts f w w') (hst : w'.started = true) : Holds (A.setFile f (w'.view f)) L' w' := by
  have hcounts : ∀ g, SameCounts g w w' := by
    intro g
    by_cases hg : g = f
    · rw [hg]
      exact hc
    · exact h.same_counts hs hf hg
  have hroot := (hf.same _ ⟨h.sound.root, Ne.symm hne⟩).view
  refine ⟨hs, hroot ▸ h.dir, hroot ▸ h.rootLinks, fun g hg hne' => ?_,
    fun g => (hcounts g).refs.trans (h.refs g), fun g => (hcounts g).opens.trans (h.opens g), hst⟩
  show _ = update A.file f _ g
  by_cases hgf : g = f
  · rw [hgf, update_self]
  · rw [update_of_ne hgf, (hf.same g ⟨hg, hgf⟩).view, h.file g hg hne']

end

end Holds

variable {live : Set UInt32} {m : SfsFs} {d : Disk} {ino : UInt32} {forcetype : UInt16}
  {Q : Except Errno UInt32 → SfsWorld Unit → Prop} {name : CString}

/-- A step that leaves inode and flag alone. -/
theorem VnodeStep.of_counts {u : SfsVnode → SfsVnode} (h : Sound live L m d)
    (hl : m.sfsVnodes.get? f = some sv)
    (hu : ∀ sv, u sv =
      { sv with vnRefcount := (u sv).vnRefcount, vnOpencount := (u sv).vnOpencount })
    (hr : 1 ≤ (u sv).vnRefcount) (ho : (u sv).vnOpencount ≤ (u sv).vnRefcount) :
    VnodeStep m d f sv u where
  loaded := hl
  ino sv := by rw [hu]
  ops := by rw [hu]
  ref := hr
  opens := ho
  type := by rw [hu]
  sync hd := by
    have hi : (u sv).svI = sv.svI := by rw [hu]
    have hdirty : (u sv).svDirty = sv.svDirty := by rw [hu]
    rw [hi]
    exact h.synced.inode hl (hdirty.symm.trans hd)

theorem Holds.incref (h : Holds A L w) (hr : A.refs f ≠ 0) :
    Holds (A.ref f) L (w.withMem (w.mem.withVnode f fun sv =>
      { sv with vnRefcount := sv.vnRefcount + 1 })) := by
  obtain ⟨sv, hl, hr', ho'⟩ := h.loaded hr
  rw [Store.ref, ← hr', ← ho']
  exact h.setVnode (u := fun sv => { sv with vnRefcount := sv.vnRefcount + 1 })
    (.of_counts h.sound hl (fun _ => rfl) (Nat.le_add_left 1 _)
      (Nat.le_succ_of_le (h.sound.table.opens hl))) rfl

/-! ## Loading a vnode -/

theorem wp_search {l : List SfsVnode} {Q : Bool → SfsWorld Unit → Prop}
    (hs : Sound live L w.mem w.disk) (hl : ∀ sv ∈ l, sv.svIno ∈ live)
    (ht : ino ∈ l.map SfsVnode.svIno → forcetype = sfsTypeInval)
    (hQ : Q (decide (ino ∈ l.map SfsVnode.svIno)) w) :
    wp (soloCtx x) (loadvnode.search ino forcetype l) Q w := by
  induction l with
  | nil => exact hQ
  | cons sv rest ih =>
    have hlive := hl sv List.mem_cons_self
    have hused : w.mem.sfsFreemap.isset sv.svIno.toNat = true := hs.used_live hlive
    rw [loadvnode.search, wp_bind, wp_sfsBused (hs.live_lt hlive), if_neg (not_not_intro hused)]
    by_cases he : sv.svIno = ino
    · have hmem : ino ∈ (sv :: rest).map SfsVnode.svIno := he ▸ List.mem_cons_self
      rw [if_pos he, wp_bind]
      rw [decide_eq_true hmem] at hQ
      exact wp_assert_of (ht hmem) hQ
    · rw [if_neg he]
      have hmem : ino ∈ (sv :: rest).map SfsVnode.svIno ↔ ino ∈ rest.map SfsVnode.svIno := by
        rw [List.map_cons, List.mem_cons]
        exact or_iff_right (Ne.symm he)
      refine ih (fun sv' h' => hl sv' (List.mem_cons_of_mem _ h')) (fun h' => ht (hmem.2 h')) ?_
      rwa [decide_eq_decide.2 hmem] at hQ

theorem wp_install (hok : Q (.ok sv.svIno) (w.withMem (w.mem.withNew sv)))
    (hmem : x.mem → Q (.error .ENOMEM) w) : wpE (soloCtx x) (loadvnode.install sv) Q w := by
  rw [loadvnode.install, wpE_call_bind, wp_kmalloc]
  refine ⟨?_, hmem⟩
  rw [if_neg (not_not_intro rfl), wpE_call_bind, wp_kmalloc]
  refine ⟨?_, hmem⟩
  rw [if_neg (not_not_intro rfl), wpE_call_bind, wp_mem]
  split
  · exact hok
  · rw [wpE_call_bind, wp_kmalloc]
    refine ⟨?_, hmem⟩
    rw [if_neg (not_not_intro rfl)]
    exact hok

/-- What `sfs_loadvnode` may come back with for an inode that exists. -/
inductive LoadFault (x : Faults) : Errno → Prop where
  | mem : x.mem → LoadFault x .ENOMEM
  | read {e : IoErr} : x.rd e → LoadFault x e.errno

theorem chooseOps_kindOf (f : UInt32) : chooseOps f (kindOf f) = pure (opsOf f) := by
  rw [chooseOps, kindOf, opsOf]
  by_cases h : f = sfsRootLocation
  · rw [if_pos h, if_pos h, if_neg (by decide), if_pos rfl]
  · rw [if_neg h, if_neg h, if_pos rfl]

theorem view_withNew {g : UInt32} (hn : m.sfsVnodes.get? sv.svIno = none) :
    view (m.withNew sv) d g = if g = sv.svIno then fileView sv.svI d else view m d g := by
  rw [view, inodeOf_withNew hn]
  split
  · rfl
  · rfl

/-- `sfs_loadvnode` for an inode that is not in the table: `sv` becomes its vnode. -/
theorem wp_load (sv : SfsVnode) (hg : Geom w.mem) (hst : w.started = true)
    (hused : Used w.mem ino) (hlt : ino.toNat < nblocks w.mem)
    (hnew : forcetype ≠ sfsTypeInval →
      (SfsInode.ofBlock (w.disk ino)).sfiType = sfsTypeInval ∧ forcetype = kindOf ino ∧
      sv = ⟨ino, { SfsInode.ofBlock (w.disk ino) with sfiType := forcetype }, true,
        opsOf ino, 1, 0⟩)
    (hold : forcetype = sfsTypeInval → (SfsInode.ofBlock (w.disk ino)).sfiType = kindOf ino ∧
      sv = ⟨ino, SfsInode.ofBlock (w.disk ino), false, opsOf ino, 1, 0⟩)
    (hok : Q (.ok ino) (w.withMem (w.mem.withNew sv)))
    (herr : ∀ e, LoadFault x e → Q (.error e) w) :
    wpE (soloCtx x) (loadvnode.load ino forcetype) Q w := by
  have hused : w.mem.sfsFreemap.isset ino.toNat = true := hused
  rw [loadvnode.load, wpE_call_bind, wp_kmalloc]
  refine ⟨?_, fun hm => herr _ (.mem hm)⟩
  rw [if_neg (not_not_intro rfl), wpE_call_bind, wp_sfsBused hlt, if_neg (not_not_intro hused),
    wpE_call_bind, wp_mem, wpE_bind]
  refine solo_rblock hg hst hlt ?_ fun e he => herr _ (.read he)
  dsimp only
  by_cases ht : forcetype = sfsTypeInval
  · obtain ⟨hkind, rfl⟩ := hold ht
    rw [if_neg (not_not_intro ht), wpE_call_bind, hkind, chooseOps_kindOf, wp_pure]
    exact wp_install hok fun hm => herr _ (.mem hm)
  · obtain ⟨hinval, hkind, rfl⟩ := hnew ht
    rw [if_pos ht, wpE_call_bind]
    refine wp_assert_of hinval ?_
    rw [wpE_call_bind, hkind, chooseOps_kindOf, wp_pure]
    rw [hkind] at hok
    exact wp_install hok fun hm => herr _ (.mem hm)

/-- The vnodes of the table are files. -/
theorem Sound.mem_table (h : Sound live L m d) (hsv : sv ∈ m.sfsVnodes.v) : sv.svIno ∈ live :=
  h.table.live (VnodeArray.get?_of_mem h.table.nodup hsv)

section
variable (h : Holds A L w)
include h

/-- `sfs_loadvnode` of an inode that exists. -/
theorem wp_loadvnode (hf : f ∈ A.live)
    (hok : ∀ w', Holds (A.ref f) L w' → Q (.ok f) w') (herr : ∀ e, LoadFault x e → Q (.error e) w) :
    wpE (soloCtx x) (sfsLoadvnode f sfsTypeInval) Q w := by
  rw [sfsLoadvnode, wpE_call_bind, wp_mem, wpE_call_bind]
  refine wp_search h.sound (fun sv hsv => h.sound.mem_table hsv) (fun _ => rfl) ?_
  by_cases hr : A.refs f = 0
  · have hnone := h.not_loaded hr
    have hmem : f ∉ w.mem.sfsVnodes.v.map SfsVnode.svIno := VnodeArray.get?_eq_none.1 hnone
    have hi : inodeOf w.mem w.disk f = SfsInode.ofBlock (w.disk f) := by rw [inodeOf, hnone]
    rw [decide_eq_false hmem, if_neg (by decide)]
    refine wp_load _ h.sound.geom h.started (h.sound.used_live hf) (h.sound.live_lt hf)
      (absurd rfl) (fun _ => ⟨hi ▸ h.sound.kind hf, rfl⟩) (hok _ ?_) herr
    -- what has been on the disk is in memory, and that is the only difference
    have hl : (w.withMem (w.mem.withNew
        ⟨f, SfsInode.ofBlock (w.disk f), false, opsOf f, 1, 0⟩)).mem.sfsVnodes.get? f =
        some ⟨f, SfsInode.ofBlock (w.disk f), false, opsOf f, 1, 0⟩ :=
      (VnodeArray.get?_add hnone).trans (if_pos rfl)
    have hrefs := refs_of_get? hl
    have hopens := opens_of_get? hl
    rw [Store.ref, hr, h.opens_of_refs hr]
    refine h.recount (h.sound.load hf hnone) (fun g _ => (view_withNew hnone).trans ?_)
      (fun g hg => (VnodeArray.get?_add hnone).trans (if_neg hg)) hrefs hopens h.started
    split
    · next he =>
      rw [he, SfsWorld.view, view, hi]
      rfl
    · rfl
  · obtain ⟨sv, hl, -⟩ := h.loaded hr
    have hmem : f ∈ w.mem.sfsVnodes.v.map SfsVnode.svIno := VnodeArray.get?_isSome.1 ⟨sv, hl⟩
    rw [decide_eq_true hmem, if_pos rfl, wpE_call_bind, vnodeIncref, wp_setVnode, wpE_pure]
    exact hok _ (h.incref hr)

theorem wp_getroot {Q : UInt32 → SfsWorld Unit → Prop} (hx : x.fails .getroot)
    (hQ : ∀ w', Holds (A.ref sfsRootLocation) L w' → Q sfsRootLocation w') :
    wp (soloCtx x) sfsGetroot Q w := by
  rw [sfsGetroot, wp_bind, wp_run_iff]
  exact wp_loadvnode h h.sound.root hQ fun _ _ => hx

/-! ## Letting go of one -/

theorem wp_syncInode [Stores (soloCtx x)] {Q : Except Errno Unit → SfsWorld Unit → Prop}
    (hl : w.mem.sfsVnodes.get? f = some sv)
    (hok : ∀ w', Holds A L w' → w'.mem.sfsVnodes.get? f = some { sv with svDirty := false } →
      Q (.ok ()) w') : wpE (soloCtx x) (sfsSyncInode f) Q w := by
  have hf := h.sound.table.live hl
  rw [sfsSyncInode, wpE_call_bind, wp_vnode hl]
  by_cases hd : sv.svDirty = true
  · rw [if_pos hd, wpE_call_bind, wp_mem, wpE_bind]
    refine solo_wblock h.sound.geom h.started (h.sound.live_lt hf) ?_
    rw [hl]
    show Q (.ok ()) ((w.store f sv.svI.toBlock).withMem _)
    have h1 : Holds A L (w.store f sv.svI.toBlock) :=
      h.of_frame (h.sound.storeSelf hl) ⟨rfl, rfl, fun g hg => ⟨rfl, view_storeSelf h.sound hl hg⟩⟩
        h.started
    have hu : VnodeStep w.mem (w.store f sv.svI.toBlock).disk f sv
        fun sv => { sv with svDirty := false } :=
      ⟨hl, fun _ => rfl, rfl, @h.sound.table.ref f sv hl, @h.sound.table.opens f sv hl, rfl,
        fun _ => update_self ..⟩
    have h2 := h1.setVnode hu rfl
    rw [Store.count_self ((refs_of_get? hl).symm.trans (h.refs f))
      ((opens_of_get? hl).symm.trans (h.opens f))] at h2
    exact hok _ h2 (VnodeArray.get?_update_self (fun _ => rfl) hl)
  · rw [if_neg hd]
    refine hok w h (hl.trans ?_)
    rw [← Bool.not_eq_true _ |>.mp hd]

/-- The end of `sfs_reclaim`, for a vnode whose inode is on the disk. -/
theorem wp_discard {Q : Unit → SfsWorld Unit → Prop} (hl : w.mem.sfsVnodes.get? f = some sv)
    (hd : sv.svDirty = false) (hr : A.refs f = 1) (ho : A.opens f = 0)
    (hQ : ∀ w', Holds (A.unref f) L w' → Q () w') : wp (soloCtx x) (reclaim.discard f) Q w := by
  rw [reclaim.discard, wp_bind, wp_mem, hl, wp_bind, wp_put, vnodeKill, wp_bind]
  refine wp_assert_of ((refs_of_get? hl).symm.trans ((h.refs f).trans hr))
    (wp_assert_of ((opens_of_get? hl).symm.trans ((h.opens f).trans ho)) (hQ _ ?_))
  have hn := h.sound.table.nodup
  have hnone : (w.withMem (w.mem.without f)).mem.sfsVnodes.get? f = none :=
    (VnodeArray.get?_remove hn).trans (if_pos rfl)
  rw [Store.unref, hr, ho]
  refine h.recount (h.sound.drop hl hd) (fun g _ => ?_)
    (fun g hg => (VnodeArray.get?_remove hn).trans (if_neg hg)) (refs_of_none hnone)
    (opens_of_none hnone) h.started
  exact congrArg (fileView · w.disk) (inodeOf_drop h.sound hl hd)

/-- `vnode_decref` of a file that has a name, or of the root directory. -/
theorem wp_decref [Stores (soloCtx x)] {Q : Unit → SfsWorld Unit → Prop}
    (ho : A.opens f < A.refs f) (hlinks : A.refs f = 1 → A.links f ≠ 0)
    (hok : ∀ w', Holds (A.unref f) L w' → Q () w') : wp (soloCtx x) (vnodeDecref f) Q w := by
  obtain ⟨sv, hl, hrefs, hopens⟩ := h.loaded (Nat.ne_zero_of_lt ho)
  rw [vnodeDecref, wp_bind, wp_vnode hl, wp_bind]
  refine wp_assert_of (by omega) ?_
  by_cases hmany : 1 < sv.vnRefcount
  · rw [if_pos hmany, wp_setVnode]
    refine hok _ ?_
    rw [← hrefs, ← hopens] at ho
    rw [Store.unref, ← hrefs, ← hopens]
    exact h.setVnode (u := fun sv => { sv with vnRefcount := sv.vnRefcount - 1 })
      (.of_counts h.sound hl (fun _ => rfl) (Nat.le_sub_one_of_lt hmany)
        (Nat.le_sub_one_of_lt ho)) rfl
  · have hone : A.refs f = 1 := by omega
    have hlinks' : sv.svI.sfiLinkcount ≠ 0 := by
      have := h.links (h.sound.table.live hl)
      rw [SfsWorld.view, view_of_get? hl] at this
      exact fun h0 => hlinks hone (this.symm.trans h0)
    rw [if_neg hmany, wp_bind, wp_run_iff, sfsReclaim, wpE_call_bind, wp_vnode hl,
      if_neg (by omega), reclaim.erase, wpE_call_bind, wp_vnode hl, if_neg hlinks', wpE_bind]
    refine wp_syncInode h hl fun w1 h1 hl1 => ?_
    rw [wpE_call]
    exact wp_discard h1 hl1 rfl hone (by omega) hok

end

/-- Nothing is left of a file that has been truncated to nothing. -/
theorem Cut.bare (h : Cut live L f (truncBlocklen 0) 0 w w') : (w'.view f).Bare := by
  have h0 : truncBlocklen 0 = 0 := by decide
  rw [h0] at h
  refine ⟨h.gone (by decide) fun fb hlo hle => by omega, fun fb => ?_⟩
  rw [h.ptr, if_pos]
  unfold Dropped
  omega

/-- The end of `sfs_reclaim`, for a file that is not there any more. -/
theorem wp_bury {Q : Except Errno Unit → SfsWorld Unit → Prop} (h : Holds A L w)
    (hl : w.mem.sfsVnodes.get? f = some sv) (hne : f ≠ sfsRootLocation) (hr : A.refs f = 1)
    (ho : A.opens f = 0) (hb : (A.file f).Bare) (hQ : ∀ w', Holds (A.erase f) L w' → Q (.ok ()) w')
    : wpE (soloCtx x) (call (sfsBfree f) >>= fun _ => call (reclaim.discard f)) Q w := by
  have hf := h.sound.table.live hl
  have hview := h.file f hf hne
  have hn := h.sound.table.nodup
  have hbare : (view w.mem w.disk f).Bare := by
    rw [show view w.mem w.disk f = A.file f from hview]
    exact hb
  obtain ⟨fm, hfm, hs⟩ := (h.sound.erase hl hne hbare).release
    fun hL => h.sound.not_live_of_leak hL hf
  rw [wpE_call_bind, wp_sfsBfree hfm, wpE_call, reclaim.discard, wp_bind, wp_mem, World.withMem_mem,
    hl, wp_bind, wp_put, vnodeKill, wp_bind]
  refine wp_assert_of ((refs_of_get? hl).symm.trans ((h.refs f).trans hr))
    (wp_assert_of ((opens_of_get? hl).symm.trans ((h.opens f).trans ho)) (hQ _ ?_))
  -- the block is free already when the vnode goes, but it ends the same way
  have hnone : (w.mem.sfsVnodes.remove f).get? f = none :=
    (VnodeArray.get?_remove hn).trans (if_pos rfl)
  have hv : ∀ g, g ≠ f → fileView (inodeOf (w.mem.without f) w.disk g) w.disk =
      w.view g := fun g hg => congrArg (fileView · w.disk) (inodeOf_without hn hg)
  exact h.retable hs (hv _ (Ne.symm hne))
    (fun g hg hroot => (hv g hg.2).trans (h.file g hg.1 hroot))
    (fun g hg => (VnodeArray.get?_remove hn).trans (if_neg hg)) (refs_of_none hnone)
    (opens_of_none hnone) h.started

/-- `vnode_decref` of a file that has neither a name nor an indirect block. -/
theorem wp_decref_erase [Stores (soloCtx x)] {Q : Unit → SfsWorld Unit → Prop} (h : Holds A L w)
    (hne : f ≠ sfsRootLocation) (hr : A.refs f = 1) (ho : A.opens f = 0)
    (hlinks : (A.file f).inode.sfiLinkcount = 0) (hind : (A.file f).inode.sfiIndirect = 0)
    (hok : ∀ w', Holds (A.erase f) L w' → Q () w') : wp (soloCtx x) (vnodeDecref f) Q w := by
  obtain ⟨sv, hl, hrefs, hopens⟩ := h.loaded (f := f) (by omega)
  have hlinks' : sv.svI.sfiLinkcount = 0 := by
    have := h.links (h.sound.table.live hl)
    rw [SfsWorld.view, view_of_get? hl, Store.links, if_neg hne] at this
    exact this.trans hlinks
  have hind' : sv.svI.sfiIndirect = 0 := by
    have hview := h.file f (h.sound.table.live hl) hne
    rw [SfsWorld.view, view_of_get? hl] at hview
    rw [← hview] at hind
    exact hind
  rw [vnodeDecref, wp_bind, wp_vnode hl, wp_bind]
  refine wp_assert_of (by omega) ?_
  rw [if_neg (by omega), wp_bind, wp_run_iff, sfsReclaim, wpE_call_bind, wp_vnode hl,
    if_neg (by omega), reclaim.erase, wpE_call_bind, wp_vnode hl, if_pos hlinks', wpE_bind]
  refine wp_truncate h.sound hl h.started (fun w1 hcut => ?_)
    fun e w1 _ hhalf => absurd hind' hhalf.indirect
  have h1 := h.refile hne hcut.sound hcut.frame hcut.counts (hcut.started.trans h.started)
  obtain ⟨sv1, hl1⟩ := hcut.loaded
  rw [wpE_bind]
  refine wp_syncInode h1 hl1 fun w2 h2 hl2 => ?_
  refine wp_bury h2 hl2 hne hr ho ?_ fun w3 h3 => hok w3 ?_
  · show (update A.file f _ f).Bare
    rw [update_self]
    exact hcut.bare
  · -- what a file that is gone looks like does not matter
    exact ⟨h3.sound, h3.dir, h3.rootLinks,
      fun g hg hroot => (h3.file g hg hroot).trans (update_of_ne hg.2 ..), h3.refs,
      h3.opens, h3.started⟩

/-! ## Making a file -/

theorem fileView_newFile (d : Disk) : fileView newFile d = blankFile := by
  have hb := bare_newFile d
  refine FileView.ext rfl (funext hb.2) (funext fun p => ?_)
  show byteOf newFile d p = 0
  rw [byteOf, if_pos (show ptrOf newFile d _ = 0 from hb.2 _)]

/-- A cleared block that is nobody's becomes a file. -/
theorem Holds.add (h : Holds A L w) (hf : f ∈ L) :
    Holds (A.add f) (L \ {f}) (w.withMem (w.mem.withNew ⟨f, newFile, true, .fileops, 1, 0⟩)) := by
  have hne := (h.sound.inVolume_leak hf).ne_root
  have hnone := h.sound.not_loaded_of_leak hf
  have hv : ∀ g, SfsWorld.view (w.withMem (w.mem.withNew ⟨f, newFile, true, .fileops, 1, 0⟩)) g =
      if g = f then blankFile else w.view g := by
    intro g
    refine (view_withNew hnone).trans ?_
    rw [← fileView_newFile w.disk]
    rfl
  have hl : (w.withMem (w.mem.withNew ⟨f, newFile, true, .fileops, 1, 0⟩)).mem.sfsVnodes.get? f =
      some ⟨f, newFile, true, .fileops, 1, 0⟩ := (VnodeArray.get?_add hnone).trans (if_pos rfl)
  have hrefs := refs_of_get? hl
  have hopens := opens_of_get? hl
  refine h.retable (h.sound.newInode hf) ((hv _).trans (if_neg (Ne.symm hne)))
    (fun g hg hroot => ?_) (fun g hg => (VnodeArray.get?_add hnone).trans (if_neg hg)) hrefs hopens
    h.started
  rw [hv, update_apply]
  split
  · rfl
  · next hgf => exact h.file g (hg.resolve_left hgf) hroot

/-- What `sfs_makeobj` may come back with. -/
inductive MakeFault (x : Faults) : Errno → Prop where
  | full : MakeFault x .ENOSPC
  | load {e : Errno} : LoadFault x e → MakeFault x e

/-- `sfs_makeobj` of a file. After an error a block may be lost. -/
theorem wp_makeobj [Stores (soloCtx x)] (h : Holds A L w)
    (hok : ∀ f L' w', f ∉ A.live → f ≠ sfsRootLocation → Later (soloCtx x) L L' →
      Holds (A.add f) L' w' → Q (.ok f) w')
    (herr : ∀ e L' w', MakeFault x e → Later (soloCtx x) L L' → Holds A L' w' → Q (.error e) w') :
    wpE (soloCtx x) (sfsMakeobj sfsTypeFile) Q w := by
  have hh : (soloJob x sfsRootLocation A.live h.sound.root).Held ∅ L w := soloJob_held.2 h.sound
  rw [sfsMakeobj, wpE_bind]
  refine Job.balloc hh (fun {f L1 w1} t hz => ?_) fun _ => herr _ L w .full (Later.refl _ _) h
  have hs1 : Sound A.live ({f} ∪ L1) w1.mem w1.disk := t.held.sound
  have hmem : f ∈ ({f} ∪ L1 : Set UInt32) := .inl rfl
  have h1 : Holds A ({f} ∪ L1) w1 := h.of_frame hs1 t.frame t.started
  have hne := (hs1.inVolume_leak hmem).ne_root
  have hnone : f ∉ w1.mem.sfsVnodes.v.map SfsVnode.svIno :=
    VnodeArray.get?_eq_none.1 (hs1.not_loaded_of_leak hmem)
  dsimp only
  rw [sfsLoadvnode, wpE_call_bind, wp_mem, wpE_call_bind]
  refine wp_search hs1 (fun sv hsv => hs1.mem_table hsv) (fun hn => absurd hn hnone) ?_
  rw [decide_eq_false hnone, if_neg (by decide)]
  refine wp_load ⟨f, newFile, true, .fileops, 1, 0⟩ hs1.geom h1.started
    (hs1.ledger.used_of_leak hmem) (hs1.inVolume_leak hmem).last (fun _ => ⟨?_, ?_, ?_⟩)
    (fun hn => absurd hn (by decide)) (hok f L1 _ (hs1.not_live_of_leak hmem) hne t.later ?_)
    fun e he => herr e _ w1 (.load he) ?_ h1
  · rw [hz, SfsInode.ofBlock_zero]
  · rw [kindOf, if_neg hne]
  · rw [hz, opsOf, if_neg hne]
    rfl
  · have := h1.add hmem
    rwa [Set.singleton_union, Set.insert_sdiff_self_of_notMem (t.held.apart f rfl)] at this
  · refine ⟨fun b hb => .inr (t.later.1 hb), fun hq => ?_⟩
    cases he with
    | mem hm => exact absurd hm hq.mem
    | read he => exact absurd he hq.rd

/-- `sfi_linkcount++` of a file. -/
theorem Holds.linkcountUp (h : Holds A L w) (hl : w.mem.sfsVnodes.get? f = some sv)
    (hne : f ≠ sfsRootLocation) :
    Holds (A.setFile f { A.file f with
        inode := (A.file f).inode.setLinkcount ((A.file f).inode.sfiLinkcount + 1) }) L
      (w.withMem (w.mem.withVnode f (SfsVnode.withInode fun i =>
        i.setLinkcount (i.sfiLinkcount + 1)))) := by
  have hview := h.file f (h.sound.table.live hl) hne
  rw [SfsWorld.view, view_of_get? hl] at hview
  have hnew : Holds _ L (w.withMem (w.mem.withVnode f (SfsVnode.withInode fun i =>
      i.setLinkcount (i.sfiLinkcount + 1)))) :=
    h.refile hne (h.sound.keepBlocks (.withInode h.sound hl rfl) rfl rfl)
      (Job.frame_withVnode (fun _ => rfl) hl) (Job.counts_withInode hl) h.started
  have hcong : fileView (sv.svI.setLinkcount (sv.svI.sfiLinkcount + 1)) w.disk = _ :=
    fileView_congr (i := sv.svI) rfl rfl
  rw [Job.view_withMem_inode hl, hcong] at hnew
  rw [← hview]
  exact hnew

/-! ## Open counts -/

theorem Holds.incopen (h : Holds A L w) (hl : w.mem.sfsVnodes.get? f = some sv)
    (ho : A.opens f < A.refs f) :
    Holds (A.incopen f) L (w.withMem (w.mem.withVnode f fun sv =>
      { sv with vnOpencount := sv.vnOpencount + 1 })) := by
  rw [← h.refs f, ← h.opens f, refs_of_get? hl, opens_of_get? hl] at ho
  rw [Store.incopen, ← h.refs f, ← h.opens f, refs_of_get? hl, opens_of_get? hl]
  exact h.setVnode (u := fun sv => { sv with vnOpencount := sv.vnOpencount + 1 })
    (.of_counts h.sound hl (fun _ => rfl) (@h.sound.table.ref f sv hl) ho) rfl

theorem wp_decopen [Stores (soloCtx x)] {Q : Unit → SfsWorld Unit → Prop} (h : Holds A L w)
    (ho : A.opens f ≠ 0)
    (hQ : ∀ w', Holds (A.decopen f) L w' → Q () w') : wp (soloCtx x) (Open.decopen f) Q w := by
  obtain ⟨sv, hl, hrefs, hopens⟩ := h.loaded (f := f) fun hr => ho (h.opens_of_refs hr)
  have hle := h.sound.table.opens hl
  have h1 := h.setVnode (u := fun sv => { sv with vnOpencount := sv.vnOpencount - 1 })
    (.of_counts h.sound hl (fun _ => rfl) (@h.sound.table.ref f sv hl)
      (Nat.le_trans (Nat.sub_le _ _) hle)) rfl
  dsimp only at h1
  rw [hrefs, hopens] at h1
  rw [Open.decopen, wp_bind, wp_vnode hl, wp_bind]
  refine wp_assert_of (by omega) ?_
  rw [wp_bind, wp_setVnode]
  split
  · exact hQ _ h1
  · rw [wp_bind, wp_run_iff]
    exact wp_syncInode h1 (VnodeArray.get?_update_self (fun _ => rfl) hl) fun w2 h2 _ => hQ w2 h2

/-! ## Names -/

/-- A store whose entries are in order. -/
structure Store.Ok (A : Store) : Prop where
  distinct : A.es.Distinct
  bound : ∀ {i name ino}, A.es.At i name ino → ino ∈ A.live ∧ A.links ino ≠ 0
  rootLinks : A.rootLinks ≠ 0

variable (h : Holds A L w) (hA : A.Ok) (hr : A.refs sfsRootLocation ≠ 0)

include h hA hr in
theorem wp_findname {Q : FindResult → SfsWorld Unit → Prop}
    (hok : ∀ r L' w', Job.FindSpec A.es name r → Later (soloCtx x) L L' → Holds A L' w' → Q r w')
    (herr : ∀ e slot L' w', x.rd e → Later (soloCtx x) L L' → Holds A L' w' →
      Q (.error e.errno, slot) w') : wp (soloCtx x) (sfsDirFindname sfsRootLocation name) Q w := by
  obtain ⟨sv, hl, -⟩ := h.loaded hr
  have hh : (soloJob x sfsRootLocation A.live h.sound.root).Held ∅ L w := soloJob_held.2 h.sound
  refine Job.dirFindname hA.distinct hh hl h.dir (fun {r L' w'} t hr => ?_)
    fun {e slot L' w'} t he => ?_
  · exact hok r L' w' hr t.later (h.of_frame (soloJob_held.1 t.held) t.frame (t.started h.started))
  · exact herr e slot L' w' he t.later
      (h.of_frame (soloJob_held.1 t.held) t.frame (t.started h.started))

/-- The directory has changed, and nothing else. -/
theorem Holds.redir (h : Holds A L w) {es : Entries} {sz : Nat → Prop}
    (hr : A.refs sfsRootLocation ≠ 0) (hs : Sound A.live L' w'.mem w'.disk)
    (hf : Frame (A.live \ {sfsRootLocation}) w w') (hg : Grows sz sfsRootLocation w w')
    (hd : IsDir (w'.view sfsRootLocation) es) (hst : w'.started = true) :
    Holds (A.setEs es) L' w' := by
  obtain ⟨sv, hl, -⟩ := h.loaded hr
  obtain ⟨sv', hl', -, hrefs, hopens⟩ := hg.vnode hl
  have hcounts : ∀ g, SameCounts g w w' := by
    intro g
    by_cases hgr : g = sfsRootLocation
    · rw [hgr]
      exact ⟨by rw [refs_of_get? hl', refs_of_get? hl, hrefs],
        by rw [opens_of_get? hl', opens_of_get? hl, hopens]⟩
    · exact h.same_counts hs hf hgr
  exact ⟨hs, hd, hg.links.trans h.rootLinks,
    fun g hlive hne => (hf.same g ⟨hlive, hne⟩).view.trans (h.file g hlive hne),
    fun g => (hcounts g).refs.trans (h.refs g), fun g => (hcounts g).opens.trans (h.opens g), hst⟩

/-- Why `sfs_dir_link` may fail. -/
inductive LinkFault (x : Faults) (es : Entries) (name : CString) : Errno → Prop where
  | bound {i : Nat} {ino : UInt32} : es.At i name ino → LinkFault x es name .EEXIST
  | long : es.Absent name → sfsNamelen < name.strlen + 1 → LinkFault x es name .ENAMETOOLONG
  | read {e : IoErr} : x.rd e → LinkFault x es name e.errno
  | write {fb : Nat} {e : Errno} : es.Absent name → BmapFault (soloCtx x) fb true e →
      LinkFault x es name e

include h hA hr in
theorem wp_dirLink [Stores (soloCtx x)] {Q : Except Errno Nat → SfsWorld Unit → Prop}
    (hino : ino ≠ sfsNoino)
    (hok : ∀ slot L' w', A.es.Absent name → A.es.Free slot → Later (soloCtx x) L L' →
      Holds (A.setEs (A.es.put slot name ino)) L' w' → Q (.ok slot) w')
    (herr : ∀ e L' w', LinkFault x A.es name e → Later (soloCtx x) L L' → Holds A L' w' →
      Q (.error e) w') :
    wpE (soloCtx x) (sfsDirLink sfsRootLocation name ino) Q w := by
  obtain ⟨sv, hl, -⟩ := h.loaded hr
  have hh : (soloJob x sfsRootLocation A.live h.sound.root).Held ∅ L w := soloJob_held.2 h.sound
  have hsame : ∀ {L' w'}, (soloJob x sfsRootLocation A.live h.sound.root).Passed L w L' w' →
      Holds A L' w' := fun t =>
    h.of_frame (soloJob_held.1 t.held) t.frame (t.started h.started)
  refine Job.dirLink hA.distinct hino hh hl h.dir trivial (fun {slot L' w'} t habs hfree hd => ?_)
    (fun {i y L' w'} t hat => ?_) (fun {L' w'} t habs hlong => ?_) (fun {e L' w'} t he => ?_)
    fun {e fb L' w'} t habs hd hf => ?_
  · exact hok slot L' w' habs hfree t.later
      (h.redir hr (soloJob_held.1 t.held) t.frame t.grows hd (t.started h.started))
  · exact herr _ L' w' (.bound hat) t.later (hsame t)
  · exact herr _ L' w' (.long habs hlong) t.later (hsame t)
  · exact herr _ L' w' (.read he) t.later (hsame t)
  · exact herr e L' w' (.write habs hf) t.later
      (h.redir hr (soloJob_held.1 t.held) t.frame t.grows hd (t.started h.started))

/-- Why a look-up may fail. -/
inductive LookFault (x : Faults) (es : Entries) (name : CString) : Errno → Prop where
  | absent : es.Absent name → LookFault x es name .ENOENT
  | load {e : Errno} : LoadFault x e → LookFault x es name e

include h hA hr in
theorem wp_lookonce {Q : Except Errno (UInt32 × Nat) → SfsWorld Unit → Prop}
    (hok : ∀ ino i L' w', A.es.At i name ino → Later (soloCtx x) L L' →
      Holds (A.ref ino) L' w' → Q (.ok (ino, i)) w')
    (herr : ∀ e L' w', LookFault x A.es name e → Later (soloCtx x) L L' → Holds A L' w' →
      Q (.error e) w') : wpE (soloCtx x) (sfsLookonce sfsRootLocation name) Q w := by
  rw [sfsLookonce, wpE_call_bind]
  refine wp_findname h hA hr (fun r L1 w1 hfind hl1 h1 => ?_) fun e slot L1 w1 he hl1 h1 => ?_
  · cases hfind with
    | absent habs _ => exact herr _ L1 w1 (.absent habs) hl1 h1
    | @found ino i slot hat =>
      obtain ⟨hlive, hlinks⟩ := hA.bound hat
      rw [wpE_bind]
      refine wp_loadvnode h1 hlive (fun w2 h2 => ?_) fun e he => herr e L1 w1 (.load he) hl1 h1
      obtain ⟨sv, hl, -⟩ := h2.loaded (f := ino) (by
        show update A.refs ino _ ino ≠ 0
        rw [update_self]
        exact Nat.succ_ne_zero _)
      have hsv : sv.svI.sfiLinkcount ≠ 0 := by
        have hv := h2.links (f := ino) hlive
        rw [SfsWorld.view, view_of_get? hl] at hv
        exact fun h0 => hlinks (hv.symm.trans h0)
      show wpE (soloCtx x) (call (vnode ino) >>= _) Q w2
      rw [wpE_call_bind, wp_vnode hl, if_neg hsv]
      exact hok ino i L1 w2 hat hl1 h2
  · exact herr _ L1 w1 (.load (.read he)) hl1 h1

end Os161.Sfs
