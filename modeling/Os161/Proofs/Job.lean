import Os161.Lib.Rel
import Os161.Proofs.Moves
import Os161.Proofs.Rwblock

/-!
# What a routine relies on and what it leaves behind

A routine of the file system works on one file while other threads may be
waiting for the device. `Job` collects what its proof needs to know about them.
The files in `S` are left alone by everybody else. `inv` is what the others
have been promised: it speaks about the world and about the set of marked blocks
that belong to nobody, some of which another thread may be holding; whatever the
routine does to its own file has to preserve it, and so does every step of the
others. For a routine that is alone on the machine `S` is everything and `inv`
is trivial.

Blocks that the routine itself has taken from the free map and not yet given to
a file are kept apart, as `own`, from those in `L` that others may be holding.
The rules at the end say what is known after a block transfer: the world has
moved on by an environment step, in which nothing of this has changed.
-/

namespace Os161.Sfs

open Os161.Kern Os161.Lib

abbrev SfsCtx (G : Type) := Ctx SfsFs UInt32 Block IoErr Panic G

abbrev SfsMachine := Machine SfsFs UInt32 Block IoErr

abbrev SfsWorld (G : Type) := World SfsFs UInt32 Block G

variable {G : Type}

/-- No write fails. A write that meets a media error is lost and reports success,
so that nothing which rests on what was written can be promised without this. -/
class Stores (c : SfsCtx G) : Prop where
  wr : ∀ e, ¬ c.wrErr e

/-! ## Comparing worlds -/

abbrev SfsWorld.get? (w : SfsWorld G) (f : UInt32) : Option SfsVnode :=
  w.mem.sfsVnodes.get? f

abbrev SfsWorld.view (w : SfsWorld G) (f : UInt32) : FileView := Sfs.view w.mem w.disk f

/-- A file and its vnode are the same in both worlds. -/
structure Same (f : UInt32) (w w' : SfsWorld G) : Prop where
  get? : SfsWorld.get? w' f = SfsWorld.get? w f
  view : w'.view f = w.view f

theorem Same.refl (f : UInt32) (w : SfsWorld G) : Same f w w := ⟨rfl, rfl⟩

variable {f : UInt32} {w1 w2 w3 w w' : SfsWorld G} {S : Set UInt32} {m : SfsFs} {sz : Nat → Prop}

theorem Same.trans (h1 : Same f w1 w2) (h2 : Same f w2 w3) : Same f w1 w3 :=
  ⟨h2.get?.trans h1.get?, h2.view.trans h1.view⟩

/-- `vn_refcount`; zero for a vnode that is not loaded. -/
def SfsWorld.refs (w : SfsWorld G) (f : UInt32) : Nat :=
  (SfsWorld.get? w f).elim 0 SfsVnode.vnRefcount

/-- `vn_opencount`; zero for a vnode that is not loaded. -/
def SfsWorld.opens (w : SfsWorld G) (f : UInt32) : Nat :=
  (SfsWorld.get? w f).elim 0 SfsVnode.vnOpencount

/-- Both counts of a vnode are the same in both worlds. -/
structure SameCounts (f : UInt32) (w w' : SfsWorld G) : Prop where
  refs : SfsWorld.refs w' f = SfsWorld.refs w f
  opens : SfsWorld.opens w' f = SfsWorld.opens w f

theorem SameCounts.refl (f : UInt32) (w : SfsWorld G) : SameCounts f w w := ⟨rfl, rfl⟩

theorem SameCounts.trans (h1 : SameCounts f w1 w2) (h2 : SameCounts f w2 w3) : SameCounts f w1 w3 :=
  ⟨h2.refs.trans h1.refs, h2.opens.trans h1.opens⟩

theorem SameCounts.of_get? (h : SfsWorld.get? w' f = SfsWorld.get? w f) : SameCounts f w w' := by
  constructor
  · rw [SfsWorld.refs, h, SfsWorld.refs]
  · rw [SfsWorld.opens, h, SfsWorld.opens]

/-- The parts of the volume that never change, and the files in `S`. -/
structure Frame (S : Set UInt32) (w w' : SfsWorld G) : Prop where
  super : w'.mem.sfsSuper = w.mem.sfsSuper
  dBlocks : w'.mem.dBlocks = w.mem.dBlocks
  same : ∀ f ∈ S, Same f w w'

theorem Frame.refl (S : Set UInt32) (w : SfsWorld G) : Frame S w w :=
  ⟨rfl, rfl, fun _ _ => Same.refl _ _⟩

theorem Frame.trans (h1 : Frame S w1 w2) (h2 : Frame S w2 w3) : Frame S w1 w3 :=
  ⟨h2.super.trans h1.super, h2.dBlocks.trans h1.dBlocks,
    fun f hf => (h1.same f hf).trans (h2.same f hf)⟩

theorem Frame.mono {T : Set UInt32} (h : Frame S w w') (hs : T ⊆ S) : Frame T w w' :=
  ⟨h.super, h.dBlocks, fun f hf => h.same f (hs hf)⟩

/-- Memory changes in a way that no vnode notices. -/
theorem Frame.withMem (hs : m.sfsSuper = w.mem.sfsSuper) (hd : m.dBlocks = w.mem.dBlocks)
    (hv : m.sfsVnodes = w.mem.sfsVnodes) : Frame S w (w.withMem m) := by
  refine ⟨hs, hd, fun f _ => ⟨congrArg (fun a => a.get? f) hv, ?_⟩⟩
  show Sfs.view m w.disk f = Sfs.view w.mem w.disk f
  rw [Sfs.view, Sfs.view, inodeOf, inodeOf, hv]

/-- The vnode of `f` is still there with the same counts, and the file has kept
its type, its links and its blocks; `sz` says which other sizes it may have. -/
structure Grows (sz : Nat → Prop) (f : UInt32) (w w' : SfsWorld G) : Prop where
  vnode : ∀ {sv}, SfsWorld.get? w f = some sv → ∃ sv', SfsWorld.get? w' f = some sv' ∧
    sv'.vnOps = sv.vnOps ∧ sv'.vnRefcount = sv.vnRefcount ∧
    sv'.vnOpencount = sv.vnOpencount
  type : (w'.view f).inode.sfiType = (w.view f).inode.sfiType
  links : (w'.view f).inode.sfiLinkcount = (w.view f).inode.sfiLinkcount
  ptr : ∀ {fb}, (w.view f).ptr fb ≠ 0 →
    (w'.view f).ptr fb = (w.view f).ptr fb
  size : (w'.view f).inode.sfiSize = (w.view f).inode.sfiSize ∨
    sz (w'.view f).inode.sfiSize.toNat

theorem Grows.of_same (h : Same f w w') : Grows sz f w w' :=
  ⟨fun {sv} hs => ⟨sv, h.get?.trans hs, rfl, rfl, rfl⟩, by rw [h.view], by rw [h.view],
    fun _ => by rw [h.view], .inl (by rw [h.view])⟩

theorem Grows.trans (h1 : Grows sz f w1 w2) (h2 : Grows sz f w2 w3) : Grows sz f w1 w3 where
  vnode hs := by
    obtain ⟨sv2, h, ho, hr, hc⟩ := h1.vnode hs
    obtain ⟨sv3, h', ho', hr', hc'⟩ := h2.vnode h
    exact ⟨sv3, h', ho'.trans ho, hr'.trans hr, hc'.trans hc⟩
  type := h2.type.trans h1.type
  links := h2.links.trans h1.links
  ptr h0 := by
    have he := h1.ptr h0
    exact (h2.ptr (he ▸ h0)).trans he
  size := by
    rcases h2.size with h | h
    · rw [h]
      exact h1.size
    · exact .inr h

/-! ## Jobs -/

/-- Marked blocks may go astray if something fails or interferes, and only
then. -/
def Later (c : SfsCtx G) (L L' : Set UInt32) : Prop := L ⊆ L' ∧ (c.Quiet → L' = L)

theorem Later.refl (c : SfsCtx G) (L : Set UInt32) : Later c L L := ⟨fun _ h => h, fun _ => rfl⟩

theorem Later.trans {c : SfsCtx G} {L1 L2 L3 : Set UInt32} (h1 : Later c L1 L2)
    (h2 : Later c L2 L3) : Later c L1 L3 :=
  ⟨fun _ h => h2.1 (h1.1 h), fun hq => (h2.2 hq).trans (h1.2 hq)⟩

abbrev Promise (G : Type) := Set UInt32 → SfsWorld G → Prop

/-- The state of a job that holds the blocks `own`. -/
structure Held (inv : Promise G) (live own L : Set UInt32) (w : SfsWorld G) : Prop where
  sound : Sound live (own ∪ L) w.mem w.disk
  apart : ∀ b ∈ own, b ∉ L
  inv : inv L w

/-- What other threads do while a job waits: they may mark blocks and change
their own files. -/
structure Env (c : SfsCtx G) (S : Set UInt32) (inv : Promise G) : Prop where
  wait : ∀ {live own L w w'}, S ⊆ live → Held inv live own L w → c.wait w w' →
    ∃ L', Later c L L' ∧ Held inv live own L' w' ∧ Frame S w w' ∧
      w'.started = w.started ∧ w'.disk = w.disk ∧ w'.mem.idbuf = w.mem.idbuf ∧
      w'.mem.truncIdbuf = w.mem.truncIdbuf
  acq : ∀ {live own L w w'}, S ⊆ live → Held inv live own L w → c.acq w w' →
    ∃ L', Later c L L' ∧ Held inv live own L' { w' with started := true } ∧ Frame S w w'
  atWait : ∀ {live own L w}, Held inv live own L w → c.atWait w
  atAcq : ∀ {live own L w}, Held inv live own L w → c.atAcq w

/-- A change to `f` that `D` allows does not break the promise. -/
def Guard (inv : Promise G) (f : UInt32) (D : SfsWorld G → SfsWorld G → Prop) : Prop :=
  ∀ {live leak leak' L L' w w'}, Sound live leak w.mem w.disk →
    Sound live leak' w'.mem w'.disk → inv L w → L ⊆ L' → w'.ghost = w.ghost →
    (∀ g ∈ live, g ≠ f → Same g w w') → D w w' → inv L' w'

structure Job (G : Type) where
  c : SfsCtx G
  S : Set UInt32
  inv : Promise G
  sz : Nat → Prop
  f : UInt32
  live : Set UInt32
  env : Env c S inv
  guard : Guard inv f (Grows sz f)
  sub : S ⊆ live
  mem : f ∈ S

namespace Job

variable (J : Job G)

abbrev Held (own L : Set UInt32) (w : SfsWorld G) : Prop := Sfs.Held J.inv J.live own L w

theorem mem_live : J.f ∈ J.live := J.sub J.mem

/-- The world after other threads have had their turn. -/
structure Turn (own L : Set UInt32) (w : SfsWorld G) (L' : Set UInt32)
    (w' : SfsWorld G) : Prop where
  later : Later J.c L L'
  held : J.Held own L' w'
  frame : Frame J.S w w'
  started : w'.started = true
  kept : w.started = true → w'.mem.idbuf = w.mem.idbuf ∧
    w'.mem.truncIdbuf = w.mem.truncIdbuf

end Job

/-! ## Rules for the primitive routines -/

section
variable {c : SfsCtx G} {w : SfsWorld G} {f : UInt32}

theorem wp_vnode {sv : SfsVnode} {Q : SfsVnode → SfsWorld G → Prop}
    (h : w.mem.sfsVnodes.get? f = some sv) : wp c (vnode f) Q w ↔ Q sv w := by
  rw [vnode, wp_bind, wp_mem, h]
  rfl

variable {Q : Unit → SfsWorld G → Prop} {b : UInt32}

theorem wp_setVnode {u : SfsVnode → SfsVnode} :
    wp c (setVnode f u) Q w ↔ Q () (w.withMem (w.mem.withVnode f u)) := .rfl

theorem wp_setInode {u : SfsInode → SfsInode} :
    wp c (setInode f u) Q w ↔
      Q () (w.withMem (w.mem.withVnode f (SfsVnode.withInode u))) := .rfl

theorem wp_sfsBused {Q : Bool → SfsWorld G → Prop} (hb : b.toNat < nblocks w.mem) :
    wp c (sfsBused b) Q w ↔ Q (w.mem.sfsFreemap.isset b.toNat) w := by
  have hlt : ¬ w.mem.sfsSuper.spNblocks ≤ b := by
    rw [UInt32.le_iff_toNat_le]
    exact Nat.not_le.2 hb
  rw [sfsBused, wp_bind, wp_mem, if_neg hlt]
  rfl

theorem wp_sfsBfree {fm : Bitmap} (h : w.mem.sfsFreemap.unmark b.toNat = some fm) :
    wp c (sfsBfree b) Q w ↔
      Q () (w.withMem { w.mem with sfsFreemap := fm, sfsFreemapdirty := true }) := by
  rw [sfsBfree, wp_bind, wp_mem, h]
  rfl

end

/-- Block numbers of the volume go to the device unchanged, and it has them. -/
theorem inDevice (hg : Geom m) {b : UInt32} (hb : b.toNat < nblocks m) :
    lhdSector (b.toNat * 512) = b ∧ ¬ m.dBlocks < b + 1 := by
  have h1 := hg.addr
  have h2 := hg.dev
  refine ⟨lhdSector_mul (by omega), ?_⟩
  rw [UInt32.lt_iff_toNat_lt, UInt32.toNat_add]
  show ¬ m.dBlocks.toNat < (b.toNat + 1) % 2 ^ 32
  omega

namespace Job

variable {J : Job G} {own L : Set UInt32} {w : SfsWorld G}

variable {w1 w' : SfsWorld G} {b : UInt32} {own' : Set UInt32}

theorem Turn.trans {L1 L2 : Set UInt32} {w2 : SfsWorld G} (h1 : J.Turn own L w L1 w1)
    (h2 : J.Turn own L1 w1 L2 w2) : J.Turn own L w L2 w2 where
  later := h1.later.trans h2.later
  held := h2.held
  frame := h1.frame.trans h2.frame
  started := h2.started
  kept hs := by
    obtain ⟨hi, ht⟩ := h1.kept hs
    obtain ⟨hi', ht'⟩ := h2.kept h1.started
    exact ⟨hi'.trans hi, ht'.trans ht⟩

theorem granted (h : J.Held own L w) (hg : J.c.Grant w w1) : ∃ L1, J.Turn own L w L1 w1 := by
  rcases hg with ⟨hs, rfl⟩ | ⟨hs, v, ha, rfl⟩
  · exact ⟨L, Later.refl _ _, h, Frame.refl _ _, hs, fun _ => ⟨rfl, rfl⟩⟩
  · obtain ⟨L1, hl, hh, hf⟩ := J.env.acq J.sub h ha
    refine ⟨L1, hl, hh, ⟨hf.super, hf.dBlocks, fun f hS => ?_⟩, rfl, fun ht => ?_⟩
    · exact ⟨(hf.same f hS).get?, (hf.same f hS).view⟩
    · rw [hs] at ht
      cases ht

theorem waited (h : J.Held own L w) (hs : w.started = true) (hw : J.c.wait w w1) :
    ∃ L1, J.Turn own L w L1 w1 ∧ w1.disk = w.disk := by
  obtain ⟨L1, hl, hh, hf, hst, hd, hi, ht⟩ := J.env.wait J.sub h hw
  exact ⟨L1, ⟨hl, hh, hf, hst.trans hs, fun _ => ⟨hi, ht⟩⟩, hd⟩

/-- Reading a block of the volume. -/
theorem rblock {Q : Except Errno Block → SfsWorld G → Prop} (h : J.Held own L w)
    (hb : b.toNat < nblocks w.mem)
    (hok : ∀ {L' w'}, J.Turn own L w L' w' → (J.c.Quiet → w'.mem = w.mem ∧ w'.disk = w.disk) →
      Q (.ok (w'.disk b)) w')
    (herr : ∀ {L' w' e}, J.Turn own L w L' w' → J.c.rdErr e → Q (.error e.errno) w') :
    wpE J.c (sfsRblock w.mem.dBlocks b) Q w := by
  obtain ⟨hsec, hdev⟩ := inDevice h.sound.geom hb
  rw [sfsRblock, hsec, if_neg hdev, wpE_mk, wp_bind]
  refine ⟨fun _ => J.env.atAcq h, fun w1 hg => ?_⟩
  obtain ⟨L1, t1⟩ := granted h hg
  refine ⟨J.env.atWait t1.held, fun w2 hw => ?_⟩
  obtain ⟨L2, t2, hd⟩ := waited t1.held t1.started hw
  refine ⟨?_, fun e he => herr (t1.trans t2) he⟩
  rw [← hd]
  refine hok (t1.trans t2) fun hq => ?_
  rw [hq.wait hw]
  exact hq.grant hg

/-- Writing one: `own'` is what the job holds once the data is there. A thread
that has the device already writes what it sees now. -/
theorem wblock [hr : Stores J.c] (own' : Set UInt32) {src : SfsFs → Block}
    {Q : Except Errno Unit → SfsWorld G → Prop} (h : J.Held own L w) (hb : b.toNat < nblocks w.mem)
    (hst : ∀ {L' w'}, J.Turn own L w L' w' → (w.started = true → w' = w) →
      J.Held own' L' (w'.store b (src w'.mem)))
    (hok : ∀ {L1 w1 L2 w2}, J.Turn own L w L1 w1 → (w.started = true → w1 = w) →
      J.Turn own' L1 (w1.store b (src w1.mem)) L2 w2 →
      w2.disk = Function.update w1.disk b (src w1.mem) → Q (.ok ()) w2) :
    wpE J.c (sfsWblock w.mem.dBlocks b src) Q w := by
  obtain ⟨hsec, hdev⟩ := inDevice h.sound.geom hb
  rw [sfsWblock, hsec, if_neg hdev, wpE_mk, wp_bind]
  refine ⟨fun _ => J.env.atAcq h, fun w1 hg => ?_⟩
  obtain ⟨L1, t1⟩ := granted h hg
  have hsame : w.started = true → w1 = w := hg.eq_of_started
  have hst1 := hst t1 hsame
  refine ⟨⟨J.env.atWait hst1, fun w2 hw => ?_⟩, fun e he => absurd he (hr.wr e)⟩
  obtain ⟨L2, t2, hd⟩ := waited hst1 t1.started hw
  exact hok t1 hsame t2 hd

/-- A step of the job itself. -/
theorem stepped (h : J.Held own L w) (hs : Sound J.live (own' ∪ L) w'.mem w'.disk)
    (ha : ∀ b ∈ own', b ∉ L) (hg : w'.ghost = w.ghost) (ho : ∀ g ∈ J.live, g ≠ J.f → Same g w w')
    (hf : Grows J.sz J.f w w') : J.Held own' L w' :=
  ⟨hs, ha, J.guard h.sound hs h.inv (fun _ hb => hb) hg ho hf⟩

/-- A step that no file notices. -/
theorem stepped_same (h : J.Held own L w) (hs : Sound J.live (own' ∪ L) w'.mem w'.disk)
    (ha : ∀ b ∈ own', b ∉ L) (hg : w'.ghost = w.ghost) (hv : ∀ g ∈ J.live, Same g w w') :
    J.Held own' L w' :=
  stepped h hs ha hg (fun g hl _ => hv g hl) (.of_same (hv _ J.mem_live))

end Job

/-! ## A thread alone -/

/-- What may go wrong on a machine that a thread has to itself. -/
structure Faults where
  rd : IoErr → Prop := fun _ => False
  wr : IoErr → Prop := fun _ => False
  mem : Prop := False
  fails : Panic → Prop := fun _ => False

def soloCtx (x : Faults) : SfsCtx Unit where
  fails := x.fails
  rdErr := x.rd
  wrErr := x.wr
  noMem := x.mem
  acq w w' := w' = w
  wait w w' := w' = w
  atAcq _ := True
  atWait _ := True

/-- Nothing goes wrong. -/
def noFaults : Faults := {}

instance : Stores (soloCtx noFaults) := ⟨fun _ => id⟩

theorem quiet_noFaults : (soloCtx noFaults).Quiet :=
  ⟨fun h => h, fun h => h, fun h => h, fun h => h, fun h => h⟩

theorem soloEnv (x : Faults) (S : Set UInt32) :
    Env (soloCtx x) S (fun _ _ => True) where
  wait {_ _ L w w'} _ h hw := by
    obtain rfl : w' = w := hw
    exact ⟨L, Later.refl _ _, h, Frame.refl _ _, rfl, rfl, rfl, rfl⟩
  acq {_ _ L w w'} _ h hw := by
    obtain rfl : w' = w := hw
    exact ⟨L, Later.refl _ _, ⟨h.sound, h.apart, trivial⟩, Frame.refl _ _⟩
  atWait _ := trivial
  atAcq _ := trivial

/-- Everything is this thread's own, and there is nobody to promise anything. -/
def soloJob (x : Faults) (f : UInt32) (live : Set UInt32) (hf : f ∈ live) : Job Unit where
  c := soloCtx x
  S := live
  inv _ _ := True
  sz _ := True
  f := f
  live := live
  env := soloEnv x live
  guard _ _ _ _ _ _ _ := trivial
  sub _ h := h
  mem := hf

instance {x : Faults} {live : Set UInt32} {hf : f ∈ live} [h : Stores (soloCtx x)] :
    Stores (soloJob x f live hf).c := h

theorem soloJob_held {x : Faults} {live L : Set UInt32} {hf : f ∈ live} {w : SfsWorld Unit} :
    (soloJob x f live hf).Held ∅ L w ↔ Sound live L w.mem w.disk := by
  constructor
  · intro h
    have hs := h.sound
    rwa [Set.empty_union] at hs
  · intro h
    exact ⟨by rwa [Set.empty_union], fun _ hb => hb.elim, trivial⟩

section
variable {x : Faults} {w : SfsWorld Unit} {b : UInt32}

theorem solo_rblock {Q : Except Errno Block → SfsWorld Unit → Prop} (hg : Geom w.mem)
    (hst : w.started = true) (hb : b.toNat < nblocks w.mem) (hok : Q (.ok (w.disk b)) w)
    (herr : ∀ e, x.rd e → Q (.error e.errno) w) :
    wpE (soloCtx x) (sfsRblock w.mem.dBlocks b) Q w := by
  obtain ⟨hsec, hdev⟩ := inDevice hg hb
  rw [sfsRblock, hsec, if_neg hdev, wpE_mk, wp_bind]
  refine ⟨fun _ => trivial, fun w1 hgrant => ⟨trivial, fun w2 hw => ?_⟩⟩
  obtain rfl : w2 = w1 := hw
  obtain rfl := hgrant.eq_of_started hst
  exact ⟨hok, herr⟩

theorem solo_wblock [hr : Stores (soloCtx x)] {src : SfsFs → Block} {Q : Except Errno Unit →
    SfsWorld Unit → Prop}
    (hg : Geom w.mem) (hst : w.started = true) (hb : b.toNat < nblocks w.mem)
    (hok : Q (.ok ()) (w.store b (src w.mem))) :
    wpE (soloCtx x) (sfsWblock w.mem.dBlocks b src) Q w := by
  obtain ⟨hsec, hdev⟩ := inDevice hg hb
  rw [sfsWblock, hsec, if_neg hdev, wpE_mk, wp_bind]
  refine ⟨fun _ => trivial, fun w1 hgrant => ?_⟩
  obtain rfl := hgrant.eq_of_started hst
  refine ⟨⟨trivial, fun w2 hw => ?_⟩, fun e he => absurd he (hr.wr e)⟩
  obtain rfl : w2 = w1.store b (src w1.mem) := hw
  exact hok

end

/-- A proof about a thread alone, turned into a run. -/
theorem fine_run {X : Type} {s : SfsMachine} {p : SfsProg X} {Q : X → SfsWorld Unit → Prop}
    (hs : s.script = Script.good) (h : wp (soloCtx noFaults) p Q (s.world ())) :
    ∃ x s', p.run s = (.done x, s') ∧ s'.script = Script.good ∧ Q x (s'.world ()) := by
  obtain ⟨x, s', hr, hq⟩ := wp_run_done (fun _ => rfl) (hs ▸ Ctx.admits_good _) (fun _ => id) h
  have hg := run_script_good hs p
  rw [hr] at hg
  exact ⟨x, s', hr, hg, hq⟩

end Os161.Sfs
