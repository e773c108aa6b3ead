import Os161.Proofs.Table
import Os161.Sfs.Volume

/-!
# The moves that keep a volume sound

Every routine of the file system changes memory and disk in a few ways only: a
block is marked, cleared, given to a file, overwritten, freed; an inode is
changed in memory, loaded, written back, dropped. For each of these moves there
is one lemma here that says that the volume stays sound and what happens to the
views of the files. The routines are then put together from the moves without
looking at the ledger again.
-/

namespace Os161.Sfs

open Os161.Kern Os161.Lib Function

variable {live leak : Set UInt32} {m : SfsFs} {d : Disk} {f g b : UInt32}

/-! ## Owners -/

theorem FileView.blk_self (v : FileView) :
    v.blk f .self = if f = sfsRootLocation then 0 else f := rfl

theorem FileView.blk_ind (v : FileView) : v.blk f .ind = v.inode.sfiIndirect := rfl

theorem FileView.blk_data (v : FileView) (fb : Nat) : v.blk f (.data fb) = v.ptr fb := rfl

variable {v v' : UInt32 → FileView} {r : Role} {i j : Nat} {m1 m2 m' : SfsFs}

theorem owner_eq_some : owner live v (f, r) = some b ↔ f ∈ live ∧ (v f).blk f r = b ∧ b ≠ 0 := by
  unfold owner
  split
  · next h =>
    rw [Option.some.injEq]
    exact ⟨fun he => ⟨h.1, he, he ▸ h.2⟩, fun he => he.2.1⟩
  · next h =>
    simp only [reduceCtorEq, false_iff]
    rintro ⟨hl, rfl, h0⟩
    exact h ⟨hl, h0⟩

theorem owner_eq_none (h : (v f).blk f r = 0) : owner live v (f, r) = none := by
  rw [Option.eq_none_iff_forall_not_mem]
  intro x hx
  obtain ⟨-, rfl, h0⟩ := owner_eq_some.1 hx
  exact h0 h

/-- Only the blocks matter. -/
theorem owner_congr (h : ∀ f ∈ live, ∀ r, (v' f).blk f r = (v f).blk f r) :
    owner live v' = owner live v := by
  funext ⟨f, r⟩
  apply Option.ext
  intro x
  rw [owner_eq_some, owner_eq_some]
  exact ⟨fun ⟨hf, hb, h0⟩ => ⟨hf, (h f hf r).symm.trans hb, h0⟩,
    fun ⟨hf, hb, h0⟩ => ⟨hf, (h f hf r).trans hb, h0⟩⟩

/-- One block of one file changes hands. -/
theorem owner_update (hf : f ∈ live) (hb : (v' f).blk f r = b)
    (h : ∀ g ∈ live, ∀ s, (g, s) ≠ (f, r) → (v' g).blk g s = (v g).blk g s) :
    owner live v' = update (owner live v) (f, r) (if b = 0 then none else some b) := by
  funext ⟨g, s⟩
  apply Option.ext
  intro x
  rw [owner_eq_some, Ledger.own_update, owner_eq_some]
  constructor
  · rintro ⟨hg, hx, h0⟩
    by_cases he : (g, s) = (f, r)
    · obtain ⟨rfl, rfl⟩ := Prod.mk.inj he
      rw [hb] at hx
      exact .inl ⟨rfl, by rw [if_neg (hx ▸ h0), hx]⟩
    · exact .inr ⟨he, hg, (h g hg s he).symm.trans hx, h0⟩
  · rintro (⟨he, hx⟩ | ⟨he, hg, hx, h0⟩)
    · obtain ⟨rfl, rfl⟩ := Prod.mk.inj he
      split at hx
      · cases hx
      · next h0 =>
        obtain rfl := Option.some.inj hx
        exact ⟨hf, hb, h0⟩
    · exact ⟨hg, (h g hg s he).trans hx, h0⟩

theorem own_ind (hf : f ∈ live) (h0 : (inodeOf m d f).sfiIndirect ≠ 0) :
    owner live (view m d) (f, .ind) = some (inodeOf m d f).sfiIndirect :=
  owner_eq_some.2 ⟨hf, rfl, h0⟩

variable {fb : Nat}

theorem own_data (hf : f ∈ live) (h0 : (view m d f).ptr fb ≠ 0) :
    owner live (view m d) (f, .data fb) = some ((view m d f).ptr fb) :=
  owner_eq_some.2 ⟨hf, rfl, h0⟩

theorem Sound.own_self (h : Sound live leak m d) (hf : f ∈ live)
    (h1 : f ≠ sfsRootLocation) : owner live (view m d) (f, .self) = some f :=
  owner_eq_some.2 ⟨hf, if_neg h1, fun h0 => h.nonzero (h0 ▸ hf)⟩

/-! ## Ranges -/

theorem lt_of_used (hg : Geom m) (hu : Used m b) : b.toNat < m.sfsFreemap.nbits := by
  by_contra hge
  have hw := m.sfsFreemap.words
  have hn := hg.nbits
  rw [Used, Bitmap.isset_eq_testBit, Bitmap.word, List.getD_eq_default _ _ (by omega)] at hu
  simp at hu

/-- A block that is in use and not reserved lies in the volume. -/
structure InVolume (m : SfsFs) (b : UInt32) : Prop where
  first : firstBlock m ≤ b.toNat
  last : b.toNat < nblocks m

theorem inVolume_of_used (hg : Geom m) (hu : Used m b) (hr : ¬ Reserved m b) : InVolume m b := by
  have hlt := lt_of_used hg hu
  refine ⟨?_, ?_⟩ <;> by_contra hc <;> apply hr
  · exact .inl (by omega)
  · exact .inr ⟨by omega, hlt⟩

theorem InVolume.ne_zero (h : InVolume m b) : b ≠ 0 := by
  rintro rfl
  have := h.first
  simp [firstBlock] at this

theorem InVolume.ne_root (h : InVolume m b) : b ≠ sfsRootLocation := by
  rintro rfl
  have h1 := h.first
  have h2 : sfsRootLocation.toNat = 1 := rfl
  rw [h2, firstBlock] at h1
  omega

namespace Sound

section
variable (h : Sound live leak m d)
include h

theorem inVolume_own {k : UInt32 × Role} (hk : owner live (view m d) k = some b) : InVolume m b :=
  inVolume_of_used h.geom (h.ledger.used_of_own hk) (h.ledger.owned hk).1

theorem inVolume_leak (hb : b ∈ leak) : InVolume m b :=
  inVolume_of_used h.geom (h.ledger.used_of_leak hb) (h.ledger.spare hb)

theorem used_live (hf : f ∈ live) : Used m f := by
  by_cases h1 : f = sfsRootLocation
  · subst h1
    refine h.ledger.used_of_fixed (.inl ?_)
    show 1 < firstBlock m
    rw [firstBlock]
    omega
  · exact h.ledger.used_of_own (h.own_self hf h1)

theorem live_lt (hf : f ∈ live) : f.toNat < nblocks m := by
  by_cases h1 : f = sfsRootLocation
  · subst h1
    have := h.geom.room
    rw [firstBlock] at this
    show 1 < nblocks m
    omega
  · exact (h.inVolume_own (h.own_self hf h1)).last

end

end Sound

/-! ## Views under a store -/

section Store
variable {x : Block} {i : SfsInode}

theorem inodeOf_store (h : m.sfsVnodes.get? f = none → f ≠ b) :
    inodeOf m (update d b x) f = inodeOf m d f := by
  unfold inodeOf
  cases hg : m.sfsVnodes.get? f with
  | some sv => rfl
  | none => simp only [update_of_ne (h hg)]

theorem ptrOf_store (h : i.sfiIndirect ≠ b) : ptrOf i (update d b x) = ptrOf i d := by
  funext fb
  unfold ptrOf
  rw [update_of_ne h]

theorem byteOf_store (h : i.sfiIndirect ≠ b) (p : Nat) : byteOf i (update d b x) p =
      if ptrOf i d (p / 512) = b ∧ b ≠ 0 then x.byte (p % 512) else byteOf i d p := by
  unfold byteOf
  rw [ptrOf_store h]
  by_cases hp : ptrOf i d (p / 512) = b
  · rw [hp, update_self]
    by_cases h0 : b = 0
    · rw [if_pos h0, if_neg (fun hn => hn.2 h0), if_pos h0]
    · rw [if_neg h0, if_pos ⟨rfl, h0⟩]
  · rw [update_of_ne hp, if_neg (fun hn : _ ∧ _ => hp hn.1)]

theorem fileView_store (h : i.sfiIndirect ≠ b) (hp : ∀ fb, ptrOf i d fb ≠ b) :
    fileView i (update d b x) = fileView i d := by
  have hb : byteOf i (update d b x) = byteOf i d := by
    funext p
    rw [byteOf_store h, if_neg (fun hn => hp _ hn.1)]
  rw [fileView, fileView, ptrOf_store h, hb]

end Store

/-! ## Marking -/

theorem toNat_ofNat_lt (hg : Geom m) (hi : i < m.sfsFreemap.nbits) :
    (UInt32.ofNat i).toNat = i := by
  have h1 := hg.nbits
  have h2 := hg.addr
  rw [UInt32.toNat_ofNat', Nat.mod_eq_of_lt]
  rw [h1, bitblocks] at hi
  omega

theorem eq_ofNat_iff (hg : Geom m) (hi : i < m.sfsFreemap.nbits) :
    b = UInt32.ofNat i ↔ b.toNat = i := by
  rw [← UInt32.toNat_inj, toNat_ofNat_lt hg hi]

/-- Bit `i` of the free map is changed to `x`. -/
structure MapFlip (m m' : SfsFs) (i : Nat) (x : Bool) : Prop where
  flip : Bitmap.Flip m.sfsFreemap m'.sfsFreemap i x
  dirty : m'.sfsFreemapdirty = true
  super : m'.sfsSuper = m.sfsSuper
  superdirty : m'.sfsSuperdirty = m.sfsSuperdirty
  vnodes : m'.sfsVnodes = m.sfsVnodes
  dBlocks : m'.dBlocks = m.dBlocks

namespace MapFlip

variable {m' : SfsFs} {i : Nat} {x : Bool} (hc : MapFlip m m' i x)
include hc

theorem nblocks_eq : nblocks m' = nblocks m := by rw [nblocks, nblocks, hc.super]

theorem firstBlock_eq : firstBlock m' = firstBlock m := by
  rw [firstBlock, firstBlock, hc.nblocks_eq]

theorem geom (hg : Geom m) : Geom m' where
  room := by rw [hc.firstBlock_eq, hc.nblocks_eq]; exact hg.room
  dev := by rw [hc.nblocks_eq, hc.dBlocks]; exact hg.dev
  addr := by rw [hc.nblocks_eq]; exact hg.addr
  nbits := by rw [hc.nblocks_eq, hc.flip.nbits]; exact hg.nbits

theorem reserved_iff : Reserved m' b ↔ Reserved m b := by
  rw [Reserved, Reserved, hc.firstBlock_eq, hc.nblocks_eq, hc.flip.nbits]

theorem used_iff : Used m' b ↔ if b.toNat = i then x = true else Used m b := by
  rw [Used, Used, hc.flip.isset]
  split <;> rfl

theorem inodeOf_eq : inodeOf m' d f = inodeOf m d f := by
  rw [inodeOf, inodeOf, hc.vnodes]

theorem view_eq : view m' d = view m d := by
  funext f
  rw [view, view, hc.inodeOf_eq]

theorem synced (hs : Synced m d) : Synced m' d where
  inode hg := by rw [hc.vnodes] at hg; exact hs.inode hg
  map hd := by rw [hc.dirty] at hd; cases hd
  superClean := by rw [hc.superdirty]; exact hs.superClean
  super := by rw [hc.super]; exact hs.super

/-- The rest of the invariant does not depend on the map. -/
theorem sound {leak' : Set UInt32} (h : Sound live leak m d)
    (hl : Ledger (owner live (view m d)) (Used m') (Reserved m) leak') :
    Sound live leak' m' d where
  geom := hc.geom h.geom
  root := h.root
  nonzero := h.nonzero
  table := by rw [hc.vnodes]; exact h.table
  kind hf := by rw [hc.inodeOf_eq]; exact h.kind hf
  ledger := by
    rw [hc.view_eq]
    exact hl.congr (fun _ => .rfl) fun _ => hc.reserved_iff
  synced := hc.synced h.synced

end MapFlip

/-- Only the static buffers differ. -/
structure BufOnly (m m' : SfsFs) : Prop where
  super : m'.sfsSuper = m.sfsSuper
  superdirty : m'.sfsSuperdirty = m.sfsSuperdirty
  vnodes : m'.sfsVnodes = m.sfsVnodes
  freemap : m'.sfsFreemap = m.sfsFreemap
  freemapdirty : m'.sfsFreemapdirty = m.sfsFreemapdirty
  dBlocks : m'.dBlocks = m.dBlocks

theorem BufOnly.refl (m : SfsFs) : BufOnly m m := ⟨rfl, rfl, rfl, rfl, rfl, rfl⟩

theorem BufOnly.symm (h : BufOnly m1 m2) : BufOnly m2 m1 :=
  ⟨h.super.symm, h.superdirty.symm, h.vnodes.symm, h.freemap.symm, h.freemapdirty.symm,
    h.dBlocks.symm⟩

theorem BufOnly.trans {m3 : SfsFs} (h : BufOnly m1 m2) (h' : BufOnly m2 m3) : BufOnly m1 m3 :=
  ⟨h'.super.trans h.super, h'.superdirty.trans h.superdirty, h'.vnodes.trans h.vnodes,
    h'.freemap.trans h.freemap, h'.freemapdirty.trans h.freemapdirty,
    h'.dBlocks.trans h.dBlocks⟩

theorem Sound.bufOnly (h : Sound live leak m d) (hb : BufOnly m m') : Sound live leak m' d := by
  have hn : nblocks m' = nblocks m := by rw [nblocks, nblocks, hb.super]
  have hf : firstBlock m' = firstBlock m := by rw [firstBlock, firstBlock, hn]
  have hi : ∀ f, inodeOf m' d f = inodeOf m d f := fun f => by
    rw [inodeOf, inodeOf, hb.vnodes]
  have hv : view m' d = view m d := funext fun f => by rw [view, view, hi]
  refine ⟨⟨?_, ?_, ?_, ?_⟩, h.root, h.nonzero, ?_, fun hf => ?_, ?_, ⟨?_, ?_, ?_, ?_⟩⟩
  · rw [hf, hn]; exact h.geom.room
  · rw [hn, hb.dBlocks]; exact h.geom.dev
  · rw [hn]; exact h.geom.addr
  · rw [hn, hb.freemap]; exact h.geom.nbits
  · rw [hb.vnodes]; exact h.table
  · rw [hi]; exact h.kind hf
  · rw [hv]
    refine h.ledger.congr (fun b => ?_) fun b => ?_
    · rw [Used, Used, hb.freemap]
    · rw [Reserved, Reserved, hf, hn, hb.freemap]
  · intro f sv hg
    rw [hb.vnodes] at hg
    exact h.synced.inode hg
  · rw [hb.freemapdirty, hb.freemap, hn]; exact h.synced.map
  · rw [hb.superdirty]; exact h.synced.superClean
  · rw [hb.super]; exact h.synced.super

/-- A free block is marked; nobody owns it yet. -/
theorem Sound.mark (h : Sound live leak m d) (hi : i < m.sfsFreemap.nbits)
    (hfree : m.sfsFreemap.isset i = false) (hc : MapFlip m m' i true) :
    Sound live (insert (UInt32.ofNat i) leak) m' d := by
  have hu : ¬ Used m (UInt32.ofNat i) := by
    rw [Used, toNat_ofNat_lt h.geom hi, hfree]
    decide
  refine hc.sound h ((h.ledger.take hu).congr (fun b => ?_) fun _ => .rfl)
  rw [hc.used_iff, eq_ofNat_iff h.geom hi]
  split
  · next hb => simp [hb]
  · next hb => simp [hb]

/-- A marked block without an owner is given back. -/
theorem Sound.unmarkSpare (h : Sound live leak m d) (hb : b ∈ leak)
    (hc : MapFlip m m' b.toNat false) : Sound live (leak \ {b}) m' d := by
  refine hc.sound h ((h.ledger.giveBack hb).congr (fun x => ?_) fun _ => .rfl)
  rw [hc.used_iff]
  split
  · next hx => simp [UInt32.toNat_inj.1 hx]
  · next hx =>
    have hne : x ≠ b := fun he => hx (congrArg UInt32.toNat he)
    simp [hne]

/-! ## Writing blocks -/

theorem toNat_mapBlock (hg : Geom m) (hj : j < bitblocks (nblocks m)) :
    (sfsMapLocation + UInt32.ofNat j).toNat = 2 + j := by
  have h1 := hg.addr
  rw [UInt32.toNat_add, UInt32.toNat_ofNat']
  show (2 + j % 2 ^ 32) % 2 ^ 32 = 2 + j
  rw [bitblocks] at hj
  omega

theorem InVolume.ne_map (h : InVolume m b) (hg : Geom m) (hj : j < bitblocks (nblocks m)) :
    sfsMapLocation + UInt32.ofNat j ≠ b := by
  rintro rfl
  have := h.first
  rw [toNat_mapBlock hg hj, firstBlock] at this
  omega

section Write
variable {x : Block}

section
variable (h : Sound live leak m d)
include h

/-- A write to a block of the volume that is nobody's inode. -/
theorem Sound.storeWith {leak' : Set UInt32} (hb : InVolume m b)
    (hs : ∀ f ∈ live, f ≠ b)
    (hl : Ledger (owner live (view m (update d b x))) (Used m) (Reserved m) leak') :
    Sound live leak' m (update d b x) where
  geom := h.geom
  root := h.root
  nonzero := h.nonzero
  table := h.table
  kind hf := by
    rw [inodeOf_store fun _ => hs _ hf]
    exact h.kind hf
  ledger := hl
  synced :=
    { inode := fun hg hd => by
        rw [update_of_ne (hs _ (h.table.live hg))]
        exact h.synced.inode hg hd
      map := fun hd j hj => by
        rw [update_of_ne (hb.ne_map h.geom hj)]
        exact h.synced.map hd j hj
      superClean := h.synced.superClean
      super := by
        rw [update_of_ne (a := sfsSbLocation) (Ne.symm hb.ne_zero)]
        exact h.synced.super }

/-- The same, if it leaves every file its blocks. -/
theorem Sound.store (hb : InVolume m b) (hs : ∀ f ∈ live, f ≠ b) (hblk : ∀ f ∈ live, ∀ r,
      (view m (update d b x) f).blk f r = (view m d f).blk f r) :
    Sound live leak m (update d b x) := by
  refine h.storeWith hb hs ?_
  rw [owner_congr hblk]
  exact h.ledger

theorem Sound.ne_of_unowned (hb : InVolume m b)
    (hu : ∀ k, owner live (view m d) k ≠ some b) (hf : f ∈ live) : f ≠ b := by
  rintro rfl
  exact hu _ (h.own_self hf hb.ne_root)

theorem view_store_unowned (hb : InVolume m b) (hu : ∀ k, owner live (view m d) k ≠ some b)
    (hf : f ∈ live) : view m (update d b x) f = view m d f := by
  rw [view, inodeOf_store fun _ => h.ne_of_unowned hb hu hf, view]
  refine fileView_store (fun he => ?_) fun fb he => ?_
  · exact hu (f, .ind) (owner_eq_some.2 ⟨hf, he, hb.ne_zero⟩)
  · exact hu (f, .data fb) (owner_eq_some.2 ⟨hf, he, hb.ne_zero⟩)

theorem unowned_of_leak (hb : b ∈ leak) (k : UInt32 × Role) : owner live (view m d) k ≠ some b :=
  fun hk => (h.ledger.owned hk).2 hb

/-- A block without an owner may be overwritten. -/
theorem Sound.storeSpare (hb : b ∈ leak) : Sound live leak m (update d b x) := by
  have hv := h.inVolume_leak hb
  refine h.store hv (fun f hf => h.ne_of_unowned hv (unowned_of_leak h hb) hf) ?_
  intro f hf r
  rw [view_store_unowned h hv (unowned_of_leak h hb) hf]

end

/-- The view of a file one of whose data blocks is overwritten. -/
def FileView.withBlock (v : FileView) (fb : Nat) (x : Block) : FileView :=
  { v with byte := fun p => if p / 512 = fb then x.byte (p % 512) else v.byte p }

section Owned
variable {r : Role} (h : Sound live leak m d) (hk : owner live (view m d) (f, r) = some b)
include h hk

/-- An owned block is the inode of nobody else. -/
theorem ne_of_owned (hg : g ∈ live) (hr : r ≠ .self) : g ≠ b := by
  rintro rfl
  have := h.ledger.inj (h.own_self hg (h.inVolume_own hk).ne_root) hk
  cases this
  exact hr rfl

theorem indirect_ne_of_owned (hg : g ∈ live) (hr : (g, Role.ind) ≠ (f, r)) :
    (inodeOf m d g).sfiIndirect ≠ b := by
  intro he
  exact hr (h.ledger.inj (own_ind hg (he ▸ (h.inVolume_own hk).ne_zero)) (he ▸ hk))

theorem ptr_ne_of_owned (hg : g ∈ live) (hr : (g, Role.data fb) ≠ (f, r)) :
    (view m d g).ptr fb ≠ b := by
  intro he
  exact hr (h.ledger.inj (own_data hg (he ▸ (h.inVolume_own hk).ne_zero)) (he ▸ hk))

/-- A write to a block of `f` is not seen through other files. -/
theorem view_store_other (hg : g ∈ live) (hne : g ≠ f) (hr : r ≠ .self) :
    view m (update d b x) g = view m d g := by
  have hpair : ∀ s, (g, s) ≠ (f, r) := fun s he => hne (congrArg Prod.fst he)
  rw [view, inodeOf_store fun _ => ne_of_owned h hk hg hr, view]
  exact fileView_store (indirect_ne_of_owned h hk hg (hpair _)) fun fb =>
    ptr_ne_of_owned h hk hg (hpair _)

end Owned

/-- The writer of a data block sees the new data. -/
theorem view_storeData (h : Sound live leak m d) (hf : f ∈ live) (h0 : (view m d f).ptr fb ≠ 0) :
    view m (update d ((view m d f).ptr fb) x) f = (view m d f).withBlock fb x := by
  have hk := own_data hf h0
  have hind := indirect_ne_of_owned h hk hf (by simp)
  rw [view, inodeOf_store fun _ => ne_of_owned h hk hf (by simp), fileView, ptrOf_store hind]
  refine FileView.ext rfl rfl (funext fun p => ?_)
  show byteOf _ _ _ = if _ then _ else _
  rw [byteOf_store hind]
  by_cases hp : p / 512 = fb
  · rw [if_pos ⟨by rw [hp]; rfl, h0⟩, if_pos hp]
  · rw [if_neg hp, if_neg fun hn => ptr_ne_of_owned h hk hf (by simpa using hp) hn.1]
    rfl

/-- A data block is overwritten. -/
theorem Sound.storeData (h : Sound live leak m d) (hf : f ∈ live)
    (h0 : (view m d f).ptr fb ≠ 0) : Sound live leak m (update d ((view m d f).ptr fb) x) := by
  have hk := own_data hf h0
  refine h.store (h.inVolume_own hk) (fun g hg => ne_of_owned h hk hg (by simp))
    fun g hg r => ?_
  by_cases hgf : g = f
  · subst hgf
    rw [view_storeData h hg h0]
    cases r <;> rfl
  · rw [view_store_other h hk hg hgf (by simp)]

end Write

/-! ## Changing a loaded vnode -/

section Vnode
variable {sv : SfsVnode} {u : SfsVnode → SfsVnode}

theorem inodeOf_of_get? (hl : m.sfsVnodes.get? f = some sv) : inodeOf m d f = sv.svI := by
  rw [inodeOf, hl]

theorem view_of_get? (hl : m.sfsVnodes.get? f = some sv) : view m d f = fileView sv.svI d := by
  rw [view, inodeOf_of_get? hl]

theorem view_size (hl : m.sfsVnodes.get? f = some sv) :
    (view m d f).inode.sfiSize = sv.svI.sfiSize := by
  rw [view_of_get? hl]
  rfl

theorem inodeOf_withVnode (hu : ∀ sv, (u sv).svIno = sv.svIno) (hl : m.sfsVnodes.get? f = some sv) :
    inodeOf (m.withVnode f u) d g = if g = f then (u sv).svI else inodeOf m d g := by
  rw [inodeOf, SfsFs.withVnode, VnodeArray.get?_update hu, hl]
  by_cases hg : g = f
  · rw [if_pos hg, if_pos hg]
    rfl
  · rw [if_neg hg, if_neg hg, inodeOf]

theorem view_withVnode (hu : ∀ sv, (u sv).svIno = sv.svIno) (hl : m.sfsVnodes.get? f = some sv) :
    view (m.withVnode f u) d g = if g = f then fileView (u sv).svI d else view m d g := by
  rw [view, inodeOf_withVnode hu hl]
  split <;> rfl

/-- What a change of a vnode may not touch. -/
structure VnodeStep (m : SfsFs) (d : Disk) (f : UInt32) (sv : SfsVnode)
    (u : SfsVnode → SfsVnode) : Prop where
  loaded : m.sfsVnodes.get? f = some sv
  ino : ∀ sv, (u sv).svIno = sv.svIno
  ops : (u sv).vnOps = sv.vnOps
  ref : 1 ≤ (u sv).vnRefcount
  opens : (u sv).vnOpencount ≤ (u sv).vnRefcount
  type : (u sv).svI.sfiType = sv.svI.sfiType
  sync : (u sv).svDirty = false → d f = (u sv).svI.toBlock

namespace VnodeStep

variable (hs : VnodeStep m d f sv u)
include hs

theorem get?_eq : (m.withVnode f u).sfsVnodes.get? g =
    if g = f then some (u sv) else m.sfsVnodes.get? g := by
  rw [SfsFs.withVnode, VnodeArray.get?_update hs.ino, hs.loaded]
  rfl

/-- A property of the entries of the table, checked where it changes. -/
theorem forall_get? {P : UInt32 → SfsVnode → Prop} (hf : P f (u sv))
    (h : ∀ {g sv}, m.sfsVnodes.get? g = some sv → P g sv) {g : UInt32} {sv' : SfsVnode}
    (hg : (m.withVnode f u).sfsVnodes.get? g = some sv') : P g sv' := by
  rw [hs.get?_eq] at hg
  split at hg
  · next he =>
    subst he
    obtain rfl := Option.some.inj hg
    exact hf
  · exact h hg

theorem sound {leak' : Set UInt32} (h : Sound live leak m d)
    (hl : Ledger (owner live (view (m.withVnode f u) d)) (Used m) (Reserved m) leak') :
    Sound live leak' (m.withVnode f u) d where
  geom := ⟨h.geom.room, h.geom.dev, h.geom.addr, h.geom.nbits⟩
  root := h.root
  nonzero := h.nonzero
  table :=
    { nodup := by
        rw [SfsFs.withVnode, VnodeArray.inos_update hs.ino]
        exact h.table.nodup
      live := @fun _ _ hg => hs.forall_get? (P := fun g _ => g ∈ live)
        (h.table.live hs.loaded) h.table.live hg
      ref := @fun _ _ hg => hs.forall_get? (P := fun _ sv => 1 ≤ sv.vnRefcount)
        hs.ref h.table.ref hg
      opens := @fun _ _ hg => hs.forall_get?
        (P := fun _ sv => sv.vnOpencount ≤ sv.vnRefcount) hs.opens h.table.opens hg
      ops := @fun _ _ hg => hs.forall_get? (P := fun g sv => sv.vnOps = opsOf g)
        (hs.ops.trans (h.table.ops hs.loaded)) h.table.ops hg }
  kind {g} hg := by
    rw [inodeOf_withVnode hs.ino hs.loaded]
    split
    · next he =>
      subst he
      rw [hs.type, ← inodeOf_of_get? hs.loaded]
      exact h.kind hg
    · exact h.kind hg
  ledger := hl
  synced :=
    { inode := @fun _ _ hg => hs.forall_get?
        (P := fun g sv => sv.svDirty = false → d g = sv.svI.toBlock) hs.sync
        h.synced.inode hg
      map := h.synced.map
      superClean := h.synced.superClean
      super := h.synced.super }

end VnodeStep

/-! ### Changes that leave the blocks alone -/

variable {i i' : SfsInode} {k : Fin 15} {c : SfsInode → SfsInode}

theorem ptrOf_congr (hd : i'.sfiDirect = i.sfiDirect) (hi : i'.sfiIndirect = i.sfiIndirect) :
    ptrOf i' d = ptrOf i d := by
  funext fb
  unfold ptrOf
  rw [hd, hi]

theorem fileView_congr (hd : i'.sfiDirect = i.sfiDirect) (hi : i'.sfiIndirect = i.sfiIndirect) :
    fileView i' d = { fileView i d with inode := i' } := by
  have hp := ptrOf_congr (d := d) hd hi
  refine FileView.ext rfl hp (funext fun p => ?_)
  show byteOf i' d p = byteOf i d p
  rw [byteOf, byteOf, hp]

/-- Counts, size and flags of a vnode change. -/
theorem Sound.keepBlocks (h : Sound live leak m d) (hs : VnodeStep m d f sv u)
    (hd : (u sv).svI.sfiDirect = sv.svI.sfiDirect)
    (hi : (u sv).svI.sfiIndirect = sv.svI.sfiIndirect) : Sound live leak (m.withVnode f u) d := by
  refine hs.sound h ?_
  rw [owner_congr (v := view m d) fun g _ r => ?_]
  · exact h.ledger
  · rw [view_withVnode hs.ino hs.loaded]
    split
    · next he =>
      subst he
      rw [fileView_congr hd hi, view_of_get? hs.loaded]
      cases r
      · rfl
      · exact hi
      · rfl
    · rfl

/-! ### Changes of one block pointer -/

theorem ptrOf_direct : ptrOf (i.setDirect k b) d fb = if fb = k then b else ptrOf i d fb := by
  unfold ptrOf
  by_cases hfb : fb < 15
  · rw [dif_pos hfb, dif_pos hfb, SfsInode.setDirect]
    simp only [update_apply, Fin.ext_iff]
  · have := k.isLt
    rw [dif_neg hfb, dif_neg hfb, if_neg (show fb ≠ k by omega)]
    rfl

theorem view_withInode (hl : m.sfsVnodes.get? f = some sv) :
    view (m.withVnode f (SfsVnode.withInode c)) d g =
      if g = f then fileView (c sv.svI) d else view m d g :=
  view_withVnode (fun _ => rfl) hl

section
variable (h : Sound live leak m d) (hl : m.sfsVnodes.get? f = some sv)
include h hl

/-- The owners after block `r` of `f` has become `b`. -/
theorem owner_withInode {r : Role} (hb : (fileView (c sv.svI) d).blk f r = b)
    (hrest : ∀ s, s ≠ r → (fileView (c sv.svI) d).blk f s = (fileView sv.svI d).blk f s) :
    owner live (view (m.withVnode f (SfsVnode.withInode c)) d) =
      update (owner live (view m d)) (f, r) (if b = 0 then none else some b) := by
  refine owner_update (h.table.live hl) ?_ fun g _ s hne => ?_
  · rw [view_withInode hl, if_pos rfl]
    exact hb
  · rw [view_withInode hl]
    split
    · next he =>
      subst he
      rw [view_of_get? hl]
      exact hrest s fun hs => hne (by rw [hs])
    · rfl

theorem owner_direct :
    owner live (view (m.withVnode f (SfsVnode.withInode (SfsInode.setDirect k b))) d) =
    update (owner live (view m d)) (f, .data k) (if b = 0 then none else some b) := by
  refine owner_withInode h hl (ptrOf_direct.trans (if_pos rfl)) fun r hne => ?_
  cases r with
  | self => rfl
  | ind => rfl
  | data fb => exact ptrOf_direct.trans (if_neg fun hfb => hne (by rw [hfb]))

theorem Sound.own_direct (h0 : sv.svI.sfiDirect k ≠ 0) :
    owner live (view m d) (f, .data k) = some (sv.svI.sfiDirect k) := by
  refine owner_eq_some.2 ⟨h.table.live hl, ?_, h0⟩
  rw [view_of_get? hl]
  show ptrOf sv.svI d k = _
  rw [ptrOf, dif_pos k.isLt]

theorem Sound.own_indirect (h0 : sv.svI.sfiIndirect ≠ 0) :
    owner live (view m d) (f, .ind) = some sv.svI.sfiIndirect := by
  refine owner_eq_some.2 ⟨h.table.live hl, ?_, h0⟩
  rw [view_of_get? hl]
  rfl

theorem VnodeStep.withInode
    (hc : (c sv.svI).sfiType = sv.svI.sfiType) : VnodeStep m d f sv (SfsVnode.withInode c) where
  loaded := hl
  ino _ := rfl
  ops := rfl
  ref := @h.table.ref f sv hl
  opens := @h.table.opens f sv hl
  type := hc
  sync hd := by cases hd

/-- A hole among the direct blocks is filled. -/
theorem Sound.adoptDirect (h0 : sv.svI.sfiDirect k = 0) (hb : b ∈ leak) :
    Sound live (leak \ {b}) (m.withVnode f (SfsVnode.withInode (SfsInode.setDirect k b))) d := by
  refine (VnodeStep.withInode h hl rfl).sound h ?_
  rw [owner_direct h hl, if_neg (h.inVolume_leak hb).ne_zero]
  refine h.ledger.adopt hb (owner_eq_none ?_)
  rw [view_of_get? hl]
  show ptrOf sv.svI d k = 0
  rw [ptrOf, dif_pos k.isLt]
  exact h0

/-- A direct block is taken away. -/
theorem Sound.abandonDirect (h0 : sv.svI.sfiDirect k ≠ 0) :
    Sound live (insert (sv.svI.sfiDirect k) leak)
      (m.withVnode f (SfsVnode.withInode (SfsInode.setDirect k 0))) d := by
  refine (VnodeStep.withInode h hl rfl).sound h ?_
  rw [owner_direct h hl, if_pos rfl]
  exact h.ledger.abandon (h.own_direct hl h0)

end

/-- An indirect block without entries changes nothing but its own owner. -/
theorem ptrOf_indirect {a : UInt32}
    (ha : ∀ j < 128, i.sfiIndirect ≠ 0 → (d i.sfiIndirect).word j = 0)
    (hb : ∀ j < 128, a ≠ 0 → (d a).word j = 0) : ptrOf (i.setIndirect a) d = ptrOf i d := by
  funext fb
  unfold ptrOf
  split
  · rfl
  · have h1 : (if fb < 143 ∧ a ≠ 0 then (d a).word (fb - 15) else 0) = 0 := by
      split
      · next h => exact hb _ (by omega) h.2
      · rfl
    have h2 : (if fb < 143 ∧ i.sfiIndirect ≠ 0 then (d i.sfiIndirect).word (fb - 15)
        else 0) = 0 := by
      split
      · next h => exact ha _ (by omega) h.2
      · rfl
    exact h1.trans h2.symm

section
variable (h : Sound live leak m d) (hl : m.sfsVnodes.get? f = some sv)
include h hl

theorem owner_indirect (ha : ∀ j < 128, sv.svI.sfiIndirect ≠ 0 → (d sv.svI.sfiIndirect).word j = 0)
    (hb : ∀ j < 128, b ≠ 0 → (d b).word j = 0) :
    owner live (view (m.withVnode f (SfsVnode.withInode (SfsInode.setIndirect b))) d) =
    update (owner live (view m d)) (f, .ind) (if b = 0 then none else some b) := by
  refine owner_withInode h hl rfl fun r hne => ?_
  cases r with
  | self => rfl
  | ind => exact absurd rfl hne
  | data fb => exact congrFun (ptrOf_indirect ha hb) fb

/-- A file gets an indirect block, which is still empty. -/
theorem Sound.adoptIndirect (h0 : sv.svI.sfiIndirect = 0) (hb : b ∈ leak) (hz : d b = Block.zero) :
    Sound live (leak \ {b}) (m.withVnode f (SfsVnode.withInode (SfsInode.setIndirect b))) d := by
  refine (VnodeStep.withInode h hl rfl).sound h ?_
  rw [owner_indirect h hl (fun _ _ hn => absurd h0 hn)
    (fun _ _ _ => by rw [hz, Block.word_zero]), if_neg (h.inVolume_leak hb).ne_zero]
  refine h.ledger.adopt hb (owner_eq_none ?_)
  rw [view_of_get? hl]
  exact h0

/-- A file loses its indirect block, which has become empty. -/
theorem Sound.abandonIndirect (h0 : sv.svI.sfiIndirect ≠ 0)
    (hz : ∀ j < 128, (d sv.svI.sfiIndirect).word j = 0) :
    Sound live (insert sv.svI.sfiIndirect leak)
      (m.withVnode f (SfsVnode.withInode (SfsInode.setIndirect 0))) d := by
  refine (VnodeStep.withInode h hl rfl).sound h ?_
  rw [owner_indirect h hl (fun j hj _ => hz j hj) (fun _ _ hn => absurd rfl hn), if_pos rfl]
  exact h.ledger.abandon (h.own_indirect hl h0)

end

end Vnode

end Os161.Sfs
