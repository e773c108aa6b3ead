import Os161.Proofs.Volume

/-!
# Moves on indirect blocks and on the table of vnodes

The second half of the moves. An entry of an indirect block lives on disk, so
giving a block to a file through it is a write; loading and dropping a vnode
moves the inode between disk and memory without anybody seeing a difference.
-/

namespace Os161.Sfs

open Os161.Kern Os161.Lib Function

variable {live leak : Set UInt32} {m : SfsFs} {d : Disk} {f g b : UInt32}
  {sv : SfsVnode} {x : Block}

/-! ## Entries of the indirect block -/

variable {i : SfsInode} {live' : Set UInt32} {v v' : UInt32 → FileView} {r : Role}

theorem ptrOf_storeInd (h0 : i.sfiIndirect ≠ 0) (fb : Nat) : ptrOf i (update d i.sfiIndirect x) fb =
      if h : fb < 15 then i.sfiDirect ⟨fb, h⟩ else if fb < 143 then x.word (fb - 15) else 0 := by
  unfold ptrOf
  rw [update_self]
  simp only [ne_eq, h0, not_false_eq_true, and_true]

/-- `x` is the indirect block of `i` with another entry `j`. -/
structure EntryChange (i : SfsInode) (d : Disk) (j : Nat) (x : Block) : Prop where
  ind : i.sfiIndirect ≠ 0
  lt : j < 128
  rest : ∀ k < 128, k ≠ j → x.word k = (d i.sfiIndirect).word k

theorem ptrOf_entry {j : Nat} (hc : EntryChange i d j x) (fb : Nat) :
    ptrOf i (update d i.sfiIndirect x) fb = if fb = 15 + j then x.word j else ptrOf i d fb := by
  have hlt := hc.lt
  rw [ptrOf_storeInd hc.ind, ptrOf]
  by_cases h15 : fb < 15
  · rw [dif_pos h15, dif_pos h15, if_neg (by omega)]
  rw [dif_neg h15, dif_neg h15]
  by_cases he : fb = 15 + j
  · rw [if_pos (show fb < 143 by omega), if_pos he, he, Nat.add_sub_cancel_left]
  rw [if_neg he]
  by_cases h143 : fb < 143
  · rw [if_pos h143, if_pos ⟨h143, hc.ind⟩]
    exact hc.rest _ (by omega) (by omega)
  · rw [if_neg h143, if_neg (fun hn => h143 hn.1)]

section Entry
variable {j : Nat} (h : Sound live leak m d) (hf : f ∈ live)
  (hc : EntryChange (inodeOf m d f) d j x)
include h hf hc

theorem view_entry : view m (update d (inodeOf m d f).sfiIndirect x) f =
      fileView (inodeOf m d f) (update d (inodeOf m d f).sfiIndirect x) := by
  rw [view, inodeOf_store fun _ => ne_of_owned h (own_ind hf hc.ind) hf (by simp)]

theorem owner_entry : owner live (view m (update d (inodeOf m d f).sfiIndirect x)) =
      update (owner live (view m d)) (f, .data (15 + j))
        (if x.word j = 0 then none else some (x.word j)) := by
  have hk := own_ind hf hc.ind
  refine owner_update hf ?_ fun g hg r hne => ?_
  · rw [view_entry h hf hc, FileView.blk_data]
    exact (ptrOf_entry hc _).trans (if_pos rfl)
  · by_cases hgf : g = f
    · subst hgf
      rw [view_entry h hf hc]
      cases r with
      | self => rw [FileView.blk_self, FileView.blk_self]
      | ind =>
        rw [FileView.blk_ind, FileView.blk_ind]
        rfl
      | data fb =>
        rw [FileView.blk_data, FileView.blk_data]
        exact (ptrOf_entry hc _).trans (if_neg fun he => hne (by rw [he]))
    · rw [view_store_other h hk hg hgf (by simp)]

theorem Sound.storeEntry {leak' : Set UInt32}
    (hl : Ledger (update (owner live (view m d)) (f, .data (15 + j))
      (if x.word j = 0 then none else some (x.word j))) (Used m) (Reserved m) leak') :
    Sound live leak' m (update d (inodeOf m d f).sfiIndirect x) := by
  have hk := own_ind hf hc.ind
  refine h.storeWith (h.inVolume_own hk) (fun g hg => ne_of_owned h hk hg (by simp)) ?_
  rw [owner_entry h hf hc]
  exact hl

omit h hf in
theorem blk_entry :
    (view m d f).blk f (.data (15 + j)) = (d (inodeOf m d f).sfiIndirect).word j := by
  have hlt := hc.lt
  show ptrOf _ _ _ = _
  rw [ptrOf, dif_neg (by omega), if_pos ⟨by omega, hc.ind⟩, Nat.add_sub_cancel_left]

/-- A hole is filled through the indirect block. -/
theorem Sound.adoptEntry (h0 : (d (inodeOf m d f).sfiIndirect).word j = 0) (hb : x.word j ∈ leak) :
    Sound live (leak \ {x.word j}) m (update d (inodeOf m d f).sfiIndirect x) := by
  refine h.storeEntry hf hc ?_
  rw [if_neg (h.inVolume_leak hb).ne_zero]
  exact h.ledger.adopt hb (owner_eq_none ((blk_entry hc).trans h0))

/-- An entry of the indirect block is cleared. -/
theorem Sound.abandonEntry (hx : x.word j = 0) (h0 : (d (inodeOf m d f).sfiIndirect).word j ≠ 0) :
    Sound live (insert ((d (inodeOf m d f).sfiIndirect).word j) leak) m
      (update d (inodeOf m d f).sfiIndirect x) := by
  refine h.storeEntry hf hc ?_
  rw [if_pos hx]
  exact h.ledger.abandon (owner_eq_some.2 ⟨hf, blk_entry hc, h0⟩)

end Entry

/-! ### What a file sees of a new block

A block is cleared before it is handed out, and a hole reads as zeros, so the
bytes of the file do not change. -/

theorem byteOf_adopt {i' : SfsInode} {d' : Disk} {fb : Nat} (h0 : ptrOf i d fb = 0)
    (hz : d' b = Block.zero) (hp : ∀ k, ptrOf i' d' k = if k = fb then b else ptrOf i d k)
    (hd : ∀ k, ptrOf i d k ≠ 0 → d' (ptrOf i d k) = d (ptrOf i d k)) :
    byteOf i' d' = byteOf i d := by
  funext p
  rw [byteOf, byteOf, hp]
  split
  · next he =>
    rw [he, h0, if_pos rfl, hz, Block.byte_zero]
    split <;> rfl
  · next he =>
    split
    · rfl
    · next hn => rw [hd _ hn]

theorem byteOf_setDirect {k : Fin 15} (h0 : i.sfiDirect k = 0) (hz : d b = Block.zero) :
    byteOf (i.setDirect k b) d = byteOf i d := by
  have hp : ptrOf i d k = 0 := by
    rw [ptrOf, dif_pos k.isLt]
    exact h0
  exact byteOf_adopt hp hz (fun _ => ptrOf_direct) fun _ _ => rfl

theorem byteOf_setIndirect (h0 : i.sfiIndirect = 0) (hz : d b = Block.zero) :
    byteOf (i.setIndirect b) d = byteOf i d := by
  have hp : ptrOf (i.setIndirect b) d = ptrOf i d :=
    ptrOf_indirect (fun _ _ hn => absurd h0 hn) fun _ _ _ => by rw [hz, Block.word_zero]
  funext p
  rw [byteOf, byteOf, hp]

/-! ## Loading and dropping vnodes -/

/-- The table grows by one vnode. -/
def SfsFs.withNew (m : SfsFs) (sv : SfsVnode) : SfsFs :=
  { m with sfsVnodes := m.sfsVnodes.add sv }

/-- The table loses one vnode. -/
def SfsFs.without (m : SfsFs) (f : UInt32) : SfsFs :=
  { m with sfsVnodes := m.sfsVnodes.remove f }

theorem inodeOf_withNew (hn : m.sfsVnodes.get? sv.svIno = none) :
    inodeOf (m.withNew sv) d g = if g = sv.svIno then sv.svI else inodeOf m d g := by
  rw [inodeOf, SfsFs.withNew, VnodeArray.get?_add hn]
  by_cases hg : g = sv.svIno
  · rw [if_pos hg, if_pos hg]
  · rw [if_neg hg, if_neg hg, inodeOf]

theorem tableOk_withNew (h : TableOk live m.sfsVnodes) (hsub : live ⊆ live')
    (hn : m.sfsVnodes.get? sv.svIno = none) (hlive : sv.svIno ∈ live') (href : 1 ≤ sv.vnRefcount)
    (hopen : sv.vnOpencount ≤ sv.vnRefcount) (hops : sv.vnOps = opsOf sv.svIno) :
    TableOk live' (m.withNew sv).sfsVnodes := by
  have key : ∀ {P : UInt32 → SfsVnode → Prop}, P sv.svIno sv →
      (∀ {g sv'}, m.sfsVnodes.get? g = some sv' → P g sv') →
      ∀ {g sv'}, (m.withNew sv).sfsVnodes.get? g = some sv' → P g sv' := by
    intro P hs hrest g sv' hg
    rw [SfsFs.withNew, VnodeArray.get?_add hn] at hg
    split at hg
    · next he =>
      obtain rfl := Option.some.inj hg
      exact he ▸ hs
    · exact hrest hg
  refine ⟨?_, ?_, ?_, ?_, ?_⟩
  · rw [SfsFs.withNew, VnodeArray.inos_add]
    exact (List.nodup_append_comm.1 (List.nodup_cons.2
      ⟨VnodeArray.get?_eq_none.1 hn, h.nodup⟩ : ([sv.svIno] ++ m.sfsVnodes.inos).Nodup))
  · exact @fun _ _ hg => key (P := fun g _ => g ∈ live') hlive (fun hg => hsub (h.live hg)) hg
  · exact @fun _ _ hg => key (P := fun _ sv => 1 ≤ sv.vnRefcount) href h.ref hg
  · exact @fun _ _ hg => key (P := fun _ sv => sv.vnOpencount ≤ sv.vnRefcount) hopen h.opens hg
  · exact @fun _ _ hg => key (P := fun g sv => sv.vnOps = opsOf g) hops h.ops hg

/-- An inode is loaded from disk. -/
theorem Sound.load (h : Sound live leak m d) (hf : f ∈ live) (hn : m.sfsVnodes.get? f = none) :
    Sound live leak (m.withNew ⟨f, SfsInode.ofBlock (d f), false, opsOf f, 1, 0⟩) d := by
  have hi : ∀ g, inodeOf (m.withNew ⟨f, SfsInode.ofBlock (d f), false, opsOf f, 1, 0⟩) d g =
      inodeOf m d g := by
    intro g
    rw [inodeOf_withNew hn]
    split
    · next he =>
      rw [he, inodeOf, hn]
    · rfl
  have hv : view (m.withNew ⟨f, SfsInode.ofBlock (d f), false, opsOf f, 1, 0⟩) d =
      view m d := funext fun g => by rw [view, hi, view]
  refine ⟨⟨h.geom.room, h.geom.dev, h.geom.addr, h.geom.nbits⟩, h.root, h.nonzero,
    tableOk_withNew h.table (fun _ hx => hx) hn hf (Nat.le_refl 1) (Nat.zero_le 1) rfl,
    fun hg => by rw [hi]; exact h.kind hg, ?_, ?_, h.synced.map, h.synced.superClean,
    h.synced.super⟩
  · rw [hv]
    exact h.ledger
  · intro g sv' hg hd
    rw [SfsFs.withNew, VnodeArray.get?_add hn] at hg
    split at hg
    · next he =>
      obtain rfl := Option.some.inj hg
      rw [he]
      exact (SfsInode.toBlock_ofBlock _).symm
    · exact h.synced.inode hg hd

/-! ### New inodes and erased ones

Both have no blocks apart from their own, so they enter and leave the ledger
with a single key. -/

/-- A file without data. -/
def FileView.Bare (v : FileView) : Prop := v.inode.sfiIndirect = 0 ∧ ∀ fb, v.ptr fb = 0

theorem FileView.Bare.blk {v : FileView} (h : v.Bare) (hr : r ≠ .self) : v.blk f r = 0 := by
  cases r with
  | self => exact absurd rfl hr
  | ind => exact h.1
  | data fb => exact h.2 fb

theorem owner_insert (hn : f ∉ live) (h0 : f ≠ 0) (h1 : f ≠ sfsRootLocation) (hb : (v' f).Bare)
    (hv : ∀ g ∈ live, v' g = v g) :
    owner (insert f live) v' = update (owner live v) (f, .self) (some f) := by
  funext ⟨g, s⟩
  apply Option.ext
  intro y
  rw [owner_eq_some, Ledger.own_update, owner_eq_some]
  constructor
  · rintro ⟨rfl | hg, hy, hy0⟩
    · by_cases hs : s = .self
      · subst hs
        rw [FileView.blk_self, if_neg h1] at hy
        exact .inl ⟨rfl, congrArg some hy⟩
      · exact absurd (hy.symm.trans (hb.blk hs)) hy0
    · refine .inr ⟨fun he => ?_, hg, hv g hg ▸ hy, hy0⟩
      obtain ⟨rfl, -⟩ := Prod.mk.inj he
      exact hn hg
  · rintro (⟨he, hy⟩ | ⟨-, hg, hy, hy0⟩)
    · obtain ⟨rfl, rfl⟩ := Prod.mk.inj he
      obtain rfl := Option.some.inj hy
      exact ⟨.inl rfl, by rw [FileView.blk_self, if_neg h1], h0⟩
    · exact ⟨.inr hg, (hv g hg).symm ▸ hy, hy0⟩

theorem owner_erase (hb : (v f).Bare) (hv : ∀ g ∈ live, g ≠ f → v' g = v g) :
    owner (live \ {f}) v' = update (owner live v) (f, .self) none := by
  funext ⟨g, s⟩
  apply Option.ext
  intro y
  rw [owner_eq_some, Ledger.own_update, owner_eq_some]
  constructor
  · rintro ⟨⟨hg, hne⟩, hy, hy0⟩
    exact .inr ⟨fun he => hne (congrArg Prod.fst he), hg, hv g hg hne ▸ hy, hy0⟩
  · rintro (⟨-, hy⟩ | ⟨hne, hg, hy, hy0⟩)
    · cases hy
    · have hgf : g ≠ f := by
        rintro rfl
        by_cases hs : s = .self
        · exact hne (by rw [hs])
        · exact hy0 (hy.symm.trans (hb.blk hs))
      exact ⟨⟨hg, hgf⟩, (hv g hg hgf).symm ▸ hy, hy0⟩

/-- What `sfs_makeobj` makes of a cleared block. -/
def newFile : SfsInode := { SfsInode.ofBlock Block.zero with sfiType := sfsTypeFile }

theorem bare_newFile (d : Disk) : (fileView newFile d).Bare := by
  have hi : newFile.sfiIndirect = 0 := by rw [newFile, SfsInode.ofBlock_zero]
  refine ⟨hi, fun fb => ?_⟩
  show ptrOf newFile d fb = 0
  unfold ptrOf
  split
  · rw [newFile, SfsInode.ofBlock_zero]
  · rw [if_neg (fun hn => hn.2 hi)]

section
variable (h : Sound live leak m d)
include h

theorem Sound.not_live_of_leak (hb : b ∈ leak) : b ∉ live :=
  fun hl => unowned_of_leak h hb _ (h.own_self hl (h.inVolume_leak hb).ne_root)

theorem Sound.not_loaded_of_leak (hb : b ∈ leak) : m.sfsVnodes.get? b = none := by
  rw [Option.eq_none_iff_forall_not_mem]
  intro sv hs
  exact h.not_live_of_leak hb (h.table.live hs)

/-- A cleared block becomes an inode, which exists in memory only. -/
theorem Sound.newInode (hb : b ∈ leak) :
    Sound (insert b live) (leak \ {b}) (m.withNew ⟨b, newFile, true, .fileops, 1, 0⟩) d := by
  have hv := h.inVolume_leak hb
  have hn := h.not_loaded_of_leak hb
  have hi : ∀ g, inodeOf (m.withNew ⟨b, newFile, true, .fileops, 1, 0⟩) d g =
      if g = b then newFile else inodeOf m d g := fun g => inodeOf_withNew hn
  have hne : ∀ g ∈ live, g ≠ b := by
    rintro g hg rfl
    exact h.not_live_of_leak hb hg
  have hother : ∀ g ∈ live, view (m.withNew ⟨b, newFile, true, .fileops, 1, 0⟩) d g =
      view m d g := by
    intro g hg
    rw [view, hi, if_neg (hne g hg), view]
  refine ⟨⟨h.geom.room, h.geom.dev, h.geom.addr, h.geom.nbits⟩, .inr h.root, ?_,
    tableOk_withNew h.table (Set.subset_insert _ _) hn (.inl rfl) (Nat.le_refl 1)
      (Nat.zero_le 1) ?_, ?_, ?_, ?_, h.synced.map, h.synced.superClean, h.synced.super⟩
  · rintro (h0 | h0)
    · exact hv.ne_zero h0.symm
    · exact h.nonzero h0
  · rw [opsOf, if_neg hv.ne_root]
  · rintro g (rfl | hg)
    · rw [hi, if_pos rfl, kindOf, if_neg hv.ne_root]
      rfl
    · rw [hi, if_neg (hne g hg)]
      exact h.kind hg
  · rw [owner_insert (h.not_live_of_leak hb) hv.ne_zero hv.ne_root ?_ hother]
    · exact h.ledger.adopt hb (by
        rw [Option.eq_none_iff_forall_not_mem]
        intro y hy
        exact h.not_live_of_leak hb (owner_eq_some.1 hy).1)
    · rw [view, hi, if_pos rfl]
      exact bare_newFile d
  · intro g sv' hg hd
    rw [SfsFs.withNew, VnodeArray.get?_add hn] at hg
    split at hg
    · obtain rfl := Option.some.inj hg
      cases hd
    · exact h.synced.inode hg hd

/-! ### Writing an inode back, and forgetting it -/

theorem Sound.self_unowned (hf : f ∈ live) (hr : r ≠ .self) :
    owner live (view m d) (g, r) ≠ some f := by
  intro hk
  exact ne_of_owned h hk hf hr rfl

theorem view_storeSelf (hl : m.sfsVnodes.get? f = some sv)
    (hg : g ∈ live) : view m (update d f x) g = view m d g := by
  have hf := h.table.live hl
  have h0 : f ≠ 0 := fun h0 => h.nonzero (h0 ▸ hf)
  have hne : m.sfsVnodes.get? g = none → g ≠ f := by
    rintro hn rfl
    rw [hl] at hn
    cases hn
  rw [view, inodeOf_store hne, view]
  refine fileView_store (fun he => ?_) fun fb he => ?_
  · exact h.self_unowned hf (r := .ind) (by simp) (owner_eq_some.2 ⟨hg, he, h0⟩)
  · exact h.self_unowned hf (r := .data fb) (by simp) (owner_eq_some.2 ⟨hg, he, h0⟩)

theorem Sound.ne_reserved (hf : f ∈ live) :
    f ≠ sfsSbLocation ∧ ∀ j < bitblocks (nblocks m), sfsMapLocation + UInt32.ofNat j ≠ f := by
  refine ⟨fun (h0 : f = 0) => h.nonzero (h0 ▸ hf), fun j hj he => ?_⟩
  by_cases h1 : f = sfsRootLocation
  · have := toNat_mapBlock h.geom hj
    rw [he, h1] at this
    have h2 : sfsRootLocation.toNat = 1 := rfl
    omega
  · exact (h.inVolume_own (h.own_self hf h1)).ne_map h.geom hj he

/-- The inode of a loaded vnode is written to its block. -/
theorem Sound.storeSelf (hl : m.sfsVnodes.get? f = some sv) :
    Sound live leak m (update d f sv.svI.toBlock) := by
  have hf := h.table.live hl
  have hres := h.ne_reserved hf
  refine ⟨h.geom, h.root, h.nonzero, h.table, fun {g} hg => ?_, ?_, @fun g sv' hg hd => ?_,
    fun hd j hj => ?_, h.synced.superClean, ?_⟩
  · have := congrArg FileView.inode (view_storeSelf (x := sv.svI.toBlock) h hl hg)
    rw [show inodeOf m (update d f sv.svI.toBlock) g = inodeOf m d g from this]
    exact h.kind hg
  · rw [owner_congr fun g hg r => by rw [view_storeSelf h hl hg]]
    exact h.ledger
  · by_cases hgf : g = f
    · subst hgf
      rw [hl] at hg
      obtain rfl := Option.some.inj hg
      exact update_self ..
    · rw [update_of_ne hgf]
      exact h.synced.inode hg hd
  · rw [update_of_ne (hres.2 j hj)]
    exact h.synced.map hd j hj
  · rw [update_of_ne (a := sfsSbLocation) (Ne.symm hres.1)]
    exact h.synced.super

end

theorem inodeOf_without (hn : m.sfsVnodes.inos.Nodup) (hne : g ≠ f) :
    inodeOf (m.without f) d g = inodeOf m d g := by
  rw [inodeOf, SfsFs.without, VnodeArray.get?_remove hn, if_neg hne, inodeOf]

theorem tableOk_without (h : TableOk live m.sfsVnodes) (hsub : ∀ g ∈ live, g ≠ f → g ∈ live') :
    TableOk live' (m.without f).sfsVnodes := by
  have key : ∀ {g sv'}, (m.without f).sfsVnodes.get? g = some sv' →
      g ≠ f ∧ m.sfsVnodes.get? g = some sv' := by
    intro g sv' hg
    rw [SfsFs.without, VnodeArray.get?_remove h.nodup] at hg
    split at hg
    · cases hg
    · next hne => exact ⟨hne, hg⟩
  exact ⟨VnodeArray.nodup_remove h.nodup, fun hg => hsub _ (h.live (key hg).2) (key hg).1,
    fun hg => h.ref (key hg).2, fun hg => h.opens (key hg).2, fun hg => h.ops (key hg).2⟩

theorem synced_without (hs : Synced m d) (hn : m.sfsVnodes.inos.Nodup) :
    Synced (m.without f) d := by
  refine ⟨@fun g sv' hg hd => ?_, hs.map, hs.superClean, hs.super⟩
  rw [SfsFs.without, VnodeArray.get?_remove hn] at hg
  split at hg
  · cases hg
  · exact hs.inode hg hd

section
variable (h : Sound live leak m d) (hl : m.sfsVnodes.get? f = some sv)
include h hl

/-- The inode on disk is the one in memory. -/
theorem inodeOf_drop (hd : sv.svDirty = false) : inodeOf (m.without f) d g = inodeOf m d g := by
  by_cases hgf : g = f
  · subst hgf
    rw [inodeOf_of_get? hl, inodeOf, SfsFs.without, VnodeArray.get?_remove h.table.nodup,
      if_pos rfl]
    show SfsInode.ofBlock (d g) = sv.svI
    rw [h.synced.inode hl hd, SfsInode.ofBlock_toBlock]
  · exact inodeOf_without h.table.nodup hgf

/-- A clean vnode is dropped from the table. -/
theorem Sound.drop (hd : sv.svDirty = false) : Sound live leak (m.without f) d := by
  have hv : view (m.without f) d = view m d :=
    funext fun g => by rw [view, inodeOf_drop h hl hd, view]
  refine ⟨⟨h.geom.room, h.geom.dev, h.geom.addr, h.geom.nbits⟩, h.root, h.nonzero,
    tableOk_without h.table fun _ hg _ => hg,
    fun hg => by rw [inodeOf_drop h hl hd]; exact h.kind hg, ?_,
    synced_without h.synced h.table.nodup⟩
  rw [hv]
  exact h.ledger

/-- A file without data goes out of existence; its inode block is left over. -/
theorem Sound.erase (h1 : f ≠ sfsRootLocation) (hb : (view m d f).Bare) :
    Sound (live \ {f}) (insert f leak) (m.without f) d := by
  have hf := h.table.live hl
  refine ⟨⟨h.geom.room, h.geom.dev, h.geom.addr, h.geom.nbits⟩, ⟨h.root, Ne.symm h1⟩,
    fun h0 => h.nonzero h0.1, tableOk_without h.table fun _ hg hne => ⟨hg, hne⟩,
    fun {g} hg => by rw [inodeOf_without h.table.nodup hg.2]; exact h.kind hg.1, ?_,
    synced_without h.synced h.table.nodup⟩
  rw [owner_erase hb fun g hg hne => by
    rw [view, inodeOf_without h.table.nodup hne, view]]
  exact h.ledger.abandon (h.own_self hf h1)

end

end Os161.Sfs
