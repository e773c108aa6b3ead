import Os161.Proofs.Job

/-!
# Allocation and block mapping

What `sfs_balloc` and `sfs_bmap` do, in terms of the volume. A block that has
been allocated is cleared and belongs to the job until a file adopts it. After
`sfs_bmap` the file has a block where it was asked for one, and no byte of any
file has changed, since the new block reads as the hole that it fills.
-/

namespace Os161.Sfs

open Os161.Kern Os161.Lib Function

variable {G : Type} {J : Job G} {L : Set UInt32} {w : SfsWorld G}

/-! ## Allocation -/

variable {m : SfsFs} {i : Nat} {live leak : Set UInt32} {d : Disk}

/-- The memory after `bitmap_alloc` has handed out block `i`. -/
theorem mapFlip_put {fm : Bitmap} {x : Bool} (h : Bitmap.Flip m.sfsFreemap fm i x) :
    MapFlip m { m with sfsFreemap := fm, sfsFreemapdirty := true } i x :=
  ⟨h, rfl, rfl, rfl, rfl, rfl⟩

theorem freemap_past (h : Sound live leak m d) (hi : m.sfsFreemap.nbits ≤ i)
    (hl : i < 8 * m.sfsFreemap.v.length) : m.sfsFreemap.isset i = true := by
  have h1 := m.sfsFreemap.words
  have h2 := h.geom.nbits
  omega

/-- A bit that is not set belongs to a block of the volume. -/
theorem lt_nblocks_of_free (h : Sound live leak m d) (hi : i < m.sfsFreemap.nbits)
    (hf : m.sfsFreemap.isset i = false) : i < nblocks m := by
  by_contra hge
  have hn := toNat_ofNat_lt h.geom hi
  have hu : Used m (UInt32.ofNat i) :=
    h.ledger.used_of_fixed (.inr (by rw [hn]; exact ⟨Nat.not_lt.1 hge, hi⟩))
  rw [Used, hn, hf] at hu
  cases hu

/-- Why `sfs_bmap` may fail. -/
inductive BmapFault (c : SfsCtx G) (fb : Nat) (doalloc : Bool) : Errno → Prop where
  | range : 143 ≤ fb → BmapFault c fb doalloc .EINVAL
  | full : doalloc = true → BmapFault c fb doalloc .ENOSPC
  | read {e : IoErr} : c.rdErr e → BmapFault c fb doalloc e.errno

namespace Job

/-- A free block is marked for the job. -/
theorem marked {i : Nat} {fm : Bitmap} (h : J.Held ∅ L w)
    (hi : i < w.mem.sfsFreemap.nbits) (hfree : w.mem.sfsFreemap.isset i = false)
    (hflip : Bitmap.Flip w.mem.sfsFreemap fm i true) : J.Held {UInt32.ofNat i} L
      (w.withMem { w.mem with sfsFreemap := fm, sfsFreemapdirty := true }) := by
  have hs : Sound J.live L w.mem w.disk := by simpa using h.sound
  have hm := hs.mark hi hfree (mapFlip_put hflip)
  rw [← Set.singleton_union] at hm
  refine stepped_same h hm ?_ rfl fun g _ => ⟨rfl, rfl⟩
  rintro b rfl hb
  have hu := hs.ledger.used_of_leak hb
  rw [Used, toNat_ofNat_lt hs.geom hi, hfree] at hu
  cases hu

variable {b f idblock : UInt32} {x : Block} {own L1 L2 L' : Set UInt32}
  {Q : Except Errno UInt32 → SfsWorld G → Prop} {w1 w2 w' : SfsWorld G} {m : SfsFs}
  {u : SfsVnode → SfsVnode} {sv : SfsVnode} {c : SfsInode → SfsInode} {k : Fin 15} {fb j : Nat}

/-- A block that the job holds may be overwritten without anybody noticing. -/
theorem stored_own (h : J.Held own L w) (hb : b ∈ own) : J.Held own L (w.store b x) := by
  have hs := h.sound
  have hl : b ∈ own ∪ L := .inl hb
  refine stepped_same h (hs.storeSpare hl) h.apart rfl fun g hg => ⟨rfl, ?_⟩
  exact view_store_unowned hs (hs.inVolume_leak hl) (unowned_of_leak hs hl) hg

theorem frame_stored_own (h : J.Held own L w) (hb : b ∈ own) : Frame J.S w (w.store b x) := by
  have hs := h.sound
  have hl : b ∈ own ∪ L := .inl hb
  exact ⟨rfl, rfl, fun g hg => ⟨rfl, view_store_unowned hs (hs.inVolume_leak hl)
    (unowned_of_leak hs hl) (J.sub hg)⟩⟩

theorem balloc [Stores J.c] (h : J.Held ∅ L w)
    (hok : ∀ {b L' w'}, J.Turn {b} L w L' w' → w'.disk b = Block.zero → Q (.ok b) w')
    (hfull : (∀ i < w.mem.sfsFreemap.nbits, w.mem.sfsFreemap.isset i = true) →
      Q (.error .ENOSPC) w) : wpE J.c sfsBalloc Q w := by
  have hs : Sound J.live L w.mem w.disk := by simpa using h.sound
  have hspec := Bitmap.alloc_spec fun i => freemap_past hs (i := i)
  rw [sfsBalloc, wpE_call_bind, wp_mem]
  revert hspec
  generalize w.mem.sfsFreemap.alloc = r
  intro hspec
  cases hspec with
  | full hall => exact hfull hall
  | found i fm hi hfree hflip =>
    have hn := toNat_ofNat_lt hs.geom hi
    have hlt := lt_nblocks_of_free hs hi hfree
    have hblock : ¬ w.mem.sfsSuper.spNblocks ≤ UInt32.ofNat i := by
      rw [UInt32.le_iff_toNat_le, hn]
      exact Nat.not_le.2 hlt
    have h1 := marked h hi hfree hflip
    have f1 : Frame J.S w (w.withMem { w.mem with sfsFreemap := fm, sfsFreemapdirty := true }) :=
      .withMem rfl rfl rfl
    simp only [wpE_call_bind, wp_put, if_neg hblock]
    rw [wpE_bind, sfsClearblock, wpE_call_bind, wp_mem]
    refine J.wblock {UInt32.ofNat i} h1 (by rw [hn]; exact hlt) (fun t _ => stored_own t.held rfl)
      fun {L1 w1 L2 w2} t1 _ t2 hd => ?_
    refine hok ⟨t1.later.trans t2.later, t2.held, ?_, t2.started, fun hst => ?_⟩ ?_
    · exact ((f1.trans t1.frame).trans (frame_stored_own t1.held rfl)).trans t2.frame
    · obtain ⟨hi1, ht1⟩ := t1.kept hst
      obtain ⟨hi2, ht2⟩ := t2.kept t1.started
      exact ⟨hi2.trans hi1, ht2.trans ht1⟩
    · rw [hd, update_self]

/-! ## Where a job has got to -/

/-- Nothing has changed for the files in `S`; if nobody interferes, nothing has
changed at all outside the static buffers. -/
structure Passed (J : Job G) (L : Set UInt32) (w : SfsWorld G) (L' : Set UInt32)
    (w' : SfsWorld G) : Prop where
  later : Later J.c L L'
  held : J.Held ∅ L' w'
  frame : Frame J.S w w'
  started : w.started = true → w'.started = true
  calm : J.c.Quiet → BufOnly w.mem w'.mem ∧ w'.disk = w.disk

theorem Passed.refl (h : J.Held ∅ L w) : J.Passed L w L w :=
  ⟨Later.refl _ _, h, Frame.refl _ _, fun hs => hs, fun _ => ⟨.refl _, rfl⟩⟩

theorem Passed.trans (h1 : J.Passed L w L1 w1) (h2 : J.Passed L1 w1 L2 w2) : J.Passed L w L2
    w2 where
  later := h1.later.trans h2.later
  held := h2.held
  frame := h1.frame.trans h2.frame
  started hs := h2.started (h1.started hs)
  calm hq := ⟨(h1.calm hq).1.trans (h2.calm hq).1, (h2.calm hq).2.trans (h1.calm hq).2⟩

theorem Turn.passed (t : J.Turn ∅ L w L' w') (hc : J.c.Quiet → w'.mem = w.mem ∧ w'.disk = w.disk) :
    J.Passed L w L' w' :=
  ⟨t.later, t.held, t.frame, fun _ => t.started, fun hq => ⟨(hc hq).1 ▸ .refl _, (hc hq).2⟩⟩

theorem Turn.failed (t : J.Turn ∅ L w L' w') (hn : ¬ J.c.Quiet) : J.Passed L w L' w' :=
  t.passed fun hq => absurd hq hn

/-- The job's file may have got more blocks, but it still has the same size and
the same bytes. -/
structure Mapped (J : Job G) (L : Set UInt32) (w : SfsWorld G) (L' : Set UInt32)
    (w' : SfsWorld G) : Prop where
  later : Later J.c L L'
  held : J.Held ∅ L' w'
  frame : Frame (J.S \ {J.f}) w w'
  grows : Grows J.sz J.f w w'
  size : (w'.view J.f).inode.sfiSize = (w.view J.f).inode.sfiSize
  byte : (w'.view J.f).byte = (w.view J.f).byte
  started : w.started = true → w'.started = true

theorem Passed.mapped (t : J.Passed L w L' w') : J.Mapped L w L' w' where
  later := t.later
  held := t.held
  frame := t.frame.mono fun _ h => h.1
  grows := .of_same (t.frame.same _ J.mem)
  size := by rw [(t.frame.same _ J.mem).view]
  byte := by rw [(t.frame.same _ J.mem).view]
  started := t.started

theorem Mapped.trans (h1 : J.Mapped L w L1 w1) (h2 : J.Mapped L1 w1 L2 w2) : J.Mapped L w L2
    w2 where
  later := h1.later.trans h2.later
  held := h2.held
  frame := h1.frame.trans h2.frame
  grows := h1.grows.trans h2.grows
  size := h2.size.trans h1.size
  byte := h2.byte.trans h1.byte
  started hs := h2.started (h1.started hs)

/-- The job may hold a block by now; its files have not noticed. -/
structure Ahead (J : Job G) (L : Set UInt32) (w : SfsWorld G) (L' : Set UInt32)
    (w' : SfsWorld G) : Prop where
  later : Later J.c L L'
  frame : Frame J.S w w'
  started : w.started = true → w'.started = true

theorem Turn.ahead (t : J.Turn own L w L' w') : J.Ahead L w L' w' :=
  ⟨t.later, t.frame, fun _ => t.started⟩

theorem Ahead.bufOnly (t : J.Ahead L w L' w') (hb : BufOnly w'.mem m) :
    J.Ahead L w L' (w'.withMem m) :=
  ⟨t.later, t.frame.trans (.withMem hb.super hb.dBlocks hb.vnodes), t.started⟩

theorem Ahead.mapped (t : J.Ahead L w L1 w1) (h : J.Mapped L1 w1 L2 w2) : J.Mapped L w L2 w2 where
  later := t.later.trans h.later
  held := h.held
  frame := (t.frame.mono fun _ hx => hx.1).trans h.frame
  grows := (Grows.of_same (t.frame.same _ J.mem)).trans h.grows
  size := h.size.trans (by rw [(t.frame.same _ J.mem).view])
  byte := h.byte.trans (by rw [(t.frame.same _ J.mem).view])
  started hs := h.started (t.started hs)

/-- A change to a static buffer. -/
theorem bufOnly (h : J.Held own L w) (hb : BufOnly w.mem m) : J.Held own L (w.withMem m) := by
  have hf : Frame J.live w (w.withMem m) := .withMem hb.super hb.dBlocks hb.vnodes
  exact stepped_same h (h.sound.bufOnly hb) h.apart rfl hf.same

theorem Passed.bufOnly (t : J.Passed L w L' w') (hb : BufOnly w'.mem m) :
    J.Passed L w L' (w'.withMem m) :=
  ⟨t.later, Job.bufOnly t.held hb, t.frame.trans (.withMem hb.super hb.dBlocks hb.vnodes),
    t.started, fun hq => ⟨(t.calm hq).1.trans hb, (t.calm hq).2⟩⟩

theorem Mapped.bufOnly (t : J.Mapped L w L' w') (hb : BufOnly w'.mem m) :
    J.Mapped L w L' (w'.withMem m) :=
  t.trans ((Passed.refl t.held).bufOnly hb).mapped

theorem Turn.mapped (t : J.Turn ∅ L w L' w') : J.Mapped L w L' w' :=
  t.ahead.mapped (Passed.refl t.held).mapped

/-! ## A file adopts a block -/

theorem same_withVnode {g : UInt32} (hu : ∀ sv, (u sv).svIno = sv.svIno)
    (hl : w.mem.sfsVnodes.get? f = some sv) (hg : g ≠ f) :
    Same g w (w.withMem (w.mem.withVnode f u)) :=
  ⟨VnodeArray.get?_update_ne hu hg, (view_withVnode hu hl).trans (if_neg hg)⟩

theorem frame_withVnode {S : Set UInt32} (hu : ∀ sv, (u sv).svIno = sv.svIno)
    (hl : w.mem.sfsVnodes.get? f = some sv) : Frame (S \ {f}) w (w.withMem (w.mem.withVnode f u)) :=
  ⟨rfl, rfl, fun _ hg => same_withVnode hu hl hg.2⟩

section
variable (hl : w.mem.sfsVnodes.get? f = some sv)
include hl

theorem counts_withInode :
    SameCounts f w (w.withMem (w.mem.withVnode f (SfsVnode.withInode c))) := by
  have hl' : SfsWorld.get? (w.withMem (w.mem.withVnode f (SfsVnode.withInode c))) f =
      some (SfsVnode.withInode c sv) := VnodeArray.get?_update_self (fun _ => rfl) hl
  constructor
  · rw [SfsWorld.refs, hl', SfsWorld.refs, SfsWorld.get?, hl]
    rfl
  · rw [SfsWorld.opens, hl', SfsWorld.opens, SfsWorld.get?, hl]
    rfl

theorem view_withMem_inode :
    SfsWorld.view (w.withMem (w.mem.withVnode f (SfsVnode.withInode c))) f =
      fileView (c sv.svI) w.disk :=
  (view_withInode hl).trans (if_pos rfl)

/-- What a change of the inode means for the file. -/
theorem grows_withInode {sz : Nat → Prop} (ht : (c sv.svI).sfiType = sv.svI.sfiType)
    (hk : (c sv.svI).sfiLinkcount = sv.svI.sfiLinkcount) (hp : ∀ fb, ptrOf sv.svI w.disk fb ≠ 0 →
      ptrOf (c sv.svI) w.disk fb = ptrOf sv.svI w.disk fb)
    (hz : (c sv.svI).sfiSize = sv.svI.sfiSize ∨ sz (c sv.svI).sfiSize.toNat) :
    Grows sz f w (w.withMem (w.mem.withVnode f (SfsVnode.withInode c))) := by
  have hv : w.view f = fileView sv.svI w.disk := view_of_get? hl
  refine ⟨fun {sv'} hs => ?_, ?_, ?_, fun {fb} h0 => ?_, ?_⟩
  · obtain rfl := Option.some.inj (hl.symm.trans hs)
    exact ⟨_, VnodeArray.get?_update_self (fun _ => rfl) hl, rfl, rfl, rfl⟩
  · rw [view_withMem_inode hl, hv]
    exact ht
  · rw [view_withMem_inode hl, hv]
    exact hk
  · rw [view_withMem_inode hl, hv]
    rw [hv] at h0
    exact hp fb h0
  · rw [view_withMem_inode hl, hv]
    exact hz

end

theorem union_diff_self (hb : b ∉ L) : ({b} ∪ L) \ {b} = (∅ : Set UInt32) ∪ L := by
  ext x
  simp only [Set.mem_sdiff, Set.mem_union, Set.mem_singleton_iff, Set.mem_empty_iff_false, false_or]
  constructor
  · rintro ⟨h | h, hn⟩
    · exact absurd h hn
    · exact h
  · intro h
    exact ⟨.inr h, fun he => hb (he ▸ h)⟩

section
variable (h : J.Held {b} L w) (hl : w.mem.sfsVnodes.get? J.f = some sv)
include h hl

/-- The inode takes up the block that the job holds. -/
theorem adopted
    (hs : Sound J.live (({b} ∪ L) \ {b}) (w.mem.withVnode J.f (SfsVnode.withInode c)) w.disk)
    (hg : Grows J.sz J.f w (w.withMem (w.mem.withVnode J.f (SfsVnode.withInode c))))
    (hz : (c sv.svI).sfiSize = sv.svI.sfiSize)
    (hb : byteOf (c sv.svI) w.disk = byteOf sv.svI w.disk) :
    J.Mapped L w L (w.withMem (w.mem.withVnode J.f (SfsVnode.withInode c))) where
  later := Later.refl _ _
  held := by
    rw [union_diff_self (h.apart b rfl)] at hs
    exact stepped h hs (fun _ hx => hx.elim) rfl
      (fun g _ hne => same_withVnode (fun _ => rfl) hl hne) hg
  frame := frame_withVnode (fun _ => rfl) hl
  grows := hg
  size := by
    rw [view_withMem_inode hl, SfsWorld.view, view_of_get? hl]
    exact hz
  byte := by
    rw [view_withMem_inode hl, SfsWorld.view, view_of_get? hl]
    exact hb
  started hst := hst

theorem adopted_direct (h0 : sv.svI.sfiDirect k = 0) (hz : w.disk b = Block.zero) : J.Mapped L w L
      (w.withMem (w.mem.withVnode J.f (SfsVnode.withInode (SfsInode.setDirect k b)))) := by
  refine adopted h hl (h.sound.adoptDirect hl h0 (.inl rfl))
    (grows_withInode hl rfl rfl (fun fb hfb => ?_) (.inl rfl)) rfl (byteOf_setDirect h0 hz)
  rw [ptrOf_direct, if_neg]
  rintro rfl
  rw [ptrOf, dif_pos k.isLt] at hfb
  exact hfb h0

theorem adopted_indirect (h0 : sv.svI.sfiIndirect = 0) (hz : w.disk b = Block.zero) : J.Mapped L w L
      (w.withMem (w.mem.withVnode J.f (SfsVnode.withInode (SfsInode.setIndirect b)))) := by
  have hp : ptrOf (sv.svI.setIndirect b) w.disk = ptrOf sv.svI w.disk :=
    ptrOf_indirect (fun _ _ hn => absurd h0 hn) fun _ _ _ => by rw [hz, Block.word_zero]
  exact adopted h hl (h.sound.adoptIndirect hl h0 (.inl rfl) hz)
    (grows_withInode hl rfl rfl (fun fb _ => congrFun hp fb) (.inl rfl)) rfl
    (byteOf_setIndirect h0 hz)

end

/-! ## Block mapping -/

/-- A block of a file is in the volume and marked. -/
theorem ptr_inVolume (h : J.Held ∅ L w) (h0 : (w.view J.f).ptr fb ≠ 0) :
    InVolume w.mem ((w.view J.f).ptr fb) ∧ Used w.mem ((w.view J.f).ptr fb) := by
  have hk := own_data J.mem_live h0
  exact ⟨h.sound.inVolume_own hk, h.sound.ledger.used_of_own hk⟩

theorem hand (h : J.Held ∅ L w) (hb : (w.view J.f).ptr fb = b) (hQ : Q (.ok b) w) :
    wpE J.c (bmapHand b) Q w := by
  rw [bmapHand]
  split
  · exact hQ
  · next h0 =>
    obtain ⟨hv, hu⟩ := ptr_inVolume h (hb ▸ h0)
    rw [hb] at hv hu
    rw [wpE_call_bind, wp_sfsBused hv.last, show w.mem.sfsFreemap.isset b.toNat = true from hu]
    exact hQ

theorem ptr_direct (hl : w.mem.sfsVnodes.get? J.f = some sv) (k : Fin 15) :
    (w.view J.f).ptr k = sv.svI.sfiDirect k := by
  rw [SfsWorld.view, view_of_get? hl]
  exact dif_pos k.isLt

variable (h : J.Held ∅ L w) (hl : w.mem.sfsVnodes.get? J.f = some sv)

include h hl in
theorem bmapDirect_read
    (hQ : Q (.ok ((w.view J.f).ptr k)) w) : wpE J.c (bmapDirect J.f k false) Q w := by
  rw [bmapDirect, wpE_call_bind, wp_vnode hl]
  simp only [Bool.false_eq_true, and_false, if_false]
  refine hand h (ptr_direct hl k) ?_
  rwa [ptr_direct hl] at hQ

include h hl in
theorem bmapDirect_write [Stores J.c]
    (hok : ∀ {L' w'}, J.Mapped L w L' w' → (w'.view J.f).ptr k ≠ 0 →
      ((w.view J.f).ptr k ≠ 0 → J.Passed L w L' w') → Q (.ok ((w'.view J.f).ptr k)) w')
    (herr : ∀ {e L' w'}, J.Mapped L w L' w' → BmapFault J.c k true e →
      (w.view J.f).ptr k = 0 → Q (.error e) w') : wpE J.c (bmapDirect J.f k true) Q w := by
  rw [bmapDirect, wpE_call_bind, wp_vnode hl]
  by_cases h0 : sv.svI.sfiDirect k = 0
  · simp only [h0, and_self, if_true]
    rw [wpE_bind]
    have hp : (w.view J.f).ptr k = 0 := (ptr_direct hl k).trans h0
    refine J.balloc h (fun {b L1 w1} t hz => ?_)
      fun _ => herr (Passed.refl h).mapped (.full rfl) hp
    have hl1 : w1.mem.sfsVnodes.get? J.f = some sv := (t.frame.same _ J.mem).get?.trans hl
    have hm := adopted_direct t.held hl1 h0 hz
    have hptr : (SfsWorld.view (w1.withMem (w1.mem.withVnode J.f
        (SfsVnode.withInode (SfsInode.setDirect k b)))) J.f).ptr k = b := by
      rw [view_withMem_inode hl1]
      exact ptrOf_direct.trans (if_pos rfl)
    have hb0 : b ≠ 0 := (t.held.sound.inVolume_leak (.inl rfl)).ne_zero
    show wpE J.c (call (setInode J.f (SfsInode.setDirect k b)) >>= fun _ => bmapHand b) Q w1
    rw [wpE_call_bind, wp_setInode]
    refine hand hm.held hptr ?_
    have hok' := hok (t.ahead.mapped hm) (hptr.symm ▸ hb0) (absurd hp)
    rwa [hptr] at hok'
  · rw [if_neg fun hn => h0 hn.1]
    refine hand h (ptr_direct hl k) ?_
    have hok' := hok (Passed.refl h).mapped (by rw [ptr_direct hl]; exact h0)
      fun _ => Passed.refl h
    rwa [ptr_direct hl] at hok'

/-! ### Through the indirect block -/

/-- The indirect block of the job's file is in `idbuf`. -/
structure IdReady (J : Job G) (idblock : UInt32) (w : SfsWorld G) : Prop where
  started : w.started = true
  ind : (w.view J.f).inode.sfiIndirect = idblock
  nonzero : idblock ≠ 0
  buf : ∀ j < 128, w.mem.idbuf.word j = (w.view J.f).ptr (15 + j)

theorem IdReady.turn (h : J.IdReady idblock w) (t : J.Turn own L w L' w') : J.IdReady idblock
    w' where
  started := t.started
  ind := by rw [(t.frame.same _ J.mem).view]; exact h.ind
  nonzero := h.nonzero
  buf j hj := by
    rw [(t.kept h.started).1, (t.frame.same _ J.mem).view]
    exact h.buf j hj

theorem ptr_ind (h0 : (w.view J.f).inode.sfiIndirect ≠ 0) (hj : j < 128) :
    (w.view J.f).ptr (15 + j) = (w.disk (w.view J.f).inode.sfiIndirect).word j := by
  show ptrOf (w.view J.f).inode w.disk (15 + j) = _
  rw [ptrOf, dif_neg (by omega), if_pos ⟨by omega, h0⟩, Nat.add_sub_cancel_left]

theorem ind_inVolume (h : J.Held own L w) (h0 : (w.view J.f).inode.sfiIndirect ≠ 0) :
    InVolume w.mem (w.view J.f).inode.sfiIndirect :=
  h.sound.inVolume_own (own_ind J.mem_live h0)

include h hl in
theorem bmapLoad_old (h0 : sv.svI.sfiIndirect ≠ 0)
    (hok : ∀ {L' w'}, J.Passed L w L' w' → J.IdReady sv.svI.sfiIndirect w' →
      Q (.ok sv.svI.sfiIndirect) w')
    (herr : ∀ {e L' w'}, J.Passed L w L' w' → J.c.rdErr e → Q (.error e.errno) w') :
    wpE J.c (bmapLoad J.f sv.svI.sfiIndirect) Q w := by
  have hi : (w.view J.f).inode.sfiIndirect = sv.svI.sfiIndirect := by
    rw [SfsWorld.view, view_of_get? hl]
    rfl
  have hv := ind_inVolume h (hi.symm ▸ h0)
  rw [hi] at hv
  rw [bmapLoad, if_neg h0, wpE_call_bind, wp_mem, wpE_bind]
  refine J.rblock h hv.last (fun {L' w'} t hc => ?_)
    fun t he => herr (t.failed fun hq => hq.rd he) he
  show wpE J.c (call (Prog.modify _) >>= _) Q w'
  rw [wpE_call_bind, wp_modify]
  have hi' : (w'.view J.f).inode.sfiIndirect = sv.svI.sfiIndirect := by
    rw [(t.frame.same _ J.mem).view]
    exact hi
  refine hok ((t.passed hc).bufOnly ⟨rfl, rfl, rfl, rfl, rfl, rfl⟩)
    ⟨t.started, hi', h0, fun j hj => ?_⟩
  rw [← hi']
  exact (ptr_ind (by rw [hi']; exact h0) hj).symm

include h hl in
theorem bmapLoad_new [Stores J.c] (h0 : sv.svI.sfiIndirect = 0)
    (hok : ∀ {b L' w'}, J.Mapped L w L' w' → J.IdReady b w' → Q (.ok b) w')
    (hfull : ∀ {L' w'}, J.Mapped L w L' w' → Q (.error .ENOSPC) w') :
    wpE J.c (bmapLoad J.f sv.svI.sfiIndirect) Q w := by
  rw [bmapLoad, if_pos h0, wpE_bind]
  refine J.balloc h (fun {b L1 w1} t hz => ?_) fun _ => hfull (Passed.refl h).mapped
  have hl1 : w1.mem.sfsVnodes.get? J.f = some sv := (t.frame.same _ J.mem).get?.trans hl
  have hb0 : b ≠ 0 := (t.held.sound.inVolume_leak (.inl rfl)).ne_zero
  have hm := adopted_indirect t.held hl1 h0 hz
  show wpE J.c (call (setInode J.f (SfsInode.setIndirect b)) >>= _) Q w1
  rw [wpE_call_bind, wp_setInode, wpE_call_bind, wp_modify]
  have hind : (SfsWorld.view (w1.withMem (w1.mem.withVnode J.f
      (SfsVnode.withInode (SfsInode.setIndirect b)))) J.f).inode.sfiIndirect = b := by
    rw [view_withMem_inode hl1]
    rfl
  refine hok ((t.ahead.mapped hm).bufOnly ⟨rfl, rfl, rfl, rfl, rfl, rfl⟩)
    ⟨t.started, hind, hb0, fun j hj => ?_⟩
  have hp := ptr_ind (J := J) (hind.symm ▸ hb0) hj
  rw [hind] at hp
  exact (Block.word_zero j).trans
    ((hp.trans (by rw [World.withMem_disk, hz, Block.word_zero])).symm)

/-- The block that the job holds becomes the data behind an entry. -/
theorem entered (h : J.Held {b} L w) (hc : EntryChange (w.view J.f).inode w.disk j x)
    (h0 : (w.view J.f).ptr (15 + j) = 0) (hx : x.word j = b) (hz : w.disk b = Block.zero) :
    J.Mapped L w L (w.store (w.view J.f).inode.sfiIndirect x) ∧
      (SfsWorld.view (w.store (w.view J.f).inode.sfiIndirect x) J.f).ptr (15 + j) = b := by
  have hs := h.sound
  have hlive := J.mem_live
  have hk := own_ind hlive hc.ind
  have hb : b ∈ ({b} ∪ L : Set UInt32) := .inl rfl
  have hw0 : (w.disk (w.view J.f).inode.sfiIndirect).word j = 0 :=
    (ptr_ind hc.ind hc.lt).symm.trans h0
  have hs' := hs.adoptEntry hlive hc hw0 (hx.symm ▸ hb)
  rw [hx, union_diff_self (h.apart b rfl)] at hs'
  have hv := view_entry hs hlive hc
  have hptr : ∀ fb, (SfsWorld.view (w.store (w.view J.f).inode.sfiIndirect x)
      J.f).ptr fb = if fb = 15 + j then b else (w.view J.f).ptr fb := fun fb => by
    rw [← hx]
    exact (congrFun (congrArg FileView.ptr hv) fb).trans (ptrOf_entry hc fb)
  have hsame : ∀ g ∈ J.live, g ≠ J.f →
      Same g w (w.store (w.view J.f).inode.sfiIndirect x) := fun g hg hne =>
    ⟨rfl, view_store_other hs hk hg hne (by simp)⟩
  have hg : Grows J.sz J.f w (w.store (w.view J.f).inode.sfiIndirect x) := by
    refine ⟨fun hsv => ⟨_, hsv, rfl, rfl, rfl⟩, ?_, ?_, fun {fb} hfb => ?_, .inl ?_⟩
    · exact congrArg (fun v => v.inode.sfiType) hv
    · exact congrArg (fun v => v.inode.sfiLinkcount) hv
    · rw [hptr, if_neg]
      rintro rfl
      exact hfb h0
    · exact congrArg (fun v => v.inode.sfiSize) hv
  refine ⟨⟨Later.refl _ _, stepped h hs' (fun _ hx => hx.elim) rfl hsame hg,
    ⟨rfl, rfl, fun g hS => hsame g (J.sub hS.1) hS.2⟩, hg,
    congrArg (fun v => v.inode.sfiSize) hv, ?_, fun hst => hst⟩, (hptr _).trans (if_pos rfl)⟩
  -- the old data blocks are not the indirect block, and the new one is empty
  refine (congrArg FileView.byte hv).trans (byteOf_adopt (b := b) h0 ?_ (fun k => ?_) fun k _ => ?_)
  · rw [update_of_ne, hz]
    exact fun he => unowned_of_leak hs hb _ (he ▸ hk)
  · exact (congrFun (congrArg FileView.ptr hv) k).symm.trans (hptr k)
  · rw [update_of_ne]
    exact ptr_ne_of_owned hs hk hlive (by simp)

theorem bmapEntry_read (h : J.Held ∅ L w) (hr : J.IdReady idblock w) (hj : j < 128)
    (hQ : Q (.ok ((w.view J.f).ptr (15 + j))) w) : wpE J.c (bmapEntry idblock j false) Q w := by
  rw [bmapEntry, wpE_call_bind, wp_mem, if_neg (fun hn => by cases hn.2), hr.buf j hj]
  exact hand h rfl hQ

/-- `idbuf` goes back to the disk with one more entry in it. -/
theorem wroteEntry [Stores J.c] {Q : Except Errno Unit → SfsWorld G → Prop} (h : J.Held {b} L w)
    (hst : w.started = true) (hc : EntryChange (w.view J.f).inode w.disk j w.mem.idbuf)
    (h0 : (w.view J.f).ptr (15 + j) = 0) (hx : w.mem.idbuf.word j = b) (hz : w.disk b = Block.zero)
    (hok : ∀ {L' w'}, J.Mapped L w L' w' → (w'.view J.f).ptr (15 + j) = b → Q (.ok ()) w') :
    wpE J.c (sfsWblock w.mem.dBlocks (w.view J.f).inode.sfiIndirect fun sfs => sfs.idbuf) Q w := by
  -- the device is ours already, so what is written is the buffer as it is now
  have hp := (entered h hc h0 hx hz).2
  refine J.wblock ∅ h (ind_inVolume h hc.ind).last (fun {L1 w1} t hsame => ?_)
    fun {L1 w1 L2 w2} t hsame t2 _ => ?_
  · obtain rfl := hsame hst
    exact (entered t.held hc h0 hx hz).1.held
  · obtain rfl := hsame hst
    have hm1 := (entered t.held hc h0 hx hz).1
    refine hok (t.ahead.mapped (hm1.trans t2.mapped)) ?_
    rw [(t2.frame.same _ J.mem).view]
    exact hp

theorem bmapEntry_write [Stores J.c] (h : J.Held ∅ L w) (hr : J.IdReady idblock w) (hj : j < 128)
    (hok : ∀ {L' w'}, J.Mapped L w L' w' → (w'.view J.f).ptr (15 + j) ≠ 0 →
      ((w.view J.f).ptr (15 + j) ≠ 0 → J.Passed L w L' w') →
      Q (.ok ((w'.view J.f).ptr (15 + j))) w')
    (hfull : ∀ {L' w'}, J.Mapped L w L' w' → (w.view J.f).ptr (15 + j) = 0 →
      Q (.error .ENOSPC) w') :
    wpE J.c (bmapEntry idblock j true) Q w := by
  rw [bmapEntry, wpE_call_bind, wp_mem, hr.buf j hj]
  by_cases h0 : (w.view J.f).ptr (15 + j) = 0
  · rw [if_pos ⟨h0, rfl⟩, wpE_bind]
    refine J.balloc h (fun {b L1 w1} t hz => ?_) fun _ => hfull (Passed.refl h).mapped h0
    have hb0 : b ≠ 0 := (t.held.sound.inVolume_leak (.inl rfl)).ne_zero
    have hr1 := hr.turn t
    have hi : (w1.view J.f).inode.sfiIndirect ≠ 0 := hr1.ind.symm ▸ hr1.nonzero
    have hc : EntryChange (w1.view J.f).inode w1.disk j
        (w1.mem.idbuf.setWord j b) := by
      refine ⟨hi, hj, fun k hk hne => ?_⟩
      rw [Block.word_setWord hk, if_neg hne, hr1.buf k hk, ptr_ind hi hk]
    show wpE J.c (call (Prog.modify _) >>= _) Q w1
    rw [wpE_call_bind, wp_modify, wpE_bind, ← t.frame.dBlocks, ← hr1.ind]
    have hbuf : BufOnly w1.mem { w1.mem with idbuf := w1.mem.idbuf.setWord j b } :=
      ⟨rfl, rfl, rfl, rfl, rfl, rfl⟩
    have ha := t.ahead.bufOnly hbuf
    refine wroteEntry (J.bufOnly t.held hbuf) t.started hc
      ((congrArg (fun v => v.ptr (15 + j)) (t.frame.same _ J.mem).view).trans h0)
      ((Block.word_setWord hj).trans (if_pos rfl)) hz fun {L2 w2} hm hp => ?_
    refine hand hm.held hp ?_
    have hok' := hok (ha.mapped hm) (hp.symm ▸ hb0) (absurd h0)
    rwa [hp] at hok'
  · rw [if_neg fun hn => h0 hn.1]
    exact hand h rfl (hok (Passed.refl h).mapped h0 fun _ => Passed.refl h)

theorem ptr_past (hf : 15 ≤ fb) (h0 : (w.view J.f).inode.sfiIndirect = 0) :
    (w.view J.f).ptr fb = 0 := by
  show ptrOf (w.view J.f).inode w.disk fb = 0
  rw [ptrOf, dif_neg (by omega), if_neg fun hn => hn.2 h0]

include h hl in
/-- `sfs_bmap` for a reader. -/
theorem bmap_read (hok : ∀ {L' w'}, J.Passed L w L' w' → fb < 143 →
      Q (.ok ((w'.view J.f).ptr fb)) w')
    (herr : ∀ {e L' w'}, J.Passed L w L' w' → BmapFault J.c fb false e → Q (.error e) w') :
    wpE J.c (sfsBmap J.f fb false) Q w := by
  rw [sfsBmap]
  split
  · next h15 => exact bmapDirect_read (k := ⟨fb, h15⟩) h hl (hok (Passed.refl h) (by omega))
  · next h15 =>
    obtain ⟨j, rfl⟩ : ∃ j, fb = 15 + j := ⟨fb - 15, by omega⟩
    rw [bmapIndirect, sfsNdirect, sfsDbperidb, Nat.add_sub_cancel_left]
    by_cases hj : 0 < j / 128
    · rw [if_pos hj]
      exact herr (Passed.refl h) (.range (by omega))
    have hj' : j < 128 := by omega
    rw [if_neg hj, Nat.mod_eq_of_lt hj', wpE_call_bind, wp_vnode hl]
    have hv : (w.view J.f).inode = sv.svI := by
      rw [SfsWorld.view, view_of_get? hl]
      rfl
    by_cases h0 : sv.svI.sfiIndirect = 0
    · rw [if_pos ⟨h0, by simp⟩, wpE_pure]
      have hp := hok (Passed.refl h) (by omega)
      rwa [ptr_past (by omega) (by rw [hv, h0])] at hp
    · rw [if_neg fun hn => h0 hn.1, wpE_bind]
      exact bmapLoad_old h hl h0 (fun t hr => bmapEntry_read t.held hr hj' (hok t (by omega)))
        fun t he => herr t (.read he)

include h hl in
/-- `sfs_bmap` for a writer. Where there is a block already, it is a reader. -/
theorem bmap_write [Stores J.c]
    (hok : ∀ {L' w'}, J.Mapped L w L' w' → fb < 143 → (w'.view J.f).ptr fb ≠ 0 →
      ((w.view J.f).ptr fb ≠ 0 → J.Passed L w L' w') → Q (.ok ((w'.view J.f).ptr fb)) w')
    (herr : ∀ {e L' w'}, J.Mapped L w L' w' → BmapFault J.c fb true e →
      (J.c.Quiet → (w.view J.f).ptr fb = 0) → Q (.error e) w') :
    wpE J.c (sfsBmap J.f fb true) Q w := by
  rw [sfsBmap]
  split
  · next h15 =>
    exact bmapDirect_write (k := ⟨fb, h15⟩) h hl (fun hm => hok hm (by omega))
      fun hm he hp => herr hm he fun _ => hp
  · next h15 =>
    obtain ⟨j, rfl⟩ : ∃ j, fb = 15 + j := ⟨fb - 15, by omega⟩
    rw [bmapIndirect, sfsNdirect, sfsDbperidb, Nat.add_sub_cancel_left]
    by_cases hj : 0 < j / 128
    · rw [if_pos hj]
      refine herr (Passed.refl h).mapped (.range (by omega)) fun _ => ?_
      show ptrOf _ _ _ = 0
      rw [ptrOf, dif_neg h15, if_neg fun hn => by omega]
    have hj' : j < 128 := by omega
    rw [if_neg hj, Nat.mod_eq_of_lt hj', wpE_call_bind, wp_vnode hl,
      if_neg fun hn => hn.2 rfl, wpE_bind]
    by_cases h0 : sv.svI.sfiIndirect = 0
    · have hp : (w.view J.f).ptr (15 + j) = 0 :=
        ptr_past (by omega) (by rw [SfsWorld.view, view_of_get? hl]; exact h0)
      exact bmapLoad_new h hl h0
        (fun hm hr => bmapEntry_write hm.held hr hj'
          (fun hm' hn _ => hok (hm.trans hm') (by omega) hn (absurd hp))
          fun hm' _ => herr (hm.trans hm') (.full rfl) fun _ => hp)
        fun hm => herr hm (.full rfl) fun _ => hp
    · refine bmapLoad_old h hl h0 (fun t hr => bmapEntry_write t.held hr hj'
        (fun hm' hn hc => hok (t.mapped.trans hm') (by omega) hn fun hn' => t.trans (hc ?_))
        fun hm' hp => herr (t.mapped.trans hm') (.full rfl) fun _ => ?_)
        fun t he => herr t.mapped (.read he) fun hq => absurd he hq.rd
      · rw [(t.frame.same _ J.mem).view]
        exact hn'
      · rw [← (t.frame.same _ J.mem).view]
        exact hp

end Job

end Os161.Sfs
