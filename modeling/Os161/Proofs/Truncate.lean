import Os161.Proofs.Bmap

/-!
# What `sfs_truncate` discards

For a thread alone. Direct blocks are let go one by one, and the volume is in
order after each. The indirect block is worked on in the static buffer: while
the loop runs, the free map is ahead of what the disk says, and the invariant
that carries it is that the volume would be in order if the buffer were on the
disk. In the end it is there, or the indirect block itself is gone.

If the indirect block cannot be read, the direct blocks are gone and the size is
what it was (`Halfway`). If it cannot be written, the blocks in it have been
freed and are still in it; nothing is said about that case but that it needs an
entry that stays.

The three comparisons with `blocklen` are not the same. `Dropped` says which
blocks of the file go.
-/

namespace Os161.Sfs

open Os161.Kern Os161.Lib Function

variable {live leak : Set UInt32} {m : SfsFs} {d : Disk} {f b : UInt32} {sv : SfsVnode}

/-! ## Giving a block back -/

/-- A block that has just lost its owner goes back to the free map. -/
theorem Sound.release (h : Sound live (insert b leak) m d) (hb : b ∉ leak) :
    ∃ fm, m.sfsFreemap.unmark b.toNat = some fm ∧
      Sound live leak { m with sfsFreemap := fm, sfsFreemapdirty := true } d := by
  have hu := h.ledger.used_of_leak (Set.mem_insert b leak)
  obtain ⟨fm, hfm, hflip⟩ := Bitmap.unmark_some (lt_of_used h.geom hu) hu
  refine ⟨fm, hfm, ?_⟩
  have hs := h.unmarkSpare (Set.mem_insert b leak) (mapFlip_put hflip)
  rwa [Set.insert_sdiff_self_of_notMem hb] at hs

/-! ## The direct blocks -/

/-- The inode without its direct blocks from `blocklen` on, as far as they are
in `is`. -/
def cutDirect (blocklen : Nat) (is : List (Fin 15)) (i : SfsInode) : SfsInode :=
  { i with sfiDirect := fun k => if blocklen ≤ k ∧ k ∈ is then 0 else i.sfiDirect k }

theorem cutDirect_nil (blocklen : Nat) (i : SfsInode) : cutDirect blocklen [] i = i := by
  simp [cutDirect]

variable {blocklen : Nat} {k : Fin 15} {is : List (Fin 15)} {i : SfsInode} {w : SfsWorld Unit}
  {c : SfsInode → SfsInode} {fm : Bitmap} {x : Faults}

theorem cutDirect_setDirect (hk : blocklen ≤ k) :
    cutDirect blocklen is (i.setDirect k 0) = cutDirect blocklen (k :: is) i := by
  simp only [cutDirect, SfsInode.setDirect, SfsInode.mk.injEq, true_and, and_true]
  funext j
  by_cases hj : j = k
  · subst hj
    simp [hk]
  · simp [hj]

theorem cutDirect_skip (hk : blocklen ≤ k → i.sfiDirect k = 0) :
    cutDirect blocklen is i = cutDirect blocklen (k :: is) i := by
  simp only [cutDirect, SfsInode.mk.injEq, true_and, and_true]
  funext j
  by_cases hj : j = k
  · subst hj
    by_cases hle : blocklen ≤ j
    · simp [hk hle]
    · simp [hle]
  · simp [hj]

/-- The file's vnode changes, and perhaps the free map. -/
structure Retouched (live leak : Set UInt32) (f : UInt32) (i : SfsInode) (w w' : SfsWorld Unit) :
    Prop where
  sound : Sound live leak w'.mem w'.disk
  frame : Frame (live \ {f}) w w'
  vnode : ∃ sv, w'.mem.sfsVnodes.get? f = some sv ∧ sv.svI = i
  counts : SameCounts f w w'
  disk : w'.disk = w.disk
  started : w'.started = w.started

theorem frame_retouch (hl : w.mem.sfsVnodes.get? f = some sv) :
    Frame (live \ {f}) w (w.withMem (SfsFs.withVnode
      { w.mem with sfsFreemap := fm, sfsFreemapdirty := true } f (SfsVnode.withInode c))) := by
  have hvnode : Frame (live \ {f}) w (w.withMem (w.mem.withVnode f (SfsVnode.withInode c))) :=
    Job.frame_withVnode (fun _ => rfl) hl
  exact hvnode.trans (.withMem rfl rfl rfl)

theorem counts_retouch (hl : w.mem.sfsVnodes.get? f = some sv) :
    SameCounts f w (w.withMem (SfsFs.withVnode
      { w.mem with sfsFreemap := fm, sfsFreemapdirty := true } f (SfsVnode.withInode c))) :=
  (Job.counts_withInode hl).trans (.of_get? rfl)

theorem wp_truncDirect {Q : Unit → SfsWorld Unit → Prop} (hs : Sound live leak w.mem w.disk)
    (hl : w.mem.sfsVnodes.get? f = some sv)
    (hQ : ∀ w', Retouched live leak f (cutDirect blocklen is sv.svI) w w' → Q () w') :
    wp (soloCtx x) (truncDirect f blocklen is) Q w := by
  induction is generalizing w sv with
  | nil =>
    refine hQ w ⟨hs, Frame.refl _ _, ⟨sv, hl, ?_⟩, .refl _ _, rfl, rfl⟩
    rw [cutDirect_nil]
  | cons k is ih =>
    rw [truncDirect, wp_bind, wp_vnode hl]
    by_cases hcut : blocklen ≤ k ∧ sv.svI.sfiDirect k ≠ 0
    · -- freed first and cleared in the inode afterwards: it makes no difference
      rw [if_pos hcut, wp_bind]
      have hb := (hs.ledger.owned (hs.own_direct hl hcut.2)).2
      obtain ⟨fm, hfm, hs'⟩ := (hs.abandonDirect hl hcut.2).release hb
      rw [wp_sfsBfree hfm, wp_bind, wp_setInode]
      have hl' : ({ w.mem with sfsFreemap := fm, sfsFreemapdirty := true }.withVnode f
          (SfsVnode.withInode (SfsInode.setDirect k 0))).sfsVnodes.get? f =
          some (SfsVnode.withInode (SfsInode.setDirect k 0) sv) :=
        VnodeArray.get?_update_self (fun _ => rfl) hl
      refine ih hs' hl' fun w' hw' => hQ w' ?_
      rw [show (SfsVnode.withInode (SfsInode.setDirect k 0) sv).svI =
        sv.svI.setDirect k 0 from rfl, cutDirect_setDirect hcut.1] at hw'
      exact ⟨hw'.sound, (frame_retouch hl).trans hw'.frame, hw'.vnode,
        (counts_retouch hl).trans hw'.counts, hw'.disk, hw'.started⟩
    · rw [if_neg hcut]
      refine ih hs hl fun w' hw' => hQ w' ?_
      rwa [cutDirect_skip fun hle => by_contra fun hne => hcut ⟨hle, hne⟩] at hw'

/-! ## The indirect block -/

/-- The disk as it will be when the buffer has been written to `idblock`. -/
abbrev shadow (idblock : UInt32) (w : SfsWorld Unit) : Disk :=
  update w.disk idblock w.mem.truncIdbuf

/-- What the loop over the entries from `start` on has done. -/
structure Swept (live leak : Set UInt32) (idblock : UInt32) (blocklen start : Nat)
    (hasnonzero iddirty : Bool) (w : SfsWorld Unit) (r : Bool × Bool) (w' : SfsWorld Unit) :
    Prop where
  sound : Sound live leak w'.mem (shadow idblock w')
  super : w'.mem.sfsSuper = w.mem.sfsSuper
  dBlocks : w'.mem.dBlocks = w.mem.dBlocks
  vnodes : w'.mem.sfsVnodes = w.mem.sfsVnodes
  disk : w'.disk = w.disk
  started : w'.started = w.started
  word : ∀ k < 128, w'.mem.truncIdbuf.word k =
    if start ≤ k ∧ blocklen < 15 + k then 0 else w.mem.truncIdbuf.word k
  nonzero : r.1 = true ↔
    hasnonzero = true ∨ ∃ k, start ≤ k ∧ k < 128 ∧ w'.mem.truncIdbuf.word k ≠ 0
  clean : r.2 = false → iddirty = false ∧ w'.mem.truncIdbuf = w.mem.truncIdbuf

/-- One entry is let go. -/
theorem Sound.dropEntry {j : Nat} (hl : w.mem.sfsVnodes.get? f = some sv)
    (h : Sound live leak w.mem (shadow sv.svI.sfiIndirect w)) (hi : sv.svI.sfiIndirect ≠ 0)
    (hj : j < 128) (h0 : w.mem.truncIdbuf.word j ≠ 0) :
    ∃ fm, w.mem.sfsFreemap.unmark (w.mem.truncIdbuf.word j).toNat = some fm ∧
      Sound live leak { w.mem with sfsFreemap := fm, sfsFreemapdirty := true }
        (update w.disk sv.svI.sfiIndirect (w.mem.truncIdbuf.setWord j 0)) := by
  have hinode : inodeOf w.mem (shadow sv.svI.sfiIndirect w) f = sv.svI := inodeOf_of_get? hl
  have hf := h.table.live hl
  have hblock : shadow sv.svI.sfiIndirect w sv.svI.sfiIndirect = w.mem.truncIdbuf :=
    update_self ..
  have hc : EntryChange (inodeOf w.mem (shadow sv.svI.sfiIndirect w) f)
      (shadow sv.svI.sfiIndirect w) j (w.mem.truncIdbuf.setWord j 0) := by
    rw [hinode]
    refine ⟨hi, hj, fun k hk hne => ?_⟩
    rw [hblock, Block.word_setWord hk, if_neg hne]
  have h0' : (shadow sv.svI.sfiIndirect w
      (inodeOf w.mem (shadow sv.svI.sfiIndirect w) f).sfiIndirect).word j ≠ 0 := by
    rw [hinode, hblock]
    exact h0
  have hown := owner_eq_some.2 ⟨hf, blk_entry hc, h0'⟩
  have hdrop := h.abandonEntry hf hc (by rw [Block.word_setWord hj, if_pos rfl]) h0'
  have hb := (h.ledger.owned hown).2
  rw [hinode, hblock] at hdrop hb
  obtain ⟨fm, hfm, hs⟩ := hdrop.release hb
  rw [shadow, update_idem] at hs
  exact ⟨fm, hfm, hs⟩

variable {idblock : UInt32} {r : Bool × Bool}

/-- Entry `start`, and then the others. -/
theorem Swept.step {start : Nat} {has has1 dirty dirty1 : Bool}
    {w1 w' : SfsWorld Unit}
    (h : Swept live leak idblock blocklen (start + 1) has1 dirty1 w1 r w') (hlt : start < 128)
    (hsuper : w1.mem.sfsSuper = w.mem.sfsSuper) (hdev : w1.mem.dBlocks = w.mem.dBlocks)
    (hvnodes : w1.mem.sfsVnodes = w.mem.sfsVnodes) (hdisk : w1.disk = w.disk)
    (hstarted : w1.started = w.started)
    (hword : ∀ k < 128, w1.mem.truncIdbuf.word k =
      if k = start ∧ blocklen < 15 + k then 0 else w.mem.truncIdbuf.word k)
    (hhas : has1 = true ↔ has = true ∨ w1.mem.truncIdbuf.word start ≠ 0)
    (hdirty : dirty1 = false → dirty = false ∧ w1.mem.truncIdbuf = w.mem.truncIdbuf) :
    Swept live leak idblock blocklen start has dirty w r w' where
  sound := h.sound
  super := h.super.trans hsuper
  dBlocks := h.dBlocks.trans hdev
  vnodes := h.vnodes.trans hvnodes
  disk := h.disk.trans hdisk
  started := h.started.trans hstarted
  word k hk := by
    rw [h.word k hk, hword k hk]
    by_cases hlow : blocklen < 15 + k
    · by_cases he : k = start
      · rw [if_neg (by omega), if_pos ⟨he, hlow⟩, if_pos (by omega)]
      · by_cases hle : start ≤ k
        · rw [if_pos (by omega), if_pos ⟨hle, hlow⟩]
        · rw [if_neg (by omega), if_neg (by omega), if_neg (by omega)]
    · rw [if_neg (by omega), if_neg (by omega), if_neg (by omega)]
  nonzero := by
    have hsame : w'.mem.truncIdbuf.word start = w1.mem.truncIdbuf.word start := by
      rw [h.word start hlt, if_neg (by omega)]
    rw [h.nonzero, hhas, ← hsame, or_assoc]
    refine or_congr Iff.rfl ⟨?_, ?_⟩
    · rintro (hne | ⟨k, hk, hk', hne⟩)
      · exact ⟨start, le_rfl, hlt, hne⟩
      · exact ⟨k, by omega, hk', hne⟩
    · rintro ⟨k, hk, hk', hne⟩
      by_cases he : k = start
      · exact .inl (he ▸ hne)
      · exact .inr ⟨k, by omega, hk', hne⟩
  clean hr := by
    obtain ⟨hd1, hbuf⟩ := h.clean hr
    obtain ⟨hd, hbuf'⟩ := hdirty hd1
    exact ⟨hd, hbuf.trans hbuf'⟩

theorem wp_truncEntries {left : Nat} {hasnonzero iddirty : Bool}
    {Q : Bool × Bool → SfsWorld Unit → Prop} (hleft : left ≤ 128)
    (hl : w.mem.sfsVnodes.get? f = some sv) (hi : sv.svI.sfiIndirect ≠ 0)
    (hs : Sound live leak w.mem (shadow sv.svI.sfiIndirect w))
    (hQ : ∀ r w', Swept live leak sv.svI.sfiIndirect blocklen (128 - left) hasnonzero iddirty
      w r w' → Q r w') : wp (soloCtx x) (truncEntries blocklen left hasnonzero iddirty) Q w := by
  induction left generalizing w hasnonzero iddirty with
  | zero =>
    refine hQ _ w ⟨hs, rfl, rfl, rfl, rfl, rfl, fun k hk => ?_, ?_, fun hd => ⟨hd, rfl⟩⟩
    · rw [if_neg (by omega)]
    · constructor
      · exact .inl
      · rintro (hh | ⟨k, hk, hk', -⟩)
        · exact hh
        · omega
  | succ left ih =>
    rw [truncEntries, wp_bind, wp_mem]
    have hlt : 128 - (left + 1) < 128 := by omega
    have hstart : 128 - left = 128 - (left + 1) + 1 := by omega
    dsimp only [sfsDbperidb, sfsNdirect]
    generalize 128 - (left + 1) = j at hQ hlt hstart ⊢
    by_cases hcut : blocklen < 15 + j ∧ w.mem.truncIdbuf.word j ≠ 0
    · rw [if_pos hcut, wp_bind]
      obtain ⟨fm, hfm, hs'⟩ := Sound.dropEntry hl hs hi hlt hcut.2
      rw [wp_sfsBfree hfm, wp_bind, wp_modify]
      refine ih (by omega) hl (hs'.bufOnly ⟨rfl, rfl, rfl, rfl, rfl, rfl⟩) fun r w' hw' => ?_
      rw [hstart] at hw'
      refine hQ r w' (hw'.step hlt rfl rfl rfl rfl rfl (fun k hk => ?_) ?_ fun hd => ?_)
      · show (w.mem.truncIdbuf.setWord j 0).word k = _
        rw [Block.word_setWord hk]
        by_cases he : k = j
        · rw [if_pos he, if_pos ⟨he, he ▸ hcut.1⟩]
        · rw [if_neg he, if_neg fun hc => he hc.1]
      · show _ ↔ _ ∨ (w.mem.truncIdbuf.setWord j 0).word j ≠ 0
        simp [Block.word_setWord hlt]
      · cases hd
    · rw [if_neg hcut]
      refine ih (by omega) hl hs fun r w' hw' => ?_
      rw [hstart] at hw'
      refine hQ r w' (hw'.step hlt rfl rfl rfl rfl rfl (fun k hk => ?_) ?_ fun hd => ⟨hd, rfl⟩)
      · split
        · next hk =>
          obtain ⟨rfl, hlow⟩ := hk
          exact by_contra fun hne => hcut ⟨hlow, hne⟩
        · rfl
      · simp

section
variable {w : SfsWorld Unit}

/-! ## The indirect block itself -/

/-- Some entry of the indirect block stays. -/
def KeepsEntry (blocklen : Nat) (x : Block) : Prop := ∃ k < 128, 15 + k ≤ blocklen ∧ x.word k ≠ 0

/-- What becomes of the indirect block of an inode `i`. -/
inductive Indirect (blocklen : Nat) (i : SfsInode) (d : Disk) : SfsInode → Disk → Prop where
  | freed : ¬ KeepsEntry blocklen (d i.sfiIndirect) →
      Indirect blocklen i d (i.setIndirect 0) d
  | kept {x : Block} : KeepsEntry blocklen (d i.sfiIndirect) →
      (∀ k < 128, x.word k = if blocklen < 15 + k then 0 else (d i.sfiIndirect).word k) →
      Indirect blocklen i d i (update d i.sfiIndirect x)

/-- A file has lost blocks; the rest of the volume has not noticed. -/
structure Trimmed (live leak : Set UInt32) (f : UInt32) (i : SfsInode) (d : Disk)
    (w w' : SfsWorld Unit) : Prop where
  sound : Sound live leak w'.mem w'.disk
  frame : Frame (live \ {f}) w w'
  vnode : ∃ sv, w'.mem.sfsVnodes.get? f = some sv ∧ sv.svI = i
  counts : SameCounts f w w'
  disk : w'.disk = d
  started : w'.started = w.started

variable {blocklen : Nat} {w' : SfsWorld Unit} {x : Faults}
  {Q : Except Errno Unit → SfsWorld Unit → Prop} {i i' : SfsInode} {d' : Disk} {len : UInt32}

theorem Swept.nonzero_iff (h : Swept live leak idblock blocklen 0 false false w r w') :
    r.1 = true ↔ KeepsEntry blocklen w.mem.truncIdbuf := by
  rw [h.nonzero]
  constructor
  · rintro (hf | ⟨k, -, hk, hne⟩)
    · cases hf
    · rw [h.word k hk] at hne
      split at hne
      · exact absurd rfl hne
      · next hc => exact ⟨k, hk, by omega, hne⟩
  · rintro ⟨k, hk, hle, hne⟩
    refine .inr ⟨k, Nat.zero_le _, hk, ?_⟩
    rwa [h.word k hk, if_neg (by omega)]

theorem view_of_vnodes {m' : SfsFs} {g : UInt32} (h : m'.sfsVnodes = m.sfsVnodes) :
    view m' d g = view m d g := by
  rw [view, view, inodeOf, inodeOf, h]

theorem wp_truncIndirect [Stores (soloCtx x)] (hs : Sound live leak w.mem w.disk)
    (hl : w.mem.sfsVnodes.get? f = some sv) (hi : sv.svI.sfiIndirect ≠ 0) (hst : w.started = true)
    (hQ : ∀ i d w', Indirect blocklen sv.svI w.disk i d → Trimmed live leak f i d w w' →
      Q (.ok ()) w') (hread : ∀ e, x.rd e → Q (.error e.errno) w) :
    wpE (soloCtx x) (truncIndirect f sv.svI.sfiIndirect blocklen) Q w := by
  have hown := hs.own_indirect hl hi
  have hin := hs.inVolume_own hown
  rw [truncIndirect, wpE_call_bind, wp_mem, wpE_bind]
  refine solo_rblock hs.geom hst hin.last ?_ hread
  dsimp only
  rw [wpE_call_bind, wp_modify, wpE_call_bind]
  have hshadow : Sound live leak { w.mem with truncIdbuf := w.disk sv.svI.sfiIndirect }
      (update w.disk sv.svI.sfiIndirect (w.disk sv.svI.sfiIndirect)) := by
    rw [update_eq_self]
    exact hs.bufOnly ⟨rfl, rfl, rfl, rfl, rfl, rfl⟩
  refine wp_truncEntries (Nat.le_refl 128) hl hi hshadow fun r w1 h1 => ?_
  have hkeeps : r.1 = true ↔ KeepsEntry blocklen (w.disk sv.svI.sfiIndirect) := h1.nonzero_iff
  have hdisk : w1.disk = w.disk := h1.disk
  have hvnodes : w1.mem.sfsVnodes = w.mem.sfsVnodes := h1.vnodes
  have hsuper : w1.mem.sfsSuper = w.mem.sfsSuper := h1.super
  have hdev : w1.mem.dBlocks = w.mem.dBlocks := h1.dBlocks
  have hl1 : w1.mem.sfsVnodes.get? f = some sv := by
    rw [hvnodes]
    exact hl
  have hword : ∀ k < 128, w1.mem.truncIdbuf.word k =
      if blocklen < 15 + k then 0 else (w.disk sv.svI.sfiIndirect).word k := by
    intro k hk
    have hk' := h1.word k hk
    simpa using hk'
  by_cases hr : r.1 = true
  · rw [if_neg (by simpa using hr)]
    -- the shadow is real, if only because it is no different
    have hkept : ∀ w' : SfsWorld Unit, w'.mem = w1.mem →
        w'.disk = update w.disk sv.svI.sfiIndirect w1.mem.truncIdbuf →
        w'.started = w1.started → Q (.ok ()) w' := by
      intro w' hm hd hs'
      refine hQ _ _ w' (.kept (hkeeps.1 hr) hword) ⟨?_, ⟨?_, ?_, fun g hg => ⟨?_, ?_⟩⟩, ?_,
        .of_get? ?_, hd, hs'.trans h1.started⟩
      · have hsound := h1.sound
        rw [shadow, hdisk] at hsound
        rwa [hm, hd]
      · rw [hm, hsuper]
      · rw [hm, hdev]
      · rw [SfsWorld.get?, hm, hvnodes]
      · rw [SfsWorld.view, hm, hd, view_of_vnodes hvnodes]
        exact view_store_other hs hown hg.1 hg.2 (by simp)
      · exact ⟨sv, by rw [hm]; exact hl1, rfl⟩
      · rw [SfsWorld.get?, hm, hvnodes]
    by_cases hd : r.2 = true
    · rw [if_pos hd, ← hdev]
      refine solo_wblock h1.sound.geom (h1.started.trans hst) ?_ (hkept _ rfl ?_ rfl)
      · rw [nblocks, hsuper]
        exact hin.last
      · rw [World.store_disk, hdisk]
    · rw [if_neg hd]
      have hbuf : w1.mem.truncIdbuf = w.disk sv.svI.sfiIndirect :=
        (h1.clean (by simpa using hd)).2
      exact hkept w1 rfl (by rw [hbuf, update_eq_self, hdisk]) rfl
  · rw [if_pos (by simpa using hr), wpE_call_bind]
    have hgone : ¬ KeepsEntry blocklen (w.disk sv.svI.sfiIndirect) := fun hk => hr (hkeeps.2 hk)
    have hzero : ∀ k < 128,
        (shadow sv.svI.sfiIndirect w1 sv.svI.sfiIndirect).word k = 0 := by
      intro k hk
      rw [shadow, update_self, hword k hk]
      split
      · rfl
      · next hle => exact by_contra fun hne => hgone ⟨k, hk, by omega, hne⟩
    -- once it has no owner, what the block holds does not matter
    have hdrop := (h1.sound.abandonIndirect hl1 hi hzero).storeSpare (Set.mem_insert _ _)
      (x := w.disk sv.svI.sfiIndirect)
    rw [shadow, update_idem, hdisk, update_eq_self] at hdrop
    obtain ⟨fm, hfm, hs'⟩ := hdrop.release (hs.ledger.owned hown).2
    rw [wp_sfsBfree hfm, wpE_call, wp_setInode]
    refine hQ _ _ _ (.freed hgone) ⟨?_, ?_, ⟨_, VnodeArray.get?_update_self (fun _ => rfl) hl1,
      rfl⟩, ?_, hdisk, h1.started⟩
    · rw [World.withMem_disk, World.withMem_disk, hdisk]
      exact hs'
    · refine Frame.trans ⟨hsuper, hdev, fun g hg => ⟨?_, ?_⟩⟩ (frame_retouch hl1)
      · rw [SfsWorld.get?, hvnodes]
      · rw [SfsWorld.view, hdisk, view_of_vnodes hvnodes]
    · have hsame : SfsWorld.get? w1 f = SfsWorld.get? w f := by rw [SfsWorld.get?, hvnodes]
      exact (SameCounts.of_get? hsame).trans (counts_retouch hl1)

/-! ## The whole of it -/

/-- The blocks of a file that `sfs_truncate` lets go of. -/
def Dropped (blocklen fb : Nat) : Prop :=
  (fb < 15 ∧ blocklen ≤ fb) ∨ (15 ≤ fb ∧ blocklen < 142 ∧ blocklen < fb)

instance (blocklen fb : Nat) : Decidable (Dropped blocklen fb) :=
  inferInstanceAs (Decidable (_ ∨ _))

theorem ptrOf_cutDirect (fb : Nat) : ptrOf (cutDirect blocklen (List.finRange 15) i) d fb =
      if fb < 15 ∧ blocklen ≤ fb then 0 else ptrOf i d fb := by
  unfold ptrOf
  by_cases hfb : fb < 15
  · simp [hfb, cutDirect]
  · have hc : ¬ (fb < 15 ∧ blocklen ≤ fb) := fun hn => hfb hn.1
    rw [dif_neg hfb, dif_neg hfb, if_neg hc]
    rfl

/-- An entry of the indirect block as a block of the file. -/
theorem ptrOf_entry_word (h0 : i.sfiIndirect ≠ 0) {k : Nat} (hk : k < 128) :
    ptrOf i d (15 + k) = (d i.sfiIndirect).word k := by
  rw [ptrOf, dif_neg (by omega), if_pos ⟨by omega, h0⟩, Nat.add_sub_cancel_left]

theorem ptrOf_past {fb : Nat} (h : 143 ≤ fb) : ptrOf i d fb = 0 := by
  rw [ptrOf, dif_neg (by omega), if_neg (by omega)]

theorem keepsEntry_iff (h0 : i.sfiIndirect ≠ 0) :
    KeepsEntry blocklen (d i.sfiIndirect) ↔ ∃ fb, 15 ≤ fb ∧ fb ≤ blocklen ∧ ptrOf i d fb ≠ 0 := by
  constructor
  · rintro ⟨k, hk, hle, hne⟩
    exact ⟨15 + k, by omega, hle, by rwa [ptrOf_entry_word h0 hk]⟩
  · rintro ⟨fb, hlo, hle, hne⟩
    have hlt : fb < 143 := by
      by_contra hge
      exact hne (ptrOf_past (by omega))
    refine ⟨fb - 15, by omega, by omega, ?_⟩
    rwa [← ptrOf_entry_word h0 (by omega), Nat.add_sub_cancel' hlo]

theorem Indirect.ptr (h : Indirect blocklen i d i' d') (h0 : i.sfiIndirect ≠ 0) (fb : Nat) :
    ptrOf i' d' fb = if 15 ≤ fb ∧ blocklen < fb then 0 else ptrOf i d fb := by
  by_cases hlo : fb < 15
  · rw [if_neg (by omega)]
    cases h <;> simp only [ptrOf, dif_pos hlo, SfsInode.setIndirect]
  by_cases hhi : 143 ≤ fb
  · rw [ptrOf_past hhi, ptrOf_past hhi, ite_self]
  obtain ⟨k, rfl⟩ : ∃ k, fb = 15 + k := ⟨fb - 15, by omega⟩
  cases h with
  | freed hgone =>
    have hz : ptrOf (i.setIndirect 0) d (15 + k) = 0 := by
      rw [ptrOf, dif_neg (by omega), if_neg fun hc => hc.2 rfl]
    rw [hz]
    split
    · rfl
    · next hc =>
      rw [ptrOf_entry_word h0 (by omega)]
      by_contra hne
      exact hgone ⟨k, by omega, by omega, fun he => hne he.symm⟩
  | kept _ hword =>
    rw [ptrOf_entry_word h0 (by omega), ptrOf_entry_word h0 (by omega), update_self,
      hword k (by omega)]
    by_cases hc : blocklen < 15 + k
    · rw [if_pos hc, if_pos ⟨by omega, hc⟩]
    · rw [if_neg hc, if_neg fun hn => hc hn.2]

theorem Indirect.indirect (h : Indirect blocklen i d i' d') (h0 : i.sfiIndirect ≠ 0) :
    (i'.sfiIndirect = 0 ∧ ∀ fb, 15 ≤ fb → fb ≤ blocklen → ptrOf i d fb = 0) ∨
      (i'.sfiIndirect = i.sfiIndirect ∧ ∃ fb, 15 ≤ fb ∧ fb ≤ blocklen ∧ ptrOf i d fb ≠ 0) := by
  cases h with
  | freed hgone =>
    refine .inl ⟨rfl, fun fb hlo hle => by_contra fun hne => hgone ?_⟩
    exact (keepsEntry_iff h0).2 ⟨fb, hlo, hle, hne⟩
  | kept hkeeps _ => exact .inr ⟨rfl, (keepsEntry_iff h0).1 hkeeps⟩

theorem Indirect.disk (h : Indirect blocklen i d i' d') (hb : b ≠ i.sfiIndirect) : d' b = d b := by
  cases h with
  | freed _ => rfl
  | kept _ _ => exact update_of_ne hb ..

/-- What a truncation has done to a file. -/
structure Cut (live leak : Set UInt32) (f : UInt32) (blocklen : Nat) (len : UInt32)
    (w w' : SfsWorld Unit) : Prop where
  sound : Sound live leak w'.mem w'.disk
  frame : Frame (live \ {f}) w w'
  loaded : ∃ sv, w'.mem.sfsVnodes.get? f = some sv
  counts : SameCounts f w w'
  started : w'.started = w.started
  size : (w'.view f).inode.sfiSize = len
  ptr : ∀ fb, (w'.view f).ptr fb =
    if Dropped blocklen fb then 0 else (w.view f).ptr fb
  gone : blocklen < 142 →
    (∀ fb, 15 ≤ fb → fb ≤ blocklen → (w.view f).ptr fb = 0) →
    (w'.view f).inode.sfiIndirect = 0
  stays : (142 ≤ blocklen ∨
      ∃ fb, 15 ≤ fb ∧ fb ≤ blocklen ∧ (w.view f).ptr fb ≠ 0) →
    (w'.view f).inode.sfiIndirect = (w.view f).inode.sfiIndirect
  data : ∀ fb, (w.view f).ptr fb ≠ 0 →
    w'.disk ((w.view f).ptr fb) = w.disk ((w.view f).ptr fb)

/-- What is left to do once the blocks are gone. -/
theorem Trimmed.cut (h : Trimmed live leak f i d w w') (hl : w.mem.sfsVnodes.get? f = some sv)
    (hptr : ∀ fb, ptrOf i d fb = if Dropped blocklen fb then 0 else ptrOf sv.svI w.disk fb)
    (hgone : blocklen < 142 → (∀ fb, 15 ≤ fb → fb ≤ blocklen → ptrOf sv.svI w.disk fb = 0) →
      i.sfiIndirect = 0)
    (hstays : (142 ≤ blocklen ∨ ∃ fb, 15 ≤ fb ∧ fb ≤ blocklen ∧ ptrOf sv.svI w.disk fb ≠ 0) →
      i.sfiIndirect = sv.svI.sfiIndirect)
    (hdata : ∀ fb, ptrOf sv.svI w.disk fb ≠ 0 →
      d (ptrOf sv.svI w.disk fb) = w.disk (ptrOf sv.svI w.disk fb)) :
    Cut live leak f blocklen len w
      (w'.withMem (w'.mem.withVnode f (SfsVnode.withInode (SfsInode.setSize len)))) := by
  obtain ⟨sv', hl', rfl⟩ := h.vnode
  obtain rfl := h.disk
  have hold : w.view f = fileView sv.svI w.disk := view_of_get? hl
  have hnew : SfsWorld.view
      (w'.withMem (w'.mem.withVnode f (SfsVnode.withInode (SfsInode.setSize len)))) f =
      fileView (sv'.svI.setSize len) w'.disk := Job.view_withMem_inode hl'
  have hpt : ptrOf (sv'.svI.setSize len) w'.disk = ptrOf sv'.svI w'.disk :=
    ptrOf_congr rfl rfl
  refine ⟨h.sound.keepBlocks (.withInode h.sound hl' rfl) rfl rfl,
    h.frame.trans (Job.frame_withVnode (fun _ => rfl) hl'),
    ⟨_, VnodeArray.get?_update_self (fun _ => rfl) hl'⟩, h.counts.trans (Job.counts_withInode hl'),
    h.started, ?_, ?_, ?_, ?_, ?_⟩
  · rw [hnew]
    rfl
  · intro fb
    rw [hnew, hold]
    show ptrOf (sv'.svI.setSize len) w'.disk fb = _
    rw [hpt]
    exact hptr fb
  · rw [hnew, hold]
    exact hgone
  · rw [hnew, hold]
    exact hstays
  · rw [hold]
    exact hdata

/-- The indirect block could not be read, and the direct blocks are gone. -/
structure Halfway (live leak : Set UInt32) (f : UInt32) (blocklen : Nat) (i : SfsInode)
    (w w' : SfsWorld Unit) : Prop where
  cut : Retouched live leak f (cutDirect blocklen (List.finRange 15) i) w w'
  indirect : i.sfiIndirect ≠ 0

theorem wp_truncate [Stores (soloCtx x)] (hs : Sound live leak w.mem w.disk)
    (hl : w.mem.sfsVnodes.get? f = some sv)
    (hst : w.started = true)
    (hQ : ∀ w', Cut live leak f (truncBlocklen len) len w w' → Q (.ok ()) w')
    (hread : ∀ e w', x.rd e → Halfway live leak f (truncBlocklen len) sv.svI w w' →
      Q (.error e.errno) w') :
    wpE (soloCtx x) (sfsTruncate f len) Q w := by
  rw [sfsTruncate, wpE_call_bind]
  generalize truncBlocklen len = blocklen at hQ hread ⊢
  refine wp_truncDirect hs hl fun w1 h1 => ?_
  obtain ⟨sv1, hl1, hi1⟩ := h1.vnode
  have hind1 : sv1.svI.sfiIndirect = sv.svI.sfiIndirect := by
    rw [hi1]
    rfl
  have hptr1 : ∀ fb, ptrOf sv1.svI w.disk fb =
      if fb < 15 ∧ blocklen ≤ fb then 0 else ptrOf sv.svI w.disk fb := by
    intro fb
    rw [hi1]
    exact ptrOf_cutDirect fb
  rw [wpE_call_bind, wp_vnode hl1]
  dsimp only [sfsNdirect, sfsDbperidb]
  by_cases hc : blocklen < 142 ∧ sv1.svI.sfiIndirect ≠ 0
  · rw [if_pos hc, wpE_bind]
    refine wp_truncIndirect h1.sound hl1 hc.2 (h1.started.trans hst) (fun i d w2 hi ht => ?_)
      fun e he => hread e w1 he ⟨h1, hind1 ▸ hc.2⟩
    rw [wpE_call, wp_setInode]
    rw [h1.disk] at hi
    refine hQ _ (Trimmed.cut ⟨ht.sound, h1.frame.trans ht.frame, ht.vnode,
      h1.counts.trans ht.counts, ht.disk, ht.started.trans h1.started⟩ hl
      (fun fb => ?_) (fun _ hnone => ?_) (fun hsome => ?_) fun fb hne => ?_)
    · rw [hi.ptr hc.2, hptr1]
      have hdropped : Dropped blocklen fb ↔
          (15 ≤ fb ∧ blocklen < fb) ∨ (fb < 15 ∧ blocklen ≤ fb) := by
        unfold Dropped
        omega
      by_cases h15 : 15 ≤ fb ∧ blocklen < fb
      · rw [if_pos h15, if_pos (hdropped.2 (.inl h15))]
      · rw [if_neg h15]
        exact if_congr (by rw [hdropped]; exact (or_iff_right h15).symm) rfl rfl
    · rcases hi.indirect hc.2 with ⟨hz, -⟩ | ⟨-, fb, hlo, hle, hne⟩
      · exact hz
      · rw [hptr1, if_neg (by omega)] at hne
        exact absurd (hnone fb hlo hle) hne
    · rcases hi.indirect hc.2 with ⟨-, hnone⟩ | ⟨hsame, -⟩
      · obtain hge | ⟨fb, hlo, hle, hne⟩ := hsome
        · omega
        · have := hnone fb hlo hle
          rw [hptr1, if_neg (by omega)] at this
          exact absurd this hne
      · exact hsame.trans hind1
    · refine hi.disk fun he => ?_
      -- a data block is not the indirect block
      rw [hind1] at hc he
      have hdata : owner live (view w.mem w.disk) (f, .data fb) = some sv.svI.sfiIndirect := by
        refine owner_eq_some.2 ⟨hs.table.live hl, ?_, hc.2⟩
        rw [view_of_get? hl]
        exact he
      have := hs.ledger.inj hdata (hs.own_indirect hl hc.2)
      cases this
  · rw [if_neg hc, wpE_call, wp_setInode]
    rw [hind1] at hc
    refine hQ _ (Trimmed.cut ⟨h1.sound, h1.frame, ⟨sv1, hl1, rfl⟩, h1.counts, h1.disk,
      h1.started⟩ hl (fun fb => ?_)
      (fun hlt _ => ?_) (fun _ => hind1) fun _ _ => rfl)
    · rw [hptr1]
      by_cases hin : 15 ≤ fb ∧ blocklen < 142 ∧ blocklen < fb
      · have h0 : sv.svI.sfiIndirect = 0 := by_contra fun hne => hc ⟨hin.2.1, hne⟩
        rw [if_neg (by omega), if_pos (.inr hin), ptrOf, dif_neg (by omega),
          if_neg fun hn => hn.2 h0]
      · exact if_congr (or_iff_left hin).symm rfl rfl
    · rw [hind1]
      exact by_contra fun hne => hc ⟨hlt, hne⟩

/-- A byte of a block that is kept is still there. -/
theorem Cut.byte (h : Cut live leak f blocklen len w w') (p : Nat) : (w'.view f).byte p =
      if Dropped blocklen (p / 512) then 0 else (w.view f).byte p := by
  have hb : ∀ v : SfsWorld Unit, (SfsWorld.view v f).byte p =
      if (SfsWorld.view v f).ptr (p / 512) = 0 then 0
      else (v.disk ((SfsWorld.view v f).ptr (p / 512))).byte (p % 512) := fun v => rfl
  rw [hb, hb, h.ptr]
  by_cases hd : Dropped blocklen (p / 512)
  · rw [if_pos hd, if_pos rfl, if_pos hd]
  · rw [if_neg hd, if_neg hd]
    by_cases h0 : (w.view f).ptr (p / 512) = 0
    · rw [if_pos h0, if_pos h0]
    · rw [if_neg h0, if_neg h0, h.data _ h0]

end

end Os161.Sfs
