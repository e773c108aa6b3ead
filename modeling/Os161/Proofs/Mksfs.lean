import Os161.Proofs.Bmap
import Os161.Proofs.Mount
import Os161.Sfs.Mksfs

/-!
# A new volume

`mksfs` and the kernel have the format in common and no code. The first half of
this file follows `mksfs`: which bits it sets, and that it sets none of them
twice, which `doallocbit` would notice. `FreshDisk` is what it leaves on disk.
The second half mounts such a disk: the structure that `sfs_domount` builds
satisfies the invariant of a volume with nothing on it, and from there
`sfs_balloc` and `sfs_bfree` are followed through any sequence of calls.

The macros of `kern/sfs.h` compute with 32 bits. For sizes close to `2 ^ 32`
`SFS_ROUNDUP` wraps around, but the number of bitmap blocks, taken as a number,
is then far beyond what `mksfs` has room for.
-/

namespace Os161.Sfs

open Os161.Kern Os161.Lib Function

/-! ## Setting bits -/

variable {b : Bitmap}

theorem doallocbit_ok {i : Nat} (hi : i < b.nbits) (h : b.isset i = false) :
    ∃ b', doallocbit b i = .ok b' ∧ b.Flip b' i true := by
  obtain ⟨b', hm, hf⟩ := Bitmap.mark_some hi h
  refine ⟨b', ?_, hf⟩
  rw [Bitmap.mark] at hm
  split at hm
  · next hc =>
    rw [doallocbit]
    show (if b.word (i / 8) &&& Bitmap.mask (i % 8) = 0 then _ else _) = _
    rw [if_pos hc.2]
    exact congrArg Except.ok (Option.some.inj hm)
  · cases hm

/-- A run of clear bits. -/
theorem doallocbits_ok (start count : Nat) (hi : start + count ≤ b.nbits)
    (h : ∀ i, start ≤ i → i < start + count → b.isset i = false) :
    ∃ b', doallocbits b start count = .ok b' ∧ b'.nbits = b.nbits ∧
      ∀ i, b'.isset i = (decide (start ≤ i ∧ i < start + count) || b.isset i) := by
  induction count generalizing b start with
  | zero =>
    refine ⟨b, rfl, rfl, fun i => ?_⟩
    rw [decide_eq_false (by omega), Bool.false_or]
  | succ count ih =>
    obtain ⟨b1, h1, hf⟩ := doallocbit_ok (i := start) (by omega) (h _ (by omega) (by omega))
    obtain ⟨b2, h2, hn, hs⟩ := @ih b1 (start + 1) (by rw [hf.nbits]; omega)
      fun i hl hr => by
      rw [hf.isset, if_neg (by omega)]
      exact h i (by omega) (by omega)
    refine ⟨b2, ?_, hn.trans hf.nbits, fun i => ?_⟩
    · rw [doallocbits, List.range'_succ, List.foldlM_cons, h1]
      exact h2
    · rw [hs, hf.isset]
      split
      · next he =>
        subst he
        rw [decide_eq_true (show i ≤ i ∧ i < i + (count + 1) by omega), Bool.or_true,
          Bool.true_or]
      · next he =>
        have hd : decide (start + 1 ≤ i ∧ i < start + 1 + count) =
            decide (start ≤ i ∧ i < start + (count + 1)) := decide_eq_decide.2 (by omega)
        rw [hd]

theorem isset_bitbuf (i : Nat) : bitbuf.isset i = false := by
  have hw : bitbuf.word (i / 8) = 0 := by
    rw [Bitmap.word, bitbuf, List.getD_eq_getElem?_getD, List.getElem?_replicate]
    split <;> rfl
  rw [Bitmap.isset, hw, UInt8.zero_and]
  rfl

/-- The blocks in use on a new volume, and what is past its end. -/
def Initial (size i : Nat) : Prop := i < 2 + bitblocks size ∨ (size ≤ i ∧ i < bitblocks size * 4096)

instance (size i : Nat) : Decidable (Initial size i) := inferInstanceAs (Decidable (_ ∨ _))

/-- No bit is set twice: the reserved blocks are at the beginning, and the bits
past the end start behind them. -/
theorem fillbitmap_ok {size : UInt32} (hroom : 2 + bitblocks size.toNat ≤ size.toNat)
    (hmax : bitblocks size.toNat ≤ 32) :
    ∃ b, fillbitmap size = .ok b ∧ ∀ i, b.isset i = decide (Initial size.toNat i) := by
  have hb : bitblocks size.toNat = (size.toNat + 4095) / 4096 := rfl
  have hbits := toNat_sfsBitmapsize (n := size) (by omega)
  have hblocks := toNat_sfsBitblocks (n := size) (by omega)
  obtain ⟨b0, h0, hf0⟩ := doallocbit_ok (b := bitbuf) (i := 0) (by decide) (isset_bitbuf _)
  obtain ⟨b1, h1, hf1⟩ := doallocbit_ok (b := b0) (i := 1)
    (by rw [hf0.nbits]; decide) (by rw [hf0.isset, if_neg (by decide)]; exact isset_bitbuf _)
  have hn1 : b1.nbits = 131072 := hf1.nbits.trans hf0.nbits
  have hs1 : ∀ i, b1.isset i = decide (i < 2) := fun i => by
    rw [hf1.isset, hf0.isset, isset_bitbuf]
    by_cases h : i = 1
    · simp [h]
    · by_cases h' : i = 0
      · simp [h']
      · rw [if_neg h, if_neg h', decide_eq_false (by omega)]
  obtain ⟨b2, h2, hn2, hs2⟩ := doallocbits_ok (b := b1) 2 (bitblocks size.toNat) (by omega)
     fun i hl _ => by
      rw [hs1, decide_eq_false (by omega)]
  obtain ⟨b3, h3, hn3, hs3⟩ := doallocbits_ok (b := b2) size.toNat
    (bitblocks size.toNat * 4096 - size.toNat) (by omega) fun i hl _ => by
      rw [hs2, hs1, decide_eq_false (by omega), decide_eq_false (by omega)]
      rfl
  refine ⟨b3, ?_, fun i => ?_⟩
  · rw [fillbitmap, hbits, hblocks]
    show (doallocbit bitbuf 0 >>= fun b => doallocbit b 1 >>= fun b => doallocbits b 2 _ >>=
      fun b => doallocbits b _ _) = _
    rw [h0]
    show (doallocbit b0 1 >>= _) = _
    rw [h1]
    show (doallocbits b1 2 _ >>= _) = _
    rw [h2]
    exact h3
  · rw [hs3, hs2, hs1, ← Bool.decide_or, ← Bool.decide_or]
    refine decide_eq_decide.2 ?_
    unfold Initial
    omega

theorem dumpbitmap_succ (b : Bitmap) (d : Disk) (count : Nat) :
    dumpbitmap b d (count + 1) = diskwrite (dumpbitmap b d count) (b.getBlock count)
      (sfsMapLocation + UInt32.ofNat count) := by
  rw [dumpbitmap, List.range_succ, List.foldl_append]
  rfl

variable {d : Disk}

/-- The map is where it belongs, and the blocks in front of it are as they
were. -/
theorem dumpbitmap_apply {count : Nat} (h : count ≤ 32) :
    (∀ j < count, dumpbitmap b d count (sfsMapLocation + UInt32.ofNat j) = b.getBlock j) ∧
    ∀ x : UInt32, x.toNat < 2 → dumpbitmap b d count x = d x := by
  induction count with
  | zero => exact ⟨fun j hj => by omega, fun _ _ => rfl⟩
  | succ count ih =>
    obtain ⟨hmap, hfront⟩ := ih (by omega)
    have hc := @toNat_mapLocation count (by omega)
    rw [dumpbitmap_succ]
    refine ⟨fun j hj => ?_, fun x hx => ?_⟩
    · by_cases he : j = count
      · rw [he]
        exact update_self ..
      · have hne : sfsMapLocation + UInt32.ofNat j ≠ sfsMapLocation + UInt32.ofNat count := by
          intro h'
          have := @toNat_mapLocation j (by omega)
          rw [h'] at this
          omega
        exact (update_of_ne hne ..).trans (hmap j (by omega))
    · have hne : x ≠ sfsMapLocation + UInt32.ofNat count := by
        rintro rfl
        omega
      exact (update_of_ne hne ..).trans (hfront x hx)

/-! ## The disk that `mksfs` leaves -/

structure FreshDisk (size : UInt32) (d : Disk) : Prop where
  magic : (superOfBlock (d sfsSbLocation)).spMagic = sfsMagic
  nblocks : (superOfBlock (d sfsSbLocation)).spNblocks = size
  root : d sfsRootLocation = newRoot.toBlock
  map : ∃ b : Bitmap, (∀ i, b.isset i = decide (Initial size.toNat i)) ∧
    ∀ j < bitblocks size.toNat, d (sfsMapLocation + UInt32.ofNat j) = b.getBlock j

/-- A name that `mksfs` accepts. -/
def GoodVolname (volname : CString) : Prop :=
  ∃ name, checkVolname volname = .ok name ∧ name.strlen < sfsVolnameSize

theorem mksfs_ok {volname : CString} {size : UInt32} (hname : GoodVolname volname)
    (hroom : 2 + bitblocks size.toNat ≤ size.toNat) (hmax : bitblocks size.toNat ≤ 32)
    (disk : Disk) : ∃ d, mksfs volname size disk = .ok d ∧ FreshDisk size d := by
  obtain ⟨name, hcheck, hlen⟩ := hname
  obtain ⟨b, hfill, hset⟩ := fillbitmap_ok hroom hmax
  have hblocks : (sfsBitblocks size).toNat = bitblocks size.toNat := by
    refine toNat_sfsBitblocks ?_
    have : bitblocks size.toNat = (size.toNat + 4095) / 4096 := rfl
    omega
  obtain ⟨d0, hsuper, hd0⟩ : ∃ d0, writesuper name size disk = .ok d0 ∧
      ∃ sp : SfsSuper, d0 sfsSbLocation = sp.toBlock ∧ sp.spMagic = sfsMagic ∧
        sp.spNblocks = size := by
    refine ⟨_, if_neg (Nat.not_le.2 hlen), _, update_self .., rfl, rfl⟩
  obtain ⟨sp, hsp, hmagic, hsize⟩ := hd0
  obtain ⟨hmap, hfront⟩ := @dumpbitmap_apply b (writerootdir d0) (bitblocks size.toNat) hmax
  have h0 : dumpbitmap b (writerootdir d0) (bitblocks size.toNat) sfsSbLocation = sp.toBlock := by
    rw [hfront _ (by decide), ← hsp]
    show update d0 sfsRootLocation newRoot.toBlock sfsSbLocation = _
    rw [update_of_ne (by decide)]
  refine ⟨dumpbitmap b (writerootdir d0) (bitblocks size.toNat), ?_, ⟨?_, ?_, ?_, b, hset, hmap⟩⟩
  · rw [mksfs, hcheck]
    show (writesuper name size disk >>= _) = _
    rw [hsuper]
    show writebitmap size (writerootdir d0) = _
    rw [writebitmap, hblocks, if_neg (Nat.not_lt.2 hmax), hfill]
    rfl
  · rw [h0, superOfBlock, SfsSuper.ofBlock_toBlock]
    exact hmagic
  · rw [h0, superOfBlock, SfsSuper.ofBlock_toBlock]
    exact hsize
  · rw [hfront _ (by decide)]
    show update d0 sfsRootLocation newRoot.toBlock sfsRootLocation = _
    rw [update_self]

/-! ## Mounting it -/

/-- The root directory of a volume, with no file in sight: it owns no block. -/
def Bare (m : SfsFs) (d : Disk) : Prop := ∀ k, owner {sfsRootLocation} (view m d) k = none

theorem bare_of_root {m : SfsFs} (h : inodeOf m d sfsRootLocation = newRoot) : Bare m d := by
  rintro ⟨f, r⟩
  rw [owner, if_neg]
  rintro ⟨hf, hne⟩
  obtain rfl : f = sfsRootLocation := hf
  refine hne ?_
  have hv : view m d sfsRootLocation = fileView newRoot d := by rw [view, h]
  rw [hv]
  cases r with
  | self =>
    show (if sfsRootLocation = sfsRootLocation then 0 else sfsRootLocation) = 0
    exact if_pos rfl
  | ind => rfl
  | data fb =>
    show ptrOf newRoot d fb = 0
    rw [ptrOf]
    split
    · rfl
    · exact if_neg fun hc => hc.2 rfl

/-- A new volume as `sfs_domount` leaves it. -/
structure FreshMount (size dBlocks : UInt32) (m : SfsFs) (d : Disk) : Prop where
  sound : Sound {sfsRootLocation} ∅ m d
  nblocks : nblocks m = size.toNat
  root : inodeOf m d sfsRootLocation = newRoot
  empty : m.sfsVnodes = VnodeArray.empty
  dev : m.dBlocks = dBlocks

theorem FreshDisk.mounted {size dBlocks : UInt32} {freemap : Bitmap} (h : FreshDisk size d)
    (hroom : 2 + bitblocks size.toNat ≤ size.toNat) (hmax : bitblocks size.toNat ≤ 32)
    (hdev : size.toNat ≤ dBlocks.toNat) (hmap : MapOnDisk d size.toNat freemap) :
    FreshMount size dBlocks (mounted (superOfBlock (d sfsSbLocation)) freemap dBlocks) d := by
  have hb : bitblocks size.toNat = (size.toNat + 4095) / 4096 := rfl
  have hn : Sfs.nblocks (Sfs.mounted (superOfBlock (d sfsSbLocation)) freemap dBlocks) =
      size.toNat := congrArg UInt32.toNat h.nblocks
  have hroot : inodeOf (Sfs.mounted (superOfBlock (d sfsSbLocation)) freemap dBlocks) d
      sfsRootLocation = newRoot := by
    show SfsInode.ofBlock (d sfsRootLocation) = newRoot
    rw [h.root, SfsInode.ofBlock_toBlock]
  have hfirst : firstBlock (Sfs.mounted (superOfBlock (d sfsSbLocation)) freemap dBlocks) =
      2 + bitblocks size.toNat := by rw [firstBlock, hn]
  have hused : ∀ x, Used (Sfs.mounted (superOfBlock (d sfsSbLocation)) freemap dBlocks) x ↔
      Reserved (Sfs.mounted (superOfBlock (d sfsSbLocation)) freemap dBlocks) x := by
    intro x
    obtain ⟨b, hset, hblk⟩ := h.map
    have hlen := freemap.words
    have hbits := hmap.nbits
    rw [Used, Reserved, hn, hfirst]
    show freemap.isset x.toNat = true ↔ _ ∨ (_ ∧ x.toNat < freemap.nbits)
    rcases Nat.lt_or_ge x.toNat (bitblocks size.toNat * 4096) with hx | hx
    · have hj : x.toNat / 4096 < bitblocks size.toNat := by omega
      rw [Bitmap.isset_congr ((hmap.block _ hj).trans (hblk _ hj)), hset, decide_eq_true_iff,
        Initial, hbits]
    · rw [Bitmap.isset_past (by omega)]
      constructor
      · intro hf
        cases hf
      · omega
  refine ⟨⟨⟨?_, ?_, ?_, ?_⟩, rfl, ?_, ?_, ?_, ⟨?_, ?_, ?_, ?_⟩, ⟨?_, ?_, ?_, ?_⟩⟩, hn,
    hroot, rfl, rfl⟩
  · rw [hfirst, hn]
    exact hroom
  · rw [hn]
    exact hdev
  · rw [hn]
    omega
  · rw [hn]
    exact hmap.nbits
  · intro h0
    cases h0
  · refine ⟨List.nodup_nil, ?_, ?_, ?_, ?_⟩
    all_goals
      intro f sv hl
      cases hl
  · intro f hf
    obtain rfl : f = sfsRootLocation := hf
    rw [hroot]
    rfl
  · intro x
    rw [hused]
    refine ⟨.inl, fun hx => ?_⟩
    rcases hx with hx | ⟨k, hk⟩ | hx
    · exact hx
    · rw [bare_of_root hroot k] at hk
      cases hk
    · exact hx.elim
  · intro k k' x hk
    rw [bare_of_root hroot k] at hk
    cases hk
  · intro k x hk
    rw [bare_of_root hroot k] at hk
    cases hk
  · intro x hx
    exact hx.elim
  · intro f sv hl
    cases hl
  · intro _ j hj
    rw [hn] at hj
    exact (hmap.block j hj).symm
  · rfl
  · rfl

/-- `sfs_domount` accepts what `mksfs` has written. -/
theorem FreshDisk.domount_run {size dBlocks : UInt32} {s : BareMachine} (h : FreshDisk size s.disk)
    (hg : s.script = Script.good) (hroom : 2 + bitblocks size.toNat ≤ size.toNat)
    (hmax : bitblocks size.toNat ≤ 32) (hdev : size.toNat ≤ dBlocks.toNat) :
    ∃ m s', (sfsDomount dBlocks 512).run.run s = (.done (.ok m), s') ∧ s'.disk = s.disk ∧
      FreshMount size dBlocks m s.disk := by
  have hb : bitblocks size.toNat = (size.toNat + 4095) / 4096 := rfl
  obtain ⟨freemap, s', hr, hd, hmap⟩ := @Sfs.domount_run dBlocks s hg h.magic _
    (congrArg UInt32.toNat h.nblocks) (by omega) (by omega) (by omega)
  exact ⟨_, s', hr, hd, h.mounted hroom hmax hdev hmap⟩

/-! ## Handing out blocks -/

/-- The machines that calls of `sfs_balloc` and `sfs_bfree` lead to, with the
blocks that have been handed out and not given back. -/
inductive Handing (s₀ : SfsMachine) : Set UInt32 → SfsMachine → Prop where
  | start : Handing s₀ ∅ s₀
  | balloc {T s b s'} : Handing s₀ T s → sfsBalloc.run.run s = (.done (.ok b), s') →
      Handing s₀ (insert b T) s'
  | refused {T s e s'} : Handing s₀ T s → sfsBalloc.run.run s = (.done (.error e), s') →
      Handing s₀ T s'
  | bfree {T s b s'} : Handing s₀ T s → b ∈ T → (sfsBfree b).run s = (.done (), s') →
      Handing s₀ (T \ {b}) s'

/-- The invariant: what is handed out is what the ledger knows as marked without
an owner, and there are no owners. -/
structure HandedOut (size : Nat) (T : Set UInt32) (s : SfsMachine) : Prop where
  sound : Sound {sfsRootLocation} T s.mem s.disk
  bare : Bare s.mem s.disk
  nblocks : nblocks s.mem = size
  good : s.script = Script.good

section
variable {size : Nat} {T : Set UInt32} {s : SfsMachine}

/-- What `sfs_balloc` may come to. -/
inductive BallocSpec (size : Nat) (T : Set UInt32) : Except Errno UInt32 → SfsMachine → Prop where
  | found {b : UInt32} {s' : SfsMachine} : b ∉ T → 2 + bitblocks size ≤ b.toNat →
      b.toNat < size → HandedOut size (insert b T) s' → BallocSpec size T (.ok b) s'
  | full {s' : SfsMachine} :
      (∀ b : UInt32, 2 + bitblocks size ≤ b.toNat → b.toNat < size → b ∈ T) →
      HandedOut size T s' → BallocSpec size T (.error .ENOSPC) s'

theorem bare_of_view {m m' : SfsFs} {d d' : Disk} (h : Bare m d)
    (hv : view m' d' sfsRootLocation = view m d sfsRootLocation) : Bare m' d' := by
  intro k
  rw [← h k, owner, owner]
  by_cases hk : k.1 = sfsRootLocation
  · rw [hk, hv]
  · rw [if_neg fun hc => hk hc.1, if_neg fun hc => hk hc.1]

theorem HandedOut.balloc (h : HandedOut size T s) :
    ∃ r s', sfsBalloc.run.run s = (.done r, s') ∧ BallocSpec size T r s' := by
  let J := soloJob noFaults sfsRootLocation {sfsRootLocation} rfl
  have hst : Stores J.c := ⟨fun _ => id⟩
  have hw : wp J.c sfsBalloc.run (fun r w' => ∀ s' : SfsMachine, s'.mem = w'.mem →
      s'.disk = w'.disk → s'.script = Script.good → BallocSpec size T r s') (s.world ()) := by
    rw [wp_run_iff]
    refine Job.balloc (J := J) (soloJob_held.2 h.sound) (fun {b L' w'} t _ s' hm hd hg => ?_)
      fun hall s' hm hd hg => ?_
    · obtain rfl : L' = T := t.later.2 quiet_noFaults
      have hs : Sound {sfsRootLocation} (insert b L') w'.mem w'.disk := t.held.sound
      have hn : Sfs.nblocks w'.mem = size := by
        rw [← h.nblocks, Sfs.nblocks, t.frame.super]
        rfl
      have hin := hs.inVolume_leak (Set.mem_insert b L')
      refine .found (t.held.apart b rfl) ?_ ?_ ⟨hm ▸ hd ▸ hs, ?_, hm ▸ hn, hg⟩
      · have := hin.first
        rwa [firstBlock, hn] at this
      · exact hn ▸ hin.last
      · rw [hm, hd]
        exact bare_of_view h.bare (t.frame.same _ rfl).view
    · refine .full (fun b hfirst hlast => ?_) ⟨hm ▸ hd ▸ h.sound, hm ▸ hd ▸ h.bare,
        hm ▸ h.nblocks, hg⟩
      -- a marked block that is not reserved and has no owner
      have hbits : b.toNat < s.mem.sfsFreemap.nbits := by
        rw [h.sound.geom.nbits, h.nblocks]
        show _ < (size + 4095) / 4096 * 4096
        omega
      rcases (h.sound.ledger.account b).1 (hall _ hbits) with hr | ⟨k, hk⟩ | hb
      · rw [Reserved, firstBlock, h.nblocks] at hr
        omega
      · rw [h.bare k] at hk
        cases hk
      · exact hb
  obtain ⟨r, s', hr, hg, hspec⟩ := fine_run h.good hw
  exact ⟨r, s', hr, hspec s' rfl rfl hg⟩

theorem HandedOut.bfree {b : UInt32} (h : HandedOut size T s) (hb : b ∈ T) :
    ∃ s', (sfsBfree b).run s = (.done (), s') ∧ HandedOut size (T \ {b}) s' := by
  have hu := h.sound.ledger.used_of_leak hb
  obtain ⟨fm, hfm, hflip⟩ := Bitmap.unmark_some (lt_of_used h.sound.geom hu) hu
  have hw : wp (soloCtx noFaults) (sfsBfree b) (fun _ w' => ∀ s' : SfsMachine,
      s'.mem = w'.mem → s'.disk = w'.disk → s'.script = Script.good →
      HandedOut size (T \ {b}) s') (s.world ()) := by
    refine (wp_sfsBfree hfm).2 fun s' hm hd hg => ?_
    have hs := h.sound.unmarkSpare hb (mapFlip_put hflip)
    exact ⟨hm ▸ hd ▸ hs, hm ▸ hd ▸ h.bare, hm ▸ h.nblocks, hg⟩
  obtain ⟨x, s', hr, hg, hh⟩ := fine_run h.good hw
  exact ⟨s', hr, hh s' rfl rfl hg⟩

theorem Handing.handedOut {s₀ : SfsMachine} (h0 : HandedOut size ∅ s₀)
    (h : Handing s₀ T s) : HandedOut size T s := by
  induction h with
  | start => exact h0
  | balloc _ hrun ih =>
    obtain ⟨r, s', hr, hspec⟩ := ih.balloc
    obtain ⟨hr', rfl⟩ := Prod.mk.inj (hrun.symm.trans hr)
    cases hspec with
    | found _ _ _ h => exact (Except.ok.inj (Outcome.done.inj hr')) ▸ h
    | full => cases hr'
  | refused _ hrun ih =>
    obtain ⟨r, s', hr, hspec⟩ := ih.balloc
    obtain ⟨hr', rfl⟩ := Prod.mk.inj (hrun.symm.trans hr)
    cases hspec with
    | found => cases hr'
    | full _ h => exact h
  | bfree _ hb hrun ih =>
    obtain ⟨s', hr, h⟩ := ih.bfree hb
    obtain ⟨-, rfl⟩ := Prod.mk.inj (hrun.symm.trans hr)
    exact h

end

/-- `mksfs` makes a volume of any size that it has room for, the kernel mounts
it, and from then on `sfs_balloc` hands out the blocks behind the bitmap, each
to one caller at a time, and refuses only when they are all in use. -/
theorem mksfs_mount_balloc {volname : CString} {size dBlocks : UInt32} {disk : Disk}
    (hname : GoodVolname volname) (hroom : 2 + bitblocks size.toNat ≤ size.toNat)
    (hmax : bitblocks size.toNat ≤ maxBitblocks) (hdev : size ≤ dBlocks) :
    ∃ d m s₁, mksfs volname size disk = .ok d ∧
      (sfsDomount dBlocks 512).run.run ⟨(), d, Script.good⟩ = (.done (.ok m), s₁) ∧
      ∀ T s, Handing ⟨m, s₁.disk, Script.good⟩ T s →
        (∀ b ∈ T, ∃ s', (sfsBfree b).run s = (.done (), s')) ∧
        ((∃ b s', sfsBalloc.run.run s = (.done (.ok b), s') ∧ b ∉ T ∧
            2 + bitblocks size.toNat ≤ b.toNat ∧ b.toNat < size.toNat) ∨
          ((∃ s', sfsBalloc.run.run s = (.done (.error .ENOSPC), s')) ∧
            ∀ b : UInt32, 2 + bitblocks size.toNat ≤ b.toNat → b.toNat < size.toNat →
              b ∈ T)) := by
  obtain ⟨d, hd, hfresh⟩ := mksfs_ok hname hroom hmax disk
  obtain ⟨m, s₁, hr, hs1, hm⟩ := @FreshDisk.domount_run size dBlocks ⟨(), d, Script.good⟩ hfresh
    rfl hroom hmax (UInt32.le_iff_toNat_le.1 hdev)
  refine ⟨d, m, s₁, hd, hr, fun T s hT => ?_⟩
  have h0 : HandedOut size.toNat ∅ ⟨m, s₁.disk, Script.good⟩ := by
    rw [hs1]
    exact ⟨hm.sound, bare_of_root hm.root, hm.nblocks, rfl⟩
  have h := hT.handedOut h0
  refine ⟨fun b hb => ?_, ?_⟩
  · obtain ⟨s', hr, -⟩ := h.bfree hb
    exact ⟨s', hr⟩
  · obtain ⟨r, s', hr, hspec⟩ := h.balloc
    cases hspec with
    | found hb hfirst hlast _ => exact .inl ⟨_, s', hr, hb, hfirst, hlast⟩
    | full hall _ => exact .inr ⟨⟨s', hr⟩, hall⟩

/-- The smallest volume has one block to hand out. -/
theorem mksfs_mount_balloc_four :
    ∃ d m s₁, mksfs (CString.ofBytes [118]) 4 (fun _ => Block.zero) = .ok d ∧
      (sfsDomount 4 512).run.run ⟨(), d, Script.good⟩ = (.done (.ok m), s₁) ∧
      ∃ b s', sfsBalloc.run.run ⟨m, s₁.disk, Script.good⟩ = (.done (.ok b), s') ∧
        b.toNat = 3 := by
  obtain ⟨d, m, s₁, hd, hm, h⟩ := @mksfs_mount_balloc (CString.ofBytes [118]) 4 4
    (fun _ => Block.zero) ⟨_, rfl, by decide⟩ (by decide) (by decide) (by decide)
  refine ⟨d, m, s₁, hd, hm, ?_⟩
  rcases (h ∅ _ .start).2 with ⟨b, s', hr, -, hfirst, hlast⟩ | ⟨-, hall⟩
  · refine ⟨b, s', hr, ?_⟩
    have h1 : 3 ≤ b.toNat := hfirst
    have h2 : b.toNat < 4 := hlast
    omega
  · exact (hall 3 (by decide) (by decide)).elim

/-! ## A small volume -/

/-- The bitmap of a new volume of 64 blocks. -/
def smallMap : Bitmap :=
  ⟨4096, [7, 0, 0, 0, 0, 0, 0, 0] ++ List.replicate 504 255, by
    rw [List.length_append, List.length_replicate]
    rfl⟩

/-- A new volume of 64 blocks. -/
def smallDisk (b : UInt32) : Block :=
  if b = sfsSbLocation then SfsSuper.toBlock
    { spMagic := sfsMagic, spNblocks := 64, spVolname := fun _ => 0, reserved := fun _ => 0 }
  else if b = sfsRootLocation then newRoot.toBlock
  else if b = sfsMapLocation then smallMap.getBlock 0
  else Block.zero

/-- The volume after it has been mounted. -/
def smallVolume : SfsMachine :=
  ⟨mounted (superOfBlock (smallDisk sfsSbLocation)) smallMap 64, smallDisk, Script.good⟩

theorem isset_smallMap (i : Nat) : smallMap.isset i = decide (Initial 64 i) := by
  have hfirst : ∀ i < 64, smallMap.isset i = decide (Initial 64 i) := by decide
  rcases Nat.lt_or_ge i 64 with h | h
  · exact hfirst i h
  rcases Nat.lt_or_ge i 4096 with h' | h'
  · have hword : smallMap.word (i / 8) = 255 := by
      show ([7, 0, 0, 0, 0, 0, 0, 0] ++ List.replicate 504 255 : List UInt8).getD (i / 8) 0 = 255
      rw [List.getD_append_right _ _ _ _ (by show 8 ≤ i / 8; omega), List.getD_replicate]
      show i / 8 - 8 < 504
      omega
    have hmask : ∀ k < 8, ((255 : UInt8) &&& Bitmap.mask k != 0) = true := by decide
    have hinit : Initial 64 i := .inr ⟨h, h'⟩
    rw [Bitmap.isset, hword, hmask _ (Nat.mod_lt _ (by decide)), decide_eq_true hinit]
  · have hlen : smallMap.v.length = 512 := smallMap.words
    have hinit : ¬ Initial 64 i := by
      have hb : bitblocks 64 = 1 := rfl
      unfold Initial
      omega
    rw [Bitmap.isset_past (by omega), decide_eq_false hinit]

theorem freshDisk_smallDisk : FreshDisk 64 smallDisk where
  magic := by
    show (SfsSuper.ofBlock (SfsSuper.toBlock _)).spMagic = _
    rw [SfsSuper.ofBlock_toBlock]
  nblocks := by
    show (SfsSuper.ofBlock (SfsSuper.toBlock _)).spNblocks = _
    rw [SfsSuper.ofBlock_toBlock]
  root := rfl
  map := by
    refine ⟨smallMap, isset_smallMap, fun j hj => ?_⟩
    obtain rfl : j = 0 := Nat.lt_one_iff.1 hj
    rfl

theorem freshMount_smallVolume : FreshMount 64 64 smallVolume.mem smallVolume.disk := by
  refine freshDisk_smallDisk.mounted (by decide) (by decide) (by decide) ⟨rfl, fun j hj => ?_⟩
  obtain rfl : j = 0 := Nat.lt_one_iff.1 hj
  rfl

/-- A file has been made on it, in block 3. -/
def newFileVolume : SfsMachine :=
  let s := (sfsBalloc.run.run smallVolume).2
  { s with mem := s.mem.withNew ⟨3, newFile, true, .fileops, 1, 0⟩ }

theorem get?_newFileVolume (g : UInt32) : newFileVolume.mem.sfsVnodes.get? g =
    if g = 3 then some ⟨3, newFile, true, .fileops, 1, 0⟩ else none := by
  have h : (sfsBalloc.run.run smallVolume).2.mem.sfsVnodes = VnodeArray.empty := by decide +kernel
  show ((sfsBalloc.run.run smallVolume).2.mem.sfsVnodes.add _).get? g = _
  rw [h, VnodeArray.get?_add rfl]
  rfl

/-- The block that a call of `sfs_balloc` has handed out. -/
def handed : Outcome Panic (Except Errno UInt32) → Option UInt32
  | .done (.ok b) => some b
  | _ => none

theorem sound_newFileVolume :
    Sound {3, sfsRootLocation} ∅ newFileVolume.mem newFileVolume.disk ∧
      newFileVolume.script = Script.good := by
  have h0 : HandedOut 64 ∅ smallVolume := ⟨freshMount_smallVolume.sound,
    bare_of_root freshMount_smallVolume.root, freshMount_smallVolume.nblocks, rfl⟩
  obtain ⟨r, s, hr, hspec⟩ := h0.balloc
  have hthree : handed (sfsBalloc.run.run smallVolume).1 = some 3 := by decide +kernel
  have hvol : newFileVolume =
      { s with mem := s.mem.withNew ⟨3, newFile, true, .fileops, 1, 0⟩ } := by
    rw [newFileVolume, hr]
  rw [hr] at hthree
  cases hspec with
  | found _ _ _ h =>
    obtain rfl := Option.some.inj hthree
    have hs := h.sound.newInode (Set.mem_insert 3 ∅)
    rw [Set.insert_sdiff_self_of_notMem (Set.notMem_empty 3)] at hs
    rw [hvol]
    exact ⟨hs, h.good⟩
  | full => cases hthree

/-- A volume with a loaded file of any size, all of it a hole. -/
theorem exists_file (size : UInt32) :
    ∃ (s : SfsMachine) (f : UInt32) (live : Set UInt32) (sv : SfsVnode),
      Sound live ∅ s.mem s.disk ∧ s.mem.sfsVnodes.get? f = some sv ∧
      sv.svI = newFile.setSize size := by
  obtain ⟨hs, -⟩ := sound_newFileVolume
  have hget := (get?_newFileVolume 3).trans (if_pos rfl)
  generalize newFileVolume = s at hs hget
  have hsized := hs.keepBlocks (.withInode hs hget (c := SfsInode.setSize size) rfl) rfl rfl
  exact ⟨⟨_, s.disk, Script.good⟩, 3, _, _, hsized, VnodeArray.get?_update_self
    (u := SfsVnode.withInode (SfsInode.setSize size)) (fun _ => rfl) hget, rfl⟩

end Os161.Sfs
