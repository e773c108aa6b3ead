import Os161.Proofs.Job

/-!
# Mounting

`sfs_domount` reads the superblock and the free map and builds the structure
that everything else works on. What it returns is a function of the disk: the
superblock, and a bitmap whose blocks are the blocks of the free map on disk
(`domount_run`). Two bitmaps of that size with the same blocks are the same.
-/

namespace Os161.Kern

/-! ## Bitmaps block by block -/

namespace Bitmap

theorem word_getBlock (b : Bitmap) (ix : Nat) :
    b.word ix = (b.getBlock (ix / 512)).byte (ix % 512) := by
  rw [getBlock, Block.byte_ofFn (by omega), Nat.div_add_mod]

theorem isset_congr {a b : Bitmap} {i : Nat}
    (h : a.getBlock (i / 4096) = b.getBlock (i / 4096)) : a.isset i = b.isset i := by
  rw [isset, isset, word_getBlock, word_getBlock b, show i / 8 / 512 = i / 4096 by omega, h]

theorem isset_past {b : Bitmap} {i : Nat} (h : 8 * b.v.length ≤ i) : b.isset i = false := by
  have hw : b.word (i / 8) = 0 := by
    rw [word, List.getD_eq_default _ _ (by omega)]
  rw [isset, hw, UInt8.zero_and]
  rfl

theorem getBlock_setBlock {b : Bitmap} {n j k : Nat} {x : Block} (hb : b.nbits = n * 4096)
    (hk : k < n) : (b.setBlock j x).getBlock k = if k = j then x else b.getBlock k := by
  have hlen := b.words
  have hw : ∀ i < 512, (b.setBlock j x).word (512 * k + i) =
      if k = j then x.byte i else b.word (512 * k + i) := by
    intro i hi
    rw [word, setBlock, List.getD_eq_getElem?_getD, List.getElem?_map,
      List.getElem?_range (by omega)]
    show (if (512 * k + i) / 512 = j then x.byte ((512 * k + i) % 512) else _) = _
    rw [show (512 * k + i) / 512 = k by omega, show (512 * k + i) % 512 = i by omega]
  refine Block.ext fun i hi => ?_
  rw [getBlock, Block.byte_ofFn hi, hw i hi]
  split
  · rfl
  · rw [getBlock, Block.byte_ofFn hi]

end Bitmap

end Os161.Kern

namespace Os161.Sfs

open Os161.Kern Os161.Lib

/-! ## Reading a disk -/

abbrev BareMachine := Machine Unit UInt32 Block IoErr

abbrev BareWorld := World Unit UInt32 Block Unit

abbrev bareCtx : Ctx Unit UInt32 Block IoErr Panic Unit := Ctx.seq

section
variable {w : BareWorld}

/-- A block that the device has. -/
theorem bare_rblock {dBlocks b : UInt32} {Q : Except Errno Block → BareWorld → Prop}
    (hs : w.started = true) (hb : b.toNat < dBlocks.toNat) (ha : b.toNat < 4194304)
    (hQ : Q (.ok (w.disk b)) w) : wpE bareCtx (sfsRblock dBlocks b) Q w := by
  have hsec : lhdSector (b.toNat * 512) = b := lhdSector_mul (by omega)
  have hdev : ¬ dBlocks < b + 1 := by
    rw [UInt32.lt_iff_toNat_lt, UInt32.toNat_add]
    show ¬ dBlocks.toNat < (b.toNat + 1) % 2 ^ 32
    omega
  rw [sfsRblock, hsec, if_neg hdev, wpE_mk, wp_bind]
  refine ⟨fun _ => trivial, fun w1 hg => ⟨trivial, fun w2 hw => ?_⟩⟩
  obtain rfl := hg.eq_of_started hs
  obtain rfl : w2 = w1 := hw
  exact ⟨hQ, fun _ he => he.elim⟩

theorem toNat_mapLocation {j : Nat} (h : j < 4294967294) :
    (sfsMapLocation + UInt32.ofNat j).toNat = 2 + j := by
  rw [UInt32.toNat_add, UInt32.toNat_ofNat', show sfsMapLocation.toNat = 2 from rfl]
  omega

variable {dBlocks : UInt32}

/-- `sfs_mapio` for reading: what is behind is on the bitmap already. -/
theorem mapio_read {n left : Nat} {freemap : Bitmap} {Q : Except Errno Bitmap → BareWorld → Prop}
    (hs : w.started = true) (hdev : 2 + n ≤ dBlocks.toNat) (haddr : 2 + n ≤ 4194304) (hl : left ≤ n)
    (hn : freemap.nbits = n * 4096)
    (hdone : ∀ j < n - left, freemap.getBlock j = w.disk (sfsMapLocation + UInt32.ofNat j))
    (hQ : ∀ b : Bitmap, b.nbits = n * 4096 →
      (∀ j < n, b.getBlock j = w.disk (sfsMapLocation + UInt32.ofNat j)) → Q (.ok b) w) :
    wpE bareCtx (mapio.read dBlocks n left freemap) Q w := by
  induction left generalizing freemap with
  | zero => exact hQ _ hn hdone
  | succ left ih =>
    have hb := @toNat_mapLocation (n - (left + 1)) (by omega)
    rw [mapio.read, wpE_bind]
    refine bare_rblock hs (by omega) (by omega) ?_
    refine ih (by omega) hn fun j hj => ?_
    rw [Bitmap.getBlock_setBlock hn (by omega)]
    split
    · next h => rw [h]
    · exact hdone j (by omega)

/-- The bitmap that a mount reads from a disk. -/
structure MapOnDisk (d : Disk) (n : Nat) (b : Bitmap) : Prop where
  nbits : b.nbits = bitblocks n * 4096
  block : ∀ j < bitblocks n, b.getBlock j = d (sfsMapLocation + UInt32.ofNat j)

/-- `sfs_domount`, on a disk with the right magic number and enough blocks. -/
theorem domount {Q : Except Errno SfsFs → BareWorld → Prop}
    (hs : w.started = true) (hmagic : (superOfBlock (w.disk sfsSbLocation)).spMagic = sfsMagic)
    {n : Nat} (hn : (superOfBlock (w.disk sfsSbLocation)).spNblocks.toNat = n)
    (hdev : 2 + bitblocks n ≤ dBlocks.toNat) (haddr : 2 + bitblocks n ≤ 4194304)
    (hsmall : n ≤ 4294963200) (hQ : ∀ freemap, MapOnDisk w.disk n freemap →
      Q (.ok (mounted (superOfBlock (w.disk sfsSbLocation)) freemap dBlocks)) w) :
    wpE bareCtx (sfsDomount dBlocks 512) Q w := by
  obtain ⟨b0, hcreate, hbits, -⟩ := Bitmap.create_mul (bitblocks n * 512)
  rw [show 8 * (bitblocks n * 512) = bitblocks n * 4096 by omega] at hcreate hbits
  have hcreated : wpE bareCtx (bitmapCreate (bitblocks n * 4096))
      (fun r w' => r = .ok b0 ∧ w' = w) w := by
    rw [bitmapCreate, wpE_call_bind]
    refine wp_kmalloc.2 ⟨?_, fun h => h.elim⟩
    rw [if_neg (by decide), wpE_call_bind]
    refine wp_kmalloc.2 ⟨?_, fun h => h.elim⟩
    rw [if_neg (by decide), hcreate]
    exact ⟨rfl, rfl⟩
  rw [sfsDomount, if_neg (by decide), wpE_call_bind]
  refine wp_kmalloc.2 ⟨?_, fun h => h.elim⟩
  rw [if_neg (by decide), wpE_call_bind]
  refine wp_kmalloc.2 ⟨?_, fun h => h.elim⟩
  rw [if_neg (by decide), wpE_bind]
  refine bare_rblock hs (show 0 < dBlocks.toNat by omega) (by decide) ?_
  show wpE bareCtx (if _ then _ else _) Q w
  rw [if_neg (not_not.2 hmagic), toNat_sfsBitmapsize (hn ▸ hsmall),
    toNat_sfsBitblocks (hn ▸ hsmall), hn]
  refine wpE_bind_of hcreated ?_ fun _ _ h => nomatch h.1
  rintro _ _ ⟨h, rfl⟩
  obtain rfl := Except.ok.inj h
  rw [wpE_bind]
  exact mapio_read hs hdev haddr le_rfl hbits (fun j hj => by omega)
    fun b hb hblk => hQ b ⟨hb, hblk⟩

theorem domount_run {s : BareMachine} (hg : s.script = Script.good)
    (hmagic : (superOfBlock (s.disk sfsSbLocation)).spMagic = sfsMagic)
    {n : Nat} (hn : (superOfBlock (s.disk sfsSbLocation)).spNblocks.toNat = n)
    (hdev : 2 + bitblocks n ≤ dBlocks.toNat) (haddr : 2 + bitblocks n ≤ 4194304)
    (hsmall : n ≤ 4294963200) : ∃ freemap s', (sfsDomount dBlocks 512).run.run s =
        (.done (.ok (mounted (superOfBlock (s.disk sfsSbLocation)) freemap dBlocks)), s') ∧
      s'.disk = s.disk ∧ MapOnDisk s.disk n freemap := by
  have hw := domount (w := s.world ()) (Q := fun r w' => w'.disk = s.disk ∧ ∃ freemap,
      r = .ok (mounted (superOfBlock (s.disk sfsSbLocation)) freemap dBlocks) ∧
      MapOnDisk s.disk n freemap) rfl hmagic hn hdev haddr hsmall
    fun freemap hmap => ⟨rfl, freemap, rfl, hmap⟩
  obtain ⟨_, s', hr, hd, freemap, rfl, hmap⟩ :=
    wp_run_done (fun _ => rfl) (hg ▸ Ctx.admits_good _) (fun _ => id) hw
  exact ⟨freemap, s', hr, hd, hmap⟩

end

/-! ## The size of the free map -/

section
variable {α β : Type} {s s' : BareMachine}

theorem of_run_bind_ok {p : ExceptT Errno (Prog Unit UInt32 Block IoErr Panic) α} {y : β}
    {f : α → ExceptT Errno (Prog Unit UInt32 Block IoErr Panic) β}
    (h : (p >>= f).run.run s = (.done (.ok y), s')) :
    ∃ x s1, p.run.run s = (.done (.ok x), s1) ∧ (f x).run.run s1 = (.done (.ok y), s') := by
  obtain ⟨x | x, s1, hp, hf⟩ := Prog.of_run_bind (f := ExceptT.bindCont f) h
  · cases hf
  · exact ⟨x, s1, hp, hf⟩

theorem mapio_read_nbits {dBlocks : UInt32} {n left : Nat} {a b : Bitmap}
    (h : (mapio.read dBlocks n left a).run.run s = (.done (.ok b), s')) : b.nbits = a.nbits := by
  induction left generalizing a s with
  | zero =>
    cases h
    rfl
  | succ left ih =>
    obtain ⟨data, s1, -, h⟩ := of_run_bind_ok h
    have hb := ih h
    exact hb

theorem domount_covers_iff {dBlocks dBlocksize : UInt32} {fs : SfsFs}
    (h : (sfsDomount dBlocks dBlocksize).run.run s = (.done (.ok fs), s')) :
    fs.sfsFreemap.nbits = 4096 * (sfsBitblocks fs.sfsSuper.spNblocks).toNat ∧
    fs.sfsFreemap.v.length = 512 * (sfsBitblocks fs.sfsSuper.spNblocks).toNat ∧
    (fs.sfsSuper.spNblocks.toNat ≤ fs.sfsFreemap.nbits ↔
      fs.sfsSuper.spNblocks.toNat ≤ 4294963200) := by
  rw [sfsDomount] at h
  split at h
  · cases h
  obtain ⟨a, _, -, h⟩ := of_run_bind_ok h
  split at h
  · cases h
  obtain ⟨a, _, -, h⟩ := of_run_bind_ok h
  split at h
  · cases h
  obtain ⟨data, _, -, h⟩ := of_run_bind_ok h
  dsimp only at h
  split at h
  · cases h
  obtain ⟨b, _, hcreate, h⟩ := of_run_bind_ok h
  obtain ⟨b', _, hread, h⟩ := of_run_bind_ok h
  cases h
  dsimp only [mounted]
  generalize (superOfBlock data).spNblocks = n at hcreate
  have hsize := toNat_sfsBitmapsize_mod n
  have hn := n.toNat_lt
  obtain ⟨b0, hb0, hbits, -⟩ := Bitmap.create_mul ((sfsBitmapsize n).toNat / 8)
  rw [Nat.mul_div_cancel' (by omega)] at hb0
  rw [bitmapCreate] at hcreate
  obtain ⟨a, _, -, hcreate⟩ := of_run_bind_ok hcreate
  split at hcreate
  · cases hcreate
  obtain ⟨a, _, -, hcreate⟩ := of_run_bind_ok hcreate
  rw [hb0] at hcreate
  split at hcreate
  · cases hcreate
  cases hcreate
  rw [b'.words, mapio_read_nbits hread, hbits, sfsBitblocks, UInt32.toNat_div]
  simp only [sfsBlockbits, UInt32.reduceToNat]
  omega

def superDisk (nblocks : UInt32) : BareMachine :=
  ⟨(), fun _ => SfsSuper.toBlock ⟨sfsMagic, nblocks, fun _ => 0, fun _ => 0⟩, {}⟩

theorem domount_covers_nothing : ∃ fs s', (sfsDomount 8 512).run.run (superDisk 4294967295) =
    (.done (.ok fs), s') ∧ fs.sfsSuper.spNblocks = 4294967295 ∧ fs.sfsFreemap.v = [] :=
  ⟨_, _, rfl, rfl, rfl⟩

theorem domount_covers_eight : ∃ fs s', (sfsDomount 8 512).run.run (superDisk 8) =
    (.done (.ok fs), s') ∧ fs.sfsSuper.spNblocks = 8 ∧ fs.sfsFreemap.v.length = 512 ∧
      8 ≤ fs.sfsFreemap.nbits := by
  have h : (sfsDomount 8 512).run.run (superDisk 8) = (.done (.ok _), _) := rfl
  obtain ⟨-, hbytes, hbits⟩ := domount_covers_iff h
  exact ⟨_, _, h, by decide, hbytes.trans (by decide), hbits.2 (by decide)⟩

end

end Os161.Sfs
