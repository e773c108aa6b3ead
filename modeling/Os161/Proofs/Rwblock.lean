import Os161.Kern.Lhd

/-!
# When a block write is kept

`sfs_rwblock` retries on the uio that the device hands back. For a read that is
the uio it was given, because `lhd_io` fills it only after the card has
succeeded. For a write it is a uio whose data is gone, because `lhd_io` empties
it before the card is asked: the retry finds a residue of zero, transfers
nothing and reports success. `sfsWblock_kept_iff` is the exact line between
the writes that are kept and those that are lost.
-/

namespace Os161.Kern

/-! ## Sectors and byte offsets -/

theorem offT_cases (n : Nat) : (n % 4294967296 < 2147483648 ∧ offT n = (n % 4294967296 : Nat)) ∨
      (2147483648 ≤ n % 4294967296 ∧ offT n = (n % 4294967296 : Nat) - 4294967296) := by
  unfold offT
  split
  · exact Or.inl ⟨‹_›, rfl⟩
  · exact Or.inr ⟨by omega, rfl⟩

theorem lhdSectoff_mul (b : Nat) : lhdSectoff (b * 512) = 0 := by
  have hd : (512 : Int) ∣ offT (b * 512) := by
    rcases offT_cases (b * 512) with ⟨_, h⟩ | ⟨_, h⟩ <;> rw [h] <;> omega
  rw [lhdSectoff, Int.tmod_eq_zero_of_dvd hd]
  rfl

/-- The sector that the driver computes for a block: the block itself, as long
as its byte offset survives the trip through an `off_t`. -/
theorem lhdSector_mul_eq_iff (b : UInt32) : lhdSector (b.toNat * 512) = b ↔
      b.toNat < 4194304 ∨ 4290772992 ≤ b.toNat := by
  have hb := b.toNat_lt
  rw [← UInt32.toNat_inj, lhdSector, UInt32.toNat_ofNat']
  rcases offT_cases (b.toNat * 512) with ⟨h, he⟩ | ⟨h, he⟩
  · rw [he, Int.tdiv_eq_ediv_of_nonneg (by omega)]
    omega
  · have hneg : (offT (b.toNat * 512)).tdiv 512 =
        -((4294967296 - (b.toNat * 512 % 4294967296 : Nat)) / 512 : Int) := by
      rw [he, ← Int.neg_neg (_ - 4294967296 : Int), Int.neg_tdiv,
        Int.tdiv_eq_ediv_of_nonneg (by omega)]
      congr 2
      omega
    rw [hneg]
    omega

theorem lhdSector_mul {b : UInt32} (h : b.toNat < 4194304) : lhdSector (b.toNat * 512) = b :=
  (lhdSector_mul_eq_iff b).2 (Or.inl h)

/-! ## One pass through the driver -/

/-- The uio of `sfs_wblock`. -/
def wblockUio (data : Block) (block : UInt32) : Uio :=
  mkKuio data.toList 512 (block.toNat * 512) .UIO_WRITE

section
variable (data : Block) (block : UInt32)
include data block

@[simp] theorem wblockUio_iov :
    (wblockUio data block).iov = data.toList := by rw [wblockUio, mkKuio]
@[simp] theorem wblockUio_iovLen :
    (wblockUio data block).iovLen = 512 := rfl
@[simp] theorem wblockUio_offset :
    (wblockUio data block).offset = block.toNat * 512 := rfl
@[simp] theorem wblockUio_resid :
    (wblockUio data block).resid = 512 := rfl
@[simp] theorem wblockUio_rw :
    (wblockUio data block).rw = .UIO_WRITE := rfl

theorem wblockUio_uiomove : (wblockUio data block).uiomove [] 512 =
      some ((wblockUio data block).drain 512, data.toList) := by
  have hlen : data.toList.length ≤ 512 := Nat.le_of_eq data.length_toList
  rw [Uio.uiomove_write (wblockUio_rw data block) (Nat.le_of_eq (wblockUio_iovLen data block).symm)
      (Nat.le_of_eq (wblockUio_resid data block).symm),
    wblockUio_iov, List.take_of_length_le hlen]

end

variable {lh : LhdSoftc} {data : Block} {block : UInt32} {σ : Type} {dIo : σ → Uio → DevResult σ}
  {dev dev' : σ} {uio uio' : Uio}

/-- The driver on a fresh uio: the range check, then one operation. The uio
comes back empty in every case that reaches the card. -/
theorem lhdIo_wblock (h : ¬ lh.dBlocks < lhdSector (block.toNat * 512) + 1) :
    ∃ code buf lh', lh.operate (lhdSector (block.toNat * 512)) (some data) = (code, buf, lh') ∧
      lhdIo lh (wblockUio data block) =
        some (lhdCodeToErrno code, (wblockUio data block).drain 512, lh') := by
  rcases ho : lh.operate (lhdSector (block.toNat * 512)) (some data) with ⟨code, buf, lh'⟩
  refine ⟨code, buf, lh', rfl, ?_⟩
  have hone : 512 / 512 = 0 + 1 := by decide
  have hlen : UInt32.ofNat (0 + 1) = 1 := by decide
  rw [lhdIo, wblockUio_offset, wblockUio_resid, if_neg (by simp [lhdSectoff_mul]), hone,
    hlen, if_neg h, lhdIo.loop, wblockUio_rw]
  simp only [wblockUio_uiomove, Option.bind_some, Block.ofList_toList, ho]
  cases code <;> rfl

theorem lhdIo_wblock_range (h : lh.dBlocks < lhdSector (block.toNat * 512) + 1) :
    lhdIo lh (wblockUio data block) = some (some .EINVAL, wblockUio data block, lh) := by
  have hlen : UInt32.ofNat (512 / 512) = 1 := by decide
  rw [lhdIo, wblockUio_offset, wblockUio_resid, if_neg (by simp [lhdSectoff_mul]), hlen,
    if_pos h]

/-- The driver on a uio whose data is gone: nothing is transferred, and unless
the range check fails the answer is zero. -/
theorem lhdIo_drained (lh : LhdSoftc) (data : Block) (block : UInt32) :
    lhdIo lh ((wblockUio data block).drain 512) =
        some (some .EINVAL, (wblockUio data block).drain 512, lh) ∨
      lhdIo lh ((wblockUio data block).drain 512) =
        some (none, (wblockUio data block).drain 512, lh) := by
  have hoff : ((wblockUio data block).drain 512).offset = (block.toNat + 1) * 512 := by
    show (wblockUio data block).offset + 512 = _
    rw [wblockUio_offset]
    omega
  have hres : ((wblockUio data block).drain 512).resid = 0 := by
    rw [Uio.drain, wblockUio_resid]
  rw [lhdIo, hoff, hres, if_neg (by simp [lhdSectoff_mul]), Nat.zero_div]
  split
  · exact Or.inl rfl
  · exact Or.inr rfl

/-! ## The write -/

/-- A block write that tells the truth: it returns an error, or the card has
written the data to the block. -/
def WriteKept (lh : LhdSoftc) (data : Block) (block : UInt32) : Prop :=
  match sfsWblockOn lhdIo lh data block with
  | none => False
  | some (some _, _, _) => True
  | some (none, _, lh') =>
    ∃ new, lh'.written = new ++ lh.written ∧ (block, data) ∈ new

theorem sfsRwblock_done (n : Nat) (h : dIo dev uio = some (none, uio', dev')) :
    sfsRwblock.retry dIo n dev uio = some (none, uio', dev') := by
  unfold sfsRwblock.retry
  rw [h]

theorem sfsRwblock_einval (n : Nat) (h : dIo dev uio = some (some .EINVAL, uio', dev')) :
    sfsRwblock.retry dIo n dev uio = none := by
  unfold sfsRwblock.retry
  rw [h]

theorem sfsRwblock_eio (n : Nat) (h : dIo dev uio = some (some Errno.EIO, uio', dev')) :
    sfsRwblock.retry dIo (n + 1) dev uio = sfsRwblock.retry dIo n dev' uio' := by
  rw [sfsRwblock.retry]
  simp only [h]

/-- After a media error nothing is written any more. -/
theorem not_writeKept_of_media (hr : ¬ lh.dBlocks < lhdSector (block.toNat * 512) + 1)
    (hs : ¬ lh.dBlocks ≤ lhdSector (block.toNat * 512)) (hm : lh.media.head? = some true) :
    ¬ WriteKept lh data block := by
  obtain ⟨code, buf, lh', ho, hio⟩ := @lhdIo_wblock lh data block hr
  rw [LhdSoftc.operate, if_neg hs, if_pos hm] at ho
  obtain ⟨rfl, -, rfl⟩ : LhdStatus.LHD_MEDIA = code ∧ Block.zero = buf ∧
      { lh with media := lh.media.tail } = lh' := by
    simpa using ho
  have hrun : sfsWblockOn lhdIo lh data block = sfsRwblock.retry lhdIo 9
      { lh with media := lh.media.tail } ((wblockUio data block).drain 512) :=
    sfsRwblock_eio 9 hio
  rw [WriteKept, hrun]
  rcases lhdIo_drained { lh with media := lh.media.tail } data block with h | h
  · rw [sfsRwblock_einval 9 h]
    exact id
  · rw [sfsRwblock_done 9 h]
    rintro ⟨new, hnew, hmem⟩
    have hnil : new = [] := List.append_left_eq_self.mp hnew.symm
    rw [hnil] at hmem
    cases hmem

/-- A sector past the end is refused by the driver's range check or, where the
check wraps around, by the card; both end in the panic. -/
theorem not_writeKept_of_range (h : lh.dBlocks < lhdSector (block.toNat * 512) + 1 ∨
      lh.dBlocks ≤ lhdSector (block.toNat * 512)) : ¬ WriteKept lh data block := by
  have hnone : sfsWblockOn lhdIo lh data block = none := by
    by_cases hr : lh.dBlocks < lhdSector (block.toNat * 512) + 1
    · exact sfsRwblock_einval 10 (lhdIo_wblock_range hr)
    · obtain ⟨code, buf, lh', ho, hio⟩ := @lhdIo_wblock lh data block hr
      rw [LhdSoftc.operate, if_pos (h.resolve_left hr)] at ho
      obtain ⟨rfl, -, rfl⟩ : LhdStatus.LHD_INVSECT = code ∧ Block.zero = buf ∧ lh = lh' := by
        simpa using ho
      exact sfsRwblock_einval 10 hio
  rw [WriteKept, hnone]
  exact id

/-- Without a media error on the first attempt the card writes the sector that
the driver computed. -/
theorem writeKept_iff_sector (hr : ¬ lh.dBlocks < lhdSector (block.toNat * 512) + 1)
    (hs : ¬ lh.dBlocks ≤ lhdSector (block.toNat * 512)) (hm : lh.media.head? ≠ some true) :
    WriteKept lh data block ↔ lhdSector (block.toNat * 512) = block := by
  obtain ⟨code, buf, lh', ho, hio⟩ := @lhdIo_wblock lh data block hr
  simp only [LhdSoftc.operate, if_neg hs, if_neg hm, Prod.mk.injEq] at ho
  obtain ⟨rfl, -, rfl⟩ := ho
  have hrun := sfsRwblock_done 10 hio
  rw [WriteKept, show sfsWblockOn lhdIo lh data block = _ from hrun]
  constructor
  · rintro ⟨new, hnew, hmem⟩
    have hone : new = [(lhdSector (block.toNat * 512), data)] :=
      (List.append_left_inj lh.written).mp hnew.symm
    rw [hone, List.mem_singleton] at hmem
    exact (Prod.mk.inj hmem).1.symm
  · intro h
    refine ⟨[(lhdSector (block.toNat * 512), data)], rfl, ?_⟩
    rw [h]
    exact List.mem_singleton.mpr rfl

/-- A block write returns an error or has been carried out if and only if the
block's byte offset fits an `off_t` and the first attempt meets no media error.
Later media errors do not matter, because there is no second attempt. -/
theorem sfsWblock_kept_iff {lh : LhdSoftc} {block : UInt32} (data : Block)
    (hb : block < lh.dBlocks) :
    WriteKept lh data block ↔
      (block.toNat < 4194304 ∨ 4290772992 ≤ block.toNat) ∧
        lh.media.head? ≠ some true := by
  rw [← lhdSector_mul_eq_iff]
  by_cases hr : lh.dBlocks < lhdSector (block.toNat * 512) + 1 ∨
      lh.dBlocks ≤ lhdSector (block.toNat * 512)
  · -- The panic; a block in range cannot get here under its own number.
    refine iff_of_false (not_writeKept_of_range hr) ?_
    rintro ⟨hs, -⟩
    rw [hs, UInt32.lt_iff_toNat_lt, UInt32.le_iff_toNat_le, UInt32.toNat_add] at hr
    rw [UInt32.lt_iff_toNat_lt] at hb
    have hlt := lh.dBlocks.toNat_lt
    have hone : (1 : UInt32).toNat = 1 := rfl
    omega
  · rw [not_or] at hr
    by_cases hm : lh.media.head? = some true
    · exact iff_of_false (not_writeKept_of_media hr.1 hr.2 hm) fun h => h.2 hm
    · rw [writeKept_iff_sector hr.1 hr.2 hm]
      exact (and_iff_left hm).symm

/-- A write that is kept: block 3 of a disk of 16 sectors without a script. -/
theorem sfsWblock_kept_iff_three :
    (3 : UInt32) < (⟨16, fun _ => .zero, [], []⟩ : LhdSoftc).dBlocks ∧
      WriteKept ⟨16, fun _ => .zero, [], []⟩ (Block.ofFn fun _ => 7) 3 :=
  ⟨by decide, (sfsWblock_kept_iff _ (by decide)).2 ⟨Or.inl (by decide), by decide⟩⟩

/-- One transient media error on block 3 of a disk of 16 sectors: the write
reports success and the card has written nothing. -/
theorem sfsWblock_loses_block_three :
    (3 : UInt32) < (⟨16, fun _ => .zero, [true], []⟩ : LhdSoftc).dBlocks ∧
      ¬ WriteKept ⟨16, fun _ => .zero, [true], []⟩ (Block.ofFn fun _ => 7) 3 :=
  ⟨by decide, not_writeKept_of_media (by decide) (by decide) rfl⟩

end Os161.Kern
