import Os161.Kern.Block
import Os161.Kern.CString
import Mathlib.Data.UInt
import Mathlib.Data.Fintype.Pi

/-!
# The on-disk format

The structures of `kern/sfs.h` and the sizes computed from them. Every one of
them is laid over a block, or over 64 bytes of one in the case of a directory
entry, in the machine's big-endian byte order; `mksfs` on a little-endian host
swaps to the same layout. `toBlock` and `ofBlock` are the two directions of
that overlay. For inodes they are inverse to each other both ways, so that
writing an inode back and reading it again cannot lose or invent anything.

`SFS_ROUNDUP` and the two macros over it are computed in 32-bit arithmetic, as
the compiler does.
-/

namespace Os161.Sfs

open Os161.Kern

/-- A disk, block by block. -/
abbrev Disk := UInt32 → Block

/-! ## Constants -/

def sfsMagic : UInt32 := 0xabadf001

abbrev sfsVolnameSize : Nat := 32
abbrev sfsNdirect : Nat := 15
abbrev sfsDbperidb : Nat := 128
abbrev sfsNamelen : Nat := 60

def sfsSbLocation : UInt32 := 0
def sfsRootLocation : UInt32 := 1
def sfsMapLocation : UInt32 := 2
def sfsNoino : UInt32 := 0

def sfsTypeInval : UInt16 := 0
def sfsTypeFile : UInt16 := 1
def sfsTypeDir : UInt16 := 2

/-- SFS_BLOCKSIZE * CHAR_BIT. -/
def sfsBlockbits : UInt32 := 4096

def sfsRoundup (a b : UInt32) : UInt32 := (a + b - 1) / b * b

/-- Size of the bitmap in bits. -/
def sfsBitmapsize (nblocks : UInt32) : UInt32 := sfsRoundup nblocks sfsBlockbits

/-- Size of the bitmap in blocks. -/
def sfsBitblocks (nblocks : UInt32) : UInt32 := sfsBitmapsize nblocks / sfsBlockbits

/-- The number of bitmap blocks, as a number. -/
abbrev bitblocks (n : Nat) : Nat := (n + 4095) / 4096

/-- The rounding wraps for the last 4095 sizes. -/
theorem toNat_sfsBitmapsize_mod (n : UInt32) :
    (sfsBitmapsize n).toNat = (n.toNat + 4095) % 4294967296 / 4096 * 4096 := by
  have h1 : (n + 4096 - 1).toNat = (n.toNat + 4095) % 4294967296 := by
    rw [UInt32.toNat_sub, UInt32.toNat_add]
    simp only [UInt32.reduceToNat]
    omega
  rw [sfsBitmapsize, sfsRoundup, sfsBlockbits, UInt32.toNat_mul, UInt32.toNat_div, h1]
  simp only [UInt32.reduceToNat]
  omega

theorem toNat_sfsBitmapsize {n : UInt32} (h : n.toNat ≤ 4294963200) :
    (sfsBitmapsize n).toNat = bitblocks n.toNat * 4096 := by
  rw [toNat_sfsBitmapsize_mod, bitblocks]
  omega

theorem toNat_sfsBitblocks {n : UInt32} (h : n.toNat ≤ 4294963200) :
    (sfsBitblocks n).toNat = bitblocks n.toNat := by
  rw [sfsBitblocks, UInt32.toNat_div, toNat_sfsBitmapsize h, sfsBlockbits]
  simp only [UInt32.reduceToNat]
  omega

/-! ## The superblock -/

structure SfsSuper where
  spMagic : UInt32
  spNblocks : UInt32
  spVolname : Fin 32 → UInt8
  reserved : Fin 118 → UInt32
  deriving DecidableEq

namespace SfsSuper

def toBlock (sp : SfsSuper) : Block := Block.ofFn fun i =>
  if i < 4 then Block.wordByte sp.spMagic i
  else if i < 8 then Block.wordByte sp.spNblocks (i - 4)
  else if h : i < 40 then sp.spVolname ⟨i - 8, by omega⟩
  else if h : i < 512 then Block.wordByte (sp.reserved ⟨i / 4 - 10, by omega⟩) (i % 4)
  else 0

def ofBlock (b : Block) : SfsSuper where
  spMagic := b.word 0
  spNblocks := b.word 1
  spVolname i := b.byte (8 + i)
  reserved k := b.word (10 + k)

theorem ofBlock_toBlock (sp : SfsSuper) : ofBlock sp.toBlock = sp := by
  have h0 : ∀ j < 4, sp.toBlock.byte j = Block.wordByte sp.spMagic j := by
    intro j hj
    rw [toBlock, Block.byte_ofFn (by omega), if_pos hj]
  have h1 : ∀ j < 4, sp.toBlock.byte (4 + j) = Block.wordByte sp.spNblocks j := by
    intro j hj
    rw [toBlock, Block.byte_ofFn (by omega), if_neg (by omega), if_pos (by omega),
      Nat.add_sub_cancel_left]
  have hr : ∀ (k : Fin 118) (j : Nat), j < 4 →
      sp.toBlock.byte (4 * (10 + k) + j) = Block.wordByte (sp.reserved k) j := by
    intro k j hj
    have hk := k.isLt
    rw [toBlock, Block.byte_ofFn (by omega), if_neg (by omega), if_neg (by omega),
      dif_neg (by omega), dif_pos (by omega)]
    congr 1
    · congr 1
      ext
      show (4 * (10 + (k : Nat)) + j) / 4 - 10 = k
      omega
    · omega
  have hv : ∀ i : Fin 32, sp.toBlock.byte (8 + i) = sp.spVolname i := by
    intro i
    have hi := i.isLt
    rw [toBlock, Block.byte_ofFn (by omega), if_neg (by omega), if_neg (by omega),
      dif_pos (by omega)]
    congr 1
    ext
    exact Nat.add_sub_cancel_left _ _
  have hm : sp.toBlock.word 0 = sp.spMagic := by
    rw [Block.word, h0 0 (by omega), h0 1 (by omega), h0 2 (by omega), h0 3 (by omega),
      Block.be32_wordByte]
  have hn : sp.toBlock.word 1 = sp.spNblocks := by
    rw [Block.word, h1 0 (by omega), h1 1 (by omega), h1 2 (by omega), h1 3 (by omega),
      Block.be32_wordByte]
  have hw : ∀ k : Fin 118, sp.toBlock.word (10 + k) = sp.reserved k := by
    intro k
    have hk0 : sp.toBlock.byte (4 * (10 + k)) = Block.wordByte (sp.reserved k) 0 :=
      hr k 0 (by omega)
    rw [Block.word, hk0, hr k 1 (by omega), hr k 2 (by omega), hr k 3 (by omega),
      Block.be32_wordByte]
  cases sp
  simp only [ofBlock, hm, hn, mk.injEq, true_and]
  exact ⟨funext hv, funext hw⟩

end SfsSuper

/-! ## Inodes -/

structure SfsInode where
  sfiSize : UInt32
  sfiType : UInt16
  sfiLinkcount : UInt16
  sfiDirect : Fin 15 → UInt32
  sfiIndirect : UInt32
  sfiWaste : Fin 110 → UInt32
  deriving DecidableEq

namespace SfsInode

def setDirect (k : Fin 15) (block : UInt32) (i : SfsInode) : SfsInode :=
  { i with sfiDirect := Function.update i.sfiDirect k block }

def setIndirect (block : UInt32) (i : SfsInode) : SfsInode :=
  { i with sfiIndirect := block }

def setSize (size : UInt32) (i : SfsInode) : SfsInode := { i with sfiSize := size }

def setLinkcount (n : UInt16) (i : SfsInode) : SfsInode := { i with sfiLinkcount := n }

def words (i : SfsInode) (k : Nat) : UInt32 :=
  if k = 0 then i.sfiSize
  else if k = 1 then
    UInt32.ofNat (i.sfiType.toNat * 65536 + i.sfiLinkcount.toNat)
  else if h : k - 2 < 15 then i.sfiDirect ⟨k - 2, h⟩
  else if k = 17 then i.sfiIndirect
  else if h : k - 18 < 110 then i.sfiWaste ⟨k - 18, h⟩
  else 0

def toBlock (i : SfsInode) : Block := Block.ofWords i.words

def ofBlock (b : Block) : SfsInode where
  sfiSize := b.word 0
  sfiType := UInt16.ofNat ((b.word 1).toNat / 65536)
  sfiLinkcount := UInt16.ofNat ((b.word 1).toNat % 65536)
  sfiDirect k := b.word (2 + k)
  sfiIndirect := b.word 17
  sfiWaste k := b.word (18 + k)

theorem ofBlock_toBlock (i : SfsInode) : ofBlock i.toBlock = i := by
  have h1 : (i.words 1).toNat = i.sfiType.toNat * 65536 + i.sfiLinkcount.toNat := by
    have ht := i.sfiType.toNat_lt
    have hl := i.sfiLinkcount.toNat_lt
    rw [words, if_neg (by decide), if_pos rfl, UInt32.toNat_ofNat']
    omega
  have hd : ∀ k : Fin 15, i.words (2 + k) = i.sfiDirect k := by
    intro k
    have hk := k.isLt
    rw [words, if_neg (by omega), if_neg (by omega), dif_pos (by omega)]
    congr 1
    ext
    exact Nat.add_sub_cancel_left _ _
  have hw : ∀ k : Fin 110, i.words (18 + k) = i.sfiWaste k := by
    intro k
    have hk := k.isLt
    rw [words, if_neg (by omega), if_neg (by omega), dif_neg (by omega), if_neg (by omega),
      dif_pos (by omega)]
    congr 1
    ext
    exact Nat.add_sub_cancel_left _ _
  have htype : UInt16.ofNat ((i.words 1).toNat / 65536) = i.sfiType := by
    have hl := i.sfiLinkcount.toNat_lt
    rw [h1, show (i.sfiType.toNat * 65536 + i.sfiLinkcount.toNat) / 65536 =
      i.sfiType.toNat by omega, UInt16.ofNat_toNat]
  have hlink : UInt16.ofNat ((i.words 1).toNat % 65536) = i.sfiLinkcount := by
    have hl := i.sfiLinkcount.toNat_lt
    rw [h1, show (i.sfiType.toNat * 65536 + i.sfiLinkcount.toNat) % 65536 =
      i.sfiLinkcount.toNat by omega, UInt16.ofNat_toNat]
  have hword : ∀ k < 128, i.toBlock.word k = i.words k := fun k hk => Block.word_ofWords hk
  cases i
  simp only [ofBlock, mk.injEq]
  refine ⟨hword 0 (by omega), ?_, ?_, funext fun k => ?_, hword 17 (by omega),
    funext fun k => ?_⟩
  · rw [hword 1 (by omega)]; exact htype
  · rw [hword 1 (by omega)]; exact hlink
  · rw [hword _ (by omega)]; exact hd k
  · rw [hword _ (by omega)]; exact hw k

theorem toBlock_ofBlock (b : Block) : (ofBlock b).toBlock = b := by
  refine Block.word_ext fun k hk => ?_
  rw [toBlock, Block.word_ofWords hk, words]
  split
  · next h => subst h; rfl
  split
  · next h =>
    have hw := (b.word 1).toNat_lt
    subst h
    simp only [ofBlock, UInt16.toNat_ofNat']
    apply UInt32.toNat_inj.mp
    rw [UInt32.toNat_ofNat']
    omega
  split
  · next h => exact congrArg b.word (by show 2 + (k - 2) = k; omega)
  split
  · next h => subst h; rfl
  split
  · next h => exact congrArg b.word (by show 18 + (k - 18) = k; omega)
  · omega

/-- What a cleared block holds when it is read as an inode. -/
theorem ofBlock_zero : ofBlock Block.zero =
    { sfiSize := 0, sfiType := sfsTypeInval, sfiLinkcount := 0, sfiDirect := fun _ => 0,
      sfiIndirect := 0, sfiWaste := fun _ => 0 } := by
  simp [ofBlock, sfsTypeInval]

end SfsInode

/-! ## Directory entries -/

structure SfsDir where
  sfdIno : UInt32
  sfdName : List UInt8
  deriving DecidableEq

namespace SfsDir

/-- sizeof(struct sfs_dir). -/
abbrev sizeof : Nat := 64

def toBytes (sd : SfsDir) : List UInt8 :=
  [Block.wordByte sd.sfdIno 0, Block.wordByte sd.sfdIno 1, Block.wordByte sd.sfdIno 2,
    Block.wordByte sd.sfdIno 3] ++ sd.sfdName

def ofBytes (l : List UInt8) : SfsDir where
  sfdIno := Block.be32 (l.getD 0 0) (l.getD 1 0) (l.getD 2 0) (l.getD 3 0)
  sfdName := (l.drop 4).take 60

theorem ofBytes_toBytes {sd : SfsDir} (h : sd.sfdName.length = 60) : ofBytes sd.toBytes = sd := by
  cases sd
  simp only [ofBytes, toBytes, List.cons_append, List.nil_append, List.getD_cons_zero,
    List.getD_cons_succ, Block.be32_wordByte, List.drop_succ_cons, List.drop_zero, mk.injEq,
    true_and]
  exact List.take_of_length_le (Nat.le_of_eq h)

theorem length_toBytes {sd : SfsDir} (h : sd.sfdName.length = 60) : sd.toBytes.length = 64 := by
  simp [toBytes, h]

/-- The name as `sfs_dir_findname` compares it: the last byte is overwritten
with a zero first. -/
def name (sd : SfsDir) : CString := CString.ofBytes (sd.sfdName.take 59)

/-- `bzero` and `strcpy`, for a name that fits. -/
def entry (ino : UInt32) (name : CString) : SfsDir where
  sfdIno := ino
  sfdName := name.bytes ++ List.replicate (60 - name.strlen) 0

/-- A free slot. -/
def empty : SfsDir where
  sfdIno := sfsNoino
  sfdName := List.replicate 60 0

theorem length_entry {ino : UInt32} {name : CString} (h : name.strlen ≤ 60) :
    (entry ino name).sfdName.length = 60 := by
  have : name.bytes.length = name.strlen := rfl
  simp [entry]
  omega

theorem name_entry {ino : UInt32} {name : CString} (h : name.strlen + 1 ≤ 60) :
    (entry ino name).name = name := by
  have hl : name.bytes.length = name.strlen := rfl
  rcases Nat.lt_or_ge name.strlen 59 with hlt | hge
  · rw [SfsDir.name, entry, List.take_append, List.take_of_length_le (by omega),
      List.take_replicate, show min (59 - name.bytes.length) (60 - name.strlen) =
        (58 - name.strlen) + 1 by omega, List.replicate_succ]
    exact CString.ofBytes_append_zero _ _
  · rw [SfsDir.name, entry, List.take_append, List.take_of_length_le (by omega),
      show 59 - name.bytes.length = 0 by omega, List.take_zero, List.append_nil]
    exact CString.ofBytes_bytes name

end SfsDir

end Os161.Sfs
