import Os161.Lib.Ledger
import Os161.Sfs.Fs

/-!
# What a mounted volume means

The abstract side. A file is seen through `FileView`: its inode, the disk block
behind each block of the file (zero for a hole), and the bytes, where a hole
reads as zeros. `view` computes it from memory and disk; the loaded copy of an
inode counts if there is one.

Every block in use is used for one purpose: as an inode, as the indirect block
of a file, or as the data of one block of a file. `owner` names these purposes
by a file and a `Role`, for a set `live` of files. `Sound live leak m d` is the
invariant of the whole volume: the free map, the owners and the blocks in
`leak`, which are marked but belong to nobody, form a ledger; the table of
vnodes is in order; and what is not flagged dirty in memory is the same on
disk. The root directory's inode sits in a reserved block, so it is not an
owner of that block in the ledger.
-/

namespace Os161.Sfs

open Os161.Kern Os161.Lib

/-! ## Files -/

@[ext] structure FileView where
  inode : SfsInode
  ptr : Nat → UInt32
  byte : Nat → UInt8

/-- The disk block behind block `fb` of a file; zero if there is none. -/
def ptrOf (i : SfsInode) (d : Disk) (fb : Nat) : UInt32 :=
  if h : fb < 15 then i.sfiDirect ⟨fb, h⟩
  else if fb < 143 ∧ i.sfiIndirect ≠ 0 then (d i.sfiIndirect).word (fb - 15)
  else 0

/-- The byte at position `p`, whether or not the file reaches so far. -/
def byteOf (i : SfsInode) (d : Disk) (p : Nat) : UInt8 :=
  if ptrOf i d (p / 512) = 0 then 0 else (d (ptrOf i d (p / 512))).byte (p % 512)

def fileView (i : SfsInode) (d : Disk) : FileView := ⟨i, ptrOf i d, byteOf i d⟩

/-- The inode of `f`: the copy in memory if it is loaded, else the one on
disk. -/
def inodeOf (m : SfsFs) (d : Disk) (f : UInt32) : SfsInode :=
  match m.sfsVnodes.get? f with
  | some sv => sv.svI
  | none => SfsInode.ofBlock (d f)

def view (m : SfsFs) (d : Disk) (f : UInt32) : FileView := fileView (inodeOf m d f) d

/-- `n` bytes of a file from `off` on. -/
def FileView.slice (v : FileView) (off n : Nat) : List UInt8 :=
  (List.range n).map fun i => v.byte (off + i)

/-! ## Owners -/

/-- What a file uses a block for. -/
inductive Role where
  | self
  | ind
  | data (fb : Nat)
  deriving DecidableEq

/-- The block that `f` uses in this role; zero if it uses none. -/
def FileView.blk (v : FileView) (f : UInt32) : Role → UInt32
  | .self => if f = sfsRootLocation then 0 else f
  | .ind => v.inode.sfiIndirect
  | .data fb => v.ptr fb

open Classical in
/-- The owner function of the ledger. -/
noncomputable def owner (live : Set UInt32) (v : UInt32 → FileView)
    (k : UInt32 × Role) : Option UInt32 :=
  if k.1 ∈ live ∧ (v k.1).blk k.1 k.2 ≠ 0 then some ((v k.1).blk k.1 k.2) else none

/-- Number of blocks of the volume. -/
def nblocks (m : SfsFs) : Nat := m.sfsSuper.spNblocks.toNat

/-- The first block that is not reserved. -/
def firstBlock (m : SfsFs) : Nat := 2 + bitblocks (nblocks m)

/-- Marked in the free map. -/
def Used (m : SfsFs) (b : UInt32) : Prop := m.sfsFreemap.isset b.toNat = true

/-- The superblock, the root inode, the bitmap, and what the bitmap has room for
past the end of the volume. -/
def Reserved (m : SfsFs) (b : UInt32) : Prop :=
  b.toNat < firstBlock m ∨ (nblocks m ≤ b.toNat ∧ b.toNat < m.sfsFreemap.nbits)

/-! ## The invariant -/

/-- The sizes fit together, and every block has a byte offset that the device
can reach. -/
structure Geom (m : SfsFs) : Prop where
  room : firstBlock m ≤ nblocks m
  dev : nblocks m ≤ m.dBlocks.toNat
  addr : nblocks m ≤ 4194304
  nbits : m.sfsFreemap.nbits = bitblocks (nblocks m) * 4096

def kindOf (f : UInt32) : UInt16 := if f = sfsRootLocation then sfsTypeDir else sfsTypeFile

def opsOf (f : UInt32) : VnodeOps := if f = sfsRootLocation then .dirops else .fileops

/-- Every loaded vnode is a live file, once, and somebody holds it. -/
structure TableOk (live : Set UInt32) (a : VnodeArray) : Prop where
  nodup : a.inos.Nodup
  live : ∀ {f sv}, a.get? f = some sv → f ∈ live
  ref : ∀ {f sv}, a.get? f = some sv → 1 ≤ sv.vnRefcount
  opens : ∀ {f sv}, a.get? f = some sv → sv.vnOpencount ≤ sv.vnRefcount
  ops : ∀ {f sv}, a.get? f = some sv → sv.vnOps = opsOf f

/-- What is not flagged dirty is on disk. -/
structure Synced (m : SfsFs) (d : Disk) : Prop where
  inode : ∀ {f sv}, m.sfsVnodes.get? f = some sv → sv.svDirty = false →
    d f = sv.svI.toBlock
  map : m.sfsFreemapdirty = false → ∀ j < bitblocks (nblocks m),
    d (sfsMapLocation + UInt32.ofNat j) = m.sfsFreemap.getBlock j
  superClean : m.sfsSuperdirty = false
  super : superOfBlock (d sfsSbLocation) = m.sfsSuper

structure Sound (live leak : Set UInt32) (m : SfsFs) (d : Disk) : Prop where
  geom : Geom m
  root : sfsRootLocation ∈ live
  nonzero : 0 ∉ live
  table : TableOk live m.sfsVnodes
  kind : ∀ {f}, f ∈ live → (inodeOf m d f).sfiType = kindOf f
  ledger : Ledger (owner live (view m d)) (Used m) (Reserved m) leak
  synced : Synced m d

end Os161.Sfs
