import Os161.Kern.Bitmap
import Os161.Kern.Lhd
import Os161.Lib.Prog
import Os161.Sfs.Format

/-!
# A mounted volume in memory

`struct sfs_fs` with everything that hangs off it: the superblock, the table of
loaded vnodes and the free map, and the three static buffers in which
`sfs_partialio`, `sfs_bmap` and `sfs_truncate` keep a block while they work on
it. They are static, so there is one of each for all threads, and they belong
to the shared memory.

A `struct sfs_vnode *` is the inode number here. `sfs_loadvnode` never puts two
vnodes for one inode into the table, so the number identifies the vnode as long
as it is loaded; following a pointer to a vnode that is not in the table any
more is `Panic.danglingVnode`.

The routines of `fs/sfs` are programs over this memory (`SfsProg`), and over
error codes where they return one (`SfsM`). A block transfer is one step. A read
brings the block or the error that `sfs_rwblock` was left with after its
retries; a write that meets a media error is lost and reports success. Both are
what `sfs_rwblock` makes of `lhd_io` (`Os161.Kern.Lhd`, `Os161.Proofs.Rwblock`).
-/

namespace Os161.Sfs

open Os161.Kern Os161.Lib

/-! ## Ways to stop -/

/-- The `panic`s and `assert`s that the modelled code can reach, under the name
of the routine they stand in. -/
inductive Panic where
  -- sfs_io.c, uio.c, bitmap.c
  | rwblockEinval
  | uiomoveShort
  | bitmapAlloc
  | bitmapUnmark
  | bitmapCreate
  -- vnode.c
  | danglingVnode
  | decrefRefcount
  | decopenOpencount
  | killRefcount
  | killOpencount
  -- sfs_vnode.c
  | ballocInvalid (block : UInt32)
  | busedRange (block : UInt32)
  | bmapMarkedFree (block : UInt32)
  | partialioRange
  | partialioHole
  | blockioHole
  | blockioResid
  | ioExtraresid
  | ioUnaligned
  | ioLeftover
  | readdirShort (ino : UInt32)
  | writedirShort (ino : UInt32)
  | nentriesType
  | nentriesSize (ino : UInt32)
  | findnameFound
  | lookonceLinkcount (ino : UInt32)
  | reclaimRefcount
  | reclaimPool (ino : UInt32)
  | gettypeInvalid
  | loadvnodeUnallocated (ino : UInt32)
  | loadvnodeForcetype
  | loadvnodeTried (ino : UInt32)
  | loadvnodeNotInval
  | loadvnodeType (ino : UInt32)
  | getroot
  deriving DecidableEq, Repr

/-- What a transfer can come back with: EINVAL never gets past
`sfs_rwblock`. -/
inductive IoErr where
  | EIO
  | EAGAIN
  deriving DecidableEq, Repr

def IoErr.errno : IoErr → Errno
  | IoErr.EIO => Errno.EIO
  | .EAGAIN => .EAGAIN

/-! ## Vnodes -/

/-- `sfs_fileops` and `sfs_dirops`. -/
inductive VnodeOps where
  | fileops
  | dirops
  deriving DecidableEq, Repr

structure SfsVnode where
  svIno : UInt32
  svI : SfsInode
  svDirty : Bool
  vnOps : VnodeOps
  vnRefcount : Nat
  vnOpencount : Nat
  deriving DecidableEq

/-- `struct array`, with `num <= max` as every routine of `lib/array.c`
asserts. -/
structure VnodeArray where
  v : List SfsVnode
  max : Nat
  le : v.length ≤ max
  deriving DecidableEq

namespace VnodeArray

def empty : VnodeArray := ⟨[], 0, le_rfl⟩

/-- The inode numbers in the table. -/
def inos (a : VnodeArray) : List UInt32 := a.v.map SfsVnode.svIno

def get? (a : VnodeArray) (ino : UInt32) : Option SfsVnode :=
  a.v.find? fun sv => sv.svIno == ino

def update (a : VnodeArray) (ino : UInt32) (f : SfsVnode → SfsVnode) : VnodeArray where
  v := a.v.map fun sv => if sv.svIno = ino then f sv else sv
  max := a.max
  le := by rw [List.length_map]; exact a.le

/-- `array_remove` at the position of the vnode. -/
def remove (a : VnodeArray) (ino : UInt32) : VnodeArray where
  v := a.v.eraseP fun sv => sv.svIno == ino
  max := a.max
  le := Nat.le_trans List.length_eraseP_le a.le

/-- `array_add` after `array_preallocate`: the new capacity is the first of the
sequence `max, (max+1)*2, ...` that is large enough. -/
def add (a : VnodeArray) (sv : SfsVnode) : VnodeArray where
  v := a.v ++ [sv]
  max := if a.v.length + 1 ≤ a.max then a.max else (a.max + 1) * 2
  le := by
    have := a.le
    rw [List.length_append]
    show a.v.length + 1 ≤ _
    split <;> omega

end VnodeArray

/-! ## The file system -/

structure SfsFs where
  sfsSuper : SfsSuper
  sfsSuperdirty : Bool
  sfsVnodes : VnodeArray
  sfsFreemap : Bitmap
  sfsFreemapdirty : Bool
  dBlocks : UInt32
  iobuf : Block
  idbuf : Block
  truncIdbuf : Block

abbrev SfsProg : Type → Type := Prog SfsFs UInt32 Block IoErr Panic

abbrev SfsM : Type → Type := ExceptT Errno SfsProg

/-! ## Blocks -/

/-- `sfs_rblock`. A request past the end of the device is EINVAL from `d_io`,
which is fatal. -/
def sfsRblock (dBlocks block : UInt32) {M : Type} :
    ExceptT Errno (Prog M UInt32 Block IoErr Panic) Block :=
  if dBlocks < lhdSector (block.toNat * 512) + 1 then
    call (Prog.panic .rwblockEinval)
  else ExceptT.mk do
    match ← Prog.read (lhdSector (block.toNat * 512)) with
    | .ok data => pure (.ok data)
    | .error e => pure (.error e.errno)

/-- `sfs_wblock`. The data is what `src` finds in memory when the driver has
got hold of the device. The driver has emptied the uio by the time the card
answers, so the retry after a media error asks for no sector, behind the block:
unless that is out of range the write reports success, and the block keeps what
it held. -/
def sfsWblock (dBlocks block : UInt32) {M : Type} (src : M → Block) :
    ExceptT Errno (Prog M UInt32 Block IoErr Panic) Unit :=
  if dBlocks < lhdSector (block.toNat * 512) + 1 then
    call (Prog.panic .rwblockEinval)
  else ExceptT.mk do
    match ← Prog.write (lhdSector (block.toNat * 512)) src with
    | .ok () => pure (.ok ())
    | .error .EAGAIN => pure (.error .EAGAIN)
    | .error IoErr.EIO =>
      if dBlocks < lhdSector ((block.toNat + 1) * 512) then Prog.panic .rwblockEinval
      else pure (.ok ())

/-- `sfs_clearblock`. -/
def sfsClearblock (block : UInt32) : SfsM Unit := do
  let sfs ← call Prog.mem
  sfsWblock sfs.dBlocks block fun _ => Block.zero

/-! ## Following a vnode pointer -/

def vnode (f : UInt32) : SfsProg SfsVnode := do
  let sfs ← Prog.mem
  match sfs.sfsVnodes.get? f with
  | some sv => pure sv
  | none => Prog.panic .danglingVnode

def SfsFs.withVnode (sfs : SfsFs) (f : UInt32) (u : SfsVnode → SfsVnode) : SfsFs :=
  { sfs with sfsVnodes := sfs.sfsVnodes.update f u }

def setVnode (f : UInt32) (u : SfsVnode → SfsVnode) : SfsProg Unit :=
  Prog.modify fun sfs => sfs.withVnode f u

/-- Change `sv_i` and mark it dirty. -/
def SfsVnode.withInode (g : SfsInode → SfsInode) (sv : SfsVnode) : SfsVnode :=
  { sv with svI := g sv.svI, svDirty := true }

def setInode (f : UInt32) (g : SfsInode → SfsInode) : SfsProg Unit :=
  setVnode f (SfsVnode.withInode g)

/-- `sfs_sync_inode`. -/
def sfsSyncInode (f : UInt32) : SfsM Unit := do
  let sv ← call (vnode f)
  if sv.svDirty then do
    let sfs ← call Prog.mem
    sfsWblock sfs.dBlocks f fun sfs => ((sfs.sfsVnodes.get? f).getD sv).svI.toBlock
    setVnode f fun sv => { sv with svDirty := false }
  else pure ()

/-! ## Space allocation -/

/-- `sfs_balloc`. -/
def sfsBalloc : SfsM UInt32 := do
  let sfs ← call Prog.mem
  match sfs.sfsFreemap.alloc with
  | none => call (Prog.panic .bitmapAlloc)
  | some (.error e) => throw e
  | some (.ok (index, freemap)) => do
      let diskblock := UInt32.ofNat index
      call (Prog.put { sfs with sfsFreemap := freemap, sfsFreemapdirty := true })
      if sfs.sfsSuper.spNblocks ≤ diskblock then
        call (Prog.panic (.ballocInvalid diskblock))
      else do
        sfsClearblock diskblock
        pure diskblock

/-- `sfs_bfree`. -/
def sfsBfree (diskblock : UInt32) : SfsProg Unit := do
  let sfs ← Prog.mem
  match sfs.sfsFreemap.unmark diskblock.toNat with
  | none => Prog.panic .bitmapUnmark
  | some freemap =>
    Prog.put { sfs with sfsFreemap := freemap, sfsFreemapdirty := true }

/-- `sfs_bused`. -/
def sfsBused (diskblock : UInt32) : SfsProg Bool := do
  let sfs ← Prog.mem
  if sfs.sfsSuper.spNblocks ≤ diskblock then Prog.panic (.busedRange diskblock)
  else pure (sfs.sfsFreemap.isset diskblock.toNat)

end Os161.Sfs
