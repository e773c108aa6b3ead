import Os161.Sfs.Vnode

/-!
# Mounting

`fs/sfs/sfs_fs.c`. The whole free map is read at mount time, one block of it after
another.

`sfs_domount` runs before there is any `struct sfs_fs`, so its memory is empty
and its result is the structure it builds.
-/

namespace Os161.Sfs

open Os161.Kern Os161.Lib

/-! ## The free map -/

/-- `sfs_mapio(sfs, UIO_READ)` into a given bitmap. -/
def mapio.read (dBlocks : UInt32) (mapsize : Nat) :
    Nat → Bitmap → ExceptT Errno (Prog Unit UInt32 Block IoErr Panic) Bitmap
  | 0, freemap => pure freemap
  | left + 1, freemap => do
      let j := mapsize - (left + 1)
      let data ← sfsRblock dBlocks (sfsMapLocation + UInt32.ofNat j)
      mapio.read dBlocks mapsize left (freemap.setBlock j data)

/-! ## Mount -/

/-- The superblock as `sfs_domount` keeps it: null termination of the volume
name is ensured. -/
def superOfBlock (data : Block) : SfsSuper :=
  let sp := SfsSuper.ofBlock data
  { sp with spVolname := Function.update sp.spVolname 31 0 }

/-- `bitmap_create`, which allocates the structure and the bytes. -/
def bitmapCreate (nbits : Nat) :
    ExceptT Errno (Prog Unit UInt32 Block IoErr Panic) Bitmap := do
  let b ← call Prog.kmalloc
  if ¬ b then throw .ENOMEM
  else do
    let v ← call Prog.kmalloc
    if ¬ v then throw .ENOMEM
    else
      match Bitmap.create nbits with
      | none => call (Prog.panic .bitmapCreate)
      | some freemap => pure freemap

/-- The structure that a mount starts with. -/
def mounted (sp : SfsSuper) (freemap : Bitmap) (dBlocks : UInt32) : SfsFs where
  sfsSuper := sp
  sfsSuperdirty := false
  sfsVnodes := VnodeArray.empty
  sfsFreemap := freemap
  sfsFreemapdirty := false
  dBlocks := dBlocks
  iobuf := Block.zero
  idbuf := Block.zero
  truncIdbuf := Block.zero

/-- `sfs_domount` on a device with `dBlocks` blocks of `dBlocksize` bytes. -/
def sfsDomount (dBlocks dBlocksize : UInt32) :
    ExceptT Errno (Prog Unit UInt32 Block IoErr Panic) SfsFs :=
  if dBlocksize ≠ 512 then throw Errno.ENXIO
  else do
    let fs ← call Prog.kmalloc
    if ¬ fs then throw .ENOMEM
    else do
      let vnodes ← call Prog.kmalloc
      if ¬ vnodes then throw .ENOMEM
      else do
        let data ← sfsRblock dBlocks sfsSbLocation
        let sp := superOfBlock data
        -- Make some simple sanity checks; too few blocks on the device only warn
        if sp.spMagic ≠ sfsMagic then throw .EINVAL
        else do
          let freemap ← bitmapCreate (sfsBitmapsize sp.spNblocks).toNat
          let mapsize := (sfsBitblocks sp.spNblocks).toNat
          let freemap ← mapio.read dBlocks mapsize mapsize freemap
          pure (mounted sp freemap dBlocks)

end Os161.Sfs
