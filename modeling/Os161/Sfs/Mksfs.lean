import Os161.Sfs.Format
import Os161.Kern.Bitmap

/-!
# Making a volume

`sbin/mksfs`: a user program that writes a superblock, an empty root directory
and the bitmap to a disk. It shares the structures of `kern/sfs.h` with the
kernel and nothing else; in particular it sets bits with code of its own, in a
buffer of fixed size. It stops with `errx` on arguments it does not like, and
`doallocbit` has an assertion.
-/

namespace Os161.Sfs

open Os161.Kern

/-- Ways for `mksfs` to stop. -/
inductive MksfsStop where
  | volnameTooLong
  | illegalVolname
  | tooLarge
  | doallocbitAssert
  deriving DecidableEq, Repr

abbrev maxBitblocks : Nat := 32

def diskwrite (disk : Disk) (data : Block) (block : UInt32) : Disk :=
  Function.update disk block data

/-- The bytes of `name` and zeros behind it: `strcpy` into a cleared field. -/
def volnameField (name : CString) (i : Fin 32) : UInt8 := name.bytes.getD i 0

def writesuper (volname : CString) (nblocks : UInt32) (disk : Disk) :
    Except MksfsStop Disk :=
  if sfsVolnameSize ≤ volname.strlen then .error .volnameTooLong
  else
    let sp : SfsSuper :=
      { spMagic := sfsMagic, spNblocks := nblocks, spVolname := volnameField volname,
        reserved := fun _ => 0 }
    .ok (diskwrite disk sp.toBlock sfsSbLocation)

/-- The inode of the root directory of a new volume. -/
def newRoot : SfsInode where
  sfiSize := 0
  sfiType := sfsTypeDir
  sfiLinkcount := 1
  sfiDirect := fun _ => 0
  sfiIndirect := 0
  sfiWaste := fun _ => 0

def writerootdir (disk : Disk) : Disk := diskwrite disk newRoot.toBlock sfsRootLocation

/-- `static char bitbuf[MAXBITBLOCKS*SFS_BLOCKSIZE]`. -/
def bitbuf : Bitmap :=
  ⟨maxBitblocks * 4096, List.replicate (maxBitblocks * 512) 0, List.length_replicate⟩

def doallocbit (bitbuf : Bitmap) (bit : Nat) : Except MksfsStop Bitmap :=
  let byte := bit / 8
  let mask : UInt8 := 1 <<< UInt8.ofNat (bit % 8)
  if bitbuf.word byte &&& mask = 0 then .ok (bitbuf.setWord byte (bitbuf.word byte ||| mask))
  else .error .doallocbitAssert

/-- `for (i=0; i<count; i++) doallocbit(start+i)`. -/
def doallocbits (bitbuf : Bitmap) (start count : Nat) : Except MksfsStop Bitmap :=
  (List.range' start count).foldlM doallocbit bitbuf

/-- The bits in use on a new volume, in the order in which they are set. -/
def fillbitmap (fsblocks : UInt32) : Except MksfsStop Bitmap := do
  let nbits := sfsBitmapsize fsblocks
  let nblocks := sfsBitblocks fsblocks
  let b ← doallocbit bitbuf sfsSbLocation.toNat
  let b ← doallocbit b sfsRootLocation.toNat
  let b ← doallocbits b sfsMapLocation.toNat nblocks.toNat
  doallocbits b fsblocks.toNat (nbits.toNat - fsblocks.toNat)

/-- The loop that writes `count` blocks of the bitmap. -/
def dumpbitmap (b : Bitmap) (disk : Disk) (count : Nat) : Disk :=
  (List.range count).foldl
    (fun disk i => diskwrite disk (b.getBlock i) (sfsMapLocation + UInt32.ofNat i)) disk

def writebitmap (fsblocks : UInt32) (disk : Disk) : Except MksfsStop Disk :=
  let nblocks := sfsBitblocks fsblocks
  if maxBitblocks < nblocks.toNat then .error .tooLarge
  else do
    let b ← fillbitmap fsblocks
    pure (dumpbitmap b disk nblocks.toNat)

/-- The name on the command line without one trailing colon. Other colons, and
slashes, are illegal. -/
def checkVolname (volname : CString) : Except MksfsStop CString :=
  let colon : UInt8 := 58
  let slash : UInt8 := 47
  let front := volname.bytes.takeWhile (· ≠ colon)
  let rest := volname.bytes.dropWhile (· ≠ colon)
  if 1 < rest.length then .error .illegalVolname
  else if slash ∈ front then .error .illegalVolname
  else .ok ⟨front, fun x hx => volname.nonzero x (List.takeWhile_subset _ hx)⟩

/-- `main`, on a disk of `size` blocks. -/
def mksfs (volname : CString) (size : UInt32) (disk : Disk) : Except MksfsStop Disk := do
  let volname ← checkVolname volname
  let disk ← writesuper volname size disk
  writebitmap size (writerootdir disk)

end Os161.Sfs
