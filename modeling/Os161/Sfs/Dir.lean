import Os161.Sfs.Io

/-!
# Directory I/O

The root directory is a file of 64-byte slots; a slot whose inode number is
zero is free. `sfs_dir_findname` reads every slot from the first to the last,
whether or not it has found the name already, and reports the last free slot
it saw. It hands its findings back through pointers and says with ENOENT that
there was no such name, so that its result is a pair here: the error code or
what was found, and the free slot in either case.
-/

namespace Os161.Sfs

open Os161.Kern Os161.Lib

/-- `sfs_readdir`. -/
def sfsReaddir (f : UInt32) (slot : Nat) : SfsM SfsDir := do
  let r ← call (sfsIo f (mkKuio [] SfsDir.sizeof (slot * SfsDir.sizeof) .UIO_READ))
  match r.1 with
  | .error e => throw e
  | .ok () =>
    if 0 < r.2.resid then call (Prog.panic (.readdirShort f))
    else pure (SfsDir.ofBytes r.2.iov)

/-- `sfs_writedir`. -/
def sfsWritedir (f : UInt32) (sd : SfsDir) (slot : Nat) : SfsM Unit := do
  let r ← call
    (sfsIo f (mkKuio sd.toBytes SfsDir.sizeof (slot * SfsDir.sizeof) .UIO_WRITE))
  match r.1 with
  | .error e => throw e
  | .ok () =>
    if 0 < r.2.resid then call (Prog.panic (.writedirShort f))
    else pure ()

/-- `sfs_dir_nentries`. -/
def sfsDirNentries (f : UInt32) : SfsProg Nat := do
  let sv ← vnode f
  Prog.assert (sv.svI.sfiType = sfsTypeDir) .nentriesType
  if sv.svI.sfiSize.toNat % SfsDir.sizeof ≠ 0 then Prog.panic (.nentriesSize f)
  else pure (sv.svI.sfiSize.toNat / SfsDir.sizeof)

/-- What `sfs_dir_findname` reports: inode and slot, or the reason why not; and
the last free slot. -/
abbrev FindResult := Except Errno (UInt32 × Nat) × Option Nat

/-- The loop of `sfs_dir_findname`, with `left` of `nentries` slots to go. -/
def findname.loop (f : UInt32) (name : CString) (nentries : Nat) :
    Nat → Option (UInt32 × Nat) → Option Nat → SfsProg FindResult
  | 0, found, emptyslot =>
    match found with
    | some r => pure (.ok r, emptyslot)
    | none => pure (.error .ENOENT, emptyslot)
  | left + 1, found, emptyslot => do
      let i := nentries - (left + 1)
      let r ← (sfsReaddir f i).run
      match r with
      | .error e => pure (.error e, emptyslot)
      | .ok tsd =>
        if tsd.sfdIno = sfsNoino then loop f name nentries left found (some i)
        else if tsd.name = name then do
          -- Each name may legally appear only once...
          Prog.assert (found = none) .findnameFound
          loop f name nentries left (some (tsd.sfdIno, i)) emptyslot
        else loop f name nentries left found emptyslot

/-- `sfs_dir_findname`. -/
def sfsDirFindname (f : UInt32) (name : CString) : SfsProg FindResult := do
  let nentries ← sfsDirNentries f
  findname.loop f name nentries nentries none none

/-- `sfs_dir_link`. The result is the slot. -/
def sfsDirLink (f : UInt32) (name : CString) (ino : UInt32) : SfsM Nat := do
  let r ← call (sfsDirFindname f name)
  match r.1 with
  | .ok _ => throw .EEXIST
  | .error e =>
    if e ≠ .ENOENT then throw e
    else if sfsNamelen < name.strlen + 1 then throw .ENAMETOOLONG
    else
      match r.2 with
      | some slot => do
          sfsWritedir f (SfsDir.entry ino name) slot
          pure slot
      | none => do
          -- If we didn't get an empty slot, add the entry at the end.
          let slot ← call (sfsDirNentries f)
          sfsWritedir f (SfsDir.entry ino name) slot
          pure slot

end Os161.Sfs
