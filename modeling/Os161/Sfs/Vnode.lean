import Os161.Sfs.Dir
import Mathlib.Data.List.FinRange

/-!
# Vnodes and the operations on them

Loading an inode into memory and letting go of it again (`sfs_loadvnode`,
`sfs_reclaim` with the reference counting of `vfs/vnode.c` around it), and the
operations that the VFS layer calls: create, look up and truncate.

A vnode pointer handed back through an argument is the result here. The locks
around the counts are never contended, because nobody sleeps while holding one,
and leave no trace. What `kmalloc` answers is a step of its own; `lock_create`
asks it twice and `array_add` whenever the table has to grow.
-/

namespace Os161.Sfs

open Os161.Kern Os161.Lib

/-! ## Loading -/

/-- The search of `sfs_loadvnode` through the table. -/
def loadvnode.search (ino : UInt32) (forcetype : UInt16) : List SfsVnode → SfsProg Bool
  | [] => pure false
  | sv :: rest => do
      -- Every inode in memory must be in an allocated block
      let used ← sfsBused sv.svIno
      if ¬ used then Prog.panic (.loadvnodeUnallocated sv.svIno)
      else if sv.svIno = ino then do
        -- May only be set when creating new objects
        Prog.assert (forcetype = sfsTypeInval) .loadvnodeForcetype
        pure true
      else search ino forcetype rest

/-- `VOP_INCREF`. -/
def vnodeIncref (f : UInt32) : SfsProg Unit :=
  setVnode f fun sv => { sv with vnRefcount := sv.vnRefcount + 1 }

/-- The function table for an inode of this type. -/
def chooseOps (ino : UInt32) (type : UInt16) : SfsProg VnodeOps :=
  if type = sfsTypeFile then pure .fileops
  else if type = sfsTypeDir then pure .dirops
  else Prog.panic (.loadvnodeType ino)

/-- The end of `sfs_loadvnode`: VOP_INIT, whose `lock_create` allocates twice,
and `array_add`. -/
def loadvnode.install (sv : SfsVnode) : SfsM UInt32 := do
  let lock ← call Prog.kmalloc
  if ¬ lock then throw .ENOMEM
  else do
    let name ← call Prog.kmalloc
    if ¬ name then throw .ENOMEM
    else do
      let sfs ← call Prog.mem
      if sfs.sfsVnodes.v.length + 1 ≤ sfs.sfsVnodes.max then do
        call (Prog.put { sfs with sfsVnodes := sfs.sfsVnodes.add sv })
        pure sv.svIno
      else do
        let newv ← call Prog.kmalloc
        if ¬ newv then throw .ENOMEM
        else do
          call (Prog.put { sfs with sfsVnodes := sfs.sfsVnodes.add sv })
          pure sv.svIno

/-- `sfs_loadvnode` for an inode that is not in the table. -/
def loadvnode.load (ino : UInt32) (forcetype : UInt16) : SfsM UInt32 := do
  let space ← call Prog.kmalloc
  if ¬ space then throw .ENOMEM
  else do
    -- Must be in an allocated block
    let used ← call (sfsBused ino)
    if ¬ used then call (Prog.panic (.loadvnodeTried ino))
    else do
      let sfs ← call Prog.mem
      let data ← sfsRblock sfs.dBlocks ino
      let inode := SfsInode.ofBlock data
      if forcetype ≠ sfsTypeInval then do
        call (Prog.assert (inode.sfiType = sfsTypeInval) .loadvnodeNotInval)
        let ops ← call (chooseOps ino forcetype)
        loadvnode.install ⟨ino, { inode with sfiType := forcetype }, true, ops, 1, 0⟩
      else do
        let ops ← call (chooseOps ino inode.sfiType)
        loadvnode.install ⟨ino, inode, false, ops, 1, 0⟩

/-- `sfs_loadvnode`. -/
def sfsLoadvnode (ino : UInt32) (forcetype : UInt16) : SfsM UInt32 := do
  let sfs ← call Prog.mem
  let found ← call (loadvnode.search ino forcetype sfs.sfsVnodes.v)
  if found then do
    call (vnodeIncref ino)
    pure ino
  else loadvnode.load ino forcetype

/-- `sfs_getroot`. -/
def sfsGetroot : SfsProg UInt32 := do
  let r ← (sfsLoadvnode sfsRootLocation sfsTypeInval).run
  match r with
  | .ok v => pure v
  | .error _ => Prog.panic .getroot

/-! ## Truncation -/

/-- `u_int32_t blocklen = DIVROUNDUP(len, SFS_BLOCKSIZE)`, computed in the
signed type of `len`; the argument is its bit pattern. -/
def truncBlocklen (len : UInt32) : Nat :=
  ((offT (len.toNat + 511)).tdiv 512 % 4294967296).toNat

/-- The loop over the direct blocks. -/
def truncDirect (f : UInt32) (blocklen : Nat) : List (Fin 15) → SfsProg Unit
  | [] => pure ()
  | i :: rest => do
      let sv ← vnode f
      let block := sv.svI.sfiDirect i
      if blocklen ≤ i ∧ block ≠ 0 then do
        sfsBfree block
        setInode f (SfsInode.setDirect i 0)
        truncDirect f blocklen rest
      else truncDirect f blocklen rest

/-- The loop over the indirect block in the static buffer, with `left` entries
to go. The result is `hasnonzero` and `iddirty`. -/
def truncEntries (blocklen : Nat) : Nat → Bool → Bool → SfsProg (Bool × Bool)
  | 0, hasnonzero, iddirty => pure (hasnonzero, iddirty)
  | left + 1, hasnonzero, iddirty => do
      let j := sfsDbperidb - (left + 1)
      let sfs ← Prog.mem
      let block := sfs.truncIdbuf.word j
      -- Discard any blocks that are past the new EOF
      if blocklen < sfsNdirect + j ∧ block ≠ 0 then do
        sfsBfree block
        Prog.modify fun sfs => { sfs with truncIdbuf := sfs.truncIdbuf.setWord j 0 }
        truncEntries blocklen left hasnonzero true
      else truncEntries blocklen left (hasnonzero || block ≠ 0) iddirty

/-- What becomes of the indirect block itself. -/
def truncIndirect (f idblock : UInt32) (blocklen : Nat) : SfsM Unit := do
  let sfs ← call Prog.mem
  let data ← sfsRblock sfs.dBlocks idblock
  call (Prog.modify fun sfs => { sfs with truncIdbuf := data })
  let r ← call (truncEntries blocklen sfsDbperidb false false)
  if ¬ r.1 then do
    -- The whole indirect block is empty now; free it
    call (sfsBfree idblock)
    call (setInode f (SfsInode.setIndirect 0))
  else if r.2 then
    -- The indirect block is dirty; write it back
    sfsWblock sfs.dBlocks idblock fun sfs => sfs.truncIdbuf
  else pure ()

/-- `sfs_truncate`. -/
def sfsTruncate (f : UInt32) (len : UInt32) : SfsM Unit := do
  let blocklen := truncBlocklen len
  call (truncDirect f blocklen (List.finRange 15))
  let sv ← call (vnode f)
  let idblock := sv.svI.sfiIndirect
  let highblock := sfsNdirect + sfsDbperidb - 1
  if blocklen < highblock ∧ idblock ≠ 0 then do
    truncIndirect f idblock blocklen
    call (setInode f (SfsInode.setSize len))
  else call (setInode f (SfsInode.setSize len))

/-! ## Letting go -/

/-- VOP_KILL. -/
def vnodeKill (sv : SfsVnode) : SfsProg Unit := do
  Prog.assert (sv.vnRefcount = 1) .killRefcount
  Prog.assert (sv.vnOpencount = 0) .killOpencount

/-- The end of `sfs_reclaim`: the vnode leaves the table. -/
def reclaim.discard (f : UInt32) : SfsProg Unit := do
  let sfs ← Prog.mem
  match sfs.sfsVnodes.get? f with
  | none => Prog.panic (.reclaimPool f)
  | some sv => do
      Prog.put { sfs with sfsVnodes := sfs.sfsVnodes.remove f }
      vnodeKill sv

/-- `sfs_reclaim` once nobody else holds the vnode. -/
def reclaim.erase (f : UInt32) : SfsM Unit := do
  let sv ← call (vnode f)
  -- If there are no on-disk references to the file either, erase it.
  if sv.svI.sfiLinkcount = 0 then do
    sfsTruncate f 0
    sfsSyncInode f
    call (sfsBfree f)
    call (reclaim.discard f)
  else do
    sfsSyncInode f
    call (reclaim.discard f)

/-- `sfs_reclaim`. -/
def sfsReclaim (f : UInt32) : SfsM Unit := do
  let sv ← call (vnode f)
  if sv.vnRefcount ≠ 1 then do
    -- consume the reference VOP_DECREF gave us
    call (Prog.assert (1 < sv.vnRefcount) .reclaimRefcount)
    call (setVnode f fun sv => { sv with vnRefcount := sv.vnRefcount - 1 })
    throw .EBUSY
  else reclaim.erase f

/-- `vnode_decref`: an error of `sfs_reclaim` ends up in a warning. -/
def vnodeDecref (f : UInt32) : SfsProg Unit := do
  let sv ← vnode f
  Prog.assert (0 < sv.vnRefcount) .decrefRefcount
  if 1 < sv.vnRefcount then
    setVnode f fun sv => { sv with vnRefcount := sv.vnRefcount - 1 }
  else do
    let _ ← (sfsReclaim f).run
    pure ()

/-! ## Names -/

/-- `sfs_lookonce`: the vnode and the slot of its entry. -/
def sfsLookonce (dir : UInt32) (name : CString) : SfsM (UInt32 × Nat) := do
  let r ← call (sfsDirFindname dir name)
  match r.1 with
  | .error e => throw e
  | .ok (ino, slot) => do
      let v ← sfsLoadvnode ino sfsTypeInval
      let sv ← call (vnode v)
      if sv.svI.sfiLinkcount = 0 then
        call (Prog.panic (.lookonceLinkcount v))
      else pure (v, slot)

/-- `sfs_makeobj`. -/
def sfsMakeobj (type : UInt16) : SfsM UInt32 := do
  let ino ← sfsBalloc
  sfsLoadvnode ino type

/-- `sfi_linkcount++`, and the inode is dirty. -/
def linkcountUp (f : UInt32) : SfsProg Unit :=
  setInode f fun i => i.setLinkcount (i.sfiLinkcount + 1)

/-- `sfs_creat` for a name that does not exist. -/
def creat.make (dir : UInt32) (name : CString) : SfsM UInt32 := do
  let newguy ← sfsMakeobj sfsTypeFile
  let r ← result (sfsDirLink dir name newguy)
  match r with
  | .error e => do
      call (vnodeDecref newguy)
      throw e
  | .ok _ => do
      call (linkcountUp newguy)
      pure newguy

/-- `sfs_creat`. -/
def sfsCreat (dir : UInt32) (name : CString) (excl : Bool) : SfsM UInt32 := do
  let r ← call (sfsDirFindname dir name)
  match r.1 with
  | .ok (ino, _) =>
    -- If it exists and we didn't want it to, fail
    if excl then throw .EEXIST
    else sfsLoadvnode ino sfsTypeInval
  | .error e => if e ≠ .ENOENT then throw e else creat.make dir name

/-- `sfs_lookparent`: the directory and the name, for a buffer of `buflen`
bytes. -/
def sfsLookparent (v : UInt32) (path : CString) (buflen : Nat) :
    SfsM (UInt32 × CString) := do
  let sv ← call (vnode v)
  if sv.svI.sfiType ≠ sfsTypeDir then throw .ENOTDIR
  else if buflen < path.strlen + 1 then throw .ENAMETOOLONG
  else do
    call (vnodeIncref v)
    pure (v, path)

/-- `sfs_lookup`. -/
def sfsLookup (v : UInt32) (path : CString) : SfsM UInt32 := do
  let sv ← call (vnode v)
  if sv.svI.sfiType ≠ sfsTypeDir then throw .ENOTDIR
  else do
    let final ← sfsLookonce v path
    pure final.1

end Os161.Sfs
