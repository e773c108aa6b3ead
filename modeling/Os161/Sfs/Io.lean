import Os161.Sfs.State

/-!
# Block mapping and file I/O

`sfs_bmap`, the two ways of moving data between a uio and a block of a file
(`sfs_partialio` and `sfs_blockio`), and `sfs_io`, which cuts a request into a
leading part of a block, whole blocks and a trailing part.

A C routine that works on a uio changes it in place and returns an error code;
here it returns both, since the caller looks at the uio after a failure too.
`onOk` is `if (result) goto out`.
-/

namespace Os161.Sfs

open Os161.Kern Os161.Lib

/-! ## Block mapping -/

/-- The end of `sfs_bmap`: hand back the block, after a look at the free map. -/
def bmapHand (block : UInt32) : SfsM UInt32 :=
  if block = 0 then pure block
  else do
    let used ← call (sfsBused block)
    if used then pure block
    else call (Prog.panic (.bmapMarkedFree block))

/-- `sfs_bmap` for a direct block. -/
def bmapDirect (f : UInt32) (k : Fin 15) (doalloc : Bool) : SfsM UInt32 := do
  let sv ← call (vnode f)
  let block := sv.svI.sfiDirect k
  if block = 0 ∧ doalloc then do
    let block ← sfsBalloc
    -- Remember what we allocated; mark inode dirty
    call (setInode f (SfsInode.setDirect k block))
    bmapHand block
  else bmapHand block

/-- `sfs_bmap` gets its indirect block into `idbuf`, allocating it if there is
none yet, and knows its number. -/
def bmapLoad (f idblock : UInt32) : SfsM UInt32 :=
  if idblock = 0 then do
    let idblock ← sfsBalloc
    call (setInode f (SfsInode.setIndirect idblock))
    call (Prog.modify fun sfs => { sfs with idbuf := Block.zero })
    pure idblock
  else do
    let sfs ← call Prog.mem
    let data ← sfsRblock sfs.dBlocks idblock
    call (Prog.modify fun sfs => { sfs with idbuf := data })
    pure idblock

/-- Entry `idoff` of the indirect block in `idbuf`. -/
def bmapEntry (idblock : UInt32) (idoff : Nat) (doalloc : Bool) : SfsM UInt32 := do
  let sfs ← call Prog.mem
  let block := sfs.idbuf.word idoff
  if block = 0 ∧ doalloc then do
    let block ← sfsBalloc
    call (Prog.modify fun sfs => { sfs with idbuf := sfs.idbuf.setWord idoff block })
    -- The indirect block is now dirty; write it back
    sfsWblock sfs.dBlocks idblock fun sfs => sfs.idbuf
    bmapHand block
  else bmapHand block

/-- `sfs_bmap` for a block behind the direct ones. -/
def bmapIndirect (f : UInt32) (fileblock : Nat) (doalloc : Bool) : SfsM UInt32 :=
  let idnum := fileblock / sfsDbperidb
  let idoff := fileblock % sfsDbperidb
  -- We only have one indirect block.
  if 0 < idnum then throw .EINVAL
  else do
    let sv ← call (vnode f)
    if sv.svI.sfiIndirect = 0 ∧ ¬ doalloc then pure 0
    else do
      let idblock ← bmapLoad f sv.svI.sfiIndirect
      bmapEntry idblock idoff doalloc

/-- `sfs_bmap`. -/
def sfsBmap (f : UInt32) (fileblock : Nat) (doalloc : Bool) : SfsM UInt32 :=
  if h : fileblock < 15 then bmapDirect f ⟨fileblock, h⟩ doalloc
  else bmapIndirect f (fileblock - sfsNdirect) doalloc

/-! ## Moving data -/

/-- The result of a routine that advances a uio. -/
abbrev IoResult := Except Errno Unit × Uio

def onOk (p : SfsProg IoResult) (k : Uio → SfsProg IoResult) : SfsProg IoResult := do
  let r ← p
  match r.1 with
  | .ok () => k r.2
  | .error e => pure (.error e, r.2)

/-- The block that `sfs_partialio` works on, in `iobuf`. -/
def partialioLoad (diskblock : UInt32) (rw : UioRw) : SfsM Unit :=
  if diskblock = 0 then do
    call (Prog.assert (rw = .UIO_READ) .partialioHole)
    call (Prog.modify fun sfs => { sfs with iobuf := Block.zero })
  else do
    let sfs ← call Prog.mem
    let data ← sfsRblock sfs.dBlocks diskblock
    call (Prog.modify fun sfs => { sfs with iobuf := data })

/-- The second half of `sfs_partialio`: move bytes between `iobuf` and the uio,
and write the block back if it changed. -/
def partialioMove (diskblock : UInt32) (uio : Uio) (skipstart len : Nat) :
    SfsProg IoResult := do
  let sfs ← Prog.mem
  match uio.uiomove (sfs.iobuf.slice skipstart len) len with
  | none => Prog.panic .uiomoveShort
  | some (uio', got) =>
    match uio.rw with
    | .UIO_READ => pure (.ok (), uio')
    | .UIO_WRITE => do
        Prog.put { sfs with iobuf := sfs.iobuf.patch skipstart got }
        let r ← (sfsWblock sfs.dBlocks diskblock fun sfs => sfs.iobuf).run
        pure (r, uio')

/-- `sfs_partialio`. -/
def sfsPartialio (f : UInt32) (uio : Uio) (skipstart len : Nat) : SfsProg IoResult := do
  -- Allocate missing blocks if and only if we're writing
  let doalloc : Bool := uio.rw == .UIO_WRITE
  Prog.assert (skipstart + len ≤ blockSize) .partialioRange
  let r ← (do
    let diskblock ← sfsBmap f (uio.offset / blockSize) doalloc
    partialioLoad diskblock uio.rw
    pure diskblock : SfsM UInt32).run
  match r with
  | .error e => pure (.error e, uio)
  | .ok diskblock => partialioMove diskblock uio skipstart len

/-- `sfs_rwblock` on a uio that asks for one block. -/
def rwblock (uio : Uio) : SfsProg IoResult := do
  let sfs ← Prog.mem
  let block := UInt32.ofNat (uio.offset / 512)
  match uio.rw with
  | .UIO_READ => do
      let r ← (sfsRblock sfs.dBlocks block).run
      match r with
      | .error e => pure (.error e, uio)
      | .ok data =>
        match uio.uiomove data.toList 512 with
        | none => Prog.panic .uiomoveShort
        | some (uio', _) => pure (.ok (), uio')
  | .UIO_WRITE =>
    match uio.uiomove [] 512 with
    | none => Prog.panic .uiomoveShort
    | some (uio', data) => do
        let r ← (sfsWblock sfs.dBlocks block fun _ => Block.ofList data).run
        pure (r, uio')

/-- `sfs_blockio`. The request goes to the device with another offset and
residue, which are restored afterwards, advanced by what was done. -/
def sfsBlockio (f : UInt32) (uio : Uio) : SfsProg IoResult := do
  let doalloc : Bool := uio.rw == .UIO_WRITE
  let r ← (sfsBmap f (uio.offset / blockSize) doalloc).run
  match r with
  | .error e => pure (.error e, uio)
  | .ok diskblock =>
    if diskblock = 0 then do
      Prog.assert (uio.rw = .UIO_READ) .blockioHole
      match uio.uiomovezeros blockSize with
      | none => Prog.panic .uiomoveShort
      | some uio' => pure (.ok (), uio')
    else do
      Prog.assert (blockSize ≤ uio.resid) .blockioResid
      let diskoff := diskblock.toNat * blockSize
      let r ← rwblock { uio with offset := diskoff, resid := blockSize }
      pure (r.1, { r.2 with
        offset := r.2.offset - diskoff + uio.offset
        resid := r.2.resid + uio.resid - blockSize })

/-- The loop of `sfs_io` over whole blocks. -/
def ioBlocks (f : UInt32) : Nat → Uio → SfsProg IoResult
  | 0, uio => pure (.ok (), uio)
  | n + 1, uio => onOk (sfsBlockio f uio) (ioBlocks f n)

/-- The leading partial block of a request. -/
def ioHead (f : UInt32) (uio : Uio) : SfsProg IoResult :=
  let blkoff := uio.offset % blockSize
  if blkoff = 0 then pure (.ok (), uio)
  else sfsPartialio f uio blkoff (min (blockSize - blkoff) uio.resid)

/-- The trailing one. -/
def ioTail (f : UInt32) (uio : Uio) : SfsProg IoResult := do
  Prog.assert (uio.resid < blockSize) .ioLeftover
  if uio.resid = 0 then pure (.ok (), uio)
  else sfsPartialio f uio 0 uio.resid

/-- The part of `sfs_io` between the check for EOF and `out`. -/
def ioPieces (f : UInt32) (uio : Uio) : SfsProg IoResult :=
  onOk (ioHead f uio) fun uio =>
    if uio.resid = 0 then pure (.ok (), uio)
    else do
      Prog.assert (uio.offset % blockSize = 0) .ioUnaligned
      onOk (ioBlocks f (uio.resid / blockSize) uio) (ioTail f)

/-- `sfs_io` for a read: what lies past EOF is taken off the residue first and
put back at the end. -/
def ioRead (f : UInt32) (uio : Uio) : SfsProg IoResult := do
  let sv ← vnode f
  let size := offT sv.svI.sfiSize.toNat
  let endpos := offT (uio.offset + uio.resid)
  if size ≤ offT uio.offset then pure (.ok (), uio)
  else if size < endpos then do
    let extraresid := (endpos - size).toNat
    Prog.assert (extraresid < uio.resid) .ioExtraresid
    let r ← ioPieces f { uio with resid := uio.resid - extraresid }
    pure (r.1, { r.2 with resid := r.2.resid + extraresid })
  else ioPieces f uio

/-- `sfs_io` for a write: whatever became of it, the file reaches at least as
far as the uio got. -/
def ioWrite (f : UInt32) (uio : Uio) : SfsProg IoResult := do
  let r ← ioPieces f uio
  let sv ← vnode f
  if offT sv.svI.sfiSize.toNat < offT r.2.offset then do
    setInode f (SfsInode.setSize (UInt32.ofNat r.2.offset))
    pure r
  else pure r

/-- `sfs_io`. -/
def sfsIo (f : UInt32) (uio : Uio) : SfsProg IoResult :=
  match uio.rw with
  | .UIO_READ => ioRead f uio
  | .UIO_WRITE => ioWrite f uio

/-- `sfs_read` and `sfs_write` of `len` bytes at `pos`, for a caller with a
buffer in the kernel. -/
def sfsRead (f : UInt32) (pos len : Nat) : SfsProg IoResult :=
  sfsIo f (mkKuio [] len pos .UIO_READ)

def sfsWrite (f : UInt32) (pos : Nat) (data : List UInt8) : SfsProg IoResult :=
  sfsIo f (mkKuio data data.length pos .UIO_WRITE)

end Os161.Sfs
