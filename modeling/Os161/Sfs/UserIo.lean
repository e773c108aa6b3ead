import Os161.Sfs.Io

/-!
# File I/O for a user's buffer

`sfs_io` once more, now for a uio that points into user space. `uiomove` then
goes through `copyin` and `copyout`, which return EFAULT where the address space
has nothing, and every routine on the way back up hands the error on. What a
faulting `copyin` has put into `iobuf` before it stopped is left out: the buffer
is loaded again before anybody looks at it.
-/

namespace Os161.Sfs.User

open Os161.Kern Os161.Lib

/-- Whether copying the next bytes between the caller's buffer and the kernel
faults. -/
abbrev Faulty := Uio → Nat → Bool

/-- A buffer in the kernel. -/
def calm : Faulty := fun _ _ => false

/-! ## Moving data -/

section
variable (h : Faulty)

/-- `uiomove`, with the error that `copyin` or `copyout` has returned. -/
def uiomove.loop : Nat → Uio → List UInt8 → Nat →
    Option (Except Errno Unit × Uio × List UInt8)
  | 0, uio, _, _ => some (.ok (), uio, [])
  | fuel + 1, uio, ptr, n =>
    if n = 0 ∨ uio.resid = 0 then some (.ok (), uio, [])
    else
      let size := min uio.iovLen n
      if size = 0 then none
      else if h uio size then some (.error .EFAULT, uio, [])
      else
        let (uio', got) := uio.move ptr size
        (uiomove.loop fuel uio' (ptr.drop size) (n - size)).map
          fun (r, u, rest) => (r, u, got ++ rest)

def uiomove (uio : Uio) (ptr : List UInt8) (n : Nat) :
    Option (Except Errno Unit × Uio × List UInt8) :=
  uiomove.loop h n uio ptr n

/-- `uiomovezeros`. -/
def uiomovezeros.loop : Nat → Uio → Nat → Option IoResult
  | 0, uio, _ => some (.ok (), uio)
  | fuel + 1, uio, n =>
    if n = 0 then some (.ok (), uio)
    else
      let amt := min 16 n
      (uiomove h uio (List.replicate amt 0) amt).bind fun x =>
        match x.1 with
        | .error e => some (.error e, x.2.1)
        | .ok () => uiomovezeros.loop fuel x.2.1 (n - amt)

def uiomovezeros (uio : Uio) (n : Nat) : Option IoResult := uiomovezeros.loop h n uio n

/-- The second half of `sfs_partialio`. -/
def partialioMove (diskblock : UInt32) (uio : Uio) (skipstart len : Nat) :
    SfsProg IoResult := do
  let sfs ← Prog.mem
  match uiomove h uio (sfs.iobuf.slice skipstart len) len with
  | none => Prog.panic .uiomoveShort
  | some (.error e, uio', _) => pure (.error e, uio')
  | some (.ok (), uio', got) =>
    match uio.rw with
    | .UIO_READ => pure (.ok (), uio')
    | .UIO_WRITE => do
        Prog.put { sfs with iobuf := sfs.iobuf.patch skipstart got }
        let r ← (sfsWblock sfs.dBlocks diskblock fun sfs => sfs.iobuf).run
        pure (r, uio')

/-- `sfs_partialio`. -/
def sfsPartialio (f : UInt32) (uio : Uio) (skipstart len : Nat) : SfsProg IoResult := do
  let doalloc : Bool := uio.rw == .UIO_WRITE
  Prog.assert (skipstart + len ≤ blockSize) .partialioRange
  let r ← (do
    let diskblock ← sfsBmap f (uio.offset / blockSize) doalloc
    partialioLoad diskblock uio.rw
    pure diskblock : SfsM UInt32).run
  match r with
  | .error e => pure (.error e, uio)
  | .ok diskblock => partialioMove h diskblock uio skipstart len

/-- `sfs_rwblock` on a uio that asks for one block. -/
def rwblock (uio : Uio) : SfsProg IoResult := do
  let sfs ← Prog.mem
  let block := UInt32.ofNat (uio.offset / 512)
  match uio.rw with
  | .UIO_READ => do
      let r ← (sfsRblock sfs.dBlocks block).run
      match r with
      | .error e => pure (.error e, uio)
      | .ok data =>
        match uiomove h uio data.toList 512 with
        | none => Prog.panic .uiomoveShort
        | some (r, uio', _) => pure (r, uio')
  | .UIO_WRITE =>
    match uiomove h uio [] 512 with
    | none => Prog.panic .uiomoveShort
    | some (.error e, uio', _) => pure (.error e, uio')
    | some (.ok (), uio', data) => do
        let r ← (sfsWblock sfs.dBlocks block fun _ => Block.ofList data).run
        pure (r, uio')

/-- `sfs_blockio`. -/
def sfsBlockio (f : UInt32) (uio : Uio) : SfsProg IoResult := do
  let doalloc : Bool := uio.rw == .UIO_WRITE
  let r ← (sfsBmap f (uio.offset / blockSize) doalloc).run
  match r with
  | .error e => pure (.error e, uio)
  | .ok diskblock =>
    if diskblock = 0 then do
      Prog.assert (uio.rw = .UIO_READ) .blockioHole
      match uiomovezeros h uio blockSize with
      | none => Prog.panic .uiomoveShort
      | some r => pure r
    else do
      Prog.assert (blockSize ≤ uio.resid) .blockioResid
      let diskoff := diskblock.toNat * blockSize
      let r ← rwblock h { uio with offset := diskoff, resid := blockSize }
      pure (r.1, { r.2 with
        offset := r.2.offset - diskoff + uio.offset
        resid := r.2.resid + uio.resid - blockSize })

/-! ## Requests -/

def ioBlocks (f : UInt32) : Nat → Uio → SfsProg IoResult
  | 0, uio => pure (.ok (), uio)
  | n + 1, uio => onOk (sfsBlockio h f uio) (ioBlocks f n)

def ioHead (f : UInt32) (uio : Uio) : SfsProg IoResult :=
  let blkoff := uio.offset % blockSize
  if blkoff = 0 then pure (.ok (), uio)
  else sfsPartialio h f uio blkoff (min (blockSize - blkoff) uio.resid)

def ioTail (f : UInt32) (uio : Uio) : SfsProg IoResult := do
  Prog.assert (uio.resid < blockSize) .ioLeftover
  if uio.resid = 0 then pure (.ok (), uio)
  else sfsPartialio h f uio 0 uio.resid

/-- The part of `sfs_io` between the check for EOF and `out`. -/
def ioPieces (f : UInt32) (uio : Uio) : SfsProg IoResult :=
  onOk (ioHead h f uio) fun uio =>
    if uio.resid = 0 then pure (.ok (), uio)
    else do
      Prog.assert (uio.offset % blockSize = 0) .ioUnaligned
      onOk (ioBlocks h f (uio.resid / blockSize) uio) (ioTail h f)

/-- `sfs_io` for a read. -/
def ioRead (f : UInt32) (uio : Uio) : SfsProg IoResult := do
  let sv ← vnode f
  let size := offT sv.svI.sfiSize.toNat
  let endpos := offT (uio.offset + uio.resid)
  if size ≤ offT uio.offset then pure (.ok (), uio)
  else if size < endpos then do
    let extraresid := (endpos - size).toNat
    Prog.assert (extraresid < uio.resid) .ioExtraresid
    let r ← ioPieces h f { uio with resid := uio.resid - extraresid }
    pure (r.1, { r.2 with resid := r.2.resid + extraresid })
  else ioPieces h f uio

/-- `sfs_io` for a write. -/
def ioWrite (f : UInt32) (uio : Uio) : SfsProg IoResult := do
  let r ← ioPieces h f uio
  let sv ← vnode f
  if offT sv.svI.sfiSize.toNat < offT r.2.offset then do
    setInode f (SfsInode.setSize (UInt32.ofNat r.2.offset))
    pure r
  else pure r

/-- `sfs_io`. -/
def sfsIo (f : UInt32) (uio : Uio) : SfsProg IoResult :=
  match uio.rw with
  | .UIO_READ => ioRead h f uio
  | .UIO_WRITE => ioWrite h f uio

/-- `sfs_write` of the bytes `data` at `pos`. -/
def sfsWrite (f : UInt32) (pos : Nat) (data : List UInt8) : SfsProg IoResult :=
  sfsIo h f (mkKuio data data.length pos .UIO_WRITE)

end

end Os161.Sfs.User
