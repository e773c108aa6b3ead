import Os161.Kern.Errno
import Os161.Kern.Uio

/-!
# The LAMEbus disk and the retry loop above it

`lhd_io` of `dev/lamebus/lhd.c` and `sfs_rwblock` of `fs/sfs/sfs_io.c`, for one
thread: the semaphores `lh_clear` and `lh_done` are free whenever it asks, so
they leave no trace here. The card answers every operation with a status word;
`media` is the script of its media errors, one entry for each operation on a
sector that exists, and `written` is the record of the writes it performed.

Two details of the arithmetic are kept. `uio_offset` is a signed 32-bit number
that the driver divides, so a byte offset of 2^31 or more comes out as another
sector; and the driver takes the data out of the uio before it starts the
operation, whatever becomes of it.
-/

namespace Os161.Kern

/-- The value of an `off_t`: 32 bits, signed. -/
def offT (n : Nat) : Int :=
  if n % 4294967296 < 2147483648 then (n % 4294967296 : Nat)
  else (n % 4294967296 : Nat) - 4294967296

/-- `u_int32_t sector = uio->uio_offset / LHD_SECTSIZE`. -/
def lhdSector (offset : Nat) : UInt32 :=
  UInt32.ofNat ((offT offset).tdiv 512 % 4294967296).toNat

/-- `u_int32_t sectoff = uio->uio_offset % LHD_SECTSIZE`. -/
def lhdSectoff (offset : Nat) : UInt32 :=
  UInt32.ofNat ((offT offset).tmod 512 % 4294967296).toNat

inductive LhdStatus where
  | LHD_OK
  | LHD_INVSECT
  | LHD_MEDIA
  deriving DecidableEq, Repr

/-- `lhd_code_to_errno`; `none` is zero. -/
def lhdCodeToErrno : LhdStatus → Option Errno
  | .LHD_OK => none
  | .LHD_INVSECT => some .EINVAL
  | .LHD_MEDIA => some Errno.EIO

structure LhdSoftc where
  dBlocks : UInt32
  sectors : UInt32 → Block
  media : List Bool
  written : List (UInt32 × Block)

namespace LhdSoftc

/-- The card carries out one operation: a write of `buf`, or a read into the
on-card buffer. -/
def operate (lh : LhdSoftc) (sector : UInt32) (buf : Option Block) :
    LhdStatus × Block × LhdSoftc :=
  if lh.dBlocks ≤ sector then (.LHD_INVSECT, .zero, lh)
  else
    let lh' := { lh with media := lh.media.tail }
    if lh.media.head? = some true then (.LHD_MEDIA, .zero, lh')
    else match buf with
      | none => (.LHD_OK, lh.sectors sector, lh')
      | some b =>
        (.LHD_OK, b, { lh' with
          sectors := Function.update lh.sectors sector b
          written := (sector, b) :: lh.written })

end LhdSoftc

/-- The result of `d_io`: error code (`none` is zero), uio and device, or
nothing at all after a panic. -/
abbrev DevResult (σ : Type) := Option (Option Errno × Uio × σ)

/-- The loop of `lhd_io` over `n` more sectors, the next one being `sector`. -/
def lhdIo.loop : Nat → UInt32 → LhdSoftc → Uio → DevResult LhdSoftc
  | 0, _, lh, uio => some (none, uio, lh)
  | n + 1, sector, lh, uio =>
    match uio.rw with
    | .UIO_WRITE =>
      (uio.uiomove [] 512).bind fun (uio', buf) =>
        let (code, _, lh') := lh.operate sector (some (Block.ofList buf))
        match lhdCodeToErrno code with
        | some e => some (some e, uio', lh')
        | none => lhdIo.loop n (sector + 1) lh' uio'
    | .UIO_READ =>
      let (code, buf, lh') := lh.operate sector none
      match lhdCodeToErrno code with
      | some e => some (some e, uio, lh')
      | none =>
        (uio.uiomove buf.toList 512).bind fun (uio', _) =>
          lhdIo.loop n (sector + 1) lh' uio'

def lhdIo (lh : LhdSoftc) (uio : Uio) : DevResult LhdSoftc :=
  let sector := lhdSector uio.offset
  let len := UInt32.ofNat (uio.resid / 512)
  -- Don't allow I/O that isn't sector-aligned, or past the end of the disk.
  if lhdSectoff uio.offset ≠ 0 ∨ uio.resid % 512 ≠ 0 then some (some .EINVAL, uio, lh)
  else if lh.dBlocks < sector + len then some (some .EINVAL, uio, lh)
  else lhdIo.loop (uio.resid / 512) sector lh uio

section
variable {σ : Type}

/-- The body of `sfs_rwblock` with `left` retries to go: EINVAL is fatal, EIO is
retried on the uio that the device handed back. -/
def sfsRwblock.retry (dIo : σ → Uio → DevResult σ) : Nat → σ → Uio → DevResult σ
  | left, dev, uio =>
    match dIo dev uio with
    | none => none
    | some (some .EINVAL, _, _) => none
    | some (some Errno.EIO, uio', dev') =>
      match left with
      | 0 => some (some Errno.EIO, uio', dev')
      | left + 1 => sfsRwblock.retry dIo left dev' uio'
    | some r => some r

def sfsRwblock (dIo : σ → Uio → DevResult σ) (dev : σ) (uio : Uio) : DevResult σ :=
  sfsRwblock.retry dIo 10 dev uio

/-- `sfs_wblock` through a given device. The offset is that of SFSUIO. -/
def sfsWblockOn (dIo : σ → Uio → DevResult σ) (dev : σ) (data : Block)
    (block : UInt32) : DevResult σ :=
  sfsRwblock dIo dev (mkKuio data.toList 512 (block.toNat * 512) .UIO_WRITE)

end

end Os161.Kern
