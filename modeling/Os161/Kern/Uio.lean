import Os161.Kern.Block

/-!
# Kernel I/O descriptors

`struct uio` for a buffer in kernel space, the kind that `mk_kuio` builds, and
the routines of `userprog/uio.c` that advance one. The buffer behind
`iov_kbase` is carried by value: for a write it is the bytes not yet taken,
for a read the bytes stored so far, in order. Both sides of a transfer advance
`iov_len`, `uio_offset` and `uio_resid` together; `sfs_blockio` and
`sfs_io` rewrite the last two in between, which is why all three are kept.

`uio_offset` is an `off_t`, a signed 32-bit number. It is a natural number
here, to be read modulo 2^32 by whoever looks at its sign; file offsets are
below 2^31.
-/

namespace Os161.Kern

inductive UioRw where
  | UIO_READ
  | UIO_WRITE
  deriving DecidableEq, Repr

structure Uio where
  iov : List UInt8
  iovLen : Nat
  offset : Nat
  resid : Nat
  rw : UioRw
  deriving DecidableEq, Repr

/-- `mk_kuio`: for a write the buffer holds `len` bytes, for a read it is
filled from the start. -/
def mkKuio (kbuf : List UInt8) (len pos : Nat) (rw : UioRw) : Uio where
  iov := match rw with
    | .UIO_READ => []
    | .UIO_WRITE => kbuf
  iovLen := len
  offset := pos
  resid := len
  rw := rw

namespace Uio

/-- One round of `uiomove`'s loop: `size` bytes go from the buffer at `ptr`
into the uio, or the other way. The second component is what arrived at
`ptr`. -/
def move (uio : Uio) (ptr : List UInt8) (size : Nat) : Uio × List UInt8 :=
  let moved := { uio with
    iovLen := uio.iovLen - size
    offset := uio.offset + size
    resid := uio.resid - size }
  match uio.rw with
  | .UIO_READ => ({ moved with iov := uio.iov ++ ptr.take size }, [])
  | .UIO_WRITE => ({ moved with iov := uio.iov.drop size }, uio.iov.take size)

/-- `uiomove`. `none` is the panic on a uio whose residue exceeds its buffer.
The loop is entered at most `n` times, since every round moves at least one
byte. -/
def uiomove.loop : Nat → Uio → List UInt8 → Nat → Option (Uio × List UInt8)
  | 0, uio, _, _ => some (uio, [])
  | fuel + 1, uio, ptr, n =>
    if n = 0 ∨ uio.resid = 0 then some (uio, [])
    else
      let size := min uio.iovLen n
      if size = 0 then none
      else
        let (uio', got) := uio.move ptr size
        (uiomove.loop fuel uio' (ptr.drop size) (n - size)).map
          fun (u, rest) => (u, got ++ rest)

def uiomove (uio : Uio) (ptr : List UInt8) (n : Nat) : Option (Uio × List UInt8) :=
  uiomove.loop n uio ptr n

/-- `uiomovezeros`: sixteen bytes at a time. -/
def uiomovezeros.loop : Nat → Uio → Nat → Option Uio
  | 0, uio, _ => some uio
  | fuel + 1, uio, n =>
    if n = 0 then some uio
    else
      let amt := min 16 n
      (uio.uiomove (List.replicate amt 0) amt).bind
        fun (u, _) => uiomovezeros.loop fuel u (n - amt)

def uiomovezeros (uio : Uio) (n : Nat) : Option Uio := uiomovezeros.loop n uio n

/-! ## What the moves do

As long as the request fits both the residue and the buffer, one round does
all of it. -/

variable {uio : Uio} {ptr : List UInt8} {n : Nat}

theorem uiomove_eq (hl : n ≤ uio.iovLen) (hr : n ≤ uio.resid) (h0 : 0 < n) :
    uio.uiomove ptr n = some (uio.move ptr n) := by
  obtain ⟨m, rfl⟩ : ∃ m, n = m + 1 := ⟨n - 1, by omega⟩
  rw [uiomove, uiomove.loop, if_neg (by omega), Nat.min_eq_right hl]
  simp only [Nat.succ_ne_zero, if_false, Nat.sub_self]
  have hz : ∀ k u p, uiomove.loop k u p 0 = some (u, []) := by
    intro k u p
    cases k with
    | zero => rfl
    | succ k => rw [uiomove.loop, if_pos (Or.inl rfl)]
  rw [hz]
  simp

theorem uiomove_zero (uio : Uio) (ptr : List UInt8) :
    uio.uiomove ptr 0 = some (uio, []) := rfl

/-- A read request after `l` has been stored. -/
def fill (uio : Uio) (l : List UInt8) : Uio :=
  { uio with
    iov := uio.iov ++ l
    iovLen := uio.iovLen - l.length
    offset := uio.offset + l.length
    resid := uio.resid - l.length }

/-- A write request after `n` bytes have been taken. -/
def drain (uio : Uio) (n : Nat) : Uio :=
  { uio with
    iov := uio.iov.drop n
    iovLen := uio.iovLen - n
    offset := uio.offset + n
    resid := uio.resid - n }

theorem uiomove_read (hrw : uio.rw = .UIO_READ) (hl : ptr.length ≤ uio.iovLen)
    (hr : ptr.length ≤ uio.resid) : uio.uiomove ptr ptr.length = some (uio.fill ptr, []) := by
  rcases Nat.eq_zero_or_pos ptr.length with h0 | h0
  · obtain rfl := List.length_eq_zero_iff.mp h0
    rw [List.length_nil, uiomove_zero, fill]
    simp
  · rw [uiomove_eq hl hr h0, move]
    simp [hrw, fill]

theorem uiomove_write (hrw : uio.rw = .UIO_WRITE) (hl : n ≤ uio.iovLen) (hr : n ≤ uio.resid) :
    uio.uiomove [] n = some (uio.drain n, uio.iov.take n) := by
  rcases Nat.eq_zero_or_pos n with rfl | h0
  · rw [uiomove_zero, drain]
    simp
  · rw [uiomove_eq hl hr h0, move]
    simp [hrw, drain]

theorem fill_fill (uio : Uio) (a b : List UInt8) : (uio.fill a).fill b = uio.fill (a ++ b) := by
  simp only [fill, List.append_assoc, List.length_append, Nat.sub_sub, Nat.add_assoc]

theorem drain_drain (uio : Uio) (a b : Nat) : (uio.drain a).drain b = uio.drain (a + b) := by
  simp only [drain, List.drop_drop, Nat.sub_sub, Nat.add_assoc]

theorem uiomovezeros_read (hrw : uio.rw = .UIO_READ) (hl : n ≤ uio.iovLen) (hr : n ≤ uio.resid) :
    uio.uiomovezeros n = some (uio.fill (List.replicate n 0)) := by
  suffices h : ∀ fuel n (uio : Uio), n ≤ fuel → uio.rw = .UIO_READ →
      n ≤ uio.iovLen → n ≤ uio.resid →
      uiomovezeros.loop fuel uio n = some (uio.fill (List.replicate n 0)) from
    h n n uio le_rfl hrw hl hr
  intro fuel
  induction fuel with
  | zero =>
    intro n uio hf _ _ _
    obtain rfl : n = 0 := by omega
    simp [uiomovezeros.loop, fill]
  | succ fuel ih =>
    intro n uio hf hrw hl hr
    rw [uiomovezeros.loop]
    split
    · next h => subst h; simp [fill]
    · next h =>
      have hlen : (List.replicate (min 16 n) (0 : UInt8)).length = min 16 n :=
        List.length_replicate
      have hmove : uio.uiomove (List.replicate (min 16 n) 0) (min 16 n) =
          some (uio.fill (List.replicate (min 16 n) 0), []) := by
        have h := @uiomove_read uio (List.replicate (min 16 n) 0) hrw
          (by rw [hlen]; omega) (by rw [hlen]; omega)
        rwa [hlen] at h
      simp only [hmove, Option.bind_some]
      rw [ih (n - min 16 n) (uio.fill (List.replicate (min 16 n) 0)) (by omega) hrw
        (by simp only [fill, List.length_replicate]; omega)
        (by simp only [fill, List.length_replicate]; omega)]
      rw [fill_fill, List.replicate_append_replicate]
      congr 3
      omega

end Uio

end Os161.Kern
