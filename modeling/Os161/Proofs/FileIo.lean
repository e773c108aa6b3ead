import Os161.Proofs.Bmap
import Os161.Sfs.ByteFile

/-!
# Reading and writing files

`sfs_io` cuts a request into pieces: a leading part of a block, whole blocks, a
trailing part. The first section is about the cutting alone and knows nothing
of what a piece does: `T k` is whatever holds once `k` bytes have been dealt
with, `U k` the uio by then, and if every piece leads from `T k` to `T (k + n)`
or stops, then the whole request leads from `T 0` to `T N` or stops on the way.

The rest instantiates it, for a reader, to whom nothing happens but that the
uio fills with the bytes of the file, and for a writer, whose file changes by a
patch. A failed write may have taken bytes from the uio that have not arrived:
`sfs_partialio` moves them into its buffer before it writes the block back.
-/

namespace Os161.Sfs

open Os161.Kern Os161.Lib

variable {G : Type}

/-! ## Cutting a request -/

theorem wp_onOk {c : SfsCtx G} {w : SfsWorld G} {p : SfsProg IoResult} {k : Uio → SfsProg IoResult}
    {Q : IoResult → SfsWorld G → Prop} :
    wp c (onOk p k) Q w ↔ wp c p (fun r w' => match r.1 with
      | .ok () => wp c (k r.2) Q w' | .error e => Q (.error e, r.2) w') w := by
  rw [onOk, wp_bind]
  constructor <;> intro h <;> refine wp_mono h fun r w' hr => ?_ <;>
    obtain ⟨_ | _, u⟩ := r <;> exact hr

/-- A request that ends before the 143rd block, or does not touch any block. -/
def Fits (off n : Nat) : Prop := off + n ≤ 73216 ∨ (n = 0 ∧ off % 512 = 0)

instance (off n : Nat) : Decidable (Fits off n) := inferInstanceAs (Decidable (_ ∨ _))

/-- Why a request for `n` bytes at `off` may stop after `k` of them. -/
inductive IoFault (c : SfsCtx G) (doalloc : Bool) (off n k : Nat) : Errno → Prop where
  | range : 73216 ≤ off + k → (k = 0 ∨ off + k = 73216) →
      (k < n ∨ (n = 0 ∧ off % 512 ≠ 0)) → IoFault c doalloc off n k .EINVAL
  | full : doalloc = true → IoFault c doalloc off n k .ENOSPC
  | read {e : IoErr} : c.rdErr e → IoFault c doalloc off n k e.errno

section Cut
variable (c : SfsCtx G) (doalloc : Bool) (off : Nat) (U : Nat → Uio)
  (T : Nat → SfsWorld G → Prop)

/-- What one piece may do: all of its `n` bytes, or stop. -/
inductive Piece (k n : Nat) : IoResult → SfsWorld G → Prop where
  | done {w : SfsWorld G} : T (k + n) w → (off + k) / 512 < 143 →
      Piece k n (.ok (), U (k + n)) w
  | stop {w : SfsWorld G} {e : Errno} : T k w → BmapFault c ((off + k) / 512) doalloc e →
      Piece k n (.error e, U k) w

/-- What the whole request may do, once `k₀` bytes are done. -/
inductive Ends (n : Nat) : IoResult → SfsWorld G → Prop where
  | done {w : SfsWorld G} : T n w → Fits off n → Ends n (.ok (), U n) w
  | stop {w : SfsWorld G} {e : Errno} {k : Nat} : T k w → k ≤ n → (k = 0 ∨ off + k ≤ 73216) →
      IoFault c doalloc off n k e → Ends n (.error e, U k) w

variable {c doalloc off U T}

variable {k : Nat} {Q : IoResult → SfsWorld G → Prop} {w : SfsWorld G}

theorem BmapFault.ioFault {n : Nat} {e : Errno} (h : BmapFault c ((off + k) / 512) doalloc e)
    (hk : k = 0 ∨ off + k ≤ 73216) (hn : k < n ∨ (n = 0 ∧ off % 512 ≠ 0)) :
    IoFault c doalloc off n k e := by
  cases h with
  | range h => exact .range (by omega) (by omega) hn
  | full h => exact .full h
  | read h => exact .read h

variable {f : UInt32} {n : Nat}
  (hoff : ∀ k, (U k).offset = off + k) (hres : ∀ k, (U k).resid = n - k)
  (hpart : ∀ {k m w}, T k w → k + m ≤ n → (off + k) % 512 + m ≤ 512 →
    wp c (sfsPartialio f (U k) ((off + k) % 512) m) (Piece c doalloc off U T k m) w)
  (hblock : ∀ {k w}, T k w → k + 512 ≤ n → (off + k) % 512 = 0 →
    wp c (sfsBlockio f (U k)) (Piece c doalloc off U T k 512) w)

include hblock in
theorem ioBlocks_ends {i : Nat} (hT : T k w) (hi : k + i * 512 ≤ n) (ha : (off + k) % 512 = 0)
    (hk : k = 0 ∨ off + k ≤ 73216) (hok : ∀ {w'}, T (k + i * 512) w' →
      (k + i * 512 = 0 ∨ off + (k + i * 512) ≤ 73216) → Q (.ok (), U (k + i * 512)) w')
    (herr : ∀ {e u w'}, Ends c doalloc off U T n (.error e, u) w' → Q (.error e, u) w') :
    wp c (ioBlocks f i (U k)) Q w := by
  induction i generalizing k w with
  | zero =>
    rw [ioBlocks, wp_pure]
    simpa using hok (by simpa using hT) (by simpa using hk)
  | succ i ih =>
    rw [ioBlocks, wp_onOk]
    refine wp_mono (hblock hT (by omega) ha) fun r w' hr => ?_
    cases hr with
    | done hT' hlt =>
      refine ih hT' (by omega) (by omega) (.inr (by omega)) ?_
      rwa [show k + 512 + i * 512 = k + (i + 1) * 512 by omega]
    | stop hT' hf =>
      exact herr (.stop hT' (by omega) (by omega) (hf.ioFault hk (.inl (by omega))))

include hoff hres hpart in
/-- After the leading piece the request is done or stands at a block boundary. -/
theorem ioHead_ends (hT : T 0 w) (hok : ∀ {k w'}, T k w' → k ≤ n → (k = 0 ∨ off + k ≤ 73216) →
      ((off + k) % 512 = 0 ∨ (k = n ∧ off + k ≤ 73216)) → Q (.ok (), U k) w')
    (herr : ∀ {e u w'}, Ends c doalloc off U T n (.error e, u) w' → Q (.error e, u) w') :
    wp c (ioHead f (U 0)) Q w := by
  rw [ioHead, hoff, Nat.add_zero]
  by_cases h0 : off % 512 = 0
  · rw [if_pos h0]
    exact hok hT (by omega) (.inl rfl) (.inl (by simpa using h0))
  · rw [if_neg h0, hres]
    have hm : min (512 - off % 512) (n - 0) ≤ n := by omega
    refine wp_mono (hpart (m := min (512 - off % 512) (n - 0)) hT (by omega)
      (by simp only [Nat.add_zero]; omega)) fun r w' hr => ?_
    cases hr with
    | done hT' hlt =>
      simp only [Nat.zero_add, Nat.add_zero] at hT' hlt ⊢
      exact hok hT' hm (.inr (by omega)) (by omega)
    | stop hT' hf =>
      exact herr (.stop hT' (by omega) (by omega) (hf.ioFault (.inl rfl) (by omega)))

include hres hpart in
theorem ioTail_ends (hT : T k w) (ha : (off + k) % 512 = 0) (hk : k = 0 ∨ off + k ≤ 73216)
    (hkn : k ≤ n) (hlt : n - k < 512) : wp c (ioTail f (U k)) (Ends c doalloc off U T n) w := by
  rw [ioTail, wp_bind]
  refine wp_assert_of (by rw [hres]; exact hlt) ?_
  rw [hres]
  by_cases hrest : n - k = 0
  · rw [if_pos hrest]
    obtain rfl : k = n := by omega
    refine .done hT ?_
    rcases hk with rfl | hk
    · exact .inr ⟨rfl, by simpa using ha⟩
    · exact .inl hk
  · rw [if_neg hrest]
    have hp := hpart (m := n - k) hT (by omega) (by omega)
    rw [ha] at hp
    refine wp_mono hp fun r w' hr => ?_
    cases hr with
    | done hT' hfb =>
      rw [Nat.add_sub_cancel' hkn] at hT' ⊢
      exact .done hT' (.inl (by omega))
    | stop hT' hf => exact .stop hT' hkn hk (hf.ioFault hk (.inl (by omega)))

include hoff hres hpart hblock in
theorem ioPieces_ends (hT : T 0 w) : wp c (ioPieces f (U 0)) (Ends c doalloc off U T n) w := by
  rw [ioPieces, wp_onOk]
  refine ioHead_ends hoff hres hpart hT (fun {k w'} hT' hkn hk ha => ?_) fun hend => hend
  simp only [hres, hoff, blockSize]
  by_cases hz : n - k = 0
  · rw [if_pos hz]
    obtain rfl : k = n := by omega
    refine .done hT' ?_
    rcases ha with ha | ha
    · rcases hk with rfl | hk
      · exact .inr ⟨rfl, by simpa using ha⟩
      · exact .inl hk
    · exact .inl ha.2
  · rw [if_neg hz, wp_bind]
    have ha' : (off + k) % 512 = 0 := by omega
    refine wp_assert_of ha' ?_
    rw [wp_onOk]
    refine ioBlocks_ends hblock hT' (by omega) ha' hk (fun {w''} hT'' hk'' => ?_)
      fun hend => hend
    exact ioTail_ends hres hpart hT'' (by omega) hk'' (by omega) (by omega)

end Cut

/-! ## Bytes -/

@[simp] theorem FileView.length_slice (v : FileView) (off n : Nat) :
    (v.slice off n).length = n := by
  simp [slice]

theorem FileView.slice_zero (v : FileView) (off : Nat) : v.slice off 0 = [] := rfl

theorem FileView.slice_add (v : FileView) (off a b : Nat) :
    v.slice off (a + b) = v.slice off a ++ v.slice (off + a) b := by
  simp only [slice, List.range_add, List.map_append, List.map_map]
  congr 1
  refine List.map_congr_left fun i _ => ?_
  simp only [Function.comp, Nat.add_assoc]

/-- `x` holds block `fb` of the file. -/
def FileView.Holds (v : FileView) (fb : Nat) (x : Block) : Prop :=
  ∀ i < 512, x.byte i = v.byte (512 * fb + i)

theorem FileView.Holds.slice {v : FileView} {fb s n : Nat} {x : Block} (h : v.Holds fb x)
    (hs : s + n ≤ 512) : x.slice s n = v.slice (512 * fb + s) n := by
  refine List.map_congr_left fun i hi => ?_
  rw [h (s + i) (by have := List.mem_range.1 hi; omega), Nat.add_assoc]

/-- Changing part of a block of a file. -/
theorem FileView.Holds.patch {v : FileView} {fb s : Nat} {x : Block} {l : List UInt8}
    (h : v.Holds fb x) (hs : s + l.length ≤ 512) :
    (v.withBlock fb (x.patch s l)).byte = patchBytes v.byte (512 * fb + s) l := by
  funext p
  show (if p / 512 = fb then _ else _) = _
  by_cases hp : p / 512 = fb
  · rw [if_pos hp, Block.byte_patch (by omega), h _ (by omega), patchBytes,
      show 512 * fb + p % 512 = p by omega]
    by_cases hin : s ≤ p % 512 ∧ p % 512 < s + l.length
    · rw [if_pos hin, if_pos (by omega), show p % 512 - s = p - (512 * fb + s) by omega]
    · rw [if_neg hin, if_neg (by omega)]
  · rw [if_neg hp, patchBytes, if_neg (by omega)]

theorem FileView.holds_ofFn (v : FileView) (fb : Nat) :
    v.Holds fb (Block.ofFn fun i => v.byte (512 * fb + i)) :=
  fun _ hi => Block.byte_ofFn hi

theorem view_holds {m : SfsFs} {d : Disk} {f : UInt32} {fb : Nat} {x : Block}
    (hx : x = if (view m d f).ptr fb = 0 then Block.zero else d ((view m d f).ptr fb)) :
    (view m d f).Holds fb x := by
  intro i hi
  show _ = byteOf _ d _
  rw [byteOf, show (512 * fb + i) / 512 = fb by omega, show (512 * fb + i) % 512 = i by omega,
    hx]
  show _ = if (view m d f).ptr fb = 0 then _ else (d ((view m d f).ptr fb)).byte i
  split
  · exact Block.byte_zero i
  · rfl

namespace Job

variable {J : Job G} {L : Set UInt32} {w : SfsWorld G}

variable {L' L1 L2 : Set UInt32} {w' w1 w2 : SfsWorld G} {fb skip n off q : Nat}
  {Q : IoResult → SfsWorld G → Prop} {uio : Uio} {sv : SfsVnode} {b : UInt32} {l : List UInt8}
  {x : Block}

theorem Passed.get? (t : J.Passed L w L' w') :
    w'.mem.sfsVnodes.get? J.f = w.mem.sfsVnodes.get? J.f :=
  (t.frame.same _ J.mem).get?

theorem Passed.view (t : J.Passed L w L' w') : w'.view J.f = w.view J.f :=
  (t.frame.same _ J.mem).view

/-! ## Reading -/

theorem partialioLoad_holds {rw : UioRw} {Q : Except Errno Unit → SfsWorld G → Prop}
    (h : J.Held ∅ L w) (hrw : (w.view J.f).ptr fb = 0 → rw = .UIO_READ)
    (hok : ∀ {L' w'}, J.Passed L w L' w' → (w.view J.f).Holds fb w'.mem.iobuf →
      ((w.view J.f).ptr fb ≠ 0 → w'.started = true) → Q (.ok ()) w')
    (herr : ∀ {e L' w'}, J.Passed L w L' w' → J.c.rdErr e → Q (.error e.errno) w') :
    wpE J.c (partialioLoad ((w.view J.f).ptr fb) rw) Q w := by
  rw [partialioLoad]
  by_cases h0 : (w.view J.f).ptr fb = 0
  · rw [if_pos h0, wpE_call_bind]
    refine wp_assert_of (hrw h0) ?_
    rw [wpE_call, wp_modify]
    exact hok ((Passed.refl h).bufOnly ⟨rfl, rfl, rfl, rfl, rfl, rfl⟩)
      (view_holds (if_pos h0).symm) (absurd h0)
  · rw [if_neg h0, wpE_call_bind, wp_mem, wpE_bind]
    refine J.rblock h (ptr_inVolume h h0).1.last (fun {L' w'} t hc => ?_)
      fun t he => herr (t.failed fun hq => hq.rd he) he
    show wpE J.c (call (Prog.modify _)) Q w'
    rw [wpE_call, wp_modify]
    have hv := (t.frame.same _ J.mem).view
    refine hok ((t.passed hc).bufOnly ⟨rfl, rfl, rfl, rfl, rfl, rfl⟩) ?_ fun _ => t.started
    rw [← hv]
    have hp : (Sfs.view w'.mem w'.disk J.f).ptr fb = (w.view J.f).ptr fb :=
      congrArg (fun v => v.ptr fb) hv
    refine view_holds ?_
    rw [hp, if_neg h0]
    rfl

variable (h : J.Held ∅ L w) (hl : w.mem.sfsVnodes.get? J.f = some sv)

include h hl in
theorem partialio_read (hrw : uio.rw = .UIO_READ) (hs : uio.offset % 512 = skip)
    (hn : skip + n ≤ 512) (hlen : n ≤ uio.iovLen) (hres : n ≤ uio.resid)
    (hok : ∀ {L' w'}, J.Passed L w L' w' → uio.offset / 512 < 143 →
      Q (.ok (), uio.fill ((w.view J.f).slice uio.offset n)) w')
    (herr : ∀ {e L' w'}, J.Passed L w L' w' → BmapFault J.c (uio.offset / 512) false e →
      Q (.error e, uio) w') : wp J.c (sfsPartialio J.f uio skip n) Q w := by
  have hoff : 512 * (uio.offset / 512) + skip = uio.offset := by omega
  rw [sfsPartialio, wp_bind]
  refine wp_assert_of hn ?_
  rw [wp_bind, wp_run_iff, hrw, wpE_bind]
  refine J.bmap_read h hl (fun {L1 w1} t1 hfb => ?_) herr
  show wpE J.c (partialioLoad _ _ >>= fun _ => pure _) _ w1
  rw [wpE_bind]
  refine partialioLoad_holds t1.held (fun _ => rfl) (fun {L2 w2} t2 hh _ => ?_)
    fun t2 he => herr (t1.trans t2) (.read he)
  show wp J.c (partialioMove _ uio skip n) Q w2
  have hslice := hh.slice hn
  rw [t1.view, hoff] at hslice
  have hmove := @Uio.uiomove_read uio ((w.view J.f).slice uio.offset n) hrw
    (by rw [FileView.length_slice]; exact hlen) (by rw [FileView.length_slice]; exact hres)
  rw [FileView.length_slice] at hmove
  rw [partialioMove, wp_bind, wp_mem, hslice, hmove]
  simp only [hrw]
  exact hok (t1.trans t2) hfb

/-- The uio that `sfs_blockio` sends to the device. -/
def blockUio (uio : Uio) (diskblock : UInt32) : Uio :=
  { uio with offset := diskblock.toNat * 512, resid := 512 }

/-- `sfs_blockio` puts offset and residue back. -/
def restoreUio (uio : Uio) (diskblock : UInt32) (u : Uio) : Uio :=
  { u with
    offset := u.offset - diskblock.toNat * 512 + uio.offset
    resid := u.resid + uio.resid - 512 }

theorem restoreUio_self (uio : Uio) (b : UInt32) : restoreUio uio b (blockUio uio b) = uio := by
  simp [restoreUio, blockUio]

theorem restoreUio_fill (hl : l.length = 512) :
    restoreUio uio b ((blockUio uio b).fill l) = uio.fill l := by
  simp only [restoreUio, blockUio, Uio.fill, hl, Uio.mk.injEq, true_and, and_true]
  omega

theorem restoreUio_drain (uio : Uio) (b : UInt32) :
    restoreUio uio b ((blockUio uio b).drain 512) = uio.drain 512 := by
  simp only [restoreUio, blockUio, Uio.drain, Uio.mk.injEq, true_and, and_true]
  omega

theorem blockUio_block (uio : Uio) (b : UInt32) :
    UInt32.ofNat ((blockUio uio b).offset / 512) = b := by
  rw [blockUio, Nat.mul_div_cancel _ (by decide), UInt32.ofNat_toNat]

theorem rwblock_read (h : J.Held ∅ L w) (hb : b.toNat < nblocks w.mem) (hrw : uio.rw = .UIO_READ)
    (hlen : 512 ≤ uio.iovLen) (hok : ∀ {L' w'}, J.Passed L w L' w' →
      Q (.ok (), (blockUio uio b).fill (w'.disk b).toList) w')
    (herr : ∀ {e L' w'}, J.Passed L w L' w' → J.c.rdErr e →
      Q (.error e.errno, blockUio uio b) w') : wp J.c (rwblock (blockUio uio b)) Q w := by
  have hrw' : (blockUio uio b).rw = .UIO_READ := hrw
  rw [rwblock, wp_bind, wp_mem, blockUio_block, hrw']
  rw [wp_bind, wp_run_iff]
  refine J.rblock h hb (fun {L' w'} t hc => ?_) fun t he => herr (t.failed fun hq => hq.rd he) he
  have hmove := @Uio.uiomove_read (blockUio uio b) (w'.disk b).toList hrw'
    (by rw [Block.length_toList]; exact hlen) (by rw [Block.length_toList]; rfl)
  rw [Block.length_toList] at hmove
  simp only [hmove]
  exact hok (t.passed hc)

include h hl in
theorem blockio_read
    (hrw : uio.rw = .UIO_READ) (hs : uio.offset % 512 = 0) (hlen : 512 ≤ uio.iovLen)
    (hres : 512 ≤ uio.resid) (hok : ∀ {L' w'}, J.Passed L w L' w' → uio.offset / 512 < 143 →
      Q (.ok (), uio.fill ((w.view J.f).slice uio.offset 512)) w')
    (herr : ∀ {e L' w'}, J.Passed L w L' w' → BmapFault J.c (uio.offset / 512) false e →
      Q (.error e, uio) w') : wp J.c (sfsBlockio J.f uio) Q w := by
  have hoff : 512 * (uio.offset / 512) + 0 = uio.offset := by omega
  have hdo : (uio.rw == .UIO_WRITE) = false := by rw [hrw]; rfl
  rw [sfsBlockio, wp_bind, wp_run_iff, hdo]
  refine J.bmap_read h hl (fun {L1 w1} t1 hfb => ?_) herr
  show wp J.c (if _ then _ else _) Q w1
  by_cases h0 : (w1.view J.f).ptr (uio.offset / 512) = 0
  · -- a hole
    rw [if_pos h0, wp_bind]
    refine wp_assert_of hrw ?_
    have hz := (view_holds (x := Block.zero) (if_pos h0).symm).slice (s := 0) (n := 512)
      (by omega)
    rw [hoff] at hz
    rw [Block.slice_zero] at hz
    rw [Uio.uiomovezeros_read hrw hlen hres, hz]
    show Q (.ok (), uio.fill ((w1.view J.f).slice uio.offset 512)) w1
    rw [t1.view]
    exact hok t1 hfb
  · rw [if_neg h0, wp_bind]
    refine wp_assert_of hres ?_
    rw [wp_bind]
    refine rwblock_read t1.held (ptr_inVolume t1.held h0).1.last hrw hlen
      (fun {L2 w2} t2 => ?_) fun {e L2 w2} t2 he => ?_
    · have hv : (w2.view J.f).ptr (uio.offset / 512) =
          (w1.view J.f).ptr (uio.offset / 512) := by rw [t2.view]
      have hh : (Sfs.view w2.mem w2.disk J.f).Holds (uio.offset / 512)
          (w2.disk ((w2.view J.f).ptr (uio.offset / 512))) :=
        view_holds (if_neg (hv ▸ h0)).symm
      have hz := hh.slice (s := 0) (n := 512) (by omega)
      show Q (.ok (), restoreUio uio _ _) w2
      rw [restoreUio_fill (Block.length_toList _), Block.toList, ← hv, hz, hoff]
      show Q (.ok (), uio.fill ((w2.view J.f).slice uio.offset 512)) w2
      rw [t2.view, t1.view]
      exact hok (t1.trans t2) hfb
    · show Q (.error e.errno, restoreUio uio _ _) w2
      rw [restoreUio_self]
      exact herr (t1.trans t2) (.read he)

/-- How many bytes a read gets to see: the difference of two `off_t`. -/
def clip (size : Int) (off resid : Nat) : Nat :=
  if size ≤ offT off then 0
  else if size < offT (off + resid) then (size - offT off).toNat else resid

/-- A reader's uio after `k` bytes. -/
abbrev readUio (J : Job G) (w : SfsWorld G) (uio : Uio) (k : Nat) : Uio :=
  uio.fill ((w.view J.f).slice uio.offset k)

include h hl in
theorem ioPieces_read (hrw : uio.rw = .UIO_READ) (hlen : uio.resid ≤ uio.iovLen) :
    wp J.c (ioPieces J.f uio) (Ends J.c false uio.offset (J.readUio w uio)
      (fun _ w' => ∃ L', J.Passed L w L' w') uio.resid) w := by
  have h0 : uio = J.readUio w uio 0 := by simp [readUio, Uio.fill, FileView.slice_zero]
  have hnext : ∀ {w' : SfsWorld G} {L' : Set UInt32} (k m : Nat), J.Passed L w L' w' →
      (J.readUio w uio k).fill ((w'.view J.f).slice (J.readUio w uio k).offset m) =
        J.readUio w uio (k + m) := by
    intro w' L' k m t
    rw [readUio, readUio, t.view, Uio.fill_fill, FileView.slice_add]
    simp [Uio.fill]
  have hoff : ∀ k, (J.readUio w uio k).offset = uio.offset + k := fun k => by simp [Uio.fill]
  suffices key : wp J.c (ioPieces J.f (J.readUio w uio 0)) (Ends J.c false uio.offset
      (J.readUio w uio) (fun _ w' => ∃ L', J.Passed L w L' w') uio.resid) w by
    rwa [← h0] at key
  refine ioPieces_ends hoff (fun k => by simp [Uio.fill]) (fun {k m w'} hT hkm hs => ?_)
    (fun {k w'} hT hk hs => ?_) ⟨L, Passed.refl h⟩
  · obtain ⟨L', t⟩ := hT
    have hl' := t.get?.trans hl
    refine partialio_read t.held hl' hrw (by rw [hoff]) hs (by simp [Uio.fill]; omega)
      (by simp [Uio.fill]; omega) (fun t' hfb => ?_) fun t' he => ?_
    · rw [hnext k m t]
      exact .done ⟨_, t.trans t'⟩ (hoff k ▸ hfb)
    · exact .stop ⟨_, t.trans t'⟩ (hoff k ▸ he)
  · obtain ⟨L', t⟩ := hT
    have hl' := t.get?.trans hl
    refine blockio_read t.held hl' hrw (by rw [hoff]; exact hs) (by simp [Uio.fill]; omega)
      (by simp [Uio.fill]; omega) (fun t' hfb => ?_) fun t' he => ?_
    · rw [hnext k 512 t]
      exact .done ⟨_, t.trans t'⟩ (hoff k ▸ hfb)
    · exact .stop ⟨_, t.trans t'⟩ (hoff k ▸ he)

theorem offT_small (h : n < 2147483648) : offT n = n := by
  unfold offT
  rw [if_pos (by omega)]
  omega

theorem fill_resid {x : Nat} (hx : x ≤ uio.resid) (hl : l.length ≤ uio.resid - x) :
    { (Uio.fill { uio with resid := uio.resid - x } l) with
      resid := (Uio.fill { uio with resid := uio.resid - x } l).resid + x } = uio.fill l := by
  simp only [Uio.fill, Uio.mk.injEq, true_and, and_true]
  omega

include h hl in
/-- `sfs_read`. Nothing is read past the last block that a file can have. -/
theorem io_read
    (hrw : uio.rw = .UIO_READ) (hlen : uio.resid ≤ uio.iovLen) (hoff : uio.offset < 2147483648)
    (hres : uio.resid < 4294967296) (hn : clip (offT sv.svI.sfiSize.toNat) uio.offset uio.resid = n)
    (hok : ∀ {L' w'}, J.Passed L w L' w' →
      (offT sv.svI.sfiSize.toNat ≤ uio.offset ∨ Fits uio.offset n) →
      Q (.ok (), J.readUio w uio n) w')
    (herr : ∀ {e k L' w'}, J.Passed L w L' w' → uio.offset < offT sv.svI.sfiSize.toNat →
      k ≤ n → (k = 0 ∨ uio.offset + k ≤ 73216) → IoFault J.c false uio.offset n k e →
      Q (.error e, J.readUio w uio k) w') : wp J.c (sfsIo J.f uio) Q w := by
  have hoT := offT_small hoff
  rw [sfsIo, hrw]
  show wp J.c (ioRead J.f uio) Q w
  rw [ioRead, wp_bind, wp_vnode hl]
  rw [clip] at hn
  by_cases h1 : offT sv.svI.sfiSize.toNat ≤ offT uio.offset
  · rw [if_pos h1] at hn ⊢
    subst hn
    have hQ := hok (Passed.refl h) (.inl (hoT ▸ h1))
    simpa [readUio, Uio.fill, FileView.slice_zero] using hQ
  rw [if_neg h1] at hn ⊢
  have hend : ∀ {u : Uio} {x : Nat} {r : IoResult} {w' : SfsWorld G}, u.offset = uio.offset →
      (∀ k ≤ n, { (J.readUio w u k) with resid := (J.readUio w u k).resid + x } =
        J.readUio w uio k) →
      Ends J.c false u.offset (J.readUio w u) (fun _ w' => ∃ L', J.Passed L w L' w') n r w' →
      Q (r.1, { r.2 with resid := r.2.resid + x }) w' := by
    intro u x r w' ho hu hr
    cases hr with
    | done hT hfit =>
      obtain ⟨L', t⟩ := hT
      simp only [hu n le_rfl]
      exact hok t (.inr (ho ▸ hfit))
    | stop hT hj hend hf =>
      obtain ⟨L', t⟩ := hT
      simp only [hu _ hj]
      exact herr t (by omega) hj (ho ▸ hend) (ho ▸ hf)
  by_cases h2 : offT sv.svI.sfiSize.toNat < offT (uio.offset + uio.resid)
  · -- the request reaches past EOF; the sum has not wrapped, since it is past the size
    rw [if_pos h2] at hn ⊢
    have h3 := offT_cases (uio.offset + uio.resid)
    rw [hoT] at h1 hn
    have h4 : offT (uio.offset + uio.resid) = (uio.offset + uio.resid : Nat) := by omega
    rw [h4] at h2 ⊢
    rw [wp_bind]
    refine wp_assert_of (by omega) ?_
    rw [wp_bind]
    have hx : uio.resid - (((uio.offset + uio.resid : Nat) : Int) -
        offT sv.svI.sfiSize.toNat).toNat = n := by omega
    rw [hx]
    have hp := @ioPieces_read _ J L w { uio with resid := n } sv h hl hrw
      (show n ≤ uio.iovLen by omega)
    refine wp_mono hp fun r w' hr => hend (u := { uio with resid := n }) rfl (fun k hk => ?_) hr
    have := @fill_resid uio ((w.view J.f).slice uio.offset k)
      (((uio.offset + uio.resid : Nat) : Int) - offT sv.svI.sfiSize.toNat).toNat (by omega)
      (by rw [FileView.length_slice]; omega)
    rwa [hx] at this
  · rw [if_neg h2] at hn ⊢
    subst hn
    exact wp_mono (ioPieces_read h hl hrw hlen) fun r w' hr => hend (x := 0) rfl
      (fun _ _ => rfl) hr

/-! ## Writing -/

/-- The bytes `l` have been laid over the job's file; its size is as it was. -/
structure Wrote (J : Job G) (off : Nat) (l : List UInt8) (L : Set UInt32) (w : SfsWorld G)
    (L' : Set UInt32) (w' : SfsWorld G) : Prop where
  later : Later J.c L L'
  held : J.Held ∅ L' w'
  frame : Frame (J.S \ {J.f}) w w'
  grows : Grows J.sz J.f w w'
  size : (w'.view J.f).inode.sfiSize = (w.view J.f).inode.sfiSize
  byte : (w'.view J.f).byte = patchBytes (w.view J.f).byte off l
  started : w.started = true → w'.started = true

theorem Mapped.wrote (t : J.Mapped L w L' w') (off : Nat) : J.Wrote off [] L w L' w' :=
  ⟨t.later, t.held, t.frame, t.grows, t.size, t.byte.trans (patchBytes_nil _ _).symm, t.started⟩

theorem Wrote.trans {a b : List UInt8} (h1 : J.Wrote off a L w L1 w1)
    (h2 : J.Wrote (off + a.length) b L1 w1 L2 w2) : J.Wrote off (a ++ b) L w L2 w2 where
  later := h1.later.trans h2.later
  held := h2.held
  frame := h1.frame.trans h2.frame
  grows := h1.grows.trans h2.grows
  size := h2.size.trans h1.size
  byte := by rw [h2.byte, h1.byte, patchBytes_append]
  started hs := h2.started (h1.started hs)

theorem Mapped.thenWrote (h1 : J.Mapped L w L1 w1) (h2 : J.Wrote off l L1 w1 L2 w2) :
    J.Wrote off l L w L2 w2 :=
  (h1.wrote off).trans h2

theorem Wrote.thenMapped (h1 : J.Wrote off l L w L1 w1) (h2 : J.Mapped L1 w1 L2 w2) :
    J.Wrote off l L w L2 w2 := by
  have h := h1.trans (h2.wrote _)
  rwa [List.append_nil] at h

/-- A data block of the file is overwritten. -/
theorem storedData (h : J.Held ∅ L w) (h0 : (w.view J.f).ptr fb ≠ 0)
    (hx : ((w.view J.f).withBlock fb x).byte = patchBytes (w.view J.f).byte off l) :
    J.Wrote off l L w L (w.store ((w.view J.f).ptr fb) x) := by
  have hs := h.sound
  have hk := own_data J.mem_live h0
  have hv : SfsWorld.view (w.store ((w.view J.f).ptr fb) x) J.f =
      (w.view J.f).withBlock fb x := view_storeData hs J.mem_live h0
  have hsame : ∀ g ∈ J.live, g ≠ J.f →
      Same g w (w.store ((w.view J.f).ptr fb) x) := fun g hg hne =>
    ⟨rfl, view_store_other hs hk hg hne (by simp)⟩
  have hg : Grows J.sz J.f w (w.store ((w.view J.f).ptr fb) x) := by
    refine ⟨fun hsv => ⟨_, hsv, rfl, rfl, rfl⟩, ?_, ?_, fun _ => ?_, .inl ?_⟩ <;> rw [hv] <;> rfl
  exact ⟨Later.refl _ _, stepped h (hs.storeData J.mem_live h0) (fun _ hx => hx.elim) rfl hsame hg,
    ⟨rfl, rfl, fun g hS => hsame g (J.sub hS.1) hS.2⟩, hg, by rw [hv]; rfl,
    (congrArg FileView.byte hv).trans hx, fun hst => hst⟩

theorem wroteData [Stores J.c] {src : SfsFs → Block} {Q : Except Errno Unit → SfsWorld G → Prop}
    (h : J.Held ∅ L w) (h0 : (w.view J.f).ptr fb ≠ 0) (hx : ((w.view J.f).withBlock fb x).byte =
      patchBytes (w.view J.f).byte off l)
    (hsrc : ∀ {w' : SfsWorld G}, (w.started = true → w' = w) → src w'.mem = x)
    (hok : ∀ {L' w'}, J.Wrote off l L w L' w' → Q (.ok ()) w') :
    wpE J.c (sfsWblock w.mem.dBlocks ((w.view J.f).ptr fb) src) Q w := by
  have key : ∀ {L' w'}, J.Turn ∅ L w L' w' → J.Wrote off l L' w' L'
      (w'.store ((w.view J.f).ptr fb) x) := by
    intro L' w' t
    have hv := (t.frame.same _ J.mem).view
    rw [← hv] at h0 hx ⊢
    exact storedData t.held h0 hx
  refine J.wblock ∅ h (ptr_inVolume h h0).1.last (fun t hsame => ?_)
    fun {L1 w1 L2 w2} t hsame t2 _ => ?_
  · rw [hsrc hsame]
    exact (key t).held
  · rw [hsrc hsame] at t2
    exact hok (t.mapped.thenWrote ((key t).thenMapped t2.mapped))

theorem drain_zero (uio : Uio) : uio.drain 0 = uio := by
  simp [Uio.drain]

theorem uiomove_drain {ptr : List UInt8} (hrw : uio.rw = .UIO_WRITE) (hl : n ≤ uio.iovLen)
    (hr : n ≤ uio.resid) : uio.uiomove ptr n = some (uio.drain n, uio.iov.take n) := by
  rcases Nat.eq_zero_or_pos n with rfl | h0
  · rw [Uio.uiomove_zero, drain_zero, List.take_zero]
  · rw [Uio.uiomove_eq hl hr h0, Uio.move]
    simp [hrw, Uio.drain]

include h hl in
theorem partialio_write [Stores J.c] (hrw : uio.rw = .UIO_WRITE) (hs : uio.offset % 512 = skip)
    (hn : skip + n ≤ 512) (hlen : n ≤ uio.iovLen) (hres : n ≤ uio.resid)
    (hok : ∀ {L' w'}, J.Wrote uio.offset (uio.iov.take n) L w L' w' →
      uio.offset / 512 < 143 → Q (.ok (), uio.drain n) w')
    (herr : ∀ {e L' w'}, J.Mapped L w L' w' → BmapFault J.c (uio.offset / 512) true e →
      Q (.error e, uio) w') : wp J.c (sfsPartialio J.f uio skip n) Q w := by
  have hoff : 512 * (uio.offset / 512) + skip = uio.offset := by omega
  rw [sfsPartialio, wp_bind]
  refine wp_assert_of hn ?_
  rw [wp_bind, wp_run_iff, hrw, wpE_bind]
  refine J.bmap_write h hl (fun {L1 w1} t1 hfb h0 _ => ?_) fun t he _ => herr t he
  show wpE J.c (partialioLoad _ _ >>= fun _ => pure _) _ w1
  rw [wpE_bind]
  refine partialioLoad_holds t1.held (fun hn => absurd hn h0) (fun {L2 w2} t2 hh hst => ?_)
    fun t2 he => herr (t1.trans t2.mapped) (.read he)
  show wp J.c (partialioMove _ uio skip n) Q w2
  rw [partialioMove, wp_bind, wp_mem, uiomove_drain hrw hlen hres]
  simp only [hrw]
  rw [wp_bind, wp_put, wp_bind, wp_run_iff]
  -- the block in the buffer is that of the file, patched, and the device is ours
  have t3 : J.Mapped L w L2 (w2.withMem
      { w2.mem with iobuf := w2.mem.iobuf.patch skip (uio.iov.take n) }) :=
    (t1.trans t2.mapped).bufOnly ⟨rfl, rfl, rfl, rfl, rfl, rfl⟩
  have hv : SfsWorld.view (w2.withMem
      { w2.mem with iobuf := w2.mem.iobuf.patch skip (uio.iov.take n) }) J.f =
      w1.view J.f := t2.view
  have hpatch := hh.patch (s := skip) (l := uio.iov.take n)
    (by rw [List.length_take]; omega)
  rw [hoff] at hpatch
  rw [← hv] at h0 hpatch ⊢
  refine wroteData t3.held h0 hpatch (fun hsame => ?_) fun t => hok (t3.thenWrote t) hfb
  rw [hsame (hst (hv ▸ h0))]
  rfl

theorem rwblock_write [Stores J.c] (h : J.Held ∅ L w) (h0 : (w.view J.f).ptr fb ≠ 0)
    (hrw : uio.rw = .UIO_WRITE) (hoff : 512 * fb = uio.offset) (hlen : 512 ≤ uio.iovLen)
      (hiov : 512 ≤ uio.iov.length)
    (hok : ∀ {L' w'}, J.Wrote uio.offset (uio.iov.take 512) L w L' w' →
      Q (.ok (), (blockUio uio ((w.view J.f).ptr fb)).drain 512) w') :
    wp J.c (rwblock (blockUio uio ((w.view J.f).ptr fb))) Q w := by
  have hrw' : (blockUio uio ((w.view J.f).ptr fb)).rw = .UIO_WRITE := hrw
  rw [rwblock, wp_bind, wp_mem, blockUio_block, hrw']
  simp only [Uio.uiomove_write hrw' hlen (Nat.le_refl 512)]
  rw [wp_bind, wp_run_iff]
  have hlen : (uio.iov.take 512).length = 512 := by rw [List.length_take]; omega
  have hpatch := ((w.view J.f).holds_ofFn fb).patch (s := 0) (l := uio.iov.take 512)
    (by omega)
  rw [Block.patch_all hlen, Nat.add_zero, hoff] at hpatch
  exact wroteData h h0 hpatch (fun _ => rfl) hok

include h hl in
theorem blockio_write [Stores J.c] (hrw : uio.rw = .UIO_WRITE) (hs : uio.offset % 512 = 0)
    (hlen : 512 ≤ uio.iovLen) (hiov : 512 ≤ uio.iov.length) (hres : 512 ≤ uio.resid)
    (hok : ∀ {L' w'}, J.Wrote uio.offset (uio.iov.take 512) L w L' w' →
      uio.offset / 512 < 143 → Q (.ok (), uio.drain 512) w')
    (herr : ∀ {e L' w'}, J.Mapped L w L' w' → BmapFault J.c (uio.offset / 512) true e →
      Q (.error e, uio) w') : wp J.c (sfsBlockio J.f uio) Q w := by
  have hoff : 512 * (uio.offset / 512) = uio.offset := by omega
  have hdo : (uio.rw == .UIO_WRITE) = true := by rw [hrw]; rfl
  rw [sfsBlockio, wp_bind, wp_run_iff, hdo]
  refine J.bmap_write h hl (fun {L1 w1} t1 hfb h0 _ => ?_) fun t he _ => herr t he
  show wp J.c (if _ then _ else _) Q w1
  rw [if_neg h0, wp_bind]
  refine wp_assert_of hres ?_
  rw [wp_bind]
  refine rwblock_write t1.held h0 hrw hoff hlen hiov fun {L2 w2} t2 => ?_
  show Q (.ok (), restoreUio uio _ _) w2
  rw [restoreUio_drain]
  exact hok (t1.thenWrote t2) hfb

theorem Wrote.get? (t : J.Wrote off l L w L' w') (hl : w.mem.sfsVnodes.get? J.f = some sv) :
    ∃ sv', w'.mem.sfsVnodes.get? J.f = some sv' := by
  obtain ⟨sv', h, -⟩ := t.grows.vnode hl
  exact ⟨sv', h⟩

include h hl in
theorem ioPieces_write [Stores J.c] (hrw : uio.rw = .UIO_WRITE) (hlen : uio.resid ≤ uio.iovLen)
    (hiov : uio.resid ≤ uio.iov.length) :
    wp J.c (ioPieces J.f uio) (Ends J.c true uio.offset uio.drain
      (fun k w' => ∃ L', J.Wrote uio.offset (uio.iov.take k) L w L' w') uio.resid) w := by
  have hnext : ∀ {k m : Nat} {L1 L2 : Set UInt32} {w1 w2 : SfsWorld G}, k + m ≤ uio.resid →
      J.Wrote uio.offset (uio.iov.take k) L w L1 w1 →
      J.Wrote (uio.drain k).offset ((uio.drain k).iov.take m) L1 w1 L2 w2 →
      J.Wrote uio.offset (uio.iov.take (k + m)) L w L2 w2 := by
    intro k m L1 L2 w1 w2 hkm t t'
    rw [List.take_add]
    refine t.trans ?_
    rwa [List.length_take, Nat.min_eq_left (by omega)]
  suffices key : wp J.c (ioPieces J.f (uio.drain 0)) (Ends J.c true uio.offset uio.drain
      (fun k w' => ∃ L', J.Wrote uio.offset (uio.iov.take k) L w L' w') uio.resid) w by
    rwa [drain_zero] at key
  refine ioPieces_ends (fun _ => rfl) (fun _ => rfl) (fun {k m w'} hT hkm hs => ?_)
    (fun {k w'} hT hk hs => ?_) ⟨L, (Passed.refl h).mapped.wrote _⟩
  · obtain ⟨L', t⟩ := hT
    obtain ⟨sv', hl'⟩ := t.get? hl
    refine partialio_write t.held hl' hrw rfl hs (by simp only [Uio.drain]; omega)
      (by simp only [Uio.drain]; omega) (fun t' hfb => ?_)
      fun t' he => .stop ⟨_, t.thenMapped t'⟩ he
    rw [Uio.drain_drain]
    exact .done ⟨_, hnext hkm t t'⟩ hfb
  · obtain ⟨L', t⟩ := hT
    obtain ⟨sv', hl'⟩ := t.get? hl
    refine blockio_write t.held hl' hrw hs (by simp only [Uio.drain]; omega)
      (by simp only [Uio.drain, List.length_drop]; omega) (by simp only [Uio.drain]; omega)
      (fun t' hfb => ?_) fun t' he => .stop ⟨_, t.thenMapped t'⟩ he
    rw [Uio.drain_drain]
    exact .done ⟨_, hnext hk t t'⟩ hfb

/-! ### The size -/

/-- The size of a file after a write that got as far as `q`. -/
def grownSize (s : UInt32) (q : Nat) : UInt32 :=
  if offT s.toNat < offT q then UInt32.ofNat q else s

theorem grownSize_toNat {z : UInt32} (hz : z.toNat < 2147483648) (hq : q < 2147483648) :
    (grownSize z q).toNat = max z.toNat q := by
  rw [grownSize, offT_small hz, offT_small hq]
  split
  · rw [UInt32.toNat_ofNat']
    omega
  · omega

/-- The bytes `l` have been laid over the job's file, and it reaches to `q` at
least. -/
structure Grown (J : Job G) (off : Nat) (l : List UInt8) (q : Nat) (L : Set UInt32)
    (w : SfsWorld G) (L' : Set UInt32) (w' : SfsWorld G) : Prop where
  later : Later J.c L L'
  held : J.Held ∅ L' w'
  frame : Frame (J.S \ {J.f}) w w'
  grows : Grows J.sz J.f w w'
  size : (w'.view J.f).inode.sfiSize =
    grownSize (w.view J.f).inode.sfiSize q
  byte : (w'.view J.f).byte = patchBytes (w.view J.f).byte off l
  started : w.started = true → w'.started = true

/-- The end of `sfs_io` for a writer. -/
theorem sized (t : J.Wrote off l L w L' w') (hl : w'.mem.sfsVnodes.get? J.f = some sv)
    (hq : q < 2147483648) (hsz : offT sv.svI.sfiSize.toNat < offT q → J.sz q) :
    J.Grown off l q L w L' (if offT sv.svI.sfiSize.toNat < offT q then
      w'.withMem (w'.mem.withVnode J.f (SfsVnode.withInode (SfsInode.setSize (UInt32.ofNat q))))
      else w') := by
  have hi : (w'.view J.f).inode = sv.svI := by
    rw [SfsWorld.view, view_of_get? hl]
    rfl
  have hs : (w.view J.f).inode.sfiSize = sv.svI.sfiSize := by rw [← t.size, hi]
  by_cases hlt : offT sv.svI.sfiSize.toNat < offT q
  · rw [if_pos hlt]
    have hqn : (UInt32.ofNat q).toNat = q := by
      rw [UInt32.toNat_ofNat']
      omega
    have hv := view_withMem_inode (c := SfsInode.setSize (UInt32.ofNat q)) hl
    have hg : Grows J.sz J.f w' (w'.withMem (w'.mem.withVnode J.f
        (SfsVnode.withInode (SfsInode.setSize (UInt32.ofNat q))))) :=
      grows_withInode hl rfl rfl (fun _ _ => rfl) (.inr (by
        show J.sz (UInt32.ofNat q).toNat
        rw [hqn]
        exact hsz hlt))
    have hsound := t.held.sound.keepBlocks
      (.withInode t.held.sound hl (c := SfsInode.setSize (UInt32.ofNat q)) rfl) rfl rfl
    have hh : J.Held ∅ L' (w'.withMem (w'.mem.withVnode J.f
        (SfsVnode.withInode (SfsInode.setSize (UInt32.ofNat q))))) :=
      stepped t.held hsound (fun _ hx => hx.elim) rfl
        (fun g _ hne => same_withVnode (fun _ => rfl) hl hne) hg
    refine ⟨t.later, hh, t.frame.trans (frame_withVnode (fun _ => rfl) hl), t.grows.trans hg,
      ?_, ?_, t.started⟩
    · rw [hv, grownSize, hs, if_pos hlt]
      rfl
    · rw [hv, ← t.byte, SfsWorld.view, view_of_get? hl]
      rfl
  · rw [if_neg hlt]
    exact ⟨t.later, t.held, t.frame, t.grows,
      t.size.trans (by rw [grownSize, hs, if_neg hlt]), t.byte, t.started⟩

/-- What `sfs_io` does once the pieces of a write are through. -/
theorem ioWrite_of
    (h : wp J.c (ioPieces J.f uio) (fun r w' => ∃ sv, w'.mem.sfsVnodes.get? J.f = some sv ∧
      Q r (if offT sv.svI.sfiSize.toNat < offT r.2.offset then
        w'.withMem (w'.mem.withVnode J.f
          (SfsVnode.withInode (SfsInode.setSize (UInt32.ofNat r.2.offset)))) else w')) w)
    (hrw : uio.rw = .UIO_WRITE) : wp J.c (sfsIo J.f uio) Q w := by
  rw [sfsIo, hrw]
  show wp J.c (ioWrite J.f uio) Q w
  rw [ioWrite, wp_bind]
  refine wp_mono h fun r w' ⟨sv, hl, hQ⟩ => ?_
  rw [wp_bind, wp_vnode hl]
  by_cases hlt : offT sv.svI.sfiSize.toNat < offT r.2.offset
  · rw [if_pos hlt] at hQ ⊢
    rw [wp_bind, wp_setInode]
    exact hQ
  · rw [if_neg hlt] at hQ ⊢
    exact hQ

include h hl in
theorem io_write [Stores J.c] (hrw : uio.rw = .UIO_WRITE) (hlen : uio.resid ≤ uio.iovLen)
    (hiov : uio.resid ≤ uio.iov.length) (hoff : uio.offset < 2147483648)
    (hsz : ∀ q < 2147483648, J.sz q)
    (hok : ∀ {L' w'}, J.Grown uio.offset (uio.iov.take uio.resid) (uio.offset + uio.resid)
      L w L' w' → Fits uio.offset uio.resid → Q (.ok (), uio.drain uio.resid) w')
    (herr : ∀ {e k L' w'}, J.Grown uio.offset (uio.iov.take k) (uio.offset + k) L w L' w' →
      k ≤ uio.resid → IoFault J.c true uio.offset uio.resid k e → Q (.error e, uio.drain k) w') :
    wp J.c (sfsIo J.f uio) Q w := by
  refine ioWrite_of (wp_mono (ioPieces_write h hl hrw hlen hiov) fun r w' hr => ?_) hrw
  cases hr with
  | done hT hfit =>
    obtain ⟨L', t⟩ := hT
    obtain ⟨sv', hl'⟩ := t.get? hl
    have hq : uio.offset + uio.resid < 2147483648 := by
      rcases hfit with hfit | hfit <;> omega
    exact ⟨sv', hl', hok (sized t hl' hq fun _ => hsz _ hq) hfit⟩
  | stop hT hj hb hf =>
    obtain ⟨L', t⟩ := hT
    obtain ⟨sv', hl'⟩ := t.get? hl
    have hq : ∀ x, (x = 0 ∨ uio.offset + x ≤ 73216) → uio.offset + x < 2147483648 := by
      omega
    exact ⟨sv', hl', herr (sized t hl' (hq _ hb) fun _ => hsz _ (hq _ hb)) hj hf⟩

end Job

end Os161.Sfs
