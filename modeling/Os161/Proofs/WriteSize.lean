import Os161.Lib.Upholds
import Os161.Proofs.FileIo
import Os161.Proofs.Mksfs
import Os161.Sfs.UserIo

/-!
# How far a write extends a file

At `out` every write of `sfs_io` makes the file reach at least as far as
`uio_offset`, whichever way it got there. If bytes have been moved that is the
end of them. If none have been, because the first piece failed or because the
request was for none, `uio_offset` is where the caller had set it, and a file
that ended before grows all the same.

The proof needs little: the pieces leave `sfi_size` alone, and they do not move
`uio_offset` back, nor past the last block that a file can have. Neither depends
on the volume being in order, on what the device answers, or on where a user's
buffer faults.
-/

namespace Os161.Sfs.User

open Os161.Kern Os161.Lib

/-! ## The pieces leave the size alone -/

/-- `f` is loaded and has the size `z`. -/
def SizeIs (f z : UInt32) (m : SfsFs) : Prop :=
  ∃ sv, m.sfsVnodes.get? f = some sv ∧ sv.svI.sfiSize = z

section
variable {f g z : UInt32}

variable {c : SfsInode → SfsInode} {I : SfsFs → Prop} {dBlocks b idblock : UInt32} {doalloc : Bool}

theorem SizeIs.withInode {m : SfsFs} (h : SizeIs f z m) (hc : ∀ i, (c i).sfiSize = i.sfiSize) :
    SizeIs f z (m.withVnode g (SfsVnode.withInode c)) := by
  obtain ⟨sv, hl, hz⟩ := h
  by_cases hfg : f = g
  · subst hfg
    exact ⟨_, VnodeArray.get?_update_self (fun _ => rfl) hl, (hc _).trans hz⟩
  · have hother := @VnodeArray.get?_update_ne m.sfsVnodes g f (SfsVnode.withInode c)
      (fun _ => rfl) hfg
    exact ⟨sv, hother.trans hl, hz⟩

theorem upholds_setInode {Q : Unit → Prop} (hc : ∀ i, (c i).sfiSize = i.sfiSize) (hQ : Q ()) :
    Upholds (SizeIs f z) (setInode g c) Q :=
  upholds_modify (fun _ h => h.withInode hc) hQ

theorem upholds_vnode : Upholds I (vnode g) fun sv => ∃ m, I m ∧ m.sfsVnodes.get? g = some sv := by
  refine upholds_mem_bind fun m hm => ?_
  split
  · next sv hl => exact upholds_pure ⟨m, hm, hl⟩
  · exact upholds_panic _

theorem upholdsE_rblock : UpholdsE I (sfsRblock dBlocks b) fun _ => True := by
  unfold sfsRblock
  split
  · exact upholdsE_call (upholds_panic _)
  · rintro (e | x)
    · exact upholdsE_throw (R := Errno) _
    · exact upholdsE_pure (R := Errno) trivial

theorem upholdsE_wblock {src : SfsFs → Block} :
    UpholdsE I (sfsWblock dBlocks b src) fun _ => True := by
  unfold sfsWblock
  split
  · exact upholdsE_call (upholds_panic _)
  · rintro ((_ | _) | x)
    · -- the retry
      show Upholds I (if _ then _ else _) _
      split
      · exact upholds_panic _
      · exact upholdsE_pure (R := Errno) trivial
    · exact upholdsE_throw (R := Errno) _
    · exact upholdsE_pure (R := Errno) trivial

theorem upholdsE_balloc : UpholdsE (SizeIs f z) sfsBalloc fun _ => True := by
  refine upholdsE_mem_bind fun m hm => ?_
  split
  · exact upholdsE_call (upholds_panic _)
  · exact upholdsE_throw _
  · refine upholdsE_bind (S := fun _ => True) (upholdsE_call (upholds_put hm trivial))
      fun _ _ => ?_
    split
    · exact upholdsE_call (upholds_panic _)
    · refine upholdsE_bind (S := fun _ => True) ?_ fun _ _ => upholdsE_pure trivial
      exact upholdsE_mem_bind fun _ _ => upholdsE_wblock

theorem upholdsE_bmapHand (b : UInt32) : UpholdsE I (bmapHand b) fun _ => True := by
  unfold bmapHand
  split
  · exact upholdsE_pure trivial
  · refine upholdsE_bind (S := fun _ => True) (upholdsE_call ?_) fun used _ => ?_
    · refine upholds_mem_bind fun m _ => ?_
      split
      · exact upholds_panic _
      · exact upholds_pure trivial
    · split
      · exact upholdsE_pure trivial
      · exact upholdsE_call (upholds_panic _)

theorem upholdsE_bmapDirect {k : Fin 15} :
    UpholdsE (SizeIs f z) (bmapDirect g k doalloc) fun _ => True := by
  refine upholdsE_bind (upholdsE_call upholds_vnode) fun sv _ => ?_
  dsimp only
  split
  · refine upholdsE_bind upholdsE_balloc fun b _ => ?_
    refine upholdsE_bind (S := fun _ => True)
      (upholdsE_call (upholds_setInode (fun _ => rfl) trivial)) fun _ _ => ?_
    exact upholdsE_bmapHand b
  · exact upholdsE_bmapHand _

/-- The buffers of the file system do not matter. -/
theorem upholdsE_buffer {u : SfsFs → SfsFs} (hu : ∀ m, (u m).sfsVnodes = m.sfsVnodes) :
    UpholdsE (R := Errno) (SizeIs f z) (call (Prog.modify u) : SfsM Unit) fun _ => True := by
  refine upholdsE_call (upholds_modify (fun m hm => ?_) trivial)
  unfold SizeIs
  rw [hu]
  exact hm

theorem upholdsE_bmapLoad : UpholdsE (SizeIs f z) (bmapLoad g idblock) fun _ => True := by
  unfold bmapLoad
  split
  · refine upholdsE_bind upholdsE_balloc fun b _ => ?_
    refine upholdsE_bind (S := fun _ => True)
      (upholdsE_call (upholds_setInode (fun _ => rfl) trivial)) fun _ _ => ?_
    exact upholdsE_bind (upholdsE_buffer fun _ => rfl) fun _ _ => upholdsE_pure trivial
  · refine upholdsE_mem_bind fun m _ => upholdsE_bind upholdsE_rblock fun x _ => ?_
    exact upholdsE_bind (upholdsE_buffer fun _ => rfl) fun _ _ => upholdsE_pure trivial

theorem upholdsE_bmapEntry {idoff : Nat} :
    UpholdsE (SizeIs f z) (bmapEntry idblock idoff doalloc) fun _ => True := by
  refine upholdsE_mem_bind fun m _ => ?_
  dsimp only
  split
  · refine upholdsE_bind upholdsE_balloc fun b _ => ?_
    refine upholdsE_bind (upholdsE_buffer fun _ => rfl) fun _ _ => ?_
    exact upholdsE_bind upholdsE_wblock fun _ _ => upholdsE_bmapHand b
  · exact upholdsE_bmapHand _

/-- `sfs_bmap` has no block for positions past the largest file. -/
theorem upholdsE_bmap {fileblock : Nat} :
    UpholdsE (SizeIs f z) (sfsBmap g fileblock doalloc) fun _ => fileblock < 143 := by
  unfold sfsBmap
  split
  · next hlt => exact upholdsE_bmapDirect.mono fun _ _ => by omega
  unfold bmapIndirect
  dsimp only
  split
  · exact upholdsE_throw _
  · next hid =>
    have hlt : fileblock < 143 := by
      simp only [sfsDbperidb, sfsNdirect] at hid
      omega
    refine upholdsE_bind (upholdsE_call upholds_vnode) fun sv _ => ?_
    split
    · exact upholdsE_pure hlt
    · refine upholdsE_bind upholdsE_bmapLoad fun idblock _ => ?_
      exact upholdsE_bmapEntry.mono fun _ _ => hlt

theorem upholdsE_partialioLoad {diskblock : UInt32} {rw' : UioRw} :
    UpholdsE (SizeIs f z) (partialioLoad diskblock rw') fun _ => True := by
  unfold partialioLoad
  split
  · refine upholdsE_bind (upholdsE_call upholds_assert) fun _ _ => ?_
    exact upholdsE_buffer fun _ => rfl
  · refine upholdsE_mem_bind fun m _ => upholdsE_bind upholdsE_rblock fun x _ => ?_
    exact upholdsE_buffer fun _ => rfl

end

/-! ## The pieces move the offset forward -/

/-- What became of a uio that was to be moved by `n` bytes. -/
structure Advance (uio : Uio) (n : Nat) (r : IoResult) : Prop where
  rw : r.2.rw = uio.rw
  le : uio.offset ≤ r.2.offset
  most : r.2.offset ≤ uio.offset + n
  ok : r.1 = .ok () → r.2.offset = uio.offset + n

theorem Advance.stop (uio : Uio) (n : Nat) (e : Errno) : Advance uio n (.error e, uio) :=
  ⟨rfl, le_rfl, Nat.le_add_right _ _, nofun⟩

/-- It has been moved by all of them, whatever came afterwards. -/
theorem Advance.all {uio u : Uio} {n : Nat} (h : Advance uio n (.ok (), u))
    (r : Except Errno Unit) : Advance uio n (r, u) :=
  ⟨h.rw, h.le, h.most, fun _ => h.ok rfl⟩

theorem move_fields (uio : Uio) (ptr : List UInt8) (size : Nat) :
    (uio.move ptr size).1.rw = uio.rw ∧ (uio.move ptr size).1.offset = uio.offset + size ∧
      (uio.move ptr size).1.resid = uio.resid - size := by
  unfold Uio.move
  cases uio.rw <;> exact ⟨rfl, rfl, rfl⟩

section
variable {h : Faulty}

variable {n skipstart len : Nat} {uio u : Uio} {ptr got : List UInt8} {r : Except Errno Unit}
  {Q : IoResult → Prop} {I : SfsFs → Prop} {s s' : SfsMachine} {sv : SfsVnode}

theorem uiomove_loop_advance {fuel : Nat} (hfuel : n ≤ fuel) (hres : n ≤ uio.resid)
    (hm : uiomove.loop h fuel uio ptr n = some (r, u, got)) : Advance uio n (r, u) := by
  induction fuel generalizing n uio ptr got with
  | zero =>
    obtain rfl : n = 0 := by omega
    cases hm
    exact ⟨rfl, le_rfl, le_rfl, fun _ => rfl⟩
  | succ fuel ih =>
    rw [uiomove.loop] at hm
    split at hm
    · next hz =>
      obtain rfl : n = 0 := by omega
      cases hm
      exact ⟨rfl, le_rfl, le_rfl, fun _ => rfl⟩
    dsimp only at hm
    split at hm
    · cases hm
    next hsize =>
    split at hm
    · cases hm
      exact .stop _ _ _
    -- one round, and the rest by induction
    obtain ⟨⟨r', u', rest⟩, hrest, hx⟩ := Option.map_eq_some_iff.1 hm
    cases hx
    obtain ⟨hrw, hoff, hres'⟩ := move_fields uio ptr (min uio.iovLen n)
    have hrec := ih (by omega) (by omega) hrest
    have hle := hrec.le
    have hmost := hrec.most
    refine ⟨hrec.rw.trans hrw, by omega, by omega, fun hok => ?_⟩
    have := hrec.ok hok
    omega

theorem uiomove_advance (hres : n ≤ uio.resid) (hm : uiomove h uio ptr n = some (r, u, got)) :
    Advance uio n (r, u) :=
  uiomove_loop_advance (Nat.le_refl n) hres hm

variable {f g z : UInt32} {uio : Uio}

variable (hrw : uio.rw = .UIO_WRITE)

include hrw in
theorem upholds_partialioMove {diskblock : UInt32} (hlen : len ≤ uio.resid) :
    Upholds (SizeIs f z) (partialioMove h diskblock uio skipstart len) (Advance uio len) := by
  refine upholds_mem_bind fun m hm => ?_
  split
  · exact upholds_panic _
  · next e u _ hmove => exact upholds_pure (uiomove_advance hlen hmove)
  · next u got hmove =>
    rw [hrw]
    refine upholds_bind (R := fun _ => True) (upholds_put hm trivial) fun _ _ => ?_
    exact upholds_bind upholdsE_wblock fun r _ => (uiomove_advance hlen hmove).all r

/-- A piece of `n` bytes: if it has got anywhere, it was in a block that a file
can have. -/
structure Piece (uio : Uio) (n : Nat) (r : IoResult) : Prop extends Advance uio n r where
  mapped : r.2.offset = uio.offset ∨ uio.offset / 512 < 143

include hrw in
theorem upholds_partialio (hlen : len ≤ uio.resid) :
    Upholds (SizeIs f z) (sfsPartialio h g uio skipstart len)
      fun r => Piece uio len r ∧ skipstart + len ≤ 512 := by
  refine upholds_bind upholds_assert fun _ hskip => ?_
  have hload : UpholdsE (SizeIs f z) (do
      let diskblock ← sfsBmap g (uio.offset / blockSize) (uio.rw == .UIO_WRITE)
      partialioLoad diskblock uio.rw
      pure diskblock : SfsM UInt32) fun _ => uio.offset / 512 < 143 := by
    refine upholdsE_bind upholdsE_bmap fun b hb => ?_
    exact upholdsE_bind upholdsE_partialioLoad fun _ _ => upholdsE_pure hb
  refine upholds_bind hload fun r hr => ?_
  cases r with
  | error e => exact ⟨⟨.stop _ _ _, .inl rfl⟩, hskip⟩
  | ok b =>
    exact (upholds_partialioMove hrw hlen).mono fun r' hr' =>
      ⟨⟨hr', .inr (hr b rfl)⟩, hskip⟩

include hrw in
theorem upholds_rwblock (hlen : 512 ≤ uio.resid) :
    Upholds (SizeIs f z) (rwblock h uio) (Advance uio 512) := by
  refine upholds_mem_bind fun m _ => ?_
  rw [hrw]
  dsimp only
  split
  · exact upholds_panic _
  · next e u _ hmove => exact upholds_pure (uiomove_advance hlen hmove)
  · next u got hmove =>
    exact upholds_bind upholdsE_wblock fun r _ => (uiomove_advance hlen hmove).all r

include hrw in
theorem upholds_blockio : Upholds (SizeIs f z) (sfsBlockio h g uio) (Piece uio 512) := by
  refine upholds_bind upholdsE_bmap fun r hr => ?_
  cases r with
  | error e => exact ⟨.stop _ _ _, .inl rfl⟩
  | ok b =>
    dsimp only
    split
    · refine upholds_bind upholds_assert fun _ hread => ?_
      rw [hrw] at hread
      cases hread
    · refine upholds_bind upholds_assert fun _ _ => ?_
      refine upholds_bind (upholds_rwblock hrw (Nat.le_refl 512)) fun r' hr' => ?_
      -- the offset that the device has seen, put back
      have hle := hr'.le
      have hmost := hr'.most
      refine ⟨⟨hr'.rw, ?_, ?_, fun hok => ?_⟩, .inr (hr b rfl)⟩
      · show uio.offset ≤ r'.2.offset - b.toNat * 512 + uio.offset
        omega
      · show r'.2.offset - b.toNat * 512 + uio.offset ≤ uio.offset + 512
        dsimp only [blockSize] at hle hmost
        omega
      · have := hr'.ok hok
        show r'.2.offset - b.toNat * 512 + uio.offset = uio.offset + 512
        dsimp only [blockSize] at this
        omega

/-! ## Requests -/

/-- What is known of a request that began at `uio`. -/
structure Reach (uio : Uio) (r : IoResult) : Prop where
  rw : r.2.rw = uio.rw
  le : uio.offset ≤ r.2.offset
  mapped : r.2.offset = uio.offset ∨ r.2.offset ≤ 73216

theorem Reach.none (uio : Uio) (r : Except Errno Unit) : Reach uio (r, uio) :=
  ⟨rfl, le_rfl, .inl rfl⟩

theorem Reach.trans {r r' : IoResult} (h1 : Reach uio r) (h2 : Reach r.2 r') : Reach uio r' where
  rw := h2.rw.trans h1.rw
  le := h1.le.trans h2.le
  mapped := by
    rcases h2.mapped with he | hle
    · rw [he]
      exact h1.mapped
    · exact .inr hle

theorem Piece.reach {r : IoResult} (hp : Piece uio n r) (hn : uio.offset % 512 + n ≤ 512) :
    Reach uio r := by
  have hmost := hp.most
  refine ⟨hp.rw, hp.le, ?_⟩
  rcases hp.mapped with he | hlt
  · exact .inl he
  · exact .inr (by omega)

theorem upholds_onOk {p : SfsProg IoResult} {k : Uio → SfsProg IoResult} {R : IoResult → Prop}
    (hp : Upholds I p R) (hok : ∀ r, R r → r.1 = .ok () → Upholds I (k r.2) Q)
    (herr : ∀ r, R r → r.1 ≠ .ok () → Q r) : Upholds I (onOk p k) Q := by
  refine upholds_bind hp fun r hr => ?_
  obtain ⟨e | _, u⟩ := r
  · exact herr _ hr (by simp)
  · exact hok _ hr rfl

include hrw in
theorem upholds_ioBlocks (ha : uio.offset % 512 = 0) : Upholds (SizeIs f z) (ioBlocks h g n uio)
      fun r => Reach uio r ∧ (r.1 = .ok () → r.2.offset % 512 = 0) := by
  induction n generalizing uio with
  | zero => exact upholds_pure ⟨.none _ _, fun _ => ha⟩
  | succ n ih =>
    refine upholds_onOk (upholds_blockio hrw) (fun r hp hok => ?_) fun r hp hne => ?_
    · have hoff : r.2.offset = uio.offset + 512 := hp.ok hok
      have hreach : Reach uio r := hp.reach (by omega)
      exact (ih (hp.rw.trans hrw) (by omega)).mono fun r' hr' => ⟨hreach.trans hr'.1, hr'.2⟩
    · exact ⟨hp.reach (by omega), fun hok => absurd hok hne⟩

include hrw in
theorem upholds_ioHead : Upholds (SizeIs f z) (ioHead h g uio) (Reach uio) := by
  unfold ioHead
  dsimp only
  split
  · exact upholds_pure (.none _ _)
  · exact (upholds_partialio hrw (Nat.min_le_right _ _)).mono fun r hr => hr.1.reach hr.2

include hrw in
theorem upholds_ioTail (ha : uio.offset % 512 = 0) :
    Upholds (SizeIs f z) (ioTail h g uio) (Reach uio) := by
  refine upholds_bind upholds_assert fun _ _ => ?_
  split
  · exact upholds_pure (.none _ _)
  · exact (upholds_partialio hrw le_rfl).mono fun r hr => hr.1.reach (by rw [ha]; exact hr.2)

include hrw in
/-- The whole blocks and the end of a request. -/
theorem upholds_ioRest (ha : uio.offset % 512 = 0) :
    Upholds (SizeIs f z) (onOk (ioBlocks h g n uio) (ioTail h g)) (Reach uio) := by
  refine upholds_onOk (upholds_ioBlocks hrw ha) (fun r hr hok => ?_) fun r hr _ => hr.1
  exact (upholds_ioTail (hr.1.rw.trans hrw) (hr.2 hok)).mono fun r' hr' => hr.1.trans hr'

include hrw in
/-- What comes after the leading piece. -/
theorem upholds_ioAfter : Upholds (SizeIs f z) (if uio.resid = 0 then pure (.ok (), uio) else do
      Prog.assert (uio.offset % blockSize = 0) .ioUnaligned
      onOk (ioBlocks h g (uio.resid / blockSize) uio) (ioTail h g)) (Reach uio) := by
  split
  · exact upholds_pure (.none _ _)
  · exact upholds_bind upholds_assert fun _ ha => upholds_ioRest hrw ha

include hrw in
theorem upholds_ioPieces : Upholds (SizeIs f z) (ioPieces h g uio) (Reach uio) :=
  upholds_onOk (upholds_ioHead hrw)
    (fun _ hr _ => (upholds_ioAfter (hr.rw.trans hrw)).mono fun _ hr' => hr.trans hr')
    fun _ hr _ => hr

/-! ## Whether anything is moved

That is settled with the first piece: it moves its bytes if `sfs_bmap` finds or
makes the block, if the rest of a block that is not written whole can be loaded,
and if the caller's bytes can be copied. -/

/-- The first piece of the request gets at its block and at the caller's bytes. -/
def Begins (h : Faulty) (f : UInt32) (uio : Uio) (s : SfsMachine) : Prop :=
  ∃ b s1, (sfsBmap f (uio.offset / 512) true).run.run s = (.done (.ok b), s1) ∧
    if uio.offset % 512 = 0 ∧ 512 ≤ uio.resid then
      h { uio with offset := b.toNat * 512, resid := 512 } 512 = false
    else (∃ s2, (partialioLoad b .UIO_WRITE).run.run s1 = (.done (.ok ()), s2)) ∧
      h uio (min (512 - uio.offset % 512) uio.resid) = false

theorem begins_whole (hc : uio.offset % 512 = 0 ∧ 512 ≤ uio.resid) : Begins h f uio s ↔
    ∃ b s1, (sfsBmap f (uio.offset / 512) true).run.run s = (.done (.ok b), s1) ∧
      h { uio with offset := b.toNat * 512, resid := 512 } 512 = false := by
  simp only [Begins, if_pos hc]

theorem begins_part (hc : ¬ (uio.offset % 512 = 0 ∧ 512 ≤ uio.resid)) : Begins h f uio s ↔
    ∃ b s1, (sfsBmap f (uio.offset / 512) true).run.run s = (.done (.ok b), s1) ∧
      (∃ s2, (partialioLoad b .UIO_WRITE).run.run s1 = (.done (.ok ()), s2)) ∧
      h uio (min (512 - uio.offset % 512) uio.resid) = false := by
  simp only [Begins, if_neg hc]

/-- Bytes have been moved exactly if `B`, and if all is well. -/
def Moves (uio : Uio) (B : Prop) (r : IoResult) : Prop :=
  (uio.offset < r.2.offset ↔ B) ∧ (r.1 = .ok () → B)

theorem Moves.not {B : Prop} (hB : ¬ B) (e : Errno) : Moves uio B (.error e, uio) :=
  ⟨iff_of_false (Nat.lt_irrefl _) hB, nofun⟩

theorem Moves.moved {B : Prop} (hB : B) {r : IoResult} (hlt : uio.offset < r.2.offset) :
    Moves uio B r :=
  ⟨iff_of_true hlt hB, fun _ => hB⟩

theorem uiomove_first (hn : 0 < n) (hres : n ≤ uio.resid) (hiov : n ≤ uio.iovLen) :
    uiomove h uio ptr n = if h uio n then some (.error .EFAULT, uio, [])
      else some (.ok (), uio.move ptr n) := by
  obtain ⟨m, rfl⟩ : ∃ m, n = m + 1 := ⟨n - 1, by omega⟩
  have hdone : ∀ u p, uiomove.loop h m u p 0 = some (.ok (), u, []) := by
    intro u p
    cases m with
    | zero => rfl
    | succ m => rw [uiomove.loop, if_pos (.inl rfl)]
  rw [uiomove, uiomove.loop, if_neg (by omega), Nat.min_eq_right hiov]
  dsimp only
  rw [if_neg (Nat.succ_ne_zero m), Nat.sub_self, hdone]
  simp

variable {p : SfsProg IoResult} {k : Uio → SfsProg IoResult} {B : Prop} {R : IoResult}

theorem of_run_assert {P : Prop} [Decidable P] {X : Type} {e : Panic} {k : Unit → SfsProg X} {y : X}
    (hrun : (Prog.assert P e >>= k).run s = (.done y, s')) : (k ()).run s = (.done y, s') := by
  by_cases hP : P
  · have hassert : (Prog.assert P e : SfsProg Unit) = pure () := if_pos hP
    rwa [hassert] at hrun
  · have hassert : (Prog.assert P e : SfsProg Unit) = Prog.panic e := if_neg hP
    rw [hassert] at hrun
    cases hrun

/-- What a routine with an error code has come to, piece by piece. -/
theorem of_runE_bind {X Y : Type} {q : SfsM X} {k : X → SfsM Y} {y : Except Errno Y}
    (hrun : (q >>= k).run.run s = (.done y, s')) :
    (∃ e, q.run.run s = (.done (.error e), s') ∧ y = .error e) ∨
      ∃ x s1, q.run.run s = (.done (.ok x), s1) ∧ (k x).run.run s1 = (.done y, s') := by
  have hrun' : (q.run >>= ExceptT.bindCont k).run s = (.done y, s') := hrun
  obtain ⟨x | x, s1, hq, hk⟩ := Prog.of_run_bind hrun'
  · cases hk
    exact .inl ⟨x, hq, rfl⟩
  · exact .inr ⟨x, s1, hq, hk⟩

include hrw in
theorem partialioMove_moves {b : UInt32} (hn : 0 < len) (hlen : len ≤ uio.resid)
    (hiov : len ≤ uio.iovLen)
    (hrun : (partialioMove h b uio skipstart len).run s = (.done R, s')) :
    Moves uio (h uio len = false) R := by
  obtain ⟨m, s1, hm, hrest⟩ := Prog.of_run_bind hrun
  rw [uiomove_first hn hlen hiov] at hrest
  cases hf : h uio len with
  | true =>
    rw [hf, if_pos rfl] at hrest
    cases hrest
    exact .not (by decide) _
  | false =>
    rw [hf, if_neg (by decide)] at hrest
    dsimp only at hrest
    rw [hrw] at hrest
    obtain ⟨_, s2, -, hput⟩ := Prog.of_run_bind hrest
    obtain ⟨r, s3, -, hw⟩ := Prog.of_run_bind hput
    cases hw
    refine .moved rfl ?_
    show uio.offset < (uio.move _ len).1.offset
    rw [(move_fields ..).2.1]
    omega

include hrw in
theorem partialio_moves (hn : 0 < len) (hlen : len ≤ uio.resid) (hiov : len ≤ uio.iovLen)
    (hrun : (sfsPartialio h g uio skipstart len).run s = (.done R, s')) :
    Moves uio (∃ b s1, (sfsBmap g (uio.offset / 512) true).run.run s = (.done (.ok b), s1) ∧
      (∃ s2, (partialioLoad b .UIO_WRITE).run.run s1 = (.done (.ok ()), s2)) ∧
      h uio len = false) R := by
  obtain ⟨x, s2, hx, hrest⟩ := Prog.of_run_bind (of_run_assert hrun)
  rw [hrw] at hx
  rcases of_runE_bind hx with ⟨e, hb, rfl⟩ | ⟨b, s1, hb, hx⟩
  · cases hrest
    refine .not ?_ e
    rintro ⟨b, s1, hb', -⟩
    cases hb.symm.trans hb'
  rcases of_runE_bind hx with ⟨e, hload, rfl⟩ | ⟨_, s3, hload, hx⟩
  · cases hrest
    refine .not ?_ e
    rintro ⟨b', s1', hb', ⟨s2', hload'⟩, -⟩
    cases hb.symm.trans hb'
    cases hload.symm.trans hload'
  · cases hx
    obtain ⟨hiff, hok⟩ := partialioMove_moves hrw hn hlen hiov hrest
    have hB : (∃ b s1, (sfsBmap g (uio.offset / 512) true).run.run s = (.done (.ok b), s1) ∧
        (∃ s2, (partialioLoad b .UIO_WRITE).run.run s1 = (.done (.ok ()), s2)) ∧
        h uio len = false) ↔ h uio len = false :=
      ⟨fun ⟨_, _, _, _, hf⟩ => hf, fun hf => ⟨b, s1, hb, ⟨_, hload⟩, hf⟩⟩
    exact ⟨hiff.trans hB.symm, fun hr => hB.2 (hok hr)⟩

include hrw in
theorem rwblock_moves (hres : 512 ≤ uio.resid) (hiov : 512 ≤ uio.iovLen)
    (hrun : (rwblock h uio).run s = (.done R, s')) : Moves uio (h uio 512 = false) R := by
  obtain ⟨m, s1, -, hmove⟩ := Prog.of_run_bind hrun
  rw [hrw] at hmove
  dsimp only at hmove
  rw [uiomove_first (by decide) hres hiov] at hmove
  cases hf : h uio 512 with
  | true =>
    rw [hf, if_pos rfl] at hmove
    cases hmove
    exact .not (by decide) _
  | false =>
    rw [hf, if_neg (by decide)] at hmove
    obtain ⟨w, s2, -, hw⟩ := Prog.of_run_bind hmove
    cases hw
    refine .moved rfl ?_
    show uio.offset < (uio.move _ 512).1.offset
    rw [(move_fields ..).2.1]
    omega

include hrw in
theorem blockio_moves (hiov : 512 ≤ uio.iovLen)
    (hrun : (sfsBlockio h g uio).run s = (.done R, s')) :
    Moves uio (∃ b s1, (sfsBmap g (uio.offset / 512) true).run.run s = (.done (.ok b), s1) ∧
      h { uio with offset := b.toNat * 512, resid := 512 } 512 = false) R := by
  obtain ⟨x, s1, hb, hrest⟩ := Prog.of_run_bind hrun
  rw [hrw] at hb
  cases x with
  | error e =>
    cases hrest
    refine .not ?_ e
    rintro ⟨b, s1', hb', -⟩
    cases hb.symm.trans hb'
  | ok b =>
    dsimp only at hrest
    split at hrest
    · obtain ⟨_, _, hassert, -⟩ := Prog.of_run_bind hrest
      rw [hrw] at hassert
      cases hassert
    obtain ⟨r, s3, hblock, hend⟩ := Prog.of_run_bind (of_run_assert hrest)
    cases hend
    obtain ⟨hiff, hok⟩ := @rwblock_moves h s1 s'
      { uio with offset := b.toNat * 512, resid := 512 } hrw r (Nat.le_refl 512) hiov hblock
    have hB : (∃ b s1, (sfsBmap g (uio.offset / 512) true).run.run s = (.done (.ok b), s1) ∧
        h { uio with offset := b.toNat * 512, resid := 512 } 512 = false) ↔
        h { uio with offset := b.toNat * 512, resid := 512 } 512 = false := by
      refine ⟨?_, fun hf => ⟨b, s1, hb, hf⟩⟩
      rintro ⟨b', s1', hb', hf⟩
      cases hb.symm.trans hb'
      exact hf
    refine ⟨Iff.trans ?_ (hiff.trans hB.symm), fun hr => hB.2 (hok hr)⟩
    show uio.offset < r.2.offset - b.toNat * 512 + uio.offset ↔ b.toNat * 512 < r.2.offset
    omega

/-- The pieces that follow move nothing back. -/
theorem onOk_moves (hp : ∀ {r1 s1}, p.run s = (.done r1, s1) → Moves uio B r1)
    (hk : ∀ {r1 s1 r' s'}, p.run s = (.done r1, s1) → r1.1 = .ok () →
      (k r1.2).run s1 = (.done r', s') → r1.2.offset ≤ r'.2.offset)
    (hrun : (onOk p k).run s = (.done R, s')) : Moves uio B R := by
  obtain ⟨⟨e | _, u⟩, s1, hp1, hrest⟩ := Prog.of_run_bind hrun
  · cases hrest
    exact hp hp1
  · have hm := hp hp1
    exact .moved (hm.2 rfl) (Nat.lt_of_lt_of_le (hm.1.2 (hm.2 rfl)) (hk hp1 rfl hrest))

include hrw in
theorem ioPieces_moves (hs : SizeIs f z s.mem) (hiov : uio.resid ≤ uio.iovLen)
    (hpos : 0 < uio.resid) (hrun : (ioPieces h g uio).run s = (.done R, s')) :
    Moves uio (Begins h g uio s) R := by
  have hback : ∀ {q : SfsProg IoResult} {Q : IoResult → Prop} {r1 s1},
      Upholds (SizeIs f z) q Q → q.run s = (.done r1, s1) → Q r1 ∧ SizeIs f z s1.mem :=
    fun hq hr => hq.run hs hr
  by_cases hb : uio.offset % 512 = 0
  · -- at a block boundary
    have hhead : ioHead h g uio = pure (.ok (), uio) := if_pos hb
    rw [ioPieces, hhead] at hrun
    have hrun : (if uio.resid = 0 then pure (.ok (), uio) else do
      Prog.assert (uio.offset % blockSize = 0) .ioUnaligned
      onOk (ioBlocks h g (uio.resid / blockSize) uio) (ioTail h g) :
        SfsProg IoResult).run s = (.done R, s') := hrun
    rw [if_neg (by omega)] at hrun
    have hrun := of_run_assert hrun
    rw [blockSize] at hrun
    rcases Nat.lt_or_ge uio.resid 512 with hlt | hge
    · -- nothing but a partial block
      rw [Nat.div_eq_of_lt hlt] at hrun
      have hrun : (ioTail h g uio).run s = (.done R, s') := hrun
      have hrun := of_run_assert hrun
      rw [if_neg (by omega)] at hrun
      rw [begins_part (by omega), hb, Nat.sub_zero, Nat.min_eq_right (by omega)]
      exact partialio_moves hrw hpos le_rfl hiov hrun
    · obtain ⟨i, hi⟩ : ∃ i, uio.resid / 512 = i + 1 := ⟨uio.resid / 512 - 1, by omega⟩
      rw [hi] at hrun
      refine onOk_moves (fun hr => onOk_moves (fun hr1 => ?_) (fun hr1 hok hr2 => ?_) hr)
        (fun hr1 hok hr2 => ?_) hrun
      · rw [begins_whole ⟨hb, hge⟩]
        exact blockio_moves hrw (hge.trans hiov) hr1
      · obtain ⟨hp, hs1⟩ := hback (upholds_blockio (f := f) hrw) hr1
        have hoff := hp.ok hok
        exact ((upholds_ioBlocks (hp.rw.trans hrw) (by omega)).run hs1 hr2).1.1.le
      · obtain ⟨hr, hs1⟩ := hback (upholds_ioBlocks (n := i + 1) (f := f) hrw hb) hr1
        exact ((upholds_ioTail (hr.1.rw.trans hrw) (hr.2 hok)).run hs1 hr2).1.le
  · -- the leading piece
    have hhead : ioHead h g uio = sfsPartialio h g uio (uio.offset % 512)
      (min (512 - uio.offset % 512) uio.resid) := if_neg hb
    refine onOk_moves (fun hr1 => ?_) (fun hr1 hok hr2 => ?_) hrun
    · rw [hhead] at hr1
      rw [begins_part fun hc => hb hc.1]
      exact partialio_moves hrw (by omega) (Nat.min_le_right _ _)
        ((Nat.min_le_right _ _).trans hiov) hr1
    · obtain ⟨hr, hs1⟩ := hback (upholds_ioHead (f := f) hrw) hr1
      exact ((upholds_ioAfter (hr.rw.trans hrw)).run hs1 hr2).1.le

include hrw in
theorem ioHead_idle (hz : uio.resid = 0) (hrun : (ioHead h g uio).run s = (.done R, s')) :
    R.2 = uio := by
  unfold ioHead at hrun
  dsimp only at hrun
  split at hrun
  · cases hrun
    rfl
  rw [hz, Nat.min_zero] at hrun
  obtain ⟨x, s1, -, hrun⟩ := Prog.of_run_bind (of_run_assert hrun)
  cases x with
  | error e =>
    cases hrun
    rfl
  | ok b =>
    obtain ⟨m, s2, -, hrun⟩ := Prog.of_run_bind hrun
    have hmove : ∀ ptr, uiomove h uio ptr 0 = some (.ok (), uio, []) := fun _ => rfl
    rw [hmove] at hrun
    dsimp only at hrun
    rw [hrw] at hrun
    obtain ⟨_, s3, -, hrun⟩ := Prog.of_run_bind hrun
    obtain ⟨w, s4, -, hrun⟩ := Prog.of_run_bind hrun
    cases hrun
    rfl

include hrw in
/-- A request for no bytes moves none. -/
theorem ioPieces_idle (hz : uio.resid = 0) (hrun : (ioPieces h g uio).run s = (.done R, s')) :
    R.2 = uio := by
  obtain ⟨r, s1, hhead, hrest⟩ := Prog.of_run_bind hrun
  have hr := ioHead_idle hrw hz hhead
  obtain ⟨_ | _, u⟩ := r
  · cases hrest
    exact hr
  · obtain rfl : u = uio := hr
    dsimp only at hrest
    rw [if_pos hz] at hrest
    cases hrest
    rfl

/-! ## The size at the end -/

theorem run_vnode (hl : s.mem.sfsVnodes.get? f = some sv) : (vnode f).run s = (.done sv, s) := by
  have hmem : (Prog.mem : SfsProg SfsFs).run s = (.done s.mem, s) := rfl
  rw [vnode, Prog.bind_eq, Prog.run_bind_done hmem, hl]
  rfl

/-- Whatever became of a write, the size is computed from where it left the
uio. -/
theorem write_end {off : Nat} {data : List UInt8} {r : IoResult}
    (hl : s.mem.sfsVnodes.get? f = some sv) (hrun : (sfsWrite h f off data).run s = (.done r, s')) :
    Reach (mkKuio data data.length off .UIO_WRITE) r ∧
      SizeIs f (Job.grownSize sv.svI.sfiSize r.2.offset) s'.mem ∧
      (off < r.2.offset ↔
        data ≠ [] ∧ Begins h f (mkKuio data data.length off .UIO_WRITE) s) := by
  have hrun' : (ioWrite h f (mkKuio data data.length off .UIO_WRITE)).run s =
      (.done r, s') := hrun
  obtain ⟨r1, s1, hpieces, hrest⟩ := Prog.of_run_bind hrun'
  obtain ⟨hreach, sv1, hl1, hsize⟩ := (upholds_ioPieces (f := f) rfl).run ⟨sv, hl, rfl⟩ hpieces
  have hmoves : off < r1.2.offset ↔
      data ≠ [] ∧ Begins h f (mkKuio data data.length off .UIO_WRITE) s := by
    by_cases hd : data = []
    · subst hd
      rw [ioPieces_idle rfl rfl hpieces]
      exact iff_of_false (Nat.lt_irrefl off) fun hc => hc.1 rfl
    · have hm := ioPieces_moves (f := f) rfl ⟨sv, hl, rfl⟩ le_rfl
        (List.length_pos_iff.2 hd) hpieces
      exact hm.1.trans (and_iff_right hd).symm
  obtain ⟨sv2, s2, hv, hlast⟩ := Prog.of_run_bind hrest
  rw [run_vnode hl1] at hv
  cases hv
  rw [Job.grownSize, ← hsize]
  split at hlast
  · next hlt =>
    cases hlast
    rw [if_pos hlt]
    exact ⟨hreach, ⟨_, VnodeArray.get?_update_self (fun _ => rfl) hl1, rfl⟩, hmoves⟩
  · next hlt =>
    cases hlast
    rw [if_neg hlt]
    exact ⟨hreach, ⟨sv1, hl1, rfl⟩, hmoves⟩

/-- The file has grown by the `n` bytes from `off` on, and not at all if there
are none. -/
def GrewBy (old new off n : Nat) : Prop := new = if 0 < n then max old (off + n) else old

/-- A size past `off_t` is negative to `sfs_io`, and is cut to where the write
ended. -/
theorem grownSize_large {z : UInt32} {q : Nat} (hz : 2147483648 ≤ z.toNat)
    (hq : q < 2147483648) : (Job.grownSize z q).toNat = q := by
  have hlt := z.toNat_lt
  have hcases := offT_cases z.toNat
  rw [Job.grownSize, Job.offT_small hq, if_pos (by omega), UInt32.toNat_ofNat']
  omega

end

/-! ## Nothing written, past the end of a file -/

/-- On a volume in order, a file of `size` bytes is loaded. -/
structure OneFile (s : SfsMachine) (f : UInt32) (sv : SfsVnode) (size : Nat) : Prop where
  sound : ∃ live leak, Sound live leak s.mem s.disk
  loaded : s.mem.sfsVnodes.get? f = some sv
  size : sv.svI.sfiSize.toNat = size

/-- How a write has ended and where it has got to, the size of the file 3, and one of
its bytes. -/
def outcome (p : Nat) (x : Outcome Panic IoResult × SfsMachine) :
    Option (Except Errno Unit × Nat × Option UInt32 × UInt8) :=
  match x.1 with
  | .done r => some (r.1, r.2.offset, (x.2.mem.sfsVnodes.get? 3).map fun sv => sv.svI.sfiSize,
      (view x.2.mem x.2.disk 3).byte p)
  | _ => none

theorem of_outcome {p q : Nat} {x : Outcome Panic IoResult × SfsMachine} {e : Except Errno Unit}
    {z : UInt32} {b : UInt8} (h : outcome p x = some (e, q, some z, b)) :
    ∃ r s' sv', x = (.done r, s') ∧ r.1 = e ∧ r.2.offset = q ∧
      s'.mem.sfsVnodes.get? 3 = some sv' ∧ sv'.svI.sfiSize = z ∧
      (view s'.mem s'.disk 3).byte p = b := by
  obtain ⟨o, s'⟩ := x
  cases o with
  | done r =>
    simp only [outcome, Option.some.injEq, Prod.mk.injEq, Option.map_eq_some_iff] at h
    obtain ⟨he, hq, ⟨sv', hl, hz⟩, hb⟩ := h
    exact ⟨r, s', sv', rfl, he, hq, hl, hz, hb⟩
  | crash _ => cases h

theorem oneFile_newFileVolume :
    OneFile newFileVolume 3 ⟨3, newFile, true, .fileops, 1, 0⟩ 0 :=
  ⟨⟨_, _, sound_newFileVolume.1⟩, (get?_newFileVolume 3).trans (if_pos rfl), rfl⟩

end Os161.Sfs.User
