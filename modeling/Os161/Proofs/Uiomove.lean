import Os161.Lib.Zoom
import Os161.Proofs.Copying

/-!
# What `uiomove` transfers

A caller may have a buffer that is longer than what it wants transferred, and says so with
a `uio_resid` below `iov_len`. `uiomove` looks at `uio_resid` to see whether to go on, but
not to see how far: a piece is as long as the shorter of the two buffers. If that is more
than `uio_resid`, the piece goes beyond it and the subtraction around zero, and with bytes
left to go the next piece is empty.

With `uio_resid` no larger than `iov_len` there is only one piece that counts, so the
theorem is about that one.
-/

namespace Os161.Kern.Copying

open Os161.Lib

variable {s s' : Space} {ptr n size : BitVec 32} {uio uio' : Uio} {t : Terms Panic}

/-- `m` bytes have been transferred between the buffer at `ptr` and the memory of the uio. -/
def Transferred (ptr : BitVec 32) (uio : Uio) (m : BitVec 32) (s s' : Space) : Prop :=
  match uio.uioSegflg, uio.uioRw with
  | .UIO_SYSSPACE, .UIO_READ =>
    s'.user = s.user ∧ s'.kernel = put s.kernel uio.iovBase (bytes s.kernel ptr m.toNat)
  | .UIO_SYSSPACE, .UIO_WRITE =>
    s'.user = s.user ∧ s'.kernel = put s.kernel ptr (bytes s.kernel uio.iovBase m.toNat)
  | _, .UIO_READ => MovedOut ptr uio.iovBase m s s'
  | _, .UIO_WRITE => MovedIn uio.iovBase ptr m s s'

/-- The uio has been moved on by `m`, nowhere around zero. -/
structure Advanced (uio : Uio) (m : BitVec 32) (uio' : Uio) : Prop where
  base : uio'.iovBase.toNat = uio.iovBase.toNat + m.toNat
  len : uio'.iovLen.toNat + m.toNat = uio.iovLen.toNat
  offset : uio'.uioOffset = uio.uioOffset + m
  resid : uio'.uioResid.toNat + m.toNat = uio.uioResid.toNat
  segflg : uio'.uioSegflg = uio.uioSegflg
  rw : uio'.uioRw = uio.uioRw
  space : uio'.uioSpace = uio.uioSpace

/-- What the uio and the count allow. -/
def allowed (n : BitVec 32) (uio : Uio) : BitVec 32 :=
  if n ≤ uio.uioResid then n else uio.uioResid

/-- `uiomove` transfers what is allowed, or fails and has changed nothing in the uio that
counts bytes. -/
structure Right (s : Space) (ptr n : BitVec 32) (uio : Uio) : Prop where
  success : ∀ uio' s', exec (uiomove ptr n uio) s = (.done (.ok (), uio'), s') →
    Transferred ptr uio (allowed n uio) s s' ∧ Advanced uio (allowed n uio) uio'
  failure : ∀ e uio' s', exec (uiomove ptr n uio) s = (.done (.error e, uio'), s') →
    uio'.uioOffset = uio.uioOffset ∧ uio'.uioResid = uio.uioResid ∧ uio'.iovLen = uio.iovLen
  size : (exec (uiomove ptr n uio) s).1 ≠ .crash .size

/-! ## One piece -/

/-- The length of a piece. -/
def pieceSize (n : BitVec 32) (uio : Uio) : BitVec 32 :=
  if n < uio.iovLen then n else uio.iovLen

theorem pieceSize_cases (n : BitVec 32) (uio : Uio) : (pieceSize n uio = n ∧ n < uio.iovLen) ∨
      (pieceSize n uio = uio.iovLen ∧ uio.iovLen ≤ n) := by
  unfold pieceSize
  split
  · next h => exact .inl ⟨rfl, h⟩
  · next h => exact .inr ⟨rfl, BitVec.not_lt.1 h⟩

/-- The copy of a piece goes through. -/
def Goes (s : Space) (uio : Uio) (size : BitVec 32) : Prop :=
  uio.uioSegflg = .UIO_SYSSPACE ∨
    (Below uio.iovBase size ∧ s.user.Mapped uio.iovBase.toNat size.toNat)

theorem awpE_goes {p : CopyM Unit} {u : BitVec 32} {I : Nat → Space → Prop} {M : Space → Prop}
    (hcopy : Below u size →
      awpE strict p (Copied I (s.user.Mapped u.toNat size.toNat) size.toNat) s)
    (hrefused : ∀ {Q : Except Errno Unit → Space → Prop}, ¬ Below u size → Q (.error .EFAULT) s →
      awpE strict p Q s) (hI : ∀ s', I size.toNat s' → M s') :
    awpE strict p (fun r s' =>
      (r = .ok () ∧ (Below u size ∧ s.user.Mapped u.toNat size.toNat) ∧ M s') ∨
        ((∃ e, r = .error e) ∧ ¬ (Below u size ∧ s.user.Mapped u.toNat size.toNat))) s := by
  by_cases hb : Below u size
  · refine awpE_mono (hcopy hb) fun r s' hr => ?_
    rcases hr with ⟨hok, hm, h⟩ | ⟨he, hm, -⟩
    · exact .inl ⟨hok, ⟨hb, hm⟩, hI s' h⟩
    · exact .inr ⟨⟨_, he⟩, fun h => hm h.2⟩
  · exact hrefused hb (.inr ⟨⟨_, rfl⟩, fun h => hb h.1⟩)

theorem awpE_piece (hpos : 0 < size.toNat) :
    awpE strict (uiomove.piece uio ptr size) (fun r s' =>
      (r = .ok () ∧ Goes s uio size ∧ Transferred ptr uio size s s') ∨
        ((∃ e, r = .error e) ∧ ¬ Goes s uio size)) s := by
  -- the two user segments are alike
  have huser : uio.uioSegflg ≠ .UIO_SYSSPACE →
      (Goes s uio size ↔ Below uio.iovBase size ∧ s.user.Mapped uio.iovBase.toNat size.toNat) :=
    or_iff_right
  unfold uiomove.piece Transferred
  cases hseg : uio.uioSegflg with
  | UIO_SYSSPACE =>
    cases uio.uioRw with
    | UIO_READ => exact awpE_call.2 ((awp_modify _).2 (.inl ⟨rfl, .inl hseg, rfl, rfl⟩))
    | UIO_WRITE => exact awpE_call.2 ((awp_modify _).2 (.inl ⟨rfl, .inl hseg, rfl, rfl⟩))
  | UIO_USERSPACE | UIO_USERISPACE =>
    rw [huser (by rw [hseg]; decide)]
    cases uio.uioRw with
    | UIO_READ =>
      exact awpE_goes (awpE_copyout hpos) (fun hb => awpE_copyout_refused (.inr hb))
        fun _ hI => ⟨hI.kernel, hI.copied⟩
    | UIO_WRITE =>
      exact awpE_goes (awpE_copyin hpos) (fun hb => awpE_copyin_refused (.inr hb))
        fun _ hI => ⟨hI.user, hI.copied⟩

/-! ## The loop -/

variable {Q : Except Errno Unit × Uio → Space → Prop}

variable {fuel : Nat}

theorem awp_loop_done (h : ¬ (0 < n ∧ 0 < uio.uioResid)) (hQ : Q (.ok (), uio) s) :
    awp t (uiomove.loop fuel ptr n uio) Q s := by
  cases fuel with
  | zero => exact hQ
  | succ fuel =>
    rw [uiomove.loop, if_neg h]
    exact hQ

/-- A round with something to transfer. -/
theorem awp_loop_round (hn : 0 < n) (hr : 0 < uio.uioResid) (hsize : pieceSize n uio ≠ 0)
    (hfails : ∀ e s', ¬ Goes s uio (pieceSize n uio) → Q (.error e, uio) s')
    (hgoes : ∀ s', Goes s uio (pieceSize n uio) → Transferred ptr uio (pieceSize n uio) s s' →
      awp t (uiomove.loop fuel (ptr + pieceSize n uio) (n - pieceSize n uio)
        (uio.advance (pieceSize n uio))) Q s') :
    awp t (uiomove.loop (fuel + 1) ptr n uio) Q s := by
  have hle : strict.Le t := ⟨fun _ hf => hf.elim, fun ha => ha.elim, fun _ => trivial⟩
  rw [uiomove.loop, if_pos ⟨hn, hr⟩]
  refine awp_bind.2 (awp_assert.2 ⟨fun _ => ?_, absurd hsize⟩)
  refine awp_bind_of (awp_terms hle (awpE_piece (by bv_omega))) fun r s' hr => ?_
  rcases hr with ⟨rfl, hg, ht⟩ | ⟨⟨e, rfl⟩, hg⟩
  · exact hgoes s' hg ht
  · exact hfails e s' hg

theorem awp_loop_empty (hn : 0 < n) (hr : 0 < uio.uioResid) (hlen : uio.iovLen = 0)
    (hf : t.fails .size) : awp t (uiomove.loop (fuel + 1) ptr n uio) Q s := by
  rw [uiomove.loop, if_pos ⟨hn, hr⟩, hlen]
  refine awp_bind.2 (awp_assert.2 ⟨fun hne => absurd ?_ hne, fun _ => hf⟩)
  exact if_neg (by bv_omega)

/-! ## The routine -/

/-- The assertions on `uio_space` hold. -/
def SpaceOk (s : Space) (uio : Uio) : Prop :=
  uio.uioSpace = if uio.uioSegflg = .UIO_SYSSPACE then none else s.tVmspace

/-- The first piece is longer than `uio_resid`, and is transferred. -/
def Overshoots (s : Space) (n : BitVec 32) (uio : Uio) : Prop :=
  SpaceOk s uio ∧ 0 < uio.uioResid ∧ uio.uioResid < n ∧ uio.uioResid < uio.iovLen ∧
    Goes s uio (pieceSize n uio)

/-- What `Right` asks for when `uiomove` returns. -/
def Finished (ptr n : BitVec 32) (uio : Uio) (s : Space) (r : Except Errno Unit × Uio)
    (s' : Space) : Prop :=
  (r.1 = .ok () ∧ Transferred ptr uio (allowed n uio) s s' ∧ Advanced uio (allowed n uio) r.2) ∨
    ((∃ e, r.1 = .error e) ∧ r.2 = uio)

theorem Right.of_awp (ht : ¬ t.fails .size)
    (h : awp t (uiomove ptr n uio) (Finished ptr n uio s) s) : Right s ptr n uio := by
  rcases exec_cases h with ⟨⟨r, uio'⟩, s', hrun, hr⟩ | ⟨f, s', hrun, hf⟩
  · constructor
    · intro uio'' s'' hrun'
      rw [hrun] at hrun'
      cases hrun'
      rcases hr with ⟨-, hr⟩ | ⟨⟨e, he⟩, -⟩
      · exact hr
      · cases he
    · intro e uio'' s'' hrun'
      rw [hrun] at hrun'
      cases hrun'
      rcases hr with ⟨hok, -⟩ | ⟨-, rfl⟩
      · cases hok
      · exact ⟨rfl, rfl, rfl⟩
    · rw [hrun]
      nofun
  · refine ⟨fun uio'' s'' hrun' => ?_, fun e uio'' s'' hrun' => ?_, ?_⟩
    · rw [hrun] at hrun'
      cases hrun'
    · rw [hrun] at hrun'
      cases hrun'
    · rw [hrun]
      intro hc
      cases hc
      exact ht hf

theorem awp_uiomove {Q : Except Errno Unit × Uio → Space → Prop}
    (hok : SpaceOk s uio → awp t (uiomove.loop n.toNat ptr n uio) Q s)
    (hf : ¬ SpaceOk s uio → t.fails .uioSpace) : awp t (uiomove ptr n uio) Q s :=
  awp_bind.2 (awp_mem.2 (awp_bind.2 (awp_assert.2 ⟨hok, hf⟩)))

theorem transferred_zero (ptr : BitVec 32) (uio : Uio) (s : Space) : Transferred ptr uio 0 s s := by
  have hbytes : ∀ k a, bytes k a (0 : BitVec 32).toNat = [] := fun _ _ => rfl
  have hout : MovedOut ptr uio.iovBase 0 s s := by
    refine ⟨rfl, ?_⟩
    rw [hbytes, ByteMap.write_nil]
  have hin : MovedIn uio.iovBase ptr 0 s s :=
    ⟨rfl, [], rfl, ByteMap.holds_nil, (put_nil _ _).symm⟩
  unfold Transferred
  cases uio.uioSegflg <;> cases uio.uioRw
  case UIO_SYSSPACE.UIO_READ => exact ⟨rfl, by rw [hbytes, put_nil]⟩
  case UIO_SYSSPACE.UIO_WRITE => exact ⟨rfl, by rw [hbytes, put_nil]⟩
  all_goals assumption

theorem advanced_zero (uio : Uio) : Advanced uio 0 uio :=
  ⟨rfl, rfl, (BitVec.add_zero _).symm, rfl, rfl, rfl, rfl⟩

theorem Advanced.advance (hb : uio.iovBase.toNat + size.toNat < 4294967296)
    (hl : size ≤ uio.iovLen) (hr : size ≤ uio.uioResid) : Advanced uio size (uio.advance size) where
  base := by
    show (uio.iovBase + size).toNat = _
    bv_omega
  len := by
    show (uio.iovLen - size).toNat + _ = _
    bv_omega
  offset := rfl
  resid := by
    show (uio.uioResid - size).toNat + _ = _
    bv_omega
  segflg := rfl
  rw := rfl
  space := rfl

/-- A piece that goes through does not go around zero. -/
theorem Goes.no_wrap (h : Goes s uio size) (hpos : 0 < size.toNat) (hl : size ≤ uio.iovLen)
    (hbuf : uio.uioSegflg = .UIO_SYSSPACE → uio.iovBase.toNat + uio.iovLen.toNat < 4294967296) :
    uio.iovBase.toNat + size.toNat < 4294967296 := by
  rw [BitVec.le_def] at hl
  rcases h with hs | ⟨hb, -⟩
  · have := hbuf hs
    omega
  · rw [below_iff hpos] at hb
    omega

theorem right_of_not_overshoots (hres : uio.uioResid ≤ uio.iovLen)
    (hbuf : uio.uioSegflg = .UIO_SYSSPACE → uio.iovBase.toNat + uio.iovLen.toNat < 4294967296)
    (h : ¬ Overshoots s n uio) : Right s ptr n uio := by
  refine Right.of_awp (t := ⟨fun f => f = .uioSpace, False, True⟩) (by decide) ?_
  refine awp_uiomove (fun hspace => ?_) (fun _ => rfl)
  by_cases hidle : 0 < n ∧ 0 < uio.uioResid
  · obtain ⟨hn, hr⟩ := hidle
    have hwhich := pieceSize_cases n uio
    have hlen : pieceSize n uio ≤ uio.iovLen := by bv_omega
    have hne : pieceSize n uio ≠ 0 := by bv_omega
    rw [show n.toNat = n.toNat - 1 + 1 by bv_omega]
    refine awp_loop_round hn hr hne (fun e s' _ => .inr ⟨⟨e, rfl⟩, rfl⟩) (fun s' hg ht => ?_)
    -- the piece is not longer than what is left
    have hfits : pieceSize n uio ≤ uio.uioResid := by
      by_contra hlong
      exact h ⟨hspace, hr, by bv_omega, by bv_omega, hg⟩
    have hall : allowed n uio = pieceSize n uio := by
      unfold allowed
      split <;> bv_omega
    refine awp_loop_done ?_ (.inl ⟨rfl, ?_, ?_⟩)
    · show ¬ (0 < n - pieceSize n uio ∧ 0 < uio.uioResid - pieceSize n uio)
      bv_omega
    · rw [hall]
      exact ht
    · rw [hall]
      exact Advanced.advance (hg.no_wrap (by bv_omega) hlen hbuf) hlen hfits
  · have hall : allowed n uio = 0 := by
      unfold allowed
      split <;> bv_omega
    refine awp_loop_done hidle (.inl ⟨rfl, ?_, ?_⟩)
    · rw [hall]
      exact transferred_zero ptr uio s
    · rw [hall]
      exact advanced_zero uio

/-- A piece that is too long: `uio_resid` has gone around zero, or an empty piece follows. -/
theorem not_right_of_overshoots (h : Overshoots s n uio) : ¬ Right s ptr n uio := by
  obtain ⟨hspace, hr, hn, hlen, hg⟩ := h
  have hwhich := pieceSize_cases n uio
  have hlong : uio.uioResid < pieceSize n uio := by bv_omega
  have hrun : awp ⟨fun f => f = .size, False, True⟩ (uiomove ptr n uio)
      (fun r _ => r.1 = .ok () ∧ r.2.uioResid = uio.uioResid - pieceSize n uio) s := by
    refine awp_uiomove (fun _ => ?_) (absurd hspace)
    rw [show n.toNat = n.toNat - 2 + 1 + 1 by bv_omega]
    refine awp_loop_round (by bv_omega) hr (by bv_omega) (fun e s' hno => absurd hg hno) ?_
    intro s' _ _
    by_cases hmore : n - pieceSize n uio = 0
    · refine awp_loop_done (fun hno => ?_) ⟨rfl, rfl⟩
      rw [hmore] at hno
      exact absurd hno.1 (by decide)
    · refine awp_loop_empty (by bv_omega) ?_ ?_ rfl
      · show 0 < uio.uioResid - pieceSize n uio
        bv_omega
      · show uio.iovLen - pieceSize n uio = 0
        bv_omega
  intro hright
  rcases exec_cases hrun with ⟨⟨r, uio'⟩, s', hex, rfl, hres⟩ | ⟨f, s', hex, hf⟩
  · have hadv := (hright.success uio' s' hex).2.resid
    have hall : allowed n uio = uio.uioResid := by
      unfold allowed
      split <;> bv_omega
    dsimp only at hres
    rw [hall, hres] at hadv
    bv_omega
  · refine hright.size ?_
    rw [hex]
    exact congrArg _ hf

/-- With `uio_resid` no larger than the buffer, `uiomove` transfers what it should unless it
transfers a first piece that is longer than `uio_resid`. -/
theorem uiomove_right_iff {s : Space} {ptr n : BitVec 32} {uio : Uio}
    (hres : uio.uioResid ≤ uio.iovLen)
    (hbuf : uio.uioSegflg = .UIO_SYSSPACE →
      uio.iovBase.toNat + uio.iovLen.toNat < 4294967296) :
    Right s ptr n uio ↔ ¬ Overshoots s n uio :=
  ⟨fun hright h => not_right_of_overshoots h hright, right_of_not_overshoots hres hbuf⟩

/-- A buffer of eight bytes in the kernel, of which `resid` are to be filled. -/
def kernelUio (resid : BitVec 32) : Uio :=
  ⟨0x80002000, 8, 0, resid, .UIO_SYSSPACE, .UIO_READ, none⟩

/-- Four bytes into a buffer of eight that is to be filled. -/
theorem uiomove_right_four : Right onePage 0x80001000 4 (kernelUio 8) :=
  (uiomove_right_iff (by decide) (by decide)).2 fun h => absurd h.2.2.1 (by decide)

/-- Eight bytes where four are wanted: all of them are stored, and `uio_resid` is not zero;
with sixteen there is a panic. -/
theorem uiomove_overshoots :
    (∃ uio' s', exec (uiomove 0x80001000 8 (kernelUio 4)) onePage = (.done (.ok (), uio'), s') ∧
      uio'.uioResid = 0xfffffffc ∧ uio'.uioOffset = 8) ∧
    (exec (uiomove 0x80001000 16 (kernelUio 4)) onePage).1 = .crash .size ∧
    ¬ Right onePage 0x80001000 8 (kernelUio 4) ∧ ¬ Right onePage 0x80001000 16 (kernelUio 4) := by
  have hspace : SpaceOk onePage (kernelUio 4) := rfl
  refine ⟨⟨_, _, rfl, rfl, rfl⟩, rfl, ?_, ?_⟩
  · exact not_right_of_overshoots ⟨hspace, by decide, by decide, by decide, .inl rfl⟩
  · exact not_right_of_overshoots ⟨hspace, by decide, by decide, by decide, .inl rfl⟩

end Os161.Kern.Copying
