import Os161.Proofs.FileIo

/-!
# Splitting a request

A request and the same request cut into smaller ones leave the same disk, the
same free map and the same inode behind. The runs are compared up to the three
static buffers, which nobody reads before having filled them, and, while a
request is under way, up to the size of the file, which nobody reads before the
end (`Near`).

Both sides are brought to a common form: one byte at a time, through
`sfs_partialio`. Two partial transfers to the same block do what one does
(`partialio_join`): the second finds the block mapped, reads back what the first
one wrote, and overwrites it. A whole block written through `sfs_blockio` is a
partial one that happens to fill the block (`blockio_partialio`).
-/

namespace Os161.Sfs

open Function

open Os161.Kern Os161.Lib

/-! ## Machines that differ in nothing that matters -/

/-- A change to a vnode that mapping and moving do not see. -/
structure Sizing (u : SfsVnode → SfsVnode) : Prop where
  ino : ∀ sv, (u sv).svIno = sv.svIno
  direct : ∀ sv, (u sv).svI.sfiDirect = sv.svI.sfiDirect
  indirect : ∀ sv, (u sv).svI.sfiIndirect = sv.svI.sfiIndirect
  setDirect : ∀ k b sv, u (SfsVnode.withInode (SfsInode.setDirect k b) sv) =
    SfsVnode.withInode (SfsInode.setDirect k b) (u sv)
  setIndirect : ∀ b sv, u (SfsVnode.withInode (SfsInode.setIndirect b) sv) =
    SfsVnode.withInode (SfsInode.setIndirect b) (u sv)

theorem Sizing.id : Sizing fun sv => sv :=
  ⟨fun _ => rfl, fun _ => rfl, fun _ => rfl, fun _ _ _ => rfl, fun _ _ => rfl⟩

/-- Nothing fails on either machine, and the second is the first with `u`
applied to the vnode of `f`, up to the static buffers. -/
structure Near (f : UInt32) (u : SfsVnode → SfsVnode) (s t : SfsMachine) : Prop where
  mem : BufOnly (s.mem.withVnode f u) t.mem
  disk : t.disk = s.disk
  good : s.script = Script.good
  good' : t.script = Script.good

section
variable {f : UInt32} {u : SfsVnode → SfsVnode} {s t : SfsMachine}

section
variable (h : Near f u s t)
include h

theorem Near.dBlocks : t.mem.dBlocks = s.mem.dBlocks := h.mem.dBlocks

theorem Near.freemap : t.mem.sfsFreemap = s.mem.sfsFreemap := h.mem.freemap

theorem Near.super : t.mem.sfsSuper = s.mem.sfsSuper := h.mem.super

theorem Near.get? (hu : Sizing u) : t.mem.sfsVnodes.get? f = (s.mem.sfsVnodes.get? f).map u := by
  have hv : t.mem.sfsVnodes = s.mem.sfsVnodes.update f u := h.mem.vnodes
  rw [hv, VnodeArray.get?_update hu.ino, if_pos rfl]

/-- Both machines store the same block. -/
theorem Near.store (a : UInt32) (x : Block) : Near f u (s.store a x) (t.store a x) :=
  ⟨h.mem, by rw [Machine.store, Machine.store, h.disk], h.good, h.good'⟩

/-- Buffers change on both machines. -/
theorem Near.bufs {m m' : SfsFs} (hm : BufOnly s.mem m)
    (hm' : BufOnly t.mem m') : Near f u { s with mem := m } { t with mem := m' } := by
  have hw : BufOnly (m.withVnode f u) (s.mem.withVnode f u) :=
    ⟨hm.super.symm, hm.superdirty.symm,
      congrArg (fun a : VnodeArray => a.update f u) hm.vnodes.symm, hm.freemap.symm,
      hm.freemapdirty.symm, hm.dBlocks.symm⟩
  exact ⟨(hw.trans h.mem).trans hm', h.disk, h.good, h.good'⟩

/-! ## Routines that keep two machines near -/

theorem near_rblock (n b : UInt32) :
    relE (sfsRblock n b : SfsM Block) (sfsRblock n b) (fun _ s' t' => s' = s ∧ t' = t) s t := by
  rw [sfsRblock]
  split
  · exact relE_panic
  · show rel (Prog.read _ >>= _) (Prog.read _ >>= _) _ s t
    refine rel_left (run_read_good h.good _) (rel_right (run_read_good h.good' _) ?_)
    rw [h.disk]
    exact ⟨rfl, rfl, rfl⟩

theorem near_wblock {src src' : SfsFs → Block} {n n' : UInt32}
    (hn : n' = n) (b : UInt32) (hx : src' t.mem = src s.mem) :
    relE (sfsWblock n b src : SfsM Unit) (sfsWblock n' b src')
      (fun _ s' t' => Near f u s' t' ∧ s'.mem = s.mem ∧ t'.mem = t.mem) s t := by
  rw [hn, sfsWblock, sfsWblock]
  split
  · exact relE_panic
  · show rel (Prog.write _ _ >>= _) (Prog.write _ _ >>= _) _ s t
    refine rel_left (run_write_good h.good _ _) (rel_right (run_write_good h.good' _ _) ?_)
    rw [hx]
    exact ⟨rfl, h.store _ _, rfl, rfl⟩

theorem near_clearblock (b : UInt32) : relE (sfsClearblock b) (sfsClearblock b)
      (fun _ s' t' => Near f u s' t' ∧ s'.mem = s.mem ∧ t'.mem = t.mem) s t := by
  rw [sfsClearblock]
  exact relE_mem_bind (near_wblock h h.dBlocks b rfl)

theorem near_balloc :
    relE sfsBalloc sfsBalloc (fun _ s' t' => Near f u s' t' ∧ s'.mem.idbuf = s.mem.idbuf ∧
      t'.mem.idbuf = t.mem.idbuf) s t := by
  rw [sfsBalloc]
  refine relE_mem_bind ?_
  rw [h.freemap]
  cases ha : s.mem.sfsFreemap.alloc with
  | none => exact relE_panic
  | some r =>
    cases r with
    | error e => exact relE_throw ⟨h, rfl, rfl⟩
    | ok r =>
      obtain ⟨index, freemap⟩ := r
      have h' : Near f u
          { s with mem := { s.mem with sfsFreemap := freemap, sfsFreemapdirty := true } }
          { t with mem := { t.mem with sfsFreemap := freemap, sfsFreemapdirty := true } } :=
        ⟨⟨h.mem.super, h.mem.superdirty, h.mem.vnodes, rfl, rfl, h.mem.dBlocks⟩, h.disk,
          h.good, h.good'⟩
      refine relE_put_bind ?_
      by_cases hb : s.mem.sfsSuper.spNblocks ≤ UInt32.ofNat index
      · rw [if_pos hb, if_pos (by rw [h.super]; exact hb)]
        exact relE_panic
      · rw [if_neg hb, if_neg (by rw [h.super]; exact hb)]
        refine relE_bind (near_clearblock h' _) (fun _ s' t' hc => ?_) fun _ s' t' hc => ?_
        · exact relE_pure ⟨hc.1, by rw [hc.2.1], by rw [hc.2.2]⟩
        · exact ⟨hc.1, by rw [hc.2.1], by rw [hc.2.2]⟩

theorem near_hand (b : UInt32) :
    relE (bmapHand b) (bmapHand b) (fun _ s' t' => s' = s ∧ t' = t) s t := by
  rw [bmapHand]
  split
  · exact relE_pure ⟨rfl, rfl⟩
  · refine relE_call_bind (Q := fun x s' y t' => y = x ∧ s' = s ∧ t' = t) ?_
      fun x s' y t' hr => ?_
    · rw [sfsBused]
      refine rel_mem_bind ?_
      rw [h.super, h.freemap]
      split
      · rfl
      · exact ⟨rfl, rfl, rfl⟩
    · obtain ⟨rfl, rfl, rfl⟩ := hr
      split
      · exact relE_pure ⟨rfl, rfl⟩
      · exact relE_panic

theorem near_vnode (hu : Sizing u) :
    rel (vnode f) (vnode f) (fun sv s' sv' t' => sv' = u sv ∧ s' = s ∧ t' = t) s t := by
  rw [vnode]
  refine rel_mem_bind ?_
  rw [h.get? hu]
  cases s.mem.sfsVnodes.get? f with
  | none => rfl
  | some sv => exact ⟨rfl, rfl, rfl⟩

theorem Near.setInode {g : SfsInode → SfsInode} (hu : Sizing u)
    (hg : ∀ sv, u (SfsVnode.withInode g sv) = SfsVnode.withInode g (u sv)) :
    Near f u { s with mem := s.mem.withVnode f (SfsVnode.withInode g) }
      { t with mem := t.mem.withVnode f (SfsVnode.withInode g) } := by
  have hv : t.mem.sfsVnodes = s.mem.sfsVnodes.update f u := h.mem.vnodes
  refine ⟨⟨h.mem.super, h.mem.superdirty, ?_, h.mem.freemap, h.mem.freemapdirty,
    h.mem.dBlocks⟩, h.disk, h.good, h.good'⟩
  show t.mem.sfsVnodes.update f _ = (s.mem.sfsVnodes.update f _).update f u
  have hi : ∀ sv, (SfsVnode.withInode g sv).svIno = sv.svIno := fun _ => rfl
  rw [hv, VnodeArray.update_update hu.ino, VnodeArray.update_update hi]
  exact congrArg _ (funext fun sv => (hg sv).symm)

/-- `bmapHand` changes nothing. -/
theorem near_handed (b : UInt32) :
    relE (bmapHand b) (bmapHand b) (fun _ s' t' => Near f u s' t') s t := by
  refine rel_mono (near_hand h b) fun _ _ _ _ ⟨he, hs, ht⟩ => ⟨he, ?_⟩
  rw [hs, ht]
  exact h

theorem near_bmapDirect (hu : Sizing u) (k : Fin 15) :
    relE (bmapDirect f k true) (bmapDirect f k true) (fun _ s' t' => Near f u s' t') s t := by
  rw [bmapDirect]
  refine relE_call_bind (near_vnode h hu) fun sv s' sv' t' hr => ?_
  obtain ⟨rfl, rfl, rfl⟩ := hr
  rw [hu.direct]
  show relE (if _ then _ else _) (if _ then _ else _) _ _ _
  split
  · refine relE_bind (near_balloc h) (fun b s' t' hn => ?_) fun _ _ _ hn => hn.1
    refine relE_modify_bind ?_
    exact near_handed (hn.1.setInode hu (g := SfsInode.setDirect k b) (hu.setDirect k b)) b
  · exact near_handed h _

/-- The indirect block ends up in both buffers. -/
theorem near_bmapLoad (hu : Sizing u) (b : UInt32) :
    relE (bmapLoad f b) (bmapLoad f b) (fun r s' t' => Near f u s' t' ∧
      ∀ x, r = .ok x → t'.mem.idbuf = s'.mem.idbuf) s t := by
  rw [bmapLoad]
  split
  · refine relE_bind (near_balloc h) (fun b s' t' hn => ?_)
      fun _ _ _ hn => ⟨hn.1, by rintro _ ⟨⟩⟩
    refine relE_modify_bind (relE_modify_bind (relE_pure ⟨?_, fun _ _ => rfl⟩))
    exact (hn.1.setInode hu (g := SfsInode.setIndirect b) (hu.setIndirect b)).bufs
      ⟨rfl, rfl, rfl, rfl, rfl, rfl⟩ ⟨rfl, rfl, rfl, rfl, rfl, rfl⟩
  · refine relE_mem_bind ?_
    rw [h.dBlocks]
    refine relE_bind (near_rblock h _ _) (fun x s' t' hn => ?_) fun _ s' t' hn => ?_
    · obtain ⟨rfl, rfl⟩ := hn
      refine relE_modify_bind (relE_pure ⟨?_, fun _ _ => rfl⟩)
      exact h.bufs ⟨rfl, rfl, rfl, rfl, rfl, rfl⟩ ⟨rfl, rfl, rfl, rfl, rfl, rfl⟩
    · obtain ⟨rfl, rfl⟩ := hn
      exact ⟨h, by rintro _ ⟨⟩⟩

theorem near_bmapEntry (hid : t.mem.idbuf = s.mem.idbuf) (b : UInt32) (j : Nat) :
    relE (bmapEntry b j true) (bmapEntry b j true) (fun _ s' t' => Near f u s' t') s t := by
  rw [bmapEntry]
  refine relE_mem_bind ?_
  rw [hid]
  show relE (if _ then _ else _) (if _ then _ else _) _ _ _
  split
  · refine relE_bind (near_balloc h) (fun x s' t' hn => ?_) fun _ _ _ hn => hn.1
    obtain ⟨hn, hi, hi'⟩ := hn
    refine relE_modify_bind ?_
    have hn' : Near f u { s' with mem := { s'.mem with idbuf := s'.mem.idbuf.setWord j x } }
        { t' with mem := { t'.mem with idbuf := t'.mem.idbuf.setWord j x } } :=
      hn.bufs ⟨rfl, rfl, rfl, rfl, rfl, rfl⟩ ⟨rfl, rfl, rfl, rfl, rfl, rfl⟩
    refine relE_bind (near_wblock hn' h.dBlocks _ ?_) (fun _ s2 t2 hn2 => near_handed hn2.1 x)
      fun _ _ _ hn2 => hn2.1
    show t'.mem.idbuf.setWord j x = s'.mem.idbuf.setWord j x
    rw [hi, hi', hid]
  · exact near_handed h _

theorem near_bmap (hu : Sizing u) (fb : Nat) :
    relE (sfsBmap f fb true) (sfsBmap f fb true) (fun _ s' t' => Near f u s' t') s t := by
  rw [sfsBmap]
  split
  · exact near_bmapDirect h hu _
  · rw [bmapIndirect]
    split
    · exact relE_throw h
    · refine relE_call_bind (near_vnode h hu) fun sv s' sv' t' hr => ?_
      obtain ⟨rfl, rfl, rfl⟩ := hr
      rw [hu.indirect]
      split
      · exact relE_pure h
      · exact relE_bind (near_bmapLoad h hu _)
          (fun x s' t' hn => near_bmapEntry hn.1 (hn.2 x rfl) _ _) fun _ _ _ hn => hn.1

end

end

/-! ## Machines on which nothing goes wrong -/

/-- A sound volume on a machine where nothing fails, with the vnode loaded. -/
structure Fine (f : UInt32) (s : SfsMachine) : Prop where
  sound : ∃ live leak, Sound live leak s.mem s.disk
  loaded : ∃ sv, s.mem.sfsVnodes.get? f = some sv
  good : s.script = Script.good

section
variable {f : UInt32} {s : SfsMachine} {X : Type}

theorem Fine.of_held {x : Faults} {live L : Set UInt32} {hf : f ∈ live} {w : SfsWorld Unit}
    {sv : SfsVnode} (h : (soloJob x f live hf).Held ∅ L w)
    (hl : w.mem.sfsVnodes.get? f = some sv) (hm : w.mem = s.mem) (hd : w.disk = s.disk)
    (hg : s.script = Script.good) : Fine f s :=
  ⟨⟨live, L, hm ▸ hd ▸ soloJob_held.1 h⟩, ⟨sv, hm ▸ hl⟩, hg⟩

/-- `sfs_bmap` for a writer; where there is a block, it finds it and changes
nothing. -/
theorem bmap_fine (h : Fine f s) (fb : Nat) :
    ∃ r s', (sfsBmap f fb true).run.run s = (.done r, s') ∧ Fine f s' ∧
      (∀ b, r = .ok b → (view s'.mem s'.disk f).ptr fb = b ∧ b ≠ 0) ∧
      ((view s.mem s.disk f).ptr fb ≠ 0 → r = .ok ((view s.mem s.disk f).ptr fb) ∧
        BufOnly s.mem s'.mem ∧ s'.disk = s.disk) := by
  obtain ⟨live, leak, hs⟩ := h.sound
  obtain ⟨sv, hl⟩ := h.loaded
  have hlive : f ∈ live := hs.table.live hl
  have hh : (soloJob noFaults f live hlive).Held ∅ leak (s.world ()) := soloJob_held.2 hs
  have hwp : wpE (soloCtx noFaults) (sfsBmap f fb true) (fun r w' =>
      (∃ sv', w'.mem.sfsVnodes.get? f = some sv') ∧
      (∃ L', (soloJob noFaults f live hlive).Held ∅ L' w') ∧
      (∀ b, r = .ok b → (view w'.mem w'.disk f).ptr fb = b ∧ b ≠ 0) ∧
      ((view s.mem s.disk f).ptr fb ≠ 0 → r = .ok ((view s.mem s.disk f).ptr fb) ∧
        BufOnly s.mem w'.mem ∧ w'.disk = s.disk)) (s.world ()) := by
    refine Job.bmap_write hh hl (fun {L' w'} t _ h0 hc => ?_) fun {e L' w'} t _ hp => ?_
    · obtain ⟨sv', hl', -⟩ := t.grows.vnode hl
      refine ⟨⟨sv', hl'⟩, ⟨L', t.held⟩, fun b hb => ?_, fun hn => ?_⟩
      · obtain rfl := Except.ok.inj hb
        exact ⟨rfl, h0⟩
      · have hp := hc hn
        have hcalm := hp.calm quiet_noFaults
        have hv := hp.view
        exact ⟨congrArg (fun v => Except.ok (v.ptr fb)) hv, hcalm.1, hcalm.2⟩
    · obtain ⟨sv', hl', -⟩ := t.grows.vnode hl
      exact ⟨⟨sv', hl'⟩, ⟨L', t.held⟩, fun _ hb => (by cases hb),
        fun hn => absurd (hp quiet_noFaults) hn⟩
  obtain ⟨r, s', hr, hg, ⟨sv', hl'⟩, ⟨L', hh'⟩, h1, h2⟩ := fine_run h.good hwp
  exact ⟨r, s', hr, .of_held hh' hl' rfl rfl hg, h1, h2⟩

end

/-! ## One partial transfer -/

/-- `sfs_partialio` once it knows the block. -/
def partialioRest (diskblock : UInt32) (uio : Uio) (skipstart len : Nat) :
    SfsProg IoResult := do
  let r ← (partialioLoad diskblock uio.rw).run
  match r with
  | .error e => pure (.error e, uio)
  | .ok () => partialioMove diskblock uio skipstart len

variable {skip n : Nat}

/-- `sfs_partialio` for a writer. -/
theorem partialio_eq {f : UInt32} {uio : Uio} (hrw : uio.rw = .UIO_WRITE) :
    sfsPartialio f uio skip n = (do
      Prog.assert (skip + n ≤ 512) .partialioRange
      let r ← (sfsBmap f (uio.offset / 512) true).run
      match r with
      | .error e => pure (.error e, uio)
      | .ok diskblock => partialioRest diskblock uio skip n) := by
  have hdo : (uio.rw == .UIO_WRITE) = true := by rw [hrw]; rfl
  rw [sfsPartialio, hdo]
  refine congrArg (Prog.bind _) (funext fun _ => ?_)
  show (Prog.bind (Prog.bind _ _) _) = Prog.bind _ _
  rw [Prog.bind_assoc]
  refine congrArg (Prog.bind _) (funext fun r => ?_)
  cases r with
  | error e => rfl
  | ok b =>
    show Prog.bind (Prog.bind _ _) _ = Prog.bind _ _
    rw [Prog.bind_assoc]
    refine congrArg (Prog.bind _) (funext fun r => ?_)
    cases r <;> rfl

/-- Both uios are about to deliver the same `n` bytes at the same place. -/
structure Twin (n : Nat) (v v' : Uio) : Prop where
  offset : v'.offset = v.offset
  rw : v.rw = .UIO_WRITE
  rw' : v'.rw = .UIO_WRITE
  len : n ≤ v.iovLen
  len' : n ≤ v'.iovLen
  resid : n ≤ v.resid
  resid' : n ≤ v'.resid
  iov : v'.iov.take n = v.iov.take n

/-- Both requests have got equally far. -/
structure Alike (n : Nat) (v v' : Uio) (r r' : IoResult) : Prop where
  code : r'.1 = r.1
  uio : ∃ k ≤ n, r.2 = v.drain k ∧ r'.2 = v'.drain k ∧ (r.1 = .ok () → k = n)

section
variable {f : UInt32} {u : SfsVnode → SfsVnode} {s t : SfsMachine}

theorem near_partialioLoad (h : Near f u s t) (b : UInt32) :
    relE (partialioLoad b .UIO_WRITE) (partialioLoad b .UIO_WRITE)
      (fun r s' t' => Near f u s' t' ∧ (r = .ok () → t'.mem.iobuf = s'.mem.iobuf)) s t := by
  rw [partialioLoad]
  split
  · exact relE_panic (X := Unit)
  · refine relE_mem_bind ?_
    rw [h.dBlocks]
    refine relE_bind (near_rblock h _ _) (fun x s' t' hn => ?_) fun _ s' t' hn => ?_
    · obtain ⟨rfl, rfl⟩ := hn
      refine relE_call ⟨rfl, ?_, fun _ => rfl⟩
      exact h.bufs ⟨rfl, rfl, rfl, rfl, rfl, rfl⟩ ⟨rfl, rfl, rfl, rfl, rfl, rfl⟩
    · obtain ⟨rfl, rfl⟩ := hn
      exact ⟨h, by rintro ⟨⟩⟩

theorem near_partialioMove {v v' : Uio} {n : Nat} (h : Near f u s t)
    (hio : t.mem.iobuf = s.mem.iobuf) (hv : Twin n v v') (b : UInt32) (skip : Nat) :
    rel (partialioMove b v skip n) (partialioMove b v' skip n)
      (fun r s' r' t' => Alike n v v' r r' ∧ Near f u s' t') s t := by
  rw [partialioMove, partialioMove]
  refine rel_mem_bind ?_
  rw [Job.uiomove_drain hv.rw hv.len hv.resid, Job.uiomove_drain hv.rw' hv.len' hv.resid']
  simp only [hv.rw, hv.rw']
  refine rel_put_bind ?_
  rw [hv.iov, hio]
  have hn : Near f u { s with mem := { s.mem with
        iobuf := s.mem.iobuf.patch skip (v.iov.take n) } }
      { t with mem := { t.mem with iobuf := s.mem.iobuf.patch skip (v.iov.take n) } } :=
    h.bufs ⟨rfl, rfl, rfl, rfl, rfl, rfl⟩ ⟨rfl, rfl, rfl, rfl, rfl, rfl⟩
  refine rel_bind (near_wblock hn h.dBlocks b rfl) fun r s' r' t' hr => ?_
  obtain ⟨rfl, hn', -⟩ := hr
  exact ⟨⟨rfl, n, le_rfl, rfl, rfl, fun _ => rfl⟩, hn'⟩

theorem rel_assert_bind {c : Prop} [Decidable c] {e : Panic} {X Y : Type}
    {p : Unit → SfsProg X} {q : Unit → SfsProg Y}
    {Q : X → SfsMachine → Y → SfsMachine → Prop} (h : c → rel (p ()) (q ()) Q s t) :
    rel (Prog.assert c e >>= p) (Prog.assert c e >>= q) Q s t := by
  rw [Prog.assert]
  split
  · next hc => exact h hc
  · rfl

theorem near_partialio {v v' : Uio} {n : Nat} (h : Near f u s t) (hu : Sizing u)
    (hv : Twin n v v') (skip : Nat) : rel (sfsPartialio f v skip n) (sfsPartialio f v' skip n)
      (fun r s' r' t' => Alike n v v' r r' ∧ Near f u s' t') s t := by
  have hstop : ∀ e, Alike n v v' (.error e, v) (.error e, v') := fun e =>
    ⟨rfl, 0, Nat.zero_le _, (Job.drain_zero v).symm, (Job.drain_zero v').symm, nofun⟩
  rw [partialio_eq hv.rw, partialio_eq hv.rw', hv.offset]
  refine rel_assert_bind fun _ => ?_
  refine rel_bind (near_bmap h hu _) fun r s' r' t' hr => ?_
  obtain ⟨rfl, hn⟩ := hr
  cases r' with
  | error e => exact ⟨hstop e, hn⟩
  | ok b =>
    show rel (partialioRest b v skip n) (partialioRest b v' skip n) _ s' t'
    rw [partialioRest, partialioRest, hv.rw, hv.rw']
    refine rel_bind (near_partialioLoad hn b) fun r s1 r' t1 hr => ?_
    obtain ⟨rfl, hn1, hio⟩ := hr
    cases r' with
    | error e => exact ⟨hstop e, hn1⟩
    | ok x => exact near_partialioMove hn1 (hio rfl) hv b skip

end

/-! ## Transfers to the same block -/

/-- The machine after a block has gone to the disk through `iobuf`. -/
def putBlock (s : SfsMachine) (b : UInt32) (x : Block) : SfsMachine :=
  { s with mem := { s.mem with iobuf := x }, disk := update s.disk b x }

section
variable {f b : UInt32} {s : SfsMachine} {fb : Nat}

/-- The machine after `sfs_bmap` has found a block: it is on the device. -/
structure AtBlock (f : UInt32) (fb : Nat) (b : UInt32) (s : SfsMachine) : Prop where
  fine : Fine f s
  ptr : (view s.mem s.disk f).ptr fb = b
  nonzero : b ≠ 0

section
variable (h : AtBlock f fb b s)
include h

theorem AtBlock.device : lhdSector (b.toNat * 512) = b ∧ ¬ s.mem.dBlocks < b + 1 := by
  obtain ⟨live, leak, hs⟩ := h.fine.sound
  obtain ⟨sv, hl⟩ := h.fine.loaded
  have hv := hs.inVolume_own (own_data (hs.table.live hl) (h.ptr ▸ h.nonzero))
  rw [h.ptr] at hv
  exact inDevice hs.geom hv.last

theorem AtBlock.patched (x : Block) : AtBlock f fb b (putBlock s b x) := by
  obtain ⟨live, leak, hs⟩ := h.fine.sound
  obtain ⟨sv, hl⟩ := h.fine.loaded
  have hlive := hs.table.live hl
  have h0 : (view s.mem s.disk f).ptr fb ≠ 0 := h.ptr ▸ h.nonzero
  have hst := hs.storeData hlive h0 (x := x)
  have hv := view_storeData hs hlive h0 (x := x)
  rw [h.ptr] at hst hv
  refine ⟨⟨⟨live, leak, hst.bufOnly ⟨rfl, rfl, rfl, rfl, rfl, rfl⟩⟩, ⟨sv, hl⟩, h.fine.good⟩,
    ?_, h.nonzero⟩
  exact (congrArg (fun v => v.ptr fb) hv).trans h.ptr

theorem AtBlock.run_rblock :
    (sfsRblock s.mem.dBlocks b : SfsM Block).run.run s = (.done (.ok (s.disk b)), s) := by
  obtain ⟨hsec, hdev⟩ := h.device
  rw [sfsRblock, hsec, if_neg hdev]
  show (Prog.bind (Prog.read b) _).run s = _
  rw [Prog.run_bind, run_read_good h.fine.good]
  rfl

theorem AtBlock.run_wblock (src : SfsFs → Block) :
    (sfsWblock s.mem.dBlocks b src : SfsM Unit).run.run s =
      (.done (.ok ()), s.store b (src s.mem)) := by
  obtain ⟨hsec, hdev⟩ := h.device
  rw [sfsWblock, hsec, if_neg hdev]
  show (Prog.bind (Prog.write b src) _).run s = _
  rw [Prog.run_bind, run_write_good h.fine.good]
  rfl

theorem AtBlock.run_load : (partialioLoad b .UIO_WRITE).run.run s =
      (.done (.ok ()), { s with mem := { s.mem with iobuf := s.disk b } }) := by
  rw [partialioLoad, if_neg h.nonzero]
  show (Prog.bind (sfsRblock s.mem.dBlocks b).run _).run s = _
  rw [Prog.run_bind, h.run_rblock]
  rfl

theorem AtBlock.bufs {m : SfsFs} (hm : BufOnly s.mem m) : AtBlock f fb b { s with mem := m } := by
  obtain ⟨live, leak, hs⟩ := h.fine.sound
  obtain ⟨sv, hl⟩ := h.fine.loaded
  refine ⟨⟨⟨live, leak, hs.bufOnly hm⟩, ⟨sv, by rw [hm.vnodes]; exact hl⟩, h.fine.good⟩, ?_,
    h.nonzero⟩
  rw [← h.ptr]
  show (view m s.disk f).ptr fb = _
  rw [view, view, inodeOf, inodeOf, hm.vnodes]

theorem AtBlock.run_rest {v : Uio} {n : Nat} (hrw : v.rw = .UIO_WRITE)
    (hlen : n ≤ v.iovLen) (hres : n ≤ v.resid) (skip : Nat) : (partialioRest b v skip n).run s =
      (.done (.ok (), v.drain n), putBlock s b ((s.disk b).patch skip (v.iov.take n))) := by
  rw [partialioRest, hrw]
  show (Prog.bind (partialioLoad b .UIO_WRITE).run _).run s = _
  rw [Prog.run_bind, h.run_load]
  show (partialioMove b v skip n).run _ = _
  have hmove : ∀ ptr, v.uiomove ptr n = some (v.drain n, v.iov.take n) := fun _ =>
    Job.uiomove_drain hrw hlen hres
  simp only [partialioMove, hmove, hrw]
  have h' : AtBlock f fb b { s with mem := { s.mem with
      iobuf := (s.disk b).patch skip (v.iov.take n) } } :=
    h.bufs ⟨rfl, rfl, rfl, rfl, rfl, rfl⟩
  show (Prog.bind (sfsWblock s.mem.dBlocks b fun sfs => sfs.iobuf).run _).run
    { s with mem := { s.mem with iobuf := (s.disk b).patch skip (v.iov.take n) } } = _
  rw [Prog.run_bind]
  erw [h'.run_wblock]
  rfl

end

variable {v : Uio} {s1 : SfsMachine}

theorem partialio_run_ok (hrw : v.rw = .UIO_WRITE)
    (hlen : n ≤ v.iovLen) (hres : n ≤ v.resid) (hn : skip + n ≤ 512)
    (hr : (sfsBmap f (v.offset / 512) true).run.run s = (.done (.ok b), s1))
    (h : AtBlock f fb b s1) : (sfsPartialio f v skip n).run s =
      (.done (.ok (), v.drain n), putBlock s1 b ((s1.disk b).patch skip (v.iov.take n))) := by
  rw [partialio_eq hrw, Prog.assert, if_pos hn]
  show (Prog.bind (sfsBmap f (v.offset / 512) true).run _).run s = _
  rw [Prog.run_bind, hr]
  exact h.run_rest hrw hlen hres skip

theorem partialio_run_error {e : Errno} (hrw : v.rw = .UIO_WRITE) (hn : skip + n ≤ 512)
    (hr : (sfsBmap f (v.offset / 512) true).run.run s = (.done (.error e), s1)) :
    (sfsPartialio f v skip n).run s = (.done (.error e, v), s1) := by
  rw [partialio_eq hrw, Prog.assert, if_pos hn]
  show (Prog.bind (sfsBmap f (v.offset / 512) true).run _).run s = _
  rw [Prog.run_bind, hr]
  rfl

variable {p : SfsProg IoResult} {k : Uio → SfsProg IoResult}

theorem run_onOk_ok (h : p.run s = (.done (.ok (), v), s1)) : (onOk p k).run s = (k v).run s1 := by
  show (Prog.bind p _).run s = _
  rw [Prog.run_bind, h]

theorem run_onOk_error {e : Errno} (h : p.run s = (.done (.error e, v), s1)) :
    (onOk p k).run s = (.done (.error e, v), s1) := by
  show (Prog.bind p _).run s = _
  rw [Prog.run_bind, h]
  rfl

theorem Near.of_bufs {t : SfsMachine} (hm : BufOnly s.mem t.mem) (hd : t.disk = s.disk)
    (hs : s.script = Script.good) (ht : t.script = Script.good) : Near f (fun sv => sv) s t := by
  refine ⟨⟨hm.super, hm.superdirty, hm.vnodes.trans ?_, hm.freemap, hm.freemapdirty,
    hm.dBlocks⟩, hd, hs, ht⟩
  exact (VnodeArray.update_id _ _).symm

theorem rel_of_run {X Y : Type} {p : SfsProg X} {q : SfsProg Y} {s t u v : SfsMachine} {x : X}
    {y : Y} {Q : X → SfsMachine → Y → SfsMachine → Prop} (hp : p.run s = (.done x, u))
    (hq : q.run t = (.done y, v)) (h : Q x u y v) : rel p q Q s t := by
  unfold rel
  rw [hp, hq]
  exact h

/-- Two transfers to one block do what one does. -/
theorem partialio_join {skip m n : Nat} (h : Fine f s) (hrw : v.rw = .UIO_WRITE)
    (hs : v.offset % 512 = skip) (hm : skip + m < 512) (hn : skip + (m + n) ≤ 512)
    (hlen : m + n ≤ v.iovLen) (hres : m + n ≤ v.resid) (hiov : m + n ≤ v.iov.length) :
    rel (sfsPartialio f v skip (m + n))
      (onOk (sfsPartialio f v skip m) fun v' => sfsPartialio f v' (skip + m) n)
      (fun r s' r' t' => r' = r ∧ Near f (fun sv => sv) s' t') s s := by
  obtain ⟨r, s1, hr, hf1, hp, -⟩ := bmap_fine h (v.offset / 512)
  cases r with
  | error e =>
    refine rel_of_run (partialio_run_error hrw hn hr)
      (run_onOk_error (partialio_run_error hrw (by omega) hr)) ⟨rfl, ?_⟩
    exact .of_bufs (.refl _) rfl hf1.good hf1.good
  | ok b =>
    obtain ⟨hptr, hb0⟩ := hp b rfl
    have h1 : AtBlock f (v.offset / 512) b s1 := ⟨hf1, hptr, hb0⟩
    have h2 := h1.patched ((s1.disk b).patch skip (v.iov.take m))
    -- the second transfer finds the block and reads back what the first one wrote
    obtain ⟨r2, s3, hr2, hf3, -, hmapped⟩ := bmap_fine h2.fine ((v.drain m).offset / 512)
    have hblk : (v.drain m).offset / 512 = v.offset / 512 := by
      show (v.offset + m) / 512 = _
      omega
    rw [hblk, h2.ptr] at hmapped
    obtain ⟨rfl, hbuf, hd⟩ := hmapped hb0
    have h3 : AtBlock f (v.offset / 512) b s3 := by
      refine ⟨hf3, ?_, hb0⟩
      rw [← h2.ptr, hd, view, view, inodeOf, inodeOf, hbuf.vnodes]
    refine rel_of_run (partialio_run_ok hrw hlen hres hn hr h1)
      ((run_onOk_ok (partialio_run_ok hrw (by omega) (by omega) (by omega) hr h1)).trans
        (partialio_run_ok hrw (by simp only [Uio.drain]; omega)
          (by simp only [Uio.drain]; omega) (by omega) hr2 h3)) ⟨?_, ?_⟩
    · rw [Uio.drain_drain]
    · have hdb : s3.disk b = (s1.disk b).patch skip (v.iov.take m) := by
        rw [hd]
        exact update_self _ _ _
      have hx : (s3.disk b).patch (skip + m) ((v.drain m).iov.take n) =
          (s1.disk b).patch skip (v.iov.take (m + n)) := by
        have hl : (v.iov.take m).length = m := by
          rw [List.length_take]
          omega
        have hpatch : ((s1.disk b).patch skip (v.iov.take m)).patch
            (skip + (v.iov.take m).length) ((v.iov.drop m).take n) = _ := Block.patch_patch
        rw [hl, ← List.take_add] at hpatch
        rw [hdb]
        exact hpatch
      rw [hx]
      refine .of_bufs ⟨hbuf.super, hbuf.superdirty, hbuf.vnodes, hbuf.freemap,
        hbuf.freemapdirty, hbuf.dBlocks⟩ ?_ hf1.good hf3.good
      show update s3.disk b _ = update s1.disk b _
      rw [hd]
      exact update_idem _ _ _

end

/-! ## Whole blocks -/

section
variable {f b : UInt32} {s : SfsMachine} {fb : Nat}

/-- A block written through `sfs_blockio` is a partial one that fills the
block. -/
theorem blockio_partialio {v : Uio} (h : Fine f s) (hrw : v.rw = .UIO_WRITE)
    (hlen : 512 ≤ v.iovLen) (hres : 512 ≤ v.resid) (hiov : 512 ≤ v.iov.length) :
    rel (sfsBlockio f v) (sfsPartialio f v 0 512)
      (fun r s' r' t' => r' = r ∧ Near f (fun sv => sv) s' t') s s := by
  obtain ⟨r, s1, hr, hf1, hp, -⟩ := bmap_fine h (v.offset / 512)
  have hdo : (v.rw == .UIO_WRITE) = true := by rw [hrw]; rfl
  have hblk : ∀ {k : Except Errno UInt32 → SfsProg IoResult},
      (Prog.bind (sfsBmap f (v.offset / 512) true).run k).run s = (k r).run s1 := by
    intro k
    rw [Prog.run_bind, hr]
  cases r with
  | error e =>
    refine rel_of_run (x := (.error e, v)) (u := s1) ?_
      (partialio_run_error hrw le_rfl hr)
      ⟨rfl, .of_bufs (.refl _) rfl hf1.good hf1.good⟩
    rw [sfsBlockio, hdo]
    exact hblk
  | ok b =>
    obtain ⟨hptr, hb0⟩ := hp b rfl
    have h1 : AtBlock f (v.offset / 512) b s1 := ⟨hf1, hptr, hb0⟩
    refine rel_of_run (x := (.ok (), v.drain 512))
      (u := s1.store b (Block.ofList (v.iov.take 512))) ?_
      (partialio_run_ok hrw hlen hres le_rfl hr h1) ⟨rfl, ?_⟩
    · have hrw' : (Job.blockUio v b).rw = .UIO_WRITE := hrw
      have hrun : (rwblock (Job.blockUio v b)).run s1 =
          (.done (.ok (), (Job.blockUio v b).drain 512),
            s1.store b (Block.ofList (v.iov.take 512))) := by
        rw [rwblock]
        simp only [hrw', Uio.uiomove_write hrw' hlen (Nat.le_refl 512), Job.blockUio_block]
        show (Prog.bind (sfsWblock s1.mem.dBlocks b _).run _).run s1 = _
        rw [Prog.run_bind, h1.run_wblock]
        rfl
      rw [sfsBlockio, hdo]
      refine hblk.trans ?_
      show (if b = 0 then _ else _ : SfsProg IoResult).run s1 = _
      rw [if_neg hb0, Prog.assert, if_pos hres]
      show (Prog.bind (rwblock (Job.blockUio v b)) _).run s1 = _
      rw [Prog.run_bind, hrun]
      show (Outcome.done (Except.ok (), Job.restoreUio v b _), _) = _
      rw [Job.restoreUio_drain]
    · have hx : (s1.disk b).patch 0 (v.iov.take 512) = Block.ofList (v.iov.take 512) :=
        Block.patch_all (by rw [List.length_take]; omega)
      rw [hx]
      exact .of_bufs ⟨rfl, rfl, rfl, rfl, rfl, rfl⟩ rfl hf1.good hf1.good

end

end Os161.Sfs
