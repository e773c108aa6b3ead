import Os161.Proofs.Split

/-!
# One byte at a time

The common form to which a write and its splittings are brought. `touch` is the
transfer of no bytes: it makes `sfs_partialio` allocate the block that an
unaligned position lies in, and nothing else. A request of `n` bytes does what
`touch` and `n` transfers of one byte do (`pieces_bytes`), whatever the pieces
into which `sfs_io` cuts it; a transfer to a block that is there already
swallows the `touch` of that block. So the boundary between two requests leaves
no trace apart from the size, and there the later request has the last word
(`bumped_bumped`).
-/

namespace Os161.Sfs

open Os161.Kern Os161.Lib

/-! ## Equal up to the static buffers -/

/-- The uio has `n` bytes to give. -/
structure Supply (n : Nat) (v : Uio) : Prop where
  rw : v.rw = .UIO_WRITE
  len : n ≤ v.iovLen
  resid : n ≤ v.resid
  iov : n ≤ v.iov.length

theorem Supply.drain {m n : Nat} {v : Uio} (h : Supply (m + n) v) : Supply n (v.drain m) := by
  have h1 := h.len
  have h2 := h.resid
  have h3 := h.iov
  refine ⟨h.rw, ?_, ?_, ?_⟩ <;> simp only [Uio.drain, List.length_drop] <;> omega

theorem Supply.mono {m n : Nat} {v : Uio} (h : Supply n v) (hm : m ≤ n) : Supply m v :=
  ⟨h.rw, hm.trans h.len, hm.trans h.resid, hm.trans h.iov⟩

theorem Alike.eq {n : Nat} {v : Uio} {r r' : IoResult} (h : Alike n v v r r') : r' = r := by
  obtain ⟨hc, k, -, hr, hr', -⟩ := h
  exact Prod.ext hc (hr'.trans hr.symm)

section
variable {f : UInt32}

/-- From a fine machine the program ends on one, and has taken `n` bytes from
the uio unless it failed. -/
def Keeps (f : UInt32) (n : Nat) (v : Uio) (p : SfsProg IoResult) : Prop :=
  ∀ s, Fine f s → ∃ r s', p.run s = (.done r, s') ∧ Fine f s' ∧
    ∃ k ≤ n, r.2 = v.drain k ∧ (r.1 = .ok () → k = n)

/-- Both programs do the same. -/
def Equi (f : UInt32) (p q : SfsProg IoResult) : Prop :=
  ∀ s, Fine f s → rel p q (fun r s' r' t' => r' = r ∧ Near f (fun sv => sv) s' t') s s

/-- The program does not read the static buffers before it has filled them. -/
def Blind (f : UInt32) (p : SfsProg IoResult) : Prop :=
  ∀ s t, Near f (fun sv => sv) s t →
    rel p p (fun r s' r' t' => r' = r ∧ Near f (fun sv => sv) s' t') s t

variable {s t w : SfsMachine} {u : SfsVnode → SfsVnode} {p q : SfsProg IoResult}
  {k l : Uio → SfsProg IoResult} {m n off : Nat} {v : Uio}

theorem Near.refl (h : s.script = Script.good) : Near f (fun sv => sv) s s :=
  .of_bufs (.refl _) rfl h h

theorem Near.id_bufs (h : Near f (fun sv => sv) s t) : BufOnly s.mem t.mem := by
  have hm := h.mem
  exact ⟨hm.super, hm.superdirty, hm.vnodes.trans (VnodeArray.update_id _ _), hm.freemap,
    hm.freemapdirty, hm.dBlocks⟩

theorem Near.then_id (h : Near f u s t) (h' : Near f (fun sv => sv) t w) : Near f u s w :=
  ⟨h.mem.trans h'.id_bufs, h'.disk.trans h.disk, h.good, h'.good'⟩

theorem Near.symm_id (h : Near f (fun sv => sv) s t) : Near f (fun sv => sv) t s := by
  have hb := h.id_bufs
  exact .of_bufs ⟨hb.super.symm, hb.superdirty.symm, hb.vnodes.symm, hb.freemap.symm,
    hb.freemapdirty.symm, hb.dBlocks.symm⟩ h.disk.symm h.good' h.good

theorem Near.fine (h : Near f (fun sv => sv) s t) (hf : Fine f s) : Fine f t := by
  obtain ⟨live, leak, hs⟩ := hf.sound
  obtain ⟨sv, hl⟩ := hf.loaded
  refine ⟨⟨live, leak, ?_⟩, ⟨sv, ?_⟩, h.good'⟩
  · rw [h.disk]
    exact hs.bufOnly h.id_bufs
  · rw [h.id_bufs.vnodes]
    exact hl

theorem Equi.refl (p : SfsProg IoResult) : Equi f p p := fun s hs =>
  rel_mono (rel_self p s) fun r s' r' t' ⟨hr, ht, hrun⟩ => by
    subst hr ht
    refine ⟨rfl, Near.refl ?_⟩
    have := run_script_good hs.good p
    rwa [hrun] at this

theorem Equi.trans {r : SfsProg IoResult} (h : Equi f p q) (h' : Equi f q r) : Equi f p r :=
  fun s hs => rel_trans (h s hs) (h' s hs) fun _ _ _ _ _ _ ⟨he, hn⟩ ⟨he', hn'⟩ =>
    ⟨he'.trans he, hn.then_id hn'⟩

theorem Equi.symm (h : Equi f p q) : Equi f q p := fun s hs =>
  rel_mono (rel_symm (h s hs)) fun _ _ _ _ ⟨he, hn⟩ => ⟨he.symm, hn.symm_id⟩

/-! ## Sequencing -/

theorem rel_onOk {Q R : IoResult → SfsMachine → IoResult → SfsMachine → Prop} (h : rel p q Q s t)
    (hcode : ∀ r s' r' t', Q r s' r' t' → r'.1 = r.1)
    (hok : ∀ v s' v' t', Q (.ok (), v) s' (.ok (), v') t' → rel (k v) (l v') R s' t')
    (herr : ∀ e v s' v' t', Q (.error e, v) s' (.error e, v') t' →
      R (.error e, v) s' (.error e, v') t') : rel (onOk p k) (onOk q l) R s t := by
  refine rel_bind h fun r s' r' t' hQ => ?_
  have hc := hcode _ _ _ _ hQ
  obtain ⟨c, v⟩ := r
  obtain ⟨c', v'⟩ := r'
  obtain rfl : c' = c := hc
  cases c' with
  | ok x => exact hok v s' v' t' hQ
  | error e => exact herr e v s' v' t' hQ

theorem Equi.onOk (h : Equi f p q) (hp : Keeps f m v p)
    (hkl : Equi f (k (v.drain m)) (l (v.drain m))) (hl : Blind f (l (v.drain m))) :
    Equi f (Sfs.onOk p k) (Sfs.onOk q l) := by
  intro s hs
  obtain ⟨r, s1, hr, hf1, j, -, hj, hjm⟩ := hp s hs
  refine rel_onOk (rel_and_left (h s hs) hr) (fun _ _ _ _ hQ => by rw [hQ.1.1])
    (fun u s' u' t' hQ => ?_) fun e u s' u' t' hQ => ⟨hQ.1.1, hQ.1.2⟩
  obtain ⟨⟨he, hn⟩, hx, rfl⟩ := hQ
  obtain rfl : u' = u := congrArg Prod.snd he
  obtain rfl : u' = v.drain m := by
    rw [← hx] at hj hjm
    rw [← hjm rfl]
    exact hj
  exact rel_trans (hkl s' hf1) (hl s' t' hn) fun _ _ _ _ _ _ ⟨he, hn⟩ ⟨he', hn'⟩ =>
    ⟨he'.trans he, hn.then_id hn'⟩

theorem Equi.keeps (h : Equi f p q) (hp : Keeps f n v p) : Keeps f n v q := by
  intro s hs
  obtain ⟨r, s1, hr, hf1, hk⟩ := hp s hs
  obtain ⟨r', t, ht, rfl, hn⟩ := rel_run (h s hs) hr
  exact ⟨r', t, ht, hn.fine hf1, hk⟩

/-- The same, if it is the first continuation that is known to be blind. -/
theorem Equi.onOk_left (h : Equi f p q) (hp : Keeps f m v p)
    (hkl : Equi f (k (v.drain m)) (l (v.drain m))) (hk : Blind f (k (v.drain m))) :
    Equi f (Sfs.onOk p k) (Sfs.onOk q l) :=
  (h.symm.onOk (h.keeps hp) hkl.symm hk).symm

theorem Keeps.onOk (hp : Keeps f m v p) (hk : Keeps f n (v.drain m) (k (v.drain m))) :
    Keeps f (m + n) v (Sfs.onOk p k) := by
  intro s hs
  obtain ⟨⟨c, u⟩, s1, hr, hf1, j, hj, hu, hjm⟩ := hp s hs
  cases c with
  | error e => exact ⟨_, s1, run_onOk_error hr, hf1, j, by omega, hu, nofun⟩
  | ok x =>
    obtain rfl := hjm rfl
    obtain rfl : u = v.drain j := hu
    obtain ⟨r2, s2, hr2, hf2, i, hi, hu2, hin⟩ := hk s1 hf1
    refine ⟨r2, s2, (run_onOk_ok hr).trans hr2, hf2, j + i, by omega, ?_, fun he => ?_⟩
    · rw [hu2, Uio.drain_drain]
    · rw [hin he]

theorem onOk_assoc (p : SfsProg IoResult) (k l : Uio → SfsProg IoResult) :
    Sfs.onOk (Sfs.onOk p k) l = Sfs.onOk p fun v => Sfs.onOk (k v) l := by
  show Prog.bind (Prog.bind _ _) _ = Prog.bind _ _
  rw [Prog.bind_assoc]
  refine congrArg (Prog.bind p) (funext fun r => ?_)
  obtain ⟨_ | _, v⟩ := r <;> rfl

theorem onOk_pure (v : Uio) (k : Uio → SfsProg IoResult) :
    Sfs.onOk (pure (.ok (), v)) k = k v := rfl

theorem onOk_pure_right (p : SfsProg IoResult) : Sfs.onOk p (fun v => pure (.ok (), v)) = p := by
  refine Eq.trans (congrArg (Prog.bind p) (funext fun r => ?_)) (Prog.bind_ret p)
  obtain ⟨_ | _, v⟩ := r <;> rfl

/-! ## The byte form -/

def bytesIo (f : UInt32) : Nat → Uio → SfsProg IoResult
  | 0, v => pure (.ok (), v)
  | n + 1, v => Sfs.onOk (sfsPartialio f v (v.offset % 512) 1) (bytesIo f n)

/-- The transfer of nothing. -/
def touch (f : UInt32) (v : Uio) : SfsProg IoResult :=
  if v.offset % 512 = 0 then pure (.ok (), v) else sfsPartialio f v (v.offset % 512) 0

theorem bytesIo_one (f : UInt32) (v : Uio) : bytesIo f 1 v = sfsPartialio f v (v.offset % 512) 1 :=
  onOk_pure_right _

theorem bytesIo_add (f : UInt32) (m n : Nat) (v : Uio) :
    bytesIo f (m + n) v = Sfs.onOk (bytesIo f m v) (bytesIo f n) := by
  induction m generalizing v with
  | zero => rw [Nat.zero_add]; rfl
  | succ m ih =>
    rw [Nat.succ_add]
    show Sfs.onOk _ _ = Sfs.onOk (Sfs.onOk _ _) _
    rw [onOk_assoc]
    exact congrArg _ (funext ih)

theorem partialio_keeps {skip : Nat} (hv : Supply n v) (hn : skip + n ≤ 512) :
    Keeps f n v (sfsPartialio f v skip n) := by
  intro s hs
  obtain ⟨r, s1, hr, hf1, hp, -⟩ := bmap_fine hs (v.offset / 512)
  cases r with
  | error e =>
    exact ⟨_, s1, partialio_run_error hv.rw hn hr, hf1, 0, Nat.zero_le _,
      (Job.drain_zero v).symm, nofun⟩
  | ok b =>
    obtain ⟨hptr, hb0⟩ := hp b rfl
    have h1 : AtBlock f (v.offset / 512) b s1 := ⟨hf1, hptr, hb0⟩
    exact ⟨_, _, partialio_run_ok hv.rw hv.len hv.resid hn hr h1, (h1.patched _).fine, n,
      le_rfl, rfl, fun _ => rfl⟩

theorem pure_keeps (v : Uio) : Keeps f 0 v (pure (.ok (), v)) := fun s hs =>
  ⟨_, s, rfl, hs, 0, le_rfl, (Job.drain_zero v).symm, fun _ => rfl⟩

theorem bytes_keeps (hv : Supply n v) : Keeps f n v (bytesIo f n v) := by
  induction n generalizing v with
  | zero => exact pure_keeps v
  | succ n ih =>
    rw [Nat.add_comm n 1] at hv ⊢
    rw [Nat.add_comm 1 n]
    have h1 := partialio_keeps (f := f) (hv.mono (m := 1) (by omega))
      (show v.offset % 512 + 1 ≤ 512 by omega)
    have := h1.onOk (ih hv.drain)
    rwa [Nat.add_comm 1 n] at this

theorem touch_keeps (hv : Supply 0 v) : Keeps f 0 v (touch f v) := by
  rw [touch]
  split
  · exact pure_keeps v
  · exact partialio_keeps hv (by omega)

/-! ### Blindness -/

section
variable {u : SfsVnode → SfsVnode} {s t : SfsMachine}

theorem near_bytes {n : Nat} {v v' : Uio} (h : Near f u s t) (hu : Sizing u)
    (hv : Supply n v) (hv' : Supply n v') (ho : v'.offset = v.offset)
    (hi : v'.iov.take n = v.iov.take n) : rel (bytesIo f n v) (bytesIo f n v')
      (fun r s' r' t' => Alike n v v' r r' ∧ Near f u s' t') s t := by
  induction n generalizing v v' s t with
  | zero =>
    exact ⟨⟨rfl, 0, le_rfl, (Job.drain_zero v).symm, (Job.drain_zero v').symm, fun _ => rfl⟩, h⟩
  | succ n ih =>
    have h1 : Twin 1 v v' := by
      refine ⟨ho, hv.rw, hv'.rw, (hv.mono (by omega)).len, (hv'.mono (by omega)).len,
        (hv.mono (by omega)).resid, (hv'.mono (by omega)).resid, ?_⟩
      have := congrArg (List.take 1) hi
      rwa [List.take_take, List.take_take, Nat.min_eq_left (by omega)] at this
    rw [bytesIo, bytesIo, ho]
    refine rel_onOk (near_partialio h hu h1 _) (fun _ _ _ _ hQ => hQ.1.code)
      (fun w s' w' t' hQ => ?_) fun e w s' w' t' hQ => ?_
    · obtain ⟨⟨-, k, -, hw, hw', hk⟩, hn⟩ := hQ
      obtain rfl := hk rfl
      obtain rfl : w = v.drain 1 := hw
      obtain rfl : w' = v'.drain 1 := hw'
      rw [Nat.add_comm] at hv hv'
      refine rel_mono (ih hn hv.drain hv'.drain (by simp only [Uio.drain, ho]) ?_)
        fun r s2 r' t2 ⟨ha, hn2⟩ => ⟨?_, hn2⟩
      · have := congrArg (List.drop 1) hi
        rwa [List.drop_take, List.drop_take, Nat.add_sub_cancel] at this
      · obtain ⟨hc, i, hi, hr, hr', hin⟩ := ha
        refine ⟨hc, 1 + i, by omega, ?_, ?_, fun he => by rw [hin he]; omega⟩
        · rw [hr, Uio.drain_drain]
        · rw [hr', Uio.drain_drain]
    · obtain ⟨⟨hc, k, hk, hw, hw', -⟩, hn⟩ := hQ
      exact ⟨⟨hc, k, by omega, hw, hw', by rintro ⟨⟩⟩, hn⟩

theorem near_touch {v v' : Uio} (h : Near f u s t) (hu : Sizing u) (hv : Supply 0 v)
    (hv' : Supply 0 v') (ho : v'.offset = v.offset) : rel (touch f v) (touch f v')
      (fun r s' r' t' => Alike 0 v v' r r' ∧ Near f u s' t') s t := by
  rw [touch, touch, ho]
  split
  · exact ⟨⟨rfl, 0, le_rfl, (Job.drain_zero v).symm, (Job.drain_zero v').symm, fun _ => rfl⟩, h⟩
  · exact near_partialio h hu ⟨ho, hv.rw, hv'.rw, hv.len, hv'.len, hv.resid, hv'.resid, rfl⟩ _

end

theorem blind_of
    (h : ∀ s t, Near f (fun sv => sv) s t → rel p p
      (fun r s' r' t' => Alike n v v r r' ∧ Near f (fun sv => sv) s' t') s t) : Blind f p :=
  fun s t hn => rel_mono (h s t hn) fun _ _ _ _ ⟨ha, hn⟩ => ⟨ha.eq, hn⟩

theorem bytes_blind (hv : Supply n v) : Blind f (bytesIo f n v) :=
  blind_of fun _ _ h => near_bytes h .id hv hv rfl rfl

/-! ### Requests -/

theorem partialio_bytes (h0 : 0 < n) (hv : Supply n v) (hn : v.offset % 512 + n ≤ 512) :
    Equi f (sfsPartialio f v (v.offset % 512) n) (bytesIo f n v) := by
  obtain ⟨m, rfl⟩ : ∃ m, n = 1 + m := ⟨n - 1, by omega⟩
  clear h0
  induction m generalizing v with
  | zero =>
    rw [Nat.add_zero, bytesIo_one]
    exact .refl _
  | succ m ih =>
    have hoff : (v.drain 1).offset % 512 = v.offset % 512 + 1 := by
      show (v.offset + 1) % 512 = _
      omega
    refine Equi.trans (fun s hs => partialio_join hs hv.rw rfl (by omega) hn hv.len hv.resid
      hv.iov) ?_
    rw [bytesIo_add, bytesIo_one]
    refine (Equi.refl _).onOk (partialio_keeps (hv.mono (by omega)) (by omega)) ?_
      (bytes_blind hv.drain)
    rw [Nat.add_comm m 1] at hv ⊢
    have := ih hv.drain (by omega)
    rwa [hoff] at this

theorem blockio_bytes (hn : n = 512) (hv : Supply n v) (ha : v.offset % 512 = 0) :
    Equi f (sfsBlockio f v) (bytesIo f n v) := by
  have hp := partialio_bytes (f := f) (by omega) hv (by omega)
  rw [ha] at hp
  refine Equi.trans (fun s hs => ?_) hp
  rw [hn] at hv ⊢
  exact blockio_partialio hs hv.rw hv.len hv.resid hv.iov

theorem blocks_bytes {i : Nat} (hv : Supply (i * 512) v) (ha : v.offset % 512 = 0) :
    Equi f (ioBlocks f i v) (bytesIo f (i * 512) v) := by
  induction i generalizing v with
  | zero =>
    rw [Nat.zero_mul]
    exact .refl _
  | succ i ih =>
    have he : (i + 1) * 512 = 512 + i * 512 := by omega
    rw [he] at hv ⊢
    rw [bytesIo_add, ioBlocks]
    have ha' : (v.drain 512).offset % 512 = 0 := by
      show (v.offset + 512) % 512 = 0
      omega
    have hb := blockio_bytes (f := f) rfl (hv.mono (by omega)) ha
    exact hb.onOk (hb.symm.keeps (bytes_keeps (hv.mono (by omega)))) (ih hv.drain ha')
      (bytes_blind hv.drain)

/-- What `sfs_io` does from a block boundary on. -/
theorem aligned_bytes (hv : Supply v.resid v) (ha : v.offset % 512 = 0) :
    Equi f (do
      Prog.assert (v.offset % 512 = 0) .ioUnaligned
      Sfs.onOk (ioBlocks f (v.resid / 512) v) (ioTail f)) (bytesIo f v.resid v) := by
  rw [Prog.assert, if_pos ha]
  show Equi f (Sfs.onOk (ioBlocks f (v.resid / 512) v) (ioTail f)) _
  have hsplit : v.resid = v.resid / 512 * 512 + v.resid % 512 := by omega
  have hv1 : Supply (v.resid / 512 * 512) v := hv.mono (by omega)
  have hv2 : Supply (v.resid % 512) (v.drain (v.resid / 512 * 512)) :=
    Supply.drain (by rw [← hsplit]; exact hv)
  have hres : (v.drain (v.resid / 512 * 512)).resid = v.resid % 512 := by
    show v.resid - v.resid / 512 * 512 = _
    omega
  have hb := blocks_bytes (f := f) hv1 ha
  conv => arg 3; rw [hsplit, bytesIo_add]
  refine hb.onOk (hb.symm.keeps (bytes_keeps hv1)) ?_ (bytes_blind hv2)
  rw [ioTail, hres, Prog.assert, if_pos (by show _ < 512; omega)]
  show Equi f (if v.resid % 512 = 0 then _ else _) _
  have ha' : (v.drain (v.resid / 512 * 512)).offset % 512 = 0 := by
    show (v.offset + v.resid / 512 * 512) % 512 = 0
    omega
  by_cases h0 : v.resid % 512 = 0
  · rw [if_pos h0, h0]
    exact .refl _
  · rw [if_neg h0]
    have := partialio_bytes (f := f) (by omega) hv2 (by omega)
    rwa [ha'] at this

/-- The first byte swallows the `touch` of its block. -/
theorem touch_bytes (h0 : 0 < n) (hv : Supply n v) :
    Equi f (bytesIo f n v) (Sfs.onOk (touch f v) (bytesIo f n)) := by
  rw [touch]
  split
  · exact .refl _
  obtain ⟨m, rfl⟩ : ∃ m, n = 1 + m := ⟨n - 1, by omega⟩
  have hv0 : Supply (0 + 1) v := hv.mono (by omega)
  have hjoin : Equi f (sfsPartialio f v (v.offset % 512) 1)
      (Sfs.onOk (sfsPartialio f v (v.offset % 512) 0) fun v' =>
        sfsPartialio f v' (v.offset % 512) 1) := fun s hs =>
    partialio_join (m := 0) hs hv.rw rfl (by omega) (by omega) hv0.len hv0.resid hv0.iov
  rw [bytesIo_add, bytesIo_one]
  have h2 := hjoin.onOk (k := bytesIo f m) (partialio_keeps hv0 (by omega)) (.refl _)
    (bytes_blind hv.drain)
  refine h2.trans ?_
  rw [onOk_assoc]
  refine (Equi.refl _).onOk (partialio_keeps (hv.mono (Nat.zero_le _)) (by omega)) ?_ ?_
  · rw [Job.drain_zero, bytesIo_add, bytesIo_one]
    exact .refl _
  · rw [Job.drain_zero]
    exact bytes_blind hv

/-- A request, in byte form. -/
theorem pieces_bytes (hv : Supply v.resid v) :
    Equi f (ioPieces f v) (Sfs.onOk (touch f v) (bytesIo f v.resid)) := by
  rw [ioPieces, ioHead]
  by_cases ha : v.offset % 512 = 0
  · rw [if_pos ha, onOk_pure, touch, if_pos ha, onOk_pure]
    by_cases h0 : v.resid = 0
    · rw [if_pos h0, h0]
      exact .refl _
    · rw [if_neg h0]
      exact aligned_bytes hv ha
  rw [if_neg ha]
  by_cases h0 : v.resid = 0
  · rw [h0, Nat.min_zero, touch, if_neg ha]
    refine (Equi.refl _).onOk (partialio_keeps (hv.mono (Nat.zero_le _))
      (show v.offset % 512 + 0 ≤ 512 by omega)) ?_ ?_
    · rw [Job.drain_zero, if_pos h0]
      exact .refl _
    · rw [Job.drain_zero]
      exact bytes_blind (hv.mono (Nat.zero_le _))
  · refine Equi.trans ?_ (touch_bytes (by omega) hv)
    obtain ⟨n, hn⟩ : ∃ n, min (512 - v.offset % 512) v.resid = n := ⟨_, rfl⟩
    have hsplit : v.resid = n + (v.resid - n) := by omega
    have hv' : Supply (v.resid - n) (v.drain n) := Supply.drain (by rw [← hsplit]; exact hv)
    rw [show min (blockSize - v.offset % blockSize) v.resid = n from hn]
    conv => arg 3; rw [hsplit, bytesIo_add]
    refine (partialio_bytes (by omega) (hv.mono (by omega)) (by omega)).onOk
      (partialio_keeps (hv.mono (by omega)) (by show v.offset % 512 + n ≤ 512; omega)) ?_
      (bytes_blind hv')
    have hres : (v.drain n).resid = v.resid - n := rfl
    by_cases h1 : (v.drain n).resid = 0
    · rw [if_pos h1, ← hres, h1]
      exact .refl _
    · rw [if_neg h1]
      have ha' : (v.drain n).offset % 512 = 0 := by
        show (v.offset + n) % 512 = 0
        omega
      exact aligned_bytes hv' ha'

theorem touch_blind (hv : Supply 0 v) : Blind f (touch f v) :=
  blind_of fun _ _ h => near_touch h .id hv hv rfl

/-- A byte swallows the `touch` of the position behind it. -/
theorem byte_touch (hv : Supply 1 v) :
    Equi f (bytesIo f 1 v) (Sfs.onOk (bytesIo f 1 v) (touch f)) := by
  have hv0 : Supply (1 + 0) v := hv
  have hk := partialio_keeps (f := f) hv (show v.offset % 512 + 1 ≤ 512 by omega)
  rw [bytesIo_one]
  by_cases ha : (v.offset + 1) % 512 = 0
  · have htouch : touch f (v.drain 1) = pure (.ok (), v.drain 1) := if_pos ha
    conv => arg 2; rw [← onOk_pure_right (sfsPartialio f v _ 1)]
    refine (Equi.refl _).onOk hk ?_ (touch_blind (Supply.drain hv0))
    rw [htouch]
    exact .refl _
  · have htouch : touch f (v.drain 1) =
        sfsPartialio f (v.drain 1) (v.offset % 512 + 1) 0 := by
      have he : (v.drain 1).offset % 512 = v.offset % 512 + 1 := by
        show (v.offset + 1) % 512 = _
        omega
      rw [touch, he, if_neg (by omega)]
    have hjoin : Equi f (sfsPartialio f v (v.offset % 512) 1)
        (Sfs.onOk (sfsPartialio f v (v.offset % 512) 1) fun v' =>
          sfsPartialio f v' (v.offset % 512 + 1) 0) := fun s hs =>
      partialio_join (n := 0) hs hv.rw rfl (by omega) (by omega) hv0.len hv0.resid hv0.iov
    refine hjoin.trans ((Equi.refl _).onOk hk ?_ (touch_blind (Supply.drain hv0)))
    rw [htouch]
    exact .refl _

theorem touch_touch (hv : Supply 0 v) : Equi f (touch f v) (Sfs.onOk (touch f v) (touch f)) := by
  by_cases ha : v.offset % 512 = 0
  · rw [touch, if_pos ha, onOk_pure, touch, if_pos ha]
    exact .refl _
  · have htouch : touch f v = sfsPartialio f v (v.offset % 512) 0 := if_neg ha
    have hjoin : Equi f (sfsPartialio f v (v.offset % 512) 0)
        (Sfs.onOk (sfsPartialio f v (v.offset % 512) 0) fun v' =>
          sfsPartialio f v' (v.offset % 512) 0) := fun s hs =>
      partialio_join (m := 0) (n := 0) hs hv.rw rfl (by omega) (by omega) hv.len hv.resid hv.iov
    have hk := partialio_keeps (f := f) hv (show v.offset % 512 + 0 ≤ 512 by omega)
    rw [htouch]
    refine hjoin.trans ((Equi.refl _).onOk hk ?_ ?_)
    · rw [Job.drain_zero, htouch]
      exact .refl _
    · rw [Job.drain_zero]
      exact touch_blind hv

/-- After a request, the `touch` of the position that it has reached does
nothing. -/
theorem bytes_touch (hv : Supply n v) : Equi f (Sfs.onOk (touch f v) (bytesIo f n))
      (Sfs.onOk (Sfs.onOk (touch f v) (bytesIo f n)) (touch f)) := by
  cases n with
  | zero =>
    have he : Sfs.onOk (touch f v) (bytesIo f 0) = touch f v := onOk_pure_right _
    rw [he]
    exact touch_touch hv
  | succ n =>
    have he : Sfs.onOk (touch f v) (bytesIo f (n + 1)) =
        Sfs.onOk (Sfs.onOk (touch f v) (bytesIo f n)) (bytesIo f 1) := by
      rw [onOk_assoc]
      exact congrArg _ (funext (bytesIo_add f n 1))
    have hv1 : Supply 1 (v.drain n) := hv.drain
    have hk : Keeps f n v (Sfs.onOk (touch f v) (bytesIo f n)) := by
      have := (touch_keeps (f := f) (hv.mono (Nat.zero_le _))).onOk
        (k := bytesIo f n) (n := n) (by rw [Job.drain_zero]; exact bytes_keeps (hv.mono (by omega)))
      rwa [Nat.zero_add] at this
    rw [he, onOk_assoc (Sfs.onOk (touch f v) (bytesIo f n))]
    exact (Equi.refl _).onOk_left hk (byte_touch hv1) (bytes_blind hv1)

/-! ## The size -/

/-- What `sfs_io` does to the vnode at the end of a write that got to `q`. -/
def bumped (q : Nat) (sv : SfsVnode) : SfsVnode :=
  if offT sv.svI.sfiSize.toNat < offT q then
    SfsVnode.withInode (SfsInode.setSize (UInt32.ofNat q)) sv
  else sv

theorem sizing_bumped (q : Nat) : Sizing (bumped q) := by
  refine ⟨fun sv => ?_, fun sv => ?_, fun sv => ?_, fun k b sv => ?_, fun b sv => ?_⟩ <;>
    simp only [bumped]
  · split <;> rfl
  · split <;> rfl
  · split <;> rfl
  · show (if offT sv.svI.sfiSize.toNat < offT q then _ else _) = _
    split <;> rfl
  · show (if offT sv.svI.sfiSize.toNat < offT q then _ else _) = _
    split <;> rfl

/-- The later of two requests decides. -/
theorem bumped_bumped {p q : Nat} (hpq : p ≤ q) (hq : q < 2147483648) (sv : SfsVnode) :
    bumped q (bumped p sv) = bumped q sv := by
  have hqT := Job.offT_small hq
  have hpT := Job.offT_small (show p < 2147483648 by omega)
  by_cases h : offT sv.svI.sfiSize.toNat < offT p
  · have hs : offT (SfsVnode.withInode (SfsInode.setSize (UInt32.ofNat p)) sv).svI.sfiSize.toNat
        = p := by
      show offT (UInt32.ofNat p).toNat = p
      rw [UInt32.toNat_ofNat', Nat.mod_eq_of_lt (by omega), hpT]
    have hq' : offT sv.svI.sfiSize.toNat < offT q := by omega
    rw [bumped, show bumped p sv = _ from if_pos h, hs, bumped, if_pos hq']
    split
    · rfl
    · next hn =>
      obtain rfl : p = q := by omega
      rfl
  · rw [show bumped p sv = sv from if_neg h]

/-- The machine after it. -/
def bump (f : UInt32) (q : Nat) (s : SfsMachine) : SfsMachine :=
  { s with mem := s.mem.withVnode f (bumped q) }

theorem Near.bump {q : Nat} (h : Near f u s t) (hu : Sizing u)
    (hq : ∀ sv, bumped q (u sv) = bumped q sv) :
    Near f (fun sv => sv) (bump f q s) (bump f q t) := by
  have hv : t.mem.sfsVnodes = s.mem.sfsVnodes.update f u := h.mem.vnodes
  refine .of_bufs ⟨h.mem.super, h.mem.superdirty, ?_, h.mem.freemap, h.mem.freemapdirty,
    h.mem.dBlocks⟩ h.disk h.good h.good'
  show t.mem.sfsVnodes.update f _ = s.mem.sfsVnodes.update f _
  rw [hv, VnodeArray.update_update hu.ino]
  exact congrArg _ (funext hq)

theorem Fine.bump (h : Fine f s) (q : Nat) : Fine f (bump f q s) := by
  obtain ⟨live, leak, hs⟩ := h.sound
  obtain ⟨sv, hl⟩ := h.loaded
  have hu := sizing_bumped q
  have hstep : VnodeStep s.mem s.disk f sv (bumped q) := by
    refine ⟨hl, hu.ino, ?_, ?_, ?_, ?_, ?_⟩ <;> rw [bumped] <;> split
    all_goals first
      | rfl
      | exact @hs.table.ref f sv hl
      | exact @hs.table.opens f sv hl
      | exact fun hd => by cases hd
      | exact @hs.synced.inode f sv hl
  refine ⟨⟨live, leak, hs.keepBlocks hstep (hu.direct sv) (hu.indirect sv)⟩, ⟨bumped q sv, ?_⟩,
    h.good⟩
  show (s.mem.sfsVnodes.update f _).get? f = _
  rw [VnodeArray.get?_update hu.ino, if_pos rfl, hl]
  rfl

theorem run_vnode {sv : SfsVnode} (hl : s.mem.sfsVnodes.get? f = some sv) :
    (vnode f).run s = (.done sv, s) := by
  simp only [vnode, Prog.bind_eq, Prog.mem, Prog.bind, Prog.run, hl]
  rfl

theorem run_write {s' : SfsMachine} {r : IoResult} (hrw : v.rw = .UIO_WRITE)
    (hr : (ioPieces f v).run s = (.done r, s')) (hf : Fine f s') :
    (sfsIo f v).run s = (.done r, bump f r.2.offset s') := by
  obtain ⟨live, leak, hs⟩ := hf.sound
  obtain ⟨sv, hl⟩ := hf.loaded
  rw [sfsIo, hrw]
  show (Prog.bind (ioPieces f v) _).run s = _
  rw [Prog.run_bind, hr]
  refine (Prog.run_bind_done (run_vnode hl) _).trans ?_
  by_cases hlt : offT sv.svI.sfiSize.toNat < offT r.2.offset
  · rw [if_pos hlt]
    show (Outcome.done r, _) = _
    have he := VnodeArray.update_congr hs.table.nodup hl
      (g := SfsVnode.withInode (SfsInode.setSize (UInt32.ofNat r.2.offset)))
      (u := bumped r.2.offset) (if_pos hlt).symm
    show (Outcome.done r, ({ s' with mem := { s'.mem with sfsVnodes := _ } } : SfsMachine)) = _
    rw [he]
    rfl
  · rw [if_neg hlt]
    have he := VnodeArray.update_congr hs.table.nodup hl (g := bumped r.2.offset)
      (u := fun sv => sv) (if_neg hlt)
    rw [VnodeArray.update_id] at he
    show (Outcome.done r, s') = (Outcome.done r,
      ({ s' with mem := { s'.mem with sfsVnodes := s'.mem.sfsVnodes.update f _ } } : SfsMachine))
    rw [he]

/-! ## Splitting -/

theorem near_request {v' : Uio} (h : Near f u s t) (hu : Sizing u) (hv : Supply n v)
    (hv' : Supply n v') (ho : v'.offset = v.offset) (hi : v'.iov.take n = v.iov.take n) :
    rel (Sfs.onOk (touch f v) (bytesIo f n)) (Sfs.onOk (touch f v') (bytesIo f n))
      (fun r s' r' t' => Alike n v v' r r' ∧ Near f u s' t') s t := by
  refine rel_onOk (near_touch h hu (hv.mono (Nat.zero_le _)) (hv'.mono (Nat.zero_le _)) ho)
    (fun _ _ _ _ hQ => hQ.1.code) (fun w s' w' t' hQ => ?_) fun e w s' w' t' hQ => ?_
  · obtain ⟨⟨-, k, -, hw, hw', hk⟩, hn⟩ := hQ
    obtain rfl := hk rfl
    obtain rfl : w = v := hw.trans (Job.drain_zero v)
    obtain rfl : w' = v' := hw'.trans (Job.drain_zero v')
    exact near_bytes hn hu hv hv' ho hi
  · obtain ⟨⟨hc, k, hk, hw, hw', -⟩, hn⟩ := hQ
    exact ⟨⟨hc, k, by omega, hw, hw', nofun⟩, hn⟩

theorem request_keeps (hv : Supply n v) : Keeps f n v (Sfs.onOk (touch f v) (bytesIo f n)) := by
  have h := (touch_keeps (f := f) (hv.mono (Nat.zero_le _))).onOk (k := bytesIo f n) (n := n)
    (by rw [Job.drain_zero]; exact bytes_keeps hv)
  rwa [Nat.zero_add] at h

/-- The byte form of a request on one machine, the request itself on the
other. -/
theorem near_pieces {y : Uio} (h : Near f u s t) (hu : Sizing u) (ht : Fine f t)
    (hv : Supply y.resid v) (hv' : Supply y.resid y) (ho : y.offset = v.offset)
    (hi : y.iov.take y.resid = v.iov.take y.resid) :
    rel (Sfs.onOk (touch f v) (bytesIo f y.resid)) (ioPieces f y)
      (fun r s' r' t' => Alike y.resid v y r r' ∧ Near f u s' t') s t :=
  rel_trans (near_request h hu hv hv' ho hi) ((pieces_bytes hv').symm t ht)
    fun _ _ _ _ _ _ ⟨ha, hn⟩ ⟨he, hn'⟩ => ⟨he ▸ ha, hn.then_id hn'⟩

theorem Near.bump_right (h : Near f (fun sv => sv) s t) (q : Nat) :
    Near f (bumped q) s (Sfs.bump f q t) := by
  have hb := h.id_bufs
  exact ⟨⟨hb.super, hb.superdirty, congrArg (fun a : VnodeArray => a.update f (bumped q)) hb.vnodes,
    hb.freemap, hb.freemapdirty, hb.dBlocks⟩, h.disk, h.good, h.good'⟩

theorem Near.bump_id (h : Near f (fun sv => sv) s t) (q : Nat) :
    Near f (fun sv => sv) (Sfs.bump f q s) (Sfs.bump f q t) :=
  h.bump .id fun _ => rfl

theorem pieces_keeps (hv : Supply v.resid v) : Keeps f v.resid v (ioPieces f v) :=
  (pieces_bytes hv).symm.keeps (request_keeps hv)

/-- Two runs of writes have come to the same: the same error code, the same
position, and machines that differ in the static buffers at most. -/
def SameWrite (f : UInt32) (r : IoResult) (s : SfsMachine) (r' : IoResult) (t : SfsMachine) :
    Prop :=
  r'.1 = r.1 ∧ r'.2.offset = r.2.offset ∧ Near f (fun sv => sv) s t

/-- A buffer for writing. -/
abbrev writeUio (off : Nat) (data : List UInt8) : Uio :=
  mkKuio data data.length off .UIO_WRITE

theorem supply_writeUio (off : Nat) (data : List UInt8) :
    Supply (writeUio off data).resid (writeUio off data) :=
  ⟨rfl, le_rfl, le_rfl, le_rfl⟩

/-- A long request, as a shorter one and the bytes that are left. -/
theorem pieces_append (off : Nat) (a b : List UInt8) : Equi f (ioPieces f (writeUio off (a ++ b)))
      (Sfs.onOk (Sfs.onOk (touch f (writeUio off (a ++ b))) (bytesIo f a.length))
        (bytesIo f b.length)) := by
  have hp := pieces_bytes (f := f) (supply_writeUio off (a ++ b))
  have hlen : (writeUio off (a ++ b)).resid = a.length + b.length := List.length_append
  have hadd : bytesIo f (a.length + b.length) =
      fun w => Sfs.onOk (bytesIo f a.length w) (bytesIo f b.length) :=
    funext (bytesIo_add f a.length b.length)
  rwa [hlen, hadd, ← onOk_assoc] at hp

theorem write_split (h : Fine f s) {a b : List UInt8} (hlt : off + a.length + b.length < 2147483648)
    : rel (sfsWrite f off (a ++ b))
      (Sfs.onOk (sfsWrite f off a) fun _ => sfsWrite f (off + a.length) b) (SameWrite f) s s := by
  have hU : Supply (a.length + b.length) (writeUio off (a ++ b)) := by
    have := supply_writeUio off (a ++ b)
    rwa [show (writeUio off (a ++ b)).resid = a.length + b.length from List.length_append] at this
  have hUa : Supply a.length (writeUio off (a ++ b)) := hU.mono (Nat.le_add_right _ _)
  -- the part that both have in common, and what becomes of the first request
  obtain ⟨r1, s1, hr1, hf1, k, hk, hu1, hk1⟩ := request_keeps (f := f) hUa s h
  obtain ⟨rA, tA, hrA, ⟨hcode, kA, hkA, huA, huA', -⟩, hnA⟩ :=
    rel_run (near_pieces (y := writeUio off a) (Near.refl h.good) .id h hUa
      (supply_writeUio off a) rfl
      (List.take_append_of_le_length le_rfl).symm) hr1
  have hfA : Fine f tA := hnA.fine hf1
  have hwA : (sfsWrite f off a).run s = (.done rA, bump f rA.2.offset tA) :=
    run_write rfl hrA hfA
  have hoA : rA.2.offset = r1.2.offset := by rw [huA', huA]; rfl
  obtain ⟨c, w⟩ := r1
  obtain ⟨c', w'⟩ := rA
  obtain rfl : c' = c := hcode
  cases c' with
  | error e =>
    obtain ⟨rU, tU, hrU, rfl, hnU⟩ :=
      rel_run ((pieces_append off a b).symm s h) (run_onOk_error hr1)
    refine rel_of_run (run_write rfl hrU (hnU.fine hf1)) (run_onOk_error hwA) ⟨rfl, hoA, ?_⟩
    rw [hoA]
    exact (hnU.symm_id.then_id hnA).bump_id _
  | ok x =>
    obtain rfl := hk1 rfl
    obtain rfl : w = (writeUio off (a ++ b)).drain a.length := hu1
    have hq : w'.offset = off + a.length := hoA
    have hw : Supply b.length ((writeUio off (a ++ b)).drain a.length) := hU.drain
    -- the position reached has been touched already
    obtain ⟨rT, sT, hrT, rfl, hnT⟩ := rel_run (bytes_touch hUa s h) hr1
    rw [run_onOk_ok hr1] at hrT
    obtain ⟨r2, s2, hr2, hf2, j, hj, hu2, -⟩ := bytes_keeps (f := f) hw s1 hf1
    obtain ⟨rT2, sT2, hrT2, rfl, hnT2⟩ := rel_run (bytes_blind hw s1 sT hnT) hr2
    obtain ⟨rU, tU, hrU, rfl, hnU⟩ :=
      rel_run ((pieces_append off a b).symm s h) ((run_onOk_ok hr1).trans hr2)
    obtain ⟨rB, tB, hrB, ⟨hcB, jB, -, huB, huB', -⟩, hnB⟩ :=
      rel_run (near_pieces (y := writeUio (off + a.length) b) (hnA.bump_right _)
        (sizing_bumped (off + a.length)) (hfA.bump _) hw (supply_writeUio _ b) rfl
        (by simp [writeUio, mkKuio, Uio.drain])) ((run_onOk_ok hrT).trans hrT2)
    have hoB : rB.2.offset = rU.2.offset := by
      rw [huB', huB]
      rfl
    have hoU : rU.2.offset = off + a.length + j := by
      rw [hu2]
      rfl
    have hn : Near f (fun sv => sv) (bump f rU.2.offset tU) (bump f rU.2.offset tB) := by
      refine (hnU.bump_id _).symm_id.then_id ((hnT2.bump_id _).then_id ?_)
      refine hnB.bump (sizing_bumped _) (bumped_bumped (by omega) ?_)
      have : j ≤ b.length := hj
      omega
    have hfB : Fine f tB := by
      obtain ⟨r', s', hr', hf', -⟩ :=
        pieces_keeps (supply_writeUio (off + a.length) b) _ (hfA.bump (off + a.length))
      rw [hrB] at hr'
      obtain ⟨-, rfl⟩ := Prod.mk.inj hr'
      exact hf'
    rw [hq] at hwA
    refine rel_of_run (run_write rfl hrU (hnU.fine hf2))
      ((run_onOk_ok hwA).trans (run_write rfl hrB hfB)) ⟨hcB, hoB, ?_⟩
    rw [hoB]
    exact hn

/-- Consecutive requests, until one fails. -/
def writeChunks (f : UInt32) : Nat → List UInt8 → List (List UInt8) → SfsProg IoResult
  | off, c, [] => sfsWrite f off c
  | off, c, c' :: cs =>
    Sfs.onOk (sfsWrite f off c) fun _ => writeChunks f (off + c.length) c' cs

theorem write_fine (h : Fine f s) (off : Nat) (data : List UInt8) :
    ∃ r s', (sfsWrite f off data).run s = (.done r, s') ∧ Fine f s' := by
  obtain ⟨r, s', hr, hf, -⟩ := pieces_keeps (supply_writeUio off data) s h
  exact ⟨r, _, run_write rfl hr hf, hf.bump _⟩

theorem write_chunks (h : Fine f s) {c : List UInt8} {cs : List (List UInt8)}
    (hlt : off + (c :: cs).flatten.length < 2147483648) :
    rel (sfsWrite f off (c :: cs).flatten) (writeChunks f off c cs) (SameWrite f) s s := by
  induction cs generalizing off c s with
  | nil =>
    rw [List.flatten_cons, List.flatten_nil, List.append_nil, writeChunks]
    refine rel_mono (rel_self _ s) fun r s' r' t' ⟨hr, ht, hrun⟩ => ?_
    subst hr ht
    have hg := run_script_good h.good (sfsWrite f off c)
    rw [hrun] at hg
    exact ⟨rfl, rfl, Near.refl hg⟩
  | cons c' cs ih =>
    rw [List.flatten_cons] at hlt ⊢
    rw [List.length_append] at hlt
    obtain ⟨r1, s1, hr1, hf1⟩ := write_fine h off c
    refine rel_trans (write_split h (by omega)) (R := SameWrite f) (P := SameWrite f) ?_
      fun _ _ _ _ _ _ h1 h2 => ⟨h2.1.trans h1.1, h2.2.1.trans h1.2.1, h1.2.2.then_id h2.2.2⟩
    rw [writeChunks]
    refine rel_onOk (rel_and_left (rel_self _ s) hr1) (fun _ _ _ _ hQ => by rw [hQ.1.1])
      (fun v s' v' t' hQ => ?_) fun e v s' v' t' hQ => ?_
    · obtain ⟨⟨-, rfl, -⟩, -, rfl⟩ := hQ
      exact ih hf1 (by omega)
    · obtain ⟨⟨he, rfl, -⟩, -, rfl⟩ := hQ
      rw [he]
      exact ⟨rfl, rfl, Near.refl hf1.good⟩

end

end Os161.Sfs
