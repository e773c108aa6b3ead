import Os161.Proofs.Eof
import Os161.Proofs.Truncate

/-!
# Whether a truncation really discards the tail

What `sfs_truncate` should do is said here without regard to its text: no block
of the file from the new length on is mapped, what was mapped there is free, the
rest is where it was, and whatever is written later, a byte past the new length
that has not been written since reads as zero.

It falls short in three places. An indirect entry is let go if its block is past
`blocklen`, not if it is at `blocklen`, so the first block behind the new length
stays when it is an indirect one. A file that keeps 142 blocks or more keeps an
indirect block with nothing in it. And nobody clears the end of the last block
that stays. `Discardable` is the absence of all three, seen before the call.
-/

namespace Os161.Sfs

open Os161.Kern Os161.Lib Function

/-! ## Requests on a volume in order

`Represents` of `Os161.Proofs.FileRefine` asks for more than is true after a
truncation: there may be bytes behind the size. What a request does to the bytes
does not depend on that. -/

/-- A volume in order, sizes that are `off_t`, and a device that does not
fail. -/
structure Tidy (s : SfsMachine) : Prop where
  sound : ∃ live leak, Sound live leak s.mem s.disk
  small : ∀ {f sv}, s.mem.sfsVnodes.get? f = some sv → sv.svI.sfiSize.toNat < 2147483648
  good : s.script = Script.good

/-- The file is loaded. -/
def Loaded (s : SfsMachine) (f : UInt32) : Prop := ∃ sv, s.mem.sfsVnodes.get? f = some sv

/-- The bytes `v` of file `g` after a request that was answered by `x`. -/
def Request.bytes (x : IoResult) (g : UInt32) (v : Nat → UInt8) : Request → Nat → UInt8
  | read _ _ _ => v
  | write f off data =>
    if g = f then patchBytes v off (data.take (data.length - x.2.resid)) else v

/-- What one request does. -/
structure Served (r : Request) (x : IoResult) (s s' : SfsMachine) : Prop where
  tidy : Tidy s'
  loaded : ∀ {g}, Loaded s g → Loaded s' g
  byte : ∀ {g}, Loaded s g →
    (view s'.mem s'.disk g).byte = r.bytes x g (view s.mem s.disk g).byte
  reach : ∀ {g off data}, Loaded s g → r = .write g off data →
    off ≤ (view s'.mem s'.disk g).inode.sfiSize.toNat

section
variable {s s' : SfsMachine} {f : UInt32}

theorem Tidy.sameVolume (h : Tidy s) (hsame : SameVolume s s') (hg : s'.script = Script.good) :
    Tidy s' := by
  obtain ⟨live, leak, hs⟩ := h.sound
  obtain ⟨hb, hd⟩ := hsame
  refine ⟨⟨live, leak, ?_⟩, fun hl => ?_, hg⟩
  · rw [hd]
    exact hs.bufOnly hb
  · rw [hb.vnodes] at hl
    exact h.small hl

variable {off len p : Nat} {r : Request} {rs : List Request}

theorem Tidy.read (h : Tidy s) (hl : Loaded s f) (hlt : off + len < 2147483648) :
    ∃ x s', (sfsRead f off len).run s = (.done x, s') ∧ Served (.read f off len) x s s' := by
  obtain ⟨live, leak, hs⟩ := h.sound
  obtain ⟨sv, hl⟩ := hl
  let J := soloJob noFaults f live (hs.table.live hl)
  have hw : wp J.c (sfsRead f off len) (fun _ w' =>
      SameVolume s ⟨w'.mem, w'.disk, s.script⟩) (s.world ()) :=
    Job.io_read (J := J) (soloJob_held.2 hs) hl rfl le_rfl
      (show off < 2147483648 by omega) (show len < 4294967296 by omega) rfl
      (fun t _ => t.calm quiet_noFaults) fun t _ _ _ _ => t.calm quiet_noFaults
  obtain ⟨x, s', hr, hg, hsame⟩ := fine_run h.good hw
  have hsame' : SameVolume s s' := hsame
  refine ⟨x, s', hr, h.sameVolume hsame' hg, fun {g} hg => ?_, fun {g} _ => ?_,
    fun {g _ _} _ he => by cases he⟩
  · exact hsame'.keepsLoaded g hg
  · rw [hsame'.2, view_of_vnodes hsame'.1.vnodes]
    rfl

theorem Tidy.write {data : List UInt8} (h : Tidy s) (hl : Loaded s f)
    (hlt : off + data.length < 2147483648) : ∃ x s', (sfsWrite f off data).run s = (.done x, s') ∧
      Served (.write f off data) x s s' := by
  obtain ⟨live, leak, hs⟩ := h.sound
  obtain ⟨sv, hl⟩ := hl
  have hz := h.small hl
  let J := soloJob noFaults f live (hs.table.live hl)
  have hst : Stores J.c := ⟨fun _ => id⟩
  -- the bytes that were taken have arrived, and the size follows them
  have key : ∀ {k L' w'} {x : IoResult}, J.Grown off (data.take k) (off + k) leak
      (s.world ()) L' w' → k ≤ data.length → x.2.resid = data.length - k →
      ∀ s' : SfsMachine, s'.mem = w'.mem → s'.disk = w'.disk → s'.script = Script.good →
      Served (.write f off data) x s s' := by
    intro k L' w' x t hk hx s' hm hd hg
    have hviews := fun {g sv'} => @grown_views s f sv off (off + k) live leak L' _ _ w' hl t g sv'
    have hkeep := keepsLoaded_grown hs t
    refine ⟨⟨⟨live, L', ?_⟩, fun {g sv'} hl' => ?_, hg⟩, fun {g} hg => ?_, fun {g} hl0 => ?_,
      fun {g off' data'} hl0 he => ?_⟩
    · rw [hm, hd]
      exact soloJob_held.1 t.held
    · rw [hm] at hl'
      obtain ⟨hother, hself⟩ := hviews hl'
      by_cases hgf : g = f
      · rw [(hself hgf).1, Job.grownSize_toNat hz (by omega)]
        omega
      · exact h.small (hother hgf).1
    · obtain ⟨sv', hl'⟩ := hkeep g hg
      exact ⟨sv', by rw [hm]; exact hl'⟩
    · obtain ⟨sv0, hl0⟩ := hl0
      obtain ⟨sv', hl'⟩ := hkeep g ⟨sv0, hl0⟩
      obtain ⟨hother, hself⟩ := hviews hl'
      rw [hm, hd, view_of_get? hl', view_of_get? hl0]
      show byteOf sv'.svI w'.disk = if g = f then _ else byteOf sv0.svI s.disk
      by_cases hgf : g = f
      · subst hgf
        obtain rfl := Option.some.inj (hl.symm.trans hl0)
        rw [if_pos rfl, (hself rfl).2, hx, show data.length - (data.length - k) = k by omega]
        rfl
      · obtain ⟨hsame, hbyte⟩ := hother hgf
        obtain rfl := Option.some.inj (hl0.symm.trans hsame)
        rw [if_neg hgf, hbyte]
    · cases he
      obtain ⟨sv', hl'⟩ := hkeep f ⟨sv, hl⟩
      rw [hm, hd, view_of_get? hl']
      show off ≤ sv'.svI.sfiSize.toNat
      rw [((hviews hl').2 rfl).1, Job.grownSize_toNat hz (by omega)]
      omega
  have hw : wp J.c (sfsWrite f off data) (fun x w' => ∀ s' : SfsMachine, s'.mem = w'.mem →
      s'.disk = w'.disk → s'.script = Script.good → Served (.write f off data) x s s')
      (s.world ()) := by
    refine Job.io_write (J := J) (soloJob_held.2 hs) hl rfl le_rfl le_rfl
      (show off < 2147483648 by omega) (fun _ _ => trivial)
      (fun {L' w'} t _ => key t le_rfl rfl) fun {e k L' w'} t hk _ => key t hk rfl
  obtain ⟨x, s', hr, hg, hx⟩ := fine_run h.good hw
  exact ⟨x, s', hr, hx s' rfl rfl hg⟩

theorem Tidy.request (h : Tidy s) (hl : Loaded s r.file) (hlt : r.stop < 2147483648) :
    ∃ x s', r.prog.run s = (.done x, s') ∧ Served r x s s' := by
  cases r with
  | read f off len => exact h.read hl hlt
  | write f off data => exact h.write hl hlt

/-- Some of these requests have written byte `p` of `f`. -/
def Written (f : UInt32) (p : Nat) : List Request → List IoResult → Prop
  | .write g off data :: rs, x :: xs =>
    (g = f ∧ off ≤ p ∧ p < off + (data.length - x.2.resid)) ∨ Written f p rs xs
  | .read _ _ _ :: rs, _ :: xs => Written f p rs xs
  | _, _ => False

theorem Served.unwritten {x : IoResult} {xs : List IoResult} (h : Served r x s s')
    (hl : Loaded s f) (hp : ¬ Written f p (r :: rs) (x :: xs)) :
    (view s'.mem s'.disk f).byte p = (view s.mem s.disk f).byte p ∧ ¬ Written f p rs xs := by
  rw [h.byte hl]
  cases r with
  | read g off len => exact ⟨rfl, hp⟩
  | write g off data =>
    refine ⟨?_, fun hw => hp (.inr hw)⟩
    show (if f = g then _ else _ : Nat → UInt8) p = _
    by_cases hg : f = g
    · rw [if_pos hg, patchBytes, if_neg]
      intro hin
      rw [List.length_take] at hin
      exact hp (.inl ⟨hg.symm, hin.1, by omega⟩)
    · rw [if_neg hg]

/-- Any sequence of requests. -/
theorem Tidy.requests (h : Tidy s) (hrs : ∀ r ∈ rs, Loaded s r.file ∧ r.stop < 2147483648) :
    ∃ xs s', (Sfs.requests rs).run s = (.done xs, s') ∧ Tidy s' ∧
      (∀ {g}, Loaded s g → Loaded s' g) ∧ ∀ {g p}, Loaded s g → ¬ Written g p rs xs →
        (view s'.mem s'.disk g).byte p = (view s.mem s.disk g).byte p := by
  induction rs generalizing s with
  | nil => exact ⟨[], s, rfl, h, fun hl => hl, fun _ _ => rfl⟩
  | cons r rs ih =>
    obtain ⟨hr, hrest⟩ := List.forall_mem_cons.1 hrs
    obtain ⟨x, s1, hx, h1⟩ := h.request hr.1 hr.2
    obtain ⟨xs, s2, hxs, h2, hloaded, hbyte⟩ := ih h1.tidy fun q hq =>
      ⟨h1.loaded (hrest q hq).1, (hrest q hq).2⟩
    refine ⟨x :: xs, s2, ?_, h2, fun hl => hloaded (h1.loaded hl), fun {g p} hl hp => ?_⟩
    · show (Prog.bind r.prog fun x => Prog.bind (Sfs.requests rs) fun xs =>
        pure (x :: xs)).run s = _
      rw [Prog.run_bind_done hx, Prog.run_bind_done hxs]
      rfl
    · obtain ⟨hsame, hp'⟩ := h1.unwritten hl hp
      exact (hbyte (h1.loaded hl) hp').trans hsame

/-! ## What a truncation should do -/

/-- Whatever is written from here on: a byte from `len` on that has not been
written reads as zero, once the file reaches so far. -/
def ReadsZero (f : UInt32) (len : Nat) (s : SfsMachine) : Prop :=
  ∀ rs xs s', (∀ r ∈ rs, Loaded s r.file ∧ r.stop < 2147483648) →
    (Sfs.requests rs).run s = (.done xs, s') → ∀ p, len ≤ p → ¬ Written f p rs xs →
    p < (view s'.mem s'.disk f).inode.sfiSize.toNat → ∀ u s'',
    (sfsRead f p 1).run s' = (.done (.ok (), u), s'') → u.iov = [0]

/-- One byte of a file. -/
theorem Tidy.read_byte (h : Tidy s) (hl : Loaded s f)
    (hp : p < (view s.mem s.disk f).inode.sfiSize.toNat) :
    ∃ r s', (sfsRead f p 1).run s = (.done r, s') ∧
      (r.1 = .ok () → r.2.iov = [(view s.mem s.disk f).byte p]) ∧ (p < 73216 → r.1 = .ok ()) := by
  obtain ⟨live, leak, hs⟩ := h.sound
  obtain ⟨sv, hl⟩ := hl
  have hview := view_size (d := s.disk) hl
  rw [hview] at hp
  have hsize := h.small hl
  have hclip : Job.clip sv.svI.sfiSize.toNat p 1 = 1 := by
    rw [clip_available hsize (by omega) (by omega), available]
    omega
  obtain ⟨r, s', hrun, htook⟩ := read_took hs hl hsize (by omega) (by omega) hclip Script.good
  have hgood : { s with script := Script.good } = s := by
    rw [← h.good]
  rw [hgood] at hrun
  refine ⟨r, s', hrun, fun hok => ?_, fun hlt => ?_⟩
  · cases htook with
    | ok _ hdel => exact hdel.iov
    | error => cases hok
  · cases htook with
    | ok _ _ => rfl
    | error _ hk _ hf _ => exact absurd (.inl (by omega)) (hf.not_fits hk not_rdErr_good).2

theorem readsZero_iff (h : Tidy s) (hl : Loaded s f) :
    ReadsZero f len s ↔ ∀ p, len ≤ p → (view s.mem s.disk f).byte p = 0 := by
  constructor
  · intro hzero p hp
    by_contra hne
    -- the file is extended to just behind the byte
    have hmapped : p < 73216 := by
      by_contra hge
      apply hne
      show byteOf _ _ p = 0
      rw [byteOf, if_pos (ptrOf_past (by omega))]
    have hone : ∀ r ∈ [Request.write f (p + 1) [0]],
        Loaded s r.file ∧ r.stop < 2147483648 := by
      intro r hr
      obtain rfl := List.mem_singleton.1 hr
      exact ⟨hl, by show p + 1 + 1 < _; omega⟩
    obtain ⟨x, s1, hx, h1⟩ := @Tidy.write s f (p + 1) [0] h hl (by
      show p + 1 + 1 < _
      omega)
    have hrun : (Sfs.requests [.write f (p + 1) [0]]).run s = (.done [x], s1) := by
      show (Prog.bind (sfsWrite f (p + 1) [0]) fun x => Prog.bind (pure []) fun xs =>
        pure (x :: xs)).run s = _
      rw [Prog.run_bind_done hx]
      rfl
    have hun : ¬ Written f p [.write f (p + 1) [0]] [x] := by
      rintro (⟨-, hle, -⟩ | hf)
      · omega
      · exact hf
    have hreach : p < (view s1.mem s1.disk f).inode.sfiSize.toNat := h1.reach hl rfl
    obtain ⟨r, s2, hread, hiov, hok⟩ := h1.tidy.read_byte (h1.loaded hl) hreach
    obtain ⟨_ | _, u⟩ := r
    · cases hok hmapped
    · have hz := hzero _ _ _ hone hrun p hp hun hreach u s2 hread
      have hb : u.iov = [(view s1.mem s1.disk f).byte p] := hiov rfl
      rw [hz, (h1.unwritten hl hun).1] at hb
      exact hne (List.singleton_inj.1 hb).symm
  · intro hzero rs xs s' hrs hrun p hp hun hlt u s'' hread
    obtain ⟨xs', s1, hrun', h1, hloaded, hbyte⟩ := h.requests hrs
    obtain ⟨hx, rfl⟩ := Prod.mk.inj (hrun'.symm.trans hrun)
    obtain rfl := Outcome.done.inj hx
    obtain ⟨r, s2, hr, hiov, -⟩ := h1.read_byte (hloaded hl) hlt
    obtain ⟨hr', -⟩ := Prod.mk.inj (hr.symm.trans hread)
    obtain rfl := Outcome.done.inj hr'
    have hb : u.iov = [(view s1.mem s1.disk f).byte p] := hiov rfl
    rw [hb, hbyte hl hun, hzero p hp]

end

/-- The file `f` has been cut to `len` bytes. -/
structure Discards (f : UInt32) (len : Nat) (s s' : SfsMachine) : Prop where
  unmapped : ∀ fb, (len + 511) / 512 ≤ fb → (view s'.mem s'.disk f).ptr fb = 0
  freed : ∀ fb, (len + 511) / 512 ≤ fb → (view s.mem s.disk f).ptr fb ≠ 0 →
    ¬ Used s'.mem ((view s.mem s.disk f).ptr fb)
  kept : ∀ fb < (len + 511) / 512,
    (view s'.mem s'.disk f).ptr fb = (view s.mem s.disk f).ptr fb
  indirect : (view s.mem s.disk f).inode.sfiIndirect ≠ 0 →
    (((view s'.mem s'.disk f).inode.sfiIndirect = 0 ∧
        ¬ Used s'.mem (view s.mem s.disk f).inode.sfiIndirect) ↔
      ∀ fb, 15 ≤ fb → (view s'.mem s'.disk f).ptr fb = 0)
  size : (view s'.mem s'.disk f).inode.sfiSize.toNat = len
  zeros : ReadsZero f len s'

/-- What has to be so before: the first block behind the new length is not an
indirect one, an indirect block that is left alone is in use, and the last block
that stays has nothing behind the new length. -/
structure Discardable (f : UInt32) (len : Nat) (s : SfsMachine) : Prop where
  edge : 15 ≤ (len + 511) / 512 → (view s.mem s.disk f).ptr ((len + 511) / 512) = 0
  last : 142 ≤ (len + 511) / 512 → (view s.mem s.disk f).inode.sfiIndirect ≠ 0 →
    ∃ fb, 15 ≤ fb ∧ (view s.mem s.disk f).ptr fb ≠ 0
  tail : ∀ p, len ≤ p → p < (len + 511) / 512 * 512 → (view s.mem s.disk f).byte p = 0

/-! ## What it does -/

variable {len f : UInt32} {s : SfsMachine} {live leak : Set UInt32}

theorem truncBlocklen_eq (h : len.toNat ≤ 73216) : truncBlocklen len = (len.toNat + 511) / 512 := by
  rw [truncBlocklen, Job.offT_small (by omega)]
  have hdiv : ((len.toNat + 511 : Nat) : Int).tdiv 512 = ((len.toNat + 511) / 512 : Nat) := by
    rw [Int.tdiv_eq_ediv_of_nonneg (by omega)]
    omega
  rw [hdiv]
  omega

section
variable {live leak : Set UInt32} {f : UInt32} {blocklen : Nat} {len : UInt32}
  {w w' : SfsWorld Unit}

/-- A file that has been cut uses the blocks it used, or none. -/
theorem Cut.blk (h : Cut live leak f blocklen len w w') (r : Role) : (w'.view f).blk f r = 0 ∨
      (w'.view f).blk f r = (w.view f).blk f r := by
  cases r with
  | self => exact .inr (by rw [FileView.blk_self, FileView.blk_self])
  | ind =>
    rw [FileView.blk_ind, FileView.blk_ind]
    by_cases hstay : 142 ≤ blocklen ∨
        ∃ fb, 15 ≤ fb ∧ fb ≤ blocklen ∧ (w.view f).ptr fb ≠ 0
    · exact .inr (h.stays hstay)
    · refine .inl (h.gone (by omega) fun fb hlo hle => ?_)
      exact by_contra fun hne => hstay (.inr ⟨fb, hlo, hle, hne⟩)
  | data fb =>
    rw [FileView.blk_data, FileView.blk_data, h.ptr]
    split
    · exact .inl rfl
    · exact .inr rfl

/-- A block that the file has lost is free: nobody else can have had it. -/
theorem Cut.free (h : Cut live leak f blocklen len w w') (hs : Sound live leak w.mem w.disk)
    {r : Role} {b : UInt32} (hk : owner live (view w.mem w.disk) (f, r) = some b)
    (hlost : (w'.view f).blk f r = 0) : ¬ Used w'.mem b := by
  obtain ⟨hf, -, hb0⟩ := owner_eq_some.1 hk
  intro hu
  have hn : nblocks w'.mem = nblocks w.mem := by rw [nblocks, nblocks, h.frame.super]
  rcases (h.sound.ledger.account b).1 hu with hr | ⟨⟨g, r'⟩, hk'⟩ | hl
  · refine (hs.ledger.owned hk).1 ?_
    rwa [Reserved, firstBlock, h.sound.geom.nbits, hn, ← hs.geom.nbits] at hr
  · obtain ⟨hg, hblk, -⟩ := owner_eq_some.1 hk'
    have hsame : owner live (view w.mem w.disk) (g, r') = some b := by
      refine owner_eq_some.2 ⟨hg, ?_, hb0⟩
      by_cases hgf : g = f
      · subst hgf
        rcases h.blk r' with hz | hsame
        · exact absurd (hblk.symm.trans hz) hb0
        · exact hsame.symm.trans hblk
      · have hview : view w'.mem w'.disk g = view w.mem w.disk g := (h.frame.same g ⟨hg, hgf⟩).view
        rwa [hview] at hblk
    obtain ⟨rfl, rfl⟩ := Prod.mk.inj (hs.ledger.inj hsame hk)
    exact hb0 (hblk.symm.trans hlost)
  · exact (hs.ledger.owned hk).2 hl

end

theorem truncate_run (h : Tidy s) (hl : Loaded s f) : ∃ live leak s', Sound live leak s.mem s.disk ∧
      (sfsTruncate f len).run.run s = (.done (.ok ()), s') ∧ s'.script = Script.good ∧
      Cut live leak f (truncBlocklen len) len (s.world ()) (s'.world ()) := by
  obtain ⟨live, leak, hs⟩ := h.sound
  obtain ⟨sv, hl⟩ := hl
  have hw : wp (soloCtx noFaults) (sfsTruncate f len).run (fun r w' => r = .ok () ∧
      Cut live leak f (truncBlocklen len) len (s.world ()) ⟨w'.mem, w'.disk, true, ()⟩)
      (s.world ()) := by
    refine wp_truncate (w := s.world ()) hs hl rfl (fun w' hcut => ⟨rfl, ?_⟩)
      fun _ _ he => he.elim
    exact ⟨hcut.sound, ⟨hcut.frame.super, hcut.frame.dBlocks, fun g hg =>
      ⟨(hcut.frame.same g hg).get?, (hcut.frame.same g hg).view⟩⟩, hcut.loaded,
      ⟨hcut.counts.refs, hcut.counts.opens⟩, rfl,
      hcut.size, hcut.ptr, hcut.gone, hcut.stays, hcut.data⟩
  obtain ⟨r, s', hrun, hg, rfl, hcut⟩ := fine_run h.good hw
  exact ⟨live, leak, s', hs, hrun, hg, hcut⟩

theorem Cut.tidy {blocklen : Nat} {s' : SfsMachine}
    (h : Cut live leak f blocklen len (s.world ()) (s'.world ())) (ht : Tidy s)
    (hlen : len.toNat < 2147483648) (hg : s'.script = Script.good) : Tidy s' := by
  refine ⟨⟨live, leak, h.sound⟩, fun {g sv} hl => ?_, hg⟩
  by_cases hgf : g = f
  · subst hgf
    have hsize : sv.svI.sfiSize = len := by
      rw [← h.size]
      exact congrArg SfsInode.sfiSize (inodeOf_of_get? hl).symm
    rwa [hsize]
  · have hsame := (h.frame.same g ⟨h.sound.table.live hl, hgf⟩).get?
    exact ht.small (hsame.symm.trans hl)

/-- Behind the new length there is nothing but what is let go of, and holes. -/
theorem Discardable.dropped_or_hole {len fb : Nat} (h : Discardable f len s)
    (hfb : (len + 511) / 512 ≤ fb) :
    Dropped ((len + 511) / 512) fb ∨ (view s.mem s.disk f).ptr fb = 0 := by
  by_cases hpast : 143 ≤ fb
  · exact .inr (ptrOf_past hpast)
  · by_cases hedge : fb = (len + 511) / 512 ∧ 15 ≤ fb
    · exact .inr (hedge.1 ▸ h.edge (hedge.1 ▸ hedge.2))
    · refine .inl ?_
      unfold Dropped
      omega

section
variable {live leak : Set UInt32} {f len : UInt32} {s s' : SfsMachine}

/-- Nothing in front of the new length is let go of. -/
theorem not_dropped {blocklen fb : Nat} (h : fb < blocklen) : ¬ Dropped blocklen fb := by
  unfold Dropped
  omega

/-- The indirect block, when it should go: it does unless all of it is in front
of the new length. -/
theorem Cut.indirect_iff {blocklen : Nat}
    (h : Cut live leak f blocklen len (s.world ()) (s'.world ()))
    (hs : Sound live leak s.mem s.disk) (hf : f ∈ live)
    (h0 : (view s.mem s.disk f).inode.sfiIndirect ≠ 0) :
    (((view s'.mem s'.disk f).inode.sfiIndirect = 0 ∧
        ¬ Used s'.mem (view s.mem s.disk f).inode.sfiIndirect) ↔
      ∀ fb, 15 ≤ fb → (view s'.mem s'.disk f).ptr fb = 0) ↔
    (142 ≤ blocklen → ∃ fb, 15 ≤ fb ∧ (view s.mem s.disk f).ptr fb ≠ 0) := by
  have hptr : ∀ fb, (view s'.mem s'.disk f).ptr fb =
      if Dropped blocklen fb then 0 else (view s.mem s.disk f).ptr fb := h.ptr
  by_cases hfar : 142 ≤ blocklen
  · -- it stays
    have hstay : (view s'.mem s'.disk f).inode.sfiIndirect = _ := h.stays (.inl hfar)
    have hsame : ∀ fb, 15 ≤ fb → (view s'.mem s'.disk f).ptr fb = (view s.mem s.disk f).ptr fb := by
      intro fb hfb
      rw [hptr, if_neg (by unfold Dropped; omega)]
    constructor
    · intro hiff _
      by_contra hnone
      refine h0 (hstay.symm.trans (hiff.2 fun fb hfb => ?_).1)
      rw [hsame fb hfb]
      exact by_contra fun hne => hnone ⟨fb, hfb, hne⟩
    · intro hsome
      obtain ⟨fb, hfb, hne⟩ := hsome hfar
      refine ⟨fun hgone => absurd (hstay.symm.trans hgone.1) h0, fun hall => ?_⟩
      exact absurd ((hsame fb hfb).symm.trans (hall fb hfb)) hne
  · refine iff_of_true ?_ fun hge => absurd hge hfar
    by_cases hused : ∃ fb, 15 ≤ fb ∧ fb ≤ blocklen ∧ (view s.mem s.disk f).ptr fb ≠ 0
    · -- it stays for an entry in front of the new length
      have hstay : (view s'.mem s'.disk f).inode.sfiIndirect = _ := h.stays (.inr hused)
      obtain ⟨fb, hlo, hle, hne⟩ := hused
      refine ⟨fun hgone => absurd (hstay.symm.trans hgone.1) h0, fun hall => ?_⟩
      have hz := hall fb hlo
      rw [hptr, if_neg (by unfold Dropped; omega)] at hz
      exact absurd hz hne
    · have hnone : ∀ fb, 15 ≤ fb → fb ≤ blocklen → (view s.mem s.disk f).ptr fb = 0 :=
        fun fb hlo hle => by_contra fun hne => hused ⟨fb, hlo, hle, hne⟩
      have hgone : (view s'.mem s'.disk f).inode.sfiIndirect = 0 := h.gone (by omega) hnone
      refine iff_of_true ⟨hgone, h.free hs (r := .ind) (own_ind hf h0) hgone⟩ fun fb hfb => ?_
      rw [hptr]
      split
      · rfl
      · next hd =>
        refine hnone fb hfb ?_
        unfold Dropped at hd
        omega

theorem Cut.discards_iff (h : Cut live leak f ((len.toNat + 511) / 512) len (s.world ())
      (s'.world ())) (hs : Sound live leak s.mem s.disk) (hf : f ∈ live) (ht : Tidy s') :
    Discards f len.toNat s s' ↔ Discardable f len.toNat s := by
  have hptr : ∀ fb, (view s'.mem s'.disk f).ptr fb =
      if Dropped ((len.toNat + 511) / 512) fb then 0 else (view s.mem s.disk f).ptr fb := h.ptr
  have hbyte : ∀ p, (view s'.mem s'.disk f).byte p =
      if Dropped ((len.toNat + 511) / 512) (p / 512) then 0
      else (view s.mem s.disk f).byte p := h.byte
  have hzeros := @readsZero_iff s' f len.toNat ht h.loaded
  constructor
  · intro hd
    refine ⟨fun hge => ?_, fun hge h0 => (h.indirect_iff hs hf h0).1 (hd.indirect h0) hge,
      fun p hp hlt => ?_⟩
    · have hz := hd.unmapped _ le_rfl
      rwa [hptr, if_neg (by unfold Dropped; omega)] at hz
    · have hz := hzeros.1 hd.zeros p hp
      rwa [hbyte, if_neg (not_dropped (by omega))] at hz
  · intro hd
    refine ⟨fun fb hfb => ?_, fun fb hfb hne => ?_, fun fb hfb => ?_, fun h0 => ?_, ?_, ?_⟩
    · rw [hptr]
      split
      · rfl
      · next hn => exact (hd.dropped_or_hole hfb).resolve_left hn
    · have hdrop := (hd.dropped_or_hole hfb).resolve_right hne
      refine h.free hs (r := .data fb) (owner_eq_some.2 ⟨hf, rfl, hne⟩) ?_
      exact (hptr fb).trans (if_pos hdrop)
    · rw [hptr, if_neg (not_dropped hfb)]
    · exact (h.indirect_iff hs hf h0).2 fun hge => hd.last hge h0
    · exact congrArg UInt32.toNat h.size
    · refine hzeros.2 fun p hp => ?_
      rw [hbyte]
      by_cases hfront : p / 512 < (len.toNat + 511) / 512
      · rw [if_neg (not_dropped hfront)]
        exact hd.tail p hp (by omega)
      · split
        · rfl
        · next hn =>
          have hhole := (hd.dropped_or_hole (Nat.le_of_not_lt hfront)).resolve_left hn
          exact if_pos hhole

end

/-- A truncation to a length that the format can hold always ends well, and it
discards the tail exactly if the file is `Discardable`. -/
theorem truncate_discards_iff {s : SfsMachine} {f len : UInt32} (h : Tidy s) (hl : Loaded s f)
    (hlen : len.toNat ≤ 73216) :
    ∃ s', (sfsTruncate f len).run.run s = (.done (.ok ()), s') ∧
      (Discards f len.toNat s s' ↔ Discardable f len.toNat s) := by
  obtain ⟨live, leak, s', hs, hrun, hg, hcut⟩ := @truncate_run len f s h hl
  rw [truncBlocklen_eq hlen] at hcut
  obtain ⟨sv, hl⟩ := hl
  exact ⟨s', hrun, hcut.discards_iff hs (hs.table.live hl) (hcut.tidy h (by omega) hg)⟩

/-- A byte has been written at 8191 of a new file: of the sixteen blocks only the
last is mapped. -/
def sixteenth : SfsMachine := ((sfsWrite 3 8191 [7]).run newFileVolume).2

theorem tidy_sixteenth : Tidy sixteenth ∧ Loaded sixteenth 3 := by
  obtain ⟨hs, hg⟩ := sound_newFileVolume
  have hloaded : Loaded newFileVolume 3 := ⟨_, (get?_newFileVolume 3).trans (if_pos rfl)⟩
  have htidy : Tidy newFileVolume := by
    refine ⟨⟨_, _, hs⟩, fun {f sv} hl => ?_, hg⟩
    rw [get?_newFileVolume] at hl
    split at hl
    · rw [← Option.some.inj hl]
      decide
    · cases hl
  obtain ⟨x, s', hr, h⟩ := @Tidy.write newFileVolume 3 8191 [7] htidy hloaded (by decide)
  rw [sixteenth, hr]
  exact ⟨h.tidy, h.loaded hloaded⟩

theorem view_sixteenth : (view sixteenth.mem sixteenth.disk 3).inode.sfiSize = 8192 ∧
    (view sixteenth.mem sixteenth.disk 3).ptr 0 = 0 ∧
    (view sixteenth.mem sixteenth.disk 3).ptr 15 ≠ 0 := by
  decide +kernel

/-- The file is cut to a hundred bytes, and the block at its end is given back. -/
theorem truncate_discards_mapped : ∃ s', Tidy sixteenth ∧ Loaded sixteenth 3 ∧
    (view sixteenth.mem sixteenth.disk 3).ptr 15 ≠ 0 ∧
    (sfsTruncate 3 100).run.run sixteenth = (.done (.ok ()), s') ∧
    Discards 3 100 sixteenth s' := by
  obtain ⟨htidy, hl⟩ := tidy_sixteenth
  obtain ⟨-, hfirst, hlast⟩ := view_sixteenth
  generalize sixteenth = s at htidy hl hfirst hlast ⊢
  have hcut : Discardable 3 100 s := by
    refine ⟨fun hge => absurd hge (by decide), fun hge => absurd hge (by decide),
      fun p _ hp => ?_⟩
    have h0 : p / 512 = 0 := Nat.div_eq_of_lt hp
    exact if_pos (h0 ▸ hfirst)
  obtain ⟨s', hrun, hiff⟩ := @truncate_discards_iff s 3 100 htidy hl (by decide)
  exact ⟨s', htidy, hl, hlast, hrun, hiff.2 hcut⟩

/-- The sixteenth block stays when the file is cut to fifteen. -/
theorem truncate_keeps_sixteenth : ∃ (s s' : SfsMachine) (f : UInt32), Tidy s ∧ Loaded s f ∧
    (view s.mem s.disk f).inode.sfiSize = 8192 ∧
    (sfsTruncate f 7680).run.run s = (.done (.ok ()), s') ∧
    (view s'.mem s'.disk f).ptr 15 ≠ 0 ∧ ¬ Discards f 7680 s s' := by
  obtain ⟨ht, hl⟩ := tidy_sixteenth
  obtain ⟨hsize, -, hne⟩ := view_sixteenth
  generalize sixteenth = s at ht hl hsize hne
  obtain ⟨live, leak, s', -, hrun, -, hcut⟩ := @truncate_run 7680 3 s ht hl
  have hptr : (view s'.mem s'.disk 3).ptr 15 = (view s.mem s.disk 3).ptr 15 := by
    refine (hcut.ptr 15).trans (if_neg ?_)
    rw [truncBlocklen_eq (by decide)]
    decide
  rw [← hptr] at hne
  exact ⟨s, s', 3, ht, hl, hsize, hrun, hne, fun hd => hne (hd.unmapped 15 (by decide))⟩

end Os161.Sfs
