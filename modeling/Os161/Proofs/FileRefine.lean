import Os161.Proofs.Bytewise
import Os161.Proofs.Mksfs

/-!
# Files refine byte arrays

`Represents a m d` ties a consistent volume to the byte arrays `a` of its
loaded files. A request keeps the tie, whatever comes of it, and a read that
succeeds is answered from the byte array; `requests_represent` is the same for
a whole sequence, by induction.

A read can say more about its answer than that it is right if it succeeds: on
a machine where nothing fails, `readOut` computes the answer from the byte
array, error and all. The largest file has 143 blocks, and a request may be for
positions beyond, where `sfs_bmap` has nothing to offer. That is what makes the
two halves of a divided read fit together.
-/

namespace Os161.Sfs

open Os161.Kern Os161.Lib Function

/-! ## The relation -/

/-- A consistent volume with the files `a`, as far as they are loaded. -/
structure Represents (a : UInt32 → ByteFile) (m : SfsFs) (d : Disk) : Prop where
  sound : ∃ live leak, Sound live leak m d
  size : ∀ {f sv}, m.sfsVnodes.get? f = some sv → sv.svI.sfiSize.toNat = (a f).size
  small : ∀ {f sv}, m.sfsVnodes.get? f = some sv → (a f).size < 2147483648
  byte : ∀ {f sv}, m.sfsVnodes.get? f = some sv → byteOf sv.svI d = (a f).byte

/-- Two machines with the same volume; the static buffers may differ. -/
def SameVolume (s t : SfsMachine) : Prop := BufOnly s.mem t.mem ∧ t.disk = s.disk

theorem SameVolume.symm {s t : SfsMachine} (h : SameVolume s t) : SameVolume t s :=
  ⟨h.1.symm, h.2.symm⟩

theorem SameVolume.trans {s t u : SfsMachine} (h : SameVolume s t) (h' : SameVolume t u) :
    SameVolume s u :=
  ⟨h.1.trans h'.1, h'.2.trans h.2⟩

theorem Represents.sameVolume {a : UInt32 → ByteFile} {s t : SfsMachine}
    (h : Represents a s.mem s.disk) (hst : SameVolume s t) : Represents a t.mem t.disk := by
  obtain ⟨live, leak, hs⟩ := h.sound
  obtain ⟨hb, hd⟩ := hst
  refine ⟨⟨live, leak, ?_⟩, ?_, ?_, ?_⟩
  · rw [hd]
    exact hs.bufOnly hb
  all_goals
    intro f sv hl
    rw [hb.vnodes] at hl
  · exact h.size hl
  · exact h.small hl
  · rw [hd]
    exact h.byte hl

theorem Represents.fine {a : UInt32 → ByteFile} {s : SfsMachine} {f : UInt32}
    (h : Represents a s.mem s.disk) (hg : s.script = Script.good)
    (hl : ∃ sv, s.mem.sfsVnodes.get? f = some sv) : Fine f s :=
  ⟨h.sound, hl, hg⟩

section
variable {a : UInt32 → ByteFile} {s : SfsMachine} {f : UInt32}

variable {sv : SfsVnode} {off n len q : Nat} {b : ByteFile} {e : Errno} {live leak L' : Set UInt32}
  {hf : f ∈ live} {data : List UInt8} {w' : SfsWorld Unit} {t : SfsMachine} {ns : List Nat}
  {v : Uio}

theorem Represents.slice (h : Represents a s.mem s.disk) (hl : s.mem.sfsVnodes.get? f = some sv)
    (hn : off + n ≤ (a f).size ∨ n = 0) : (view s.mem s.disk f).slice off n = (a f).read off n := by
  have hb : (view s.mem s.disk f).byte = (a f).byte := by
    rw [view_of_get? hl, ← h.byte hl]
    rfl
  rw [FileView.slice, ByteFile.read, hb, show min n ((a f).size - off) = n by omega]

/-! ## Reading -/

/-- The answer to a read when nothing fails. -/
def readOut (a : ByteFile) (off len : Nat) : Except Errno Unit × List UInt8 :=
  if a.size ≤ off ∨ Fits off (min len (a.size - off)) then (.ok (), a.read off len)
  else (.error .EINVAL, a.read off (73216 - off))

theorem clip_eq {size : Nat} (hs : size < 2147483648) (hl : off + len < 2147483648) :
    Job.clip (offT size) off len = min len (size - off) := by
  rw [Job.clip, Job.offT_small hs, Job.offT_small hl, Job.offT_small (by omega : off < _)]
  split
  · omega
  · split <;> omega

theorem readOut_ok (h : b.size ≤ off ∨ Fits off (min len (b.size - off))) :
    readOut b off len = (.ok (), b.read off len) :=
  if_pos h

theorem readOut_range (h : ¬ (b.size ≤ off ∨ Fits off (min len (b.size - off)))) :
    readOut b off len = (.error .EINVAL, b.read off (73216 - off)) :=
  if_neg h

/-- A read that stops, stops at the end of the largest file. -/
theorem readOut_fault {k : Nat} (hoff : off < b.size) (hk : k ≤ min len (b.size - off))
    (h : IoFault (soloCtx noFaults) false off (min len (b.size - off)) k e) :
    readOut b off len = (.error e, b.read off k) := by
  cases h with
  | range h1 h2 h3 =>
    rw [readOut_range (by unfold Fits; omega), show 73216 - off = k by omega]
  | full h => cases h
  | read h => exact h.elim

variable (h : Represents a s.mem s.disk) (hg : s.script = Script.good)
    (hl : ∃ sv, s.mem.sfsVnodes.get? f = some sv)

include h hg hl in
theorem read_run (hlt : off + len < 2147483648) :
    ∃ x s', (sfsRead f off len).run s = (.done x, s') ∧ s'.script = Script.good ∧
      SameVolume s s' ∧ (x.1, x.2.iov) = readOut (a f) off len := by
  obtain ⟨live, leak, hs⟩ := h.sound
  obtain ⟨sv, hl⟩ := hl
  have hsize := h.size hl
  have hsmall := h.small hl
  have hclip : Job.clip (offT sv.svI.sfiSize.toNat) off len = min len ((a f).size - off) := by
    rw [hsize]
    exact clip_eq hsmall hlt
  have hoT : offT sv.svI.sfiSize.toNat = (a f).size := by
    rw [hsize]
    exact Job.offT_small hsmall
  let J := soloJob noFaults f live (hs.table.live hl)
  have hw : wp J.c (sfsRead f off len) (fun x w' => SameVolume s ⟨w'.mem, w'.disk, s.script⟩ ∧
      (x.1, x.2.iov) = readOut (a f) off len) (s.world ()) := by
    refine Job.io_read (J := J) (soloJob_held.2 hs) hl rfl le_rfl
      (show off < 2147483648 by omega) (show len < 4294967296 by omega) hclip
      (fun t hfit => ⟨t.calm quiet_noFaults, ?_⟩) fun {e k L' w'} t hoff hk _ he =>
      ⟨t.calm quiet_noFaults, ?_⟩
    · rw [hoT] at hfit
      have hfit' : (a f).size ≤ off ∨ Fits off (min len ((a f).size - off)) :=
        hfit.imp_left Int.ofNat_le.1
      show (Except.ok (), [] ++ (view s.mem s.disk f).slice off _) = _
      rw [List.nil_append, h.slice hl (by omega), readOut_ok hfit', ByteFile.read,
        ByteFile.read, show ∀ n m : Nat, min (min n m) m = min n m by omega]
    · show (Except.error e, [] ++ (view s.mem s.disk f).slice off k) = _
      rw [hoT] at hoff
      rw [List.nil_append, h.slice hl (by omega)]
      exact (readOut_fault (Int.ofNat_lt.1 hoff) hk he).symm
  obtain ⟨x, s', hr, hg', hsame, hx⟩ := fine_run hg hw
  exact ⟨x, s', hr, hg', hsame, hx⟩

/-! ## Writing -/

/-- What a write has made of a file that is loaded afterwards: it is the one
written to, or it is as it was. -/
theorem grown_views (hl : s.mem.sfsVnodes.get? f = some sv)
    (t : (soloJob noFaults f live hf).Grown off data q leak (s.world ()) L' w') {g : UInt32}
    {sv' : SfsVnode} (hg : w'.mem.sfsVnodes.get? g = some sv') :
    (g ≠ f → s.mem.sfsVnodes.get? g = some sv' ∧ byteOf sv'.svI w'.disk = byteOf sv'.svI s.disk) ∧
    (g = f → sv'.svI.sfiSize = Job.grownSize sv.svI.sfiSize q ∧
      byteOf sv'.svI w'.disk = patchBytes (byteOf sv.svI s.disk) off data) := by
  have hs' := soloJob_held.1 t.held
  constructor
  · intro hne
    have hsame := t.frame.same g ⟨hs'.table.live hg, hne⟩
    have hg0 : s.mem.sfsVnodes.get? g = some sv' := hsame.get?.symm.trans hg
    have hv : view w'.mem w'.disk g = view s.mem s.disk g := hsame.view
    rw [view_of_get? hg, view_of_get? hg0] at hv
    exact ⟨hg0, congrArg FileView.byte hv⟩
  · rintro rfl
    have hold : view s.mem s.disk g = fileView sv.svI s.disk := view_of_get? hl
    have hnew : view w'.mem w'.disk g = fileView sv'.svI w'.disk := view_of_get? hg
    have hsz : (view w'.mem w'.disk g).inode.sfiSize =
        Job.grownSize (view s.mem s.disk g).inode.sfiSize q := t.size
    have hby : (view w'.mem w'.disk g).byte = patchBytes (view s.mem s.disk g).byte off data :=
      t.byte
    rw [hnew, hold] at hsz hby
    exact ⟨hsz, hby⟩

/-- What a write does to the files, seen from the volume. -/
theorem Represents.grown (h : Represents a s.mem s.disk) (hl : s.mem.sfsVnodes.get? f = some sv)
    (t : (soloJob noFaults f live hf).Grown off data q leak (s.world ()) L' w')
    (hq : off + data.length = q) (hlt : q < 2147483648) :
    Represents (update a f ((a f).write off data)) w'.mem w'.disk := by
  have hs' := soloJob_held.1 t.held
  have hz : sv.svI.sfiSize.toNat < 2147483648 := by
    rw [h.size hl]
    exact h.small hl
  refine ⟨⟨live, L', hs'⟩, ?_, ?_, ?_⟩
  all_goals
    intro g sv' hg
    obtain ⟨hother, hself⟩ := grown_views hl t hg
    by_cases hgf : g = f
  · obtain ⟨hsize, -⟩ := hself hgf
    subst hgf
    rw [update_self]
    calc sv'.svI.sfiSize.toNat = max sv.svI.sfiSize.toNat q :=
          (congrArg UInt32.toNat hsize).trans (Job.grownSize_toNat hz hlt)
      _ = max (a g).size (off + data.length) := by rw [h.size hl, hq]
  · rw [update_of_ne hgf]
    exact h.size (hother hgf).1
  · subst hgf
    rw [update_self]
    show max (a g).size (off + data.length) < _
    have := h.small hl
    omega
  · rw [update_of_ne hgf]
    exact h.small (hother hgf).1
  · obtain ⟨-, hbyte⟩ := hself hgf
    subst hgf
    rw [update_self]
    exact hbyte.trans (congrArg (fun b => patchBytes b off data) (h.byte hl))
  · rw [update_of_ne hgf]
    exact (hother hgf).2.trans (h.byte (hother hgf).1)

/-- What was loaded still is. -/
def KeepsLoaded (m m' : SfsFs) : Prop :=
  ∀ g, (∃ sv, m.sfsVnodes.get? g = some sv) → ∃ sv, m'.sfsVnodes.get? g = some sv

theorem keepsLoaded_grown (hs : Sound live leak s.mem s.disk)
    (t : (soloJob noFaults f live hf).Grown off data q leak (s.world ()) L' w') :
    KeepsLoaded s.mem w'.mem := by
  rintro g ⟨sv, hg⟩
  by_cases hgf : g = f
  · subst hgf
    obtain ⟨sv', hl', -⟩ := t.grows.vnode hg
    exact ⟨sv', hl'⟩
  · exact ⟨sv, (t.frame.same g ⟨hs.table.live hg, hgf⟩).get?.trans hg⟩

include h hg hl in
theorem write_run (hlt : off + data.length < 2147483648) :
    ∃ x s', (sfsWrite f off data).run s = (.done x, s') ∧ s'.script = Script.good ∧
      KeepsLoaded s.mem s'.mem ∧ (x.1 = .ok () → x.2.resid = 0) ∧
      Represents ((Request.write f off data).apply a x) s'.mem s'.disk := by
  obtain ⟨live, leak, hs⟩ := h.sound
  obtain ⟨sv, hl⟩ := hl
  let J := soloJob noFaults f live (hs.table.live hl)
  have hst : Stores J.c := ⟨fun _ => id⟩
  have hw : wp J.c (sfsWrite f off data) (fun x w' => KeepsLoaded s.mem w'.mem ∧
      (x.1 = .ok () → x.2.resid = 0) ∧
      Represents ((Request.write f off data).apply a x) w'.mem w'.disk) (s.world ()) := by
    refine Job.io_write (J := J) (soloJob_held.2 hs) hl rfl le_rfl le_rfl
      (show off < 2147483648 by omega) (fun _ _ => trivial)
      (fun {L' w'} t _ => ⟨keepsLoaded_grown hs t, fun _ => Nat.sub_self _, ?_⟩)
      fun {e k L' w'} t hk _ => ⟨keepsLoaded_grown hs t, fun hx => (nomatch hx), ?_⟩
    · have htake : data.take (data.length - (data.length - data.length)) = data.take data.length :=
        by rw [Nat.sub_self, Nat.sub_zero]
      show Represents (update a f ((a f).write off (data.take _))) w'.mem w'.disk
      rw [show (Uio.drain _ _).resid = data.length - data.length from rfl, htake]
      refine h.grown hl t ?_ hlt
      show off + (data.take data.length).length = off + data.length
      rw [List.take_length]
    · have hk : k ≤ data.length := hk
      show Represents (update a f ((a f).write off (data.take _))) w'.mem w'.disk
      rw [show (Uio.drain _ _).resid = data.length - k from rfl,
        show data.length - (data.length - k) = k by omega]
      refine h.grown hl t ?_ (show off + k < 2147483648 by omega)
      show off + (data.take k).length = off + k
      rw [List.length_take, Nat.min_eq_left hk]
  obtain ⟨x, s', hr, hg', hkeep, hx, hrep⟩ := fine_run hg hw
  exact ⟨x, s', hr, hg', hkeep, hx, hrep⟩

/-! ## Any sequence of requests -/

theorem SameVolume.keepsLoaded (h : SameVolume s t) : KeepsLoaded s.mem t.mem := by
  rintro g ⟨sv, hg⟩
  exact ⟨sv, by rw [h.1.vnodes]; exact hg⟩

theorem request_run {r : Request} (h : Represents a s.mem s.disk)
    (hg : s.script = Script.good) (hl : ∃ sv, s.mem.sfsVnodes.get? r.file = some sv)
    (hlt : r.stop < 2147483648) : ∃ x s', r.prog.run s = (.done x, s') ∧ s'.script = Script.good ∧
      KeepsLoaded s.mem s'.mem ∧ r.Answers a x ∧ Represents (r.apply a x) s'.mem s'.disk := by
  cases r with
  | read f off len =>
    obtain ⟨x, s', hr, hg', hsame, hx⟩ := read_run h hg hl hlt
    refine ⟨x, s', hr, hg', hsame.keepsLoaded, fun hok => ?_, h.sameVolume hsame⟩
    unfold readOut at hx
    split at hx
    · exact (Prod.mk.inj hx).2
    · rw [hok] at hx
      cases (Prod.mk.inj hx).1
  | write f off data =>
    obtain ⟨x, s', hr, hg', hkeep, hx, hrep⟩ := write_run h hg hl hlt
    exact ⟨x, s', hr, hg', hkeep, hx, hrep⟩

/-- Any sequence of requests, from any consistent volume. -/
theorem requests_represent {rs : List Request} (h : Represents a s.mem s.disk)
    (hg : s.script = Script.good)
    (hrs : ∀ r ∈ rs, (∃ sv, s.mem.sfsVnodes.get? r.file = some sv) ∧ r.stop < 2147483648) :
    ∃ xs s', (requests rs).run s = (.done xs, s') ∧ AnswersAll a rs xs ∧
      Represents (applyAll a rs xs) s'.mem s'.disk := by
  induction rs generalizing a s with
  | nil => exact ⟨[], s, rfl, trivial, h⟩
  | cons r rs ih =>
    obtain ⟨hr, hrest⟩ := List.forall_mem_cons.1 hrs
    obtain ⟨x, s1, hx, hg1, hkeep, hans, hrep⟩ := request_run h hg hr.1 hr.2
    obtain ⟨xs, s2, hxs, hans', hrep'⟩ := ih hrep hg1 fun q hq =>
      ⟨hkeep _ (hrest q hq).1, (hrest q hq).2⟩
    refine ⟨x :: xs, s2, ?_, ⟨hans, hans'⟩, hrep'⟩
    show (Prog.bind r.prog fun x => Prog.bind (requests rs) fun xs => pure (x :: xs)).run s = _
    rw [Prog.run_bind, hx]
    show (Prog.bind (requests rs) _).run s1 = _
    rw [Prog.run_bind, hxs]
    rfl

/-! ## Divided requests -/

/-- A read and the rest of it. -/
theorem readOut_add (b : ByteFile) (off m n : Nat) :
    readOut b off (m + n) = match readOut b off m with
      | (.ok (), x) => ((readOut b (off + m) n).1, x ++ (readOut b (off + m) n).2)
      | (.error e, x) => (.error e, x) := by
  by_cases h1 : b.size ≤ off ∨ Fits off (min m (b.size - off))
  · rw [readOut_ok h1]
    by_cases h2 : b.size ≤ off + m ∨ Fits (off + m) (min n (b.size - (off + m)))
    · rw [readOut_ok h2, readOut_ok (by unfold Fits at *; omega), ByteFile.read_add]
    · -- the first part ends where the largest file does, or earlier
      rw [readOut_range h2, readOut_range (by unfold Fits at *; omega),
        show 73216 - off = m + (73216 - (off + m)) by unfold Fits at *; omega,
        ByteFile.read_add]
  · rw [readOut_range h1, readOut_range (by unfold Fits at *; omega)]

/-- `sfs_read` in consecutive pieces. -/
def readChunks (f : UInt32) : Nat → Nat → List Nat → SfsProg (Except Errno Unit × List UInt8)
  | off, n, [] => do
      let x ← sfsRead f off n
      pure (x.1, x.2.iov)
  | off, n, n' :: ns => do
      let x ← sfsRead f off n
      match x.1 with
      | .ok () => do
          let y ← readChunks f (off + n) n' ns
          pure (y.1, x.2.iov ++ y.2)
      | .error e => pure (.error e, x.2.iov)

include h hg hl in
theorem readChunks_run (hlt : off + (n :: ns).sum < 2147483648) :
    ∃ s', (readChunks f off n ns).run s = (.done (readOut (a f) off (n :: ns).sum), s') ∧
      SameVolume s s' := by
  induction ns generalizing off n s with
  | nil =>
    rw [List.sum_cons, List.sum_nil, Nat.add_zero] at hlt ⊢
    obtain ⟨x, s', hr, -, hsame, hx⟩ := read_run h hg hl hlt
    refine ⟨s', ?_, hsame⟩
    show (Prog.bind _ _).run s = _
    rw [Prog.run_bind, hr, ← hx]
    rfl
  | cons n' ns ih =>
    rw [List.sum_cons] at hlt ⊢
    obtain ⟨x, s1, hr, hg1, hsame, hx⟩ :=
      @read_run a s f off n h hg hl (by omega)
    rw [readOut_add, ← hx]
    show ∃ s', (Prog.bind _ _).run s = _ ∧ _
    rw [Prog.run_bind, hr]
    obtain ⟨_ | _, u⟩ := x
    · exact ⟨s1, rfl, hsame⟩
    · obtain ⟨s2, hr2, hsame2⟩ := @ih s1 (off + n) n' (h.sameVolume hsame) hg1
        (hsame.keepsLoaded f hl) (by omega)
      refine ⟨s2, ?_, hsame.trans hsame2⟩
      show (Prog.bind _ _).run s1 = _
      rw [Prog.run_bind, hr2]
      rfl

include h hg hl in
theorem read_divided (hlt : off + (n :: ns).sum < 2147483648) :
    Return (sfsRead f off (n :: ns).sum) (readChunks f off n ns)
      (fun r s' r' t' => r' = (r.1, r.2.iov) ∧ SameVolume s' t') s s := by
  obtain ⟨x, s', hr, -, hsame, hx⟩ := read_run h hg hl hlt
  obtain ⟨t', hr', hsame'⟩ := readChunks_run h hg hl hlt
  exact ⟨x, s', _, t', hr, hr', hx.symm, hsame.symm.trans hsame'⟩

theorem Near.sameVolume (h : Near f (fun sv => sv) s t) : SameVolume s t :=
  ⟨h.id_bufs, h.disk⟩

theorem write_divided {c : List UInt8} {cs : List (List UInt8)} (h : Fine f s)
    (hlt : off + (c :: cs).flatten.length < 2147483648) :
    Return (sfsWrite f off (c :: cs).flatten) (writeChunks f off c cs)
      (fun r s' r' t' => r'.1 = r.1 ∧ r'.2.offset = r.2.offset ∧ SameVolume s' t') s s := by
  obtain ⟨r, s', hr, -⟩ := write_fine h off (c :: cs).flatten
  exact rel_return (write_chunks h hlt) hr fun ⟨h1, h2, h3⟩ => ⟨h1, h2, h3.sameVolume⟩

/-! ## The two ways to move a block -/

/-- What a reader gets of one whole block. -/
def blockOut (v : FileView) (uio : Uio) : IoResult :=
  if uio.offset / 512 < 143 then (.ok (), uio.fill (v.slice uio.offset 512))
  else (.error .EINVAL, uio)

theorem blockOut_fault {v : FileView} {uio : Uio}
    (h : BmapFault (soloCtx noFaults) (uio.offset / 512) false e) :
    blockOut v uio = (.error e, uio) := by
  cases h with
  | range h => exact if_neg (by omega)
  | full h => cases h
  | read h => exact h.elim

theorem blockio_partialio_read (h : Fine f s) (hrw : v.rw = .UIO_READ) (ho : v.offset % 512 = 0)
    (hlen : 512 ≤ v.iovLen) (hres : 512 ≤ v.resid) :
    Return (sfsBlockio f v) (sfsPartialio f v 0 512)
      (fun r s' r' t' => r' = r ∧ SameVolume s' t') s s := by
  obtain ⟨live, leak, hs⟩ := h.sound
  obtain ⟨sv, hl⟩ := h.loaded
  let J := soloJob noFaults f live (hs.table.live hl)
  let Q := fun (r : IoResult) (w' : SfsWorld Unit) =>
    r = blockOut (view s.mem s.disk f) v ∧ SameVolume s ⟨w'.mem, w'.disk, s.script⟩
  have hb : wp J.c (sfsBlockio f v) Q (s.world ()) :=
    Job.blockio_read (J := J) (soloJob_held.2 hs) hl hrw ho hlen hres
      (fun t hfb => ⟨(if_pos hfb).symm, t.calm quiet_noFaults⟩)
      fun t he => ⟨(blockOut_fault he).symm, t.calm quiet_noFaults⟩
  have hp : wp J.c (sfsPartialio f v 0 512) Q (s.world ()) :=
    Job.partialio_read (J := J) (soloJob_held.2 hs) hl hrw ho le_rfl hlen hres
      (fun t hfb => ⟨(if_pos hfb).symm, t.calm quiet_noFaults⟩)
      fun t he => ⟨(blockOut_fault he).symm, t.calm quiet_noFaults⟩
  obtain ⟨r, s', hr, -, hr1, hsame⟩ := fine_run h.good hb
  obtain ⟨r', t', hr', -, hr1', hsame'⟩ := fine_run h.good hp
  exact ⟨r, s', r', t', hr, hr', hr1'.trans hr1.symm,
    SameVolume.trans (SameVolume.symm hsame) hsame'⟩

theorem blockio_partialio_write (h : Fine f s) (hrw : v.rw = .UIO_WRITE) (hlen : 512 ≤ v.iovLen)
    (hres : 512 ≤ v.resid) (hiov : 512 ≤ v.iov.length) :
    Return (sfsBlockio f v) (sfsPartialio f v 0 512)
      (fun r s' r' t' => r' = r ∧ SameVolume s' t') s s := by
  have hrel := blockio_partialio h hrw hlen hres hiov
  obtain ⟨r', t', hr', -⟩ := @partialio_keeps f 512 v 0
    ⟨hrw, hlen, hres, hiov⟩ le_rfl s h
  obtain ⟨r, s', hr, -⟩ := rel_run (rel_symm hrel) hr'
  exact rel_return hrel hr fun ⟨h1, h2⟩ => ⟨h1, h2.sameVolume⟩

/-! ## The result -/

/-- On a consistent volume, on a device that does not fail, files are byte
arrays to every sequence of requests; a whole block comes to the same through
either of the two paths; and so does a request whether it is made at once or
in consecutive pieces. -/
theorem sfsIo_refines_byteFile (h : Represents a s.mem s.disk)
    (hg : s.script = Script.good) :
    (∀ rs : List Request,
      (∀ r ∈ rs, (∃ sv, s.mem.sfsVnodes.get? r.file = some sv) ∧ r.stop < 2147483648) →
      ∃ xs s', (requests rs).run s = (.done xs, s') ∧ AnswersAll a rs xs ∧
        Represents (applyAll a rs xs) s'.mem s'.disk) ∧
    ∀ f, (∃ sv, s.mem.sfsVnodes.get? f = some sv) →
      (∀ v : Uio, v.offset % 512 = 0 → 512 ≤ v.iovLen → 512 ≤ v.resid →
        (v.rw = .UIO_WRITE → 512 ≤ v.iov.length) →
        Return (sfsBlockio f v) (sfsPartialio f v 0 512)
          (fun r s' r' t' => r' = r ∧ SameVolume s' t') s s) ∧
      (∀ off c cs, off + (c :: cs).flatten.length < 2147483648 →
        Return (sfsWrite f off (c :: cs).flatten) (writeChunks f off c cs)
          (fun r s' r' t' => r'.1 = r.1 ∧ r'.2.offset = r.2.offset ∧ SameVolume s' t') s s) ∧
      (∀ off n ns, off + (n :: ns).sum < 2147483648 →
        Return (sfsRead f off (n :: ns).sum) (readChunks f off n ns)
          (fun r s' r' t' => r' = (r.1, r.2.iov) ∧ SameVolume s' t') s s) := by
  refine ⟨fun rs hrs => requests_represent h hg hrs, fun f hl => ⟨fun v ho hlen hres hiov => ?_,
    fun off c cs hlt => write_divided (h.fine hg hl) hlt,
    fun off n ns hlt => read_divided h hg hl hlt⟩⟩
  cases hrw : v.rw with
  | UIO_READ => exact blockio_partialio_read (h.fine hg hl) hrw ho hlen hres
  | UIO_WRITE => exact blockio_partialio_write (h.fine hg hl) hrw hlen hres (hiov hrw)

end

theorem represents_newFileVolume :
    Represents (fun _ => ByteFile.empty) newFileVolume.mem newFileVolume.disk := by
  have hget : ∀ {f sv}, newFileVolume.mem.sfsVnodes.get? f = some sv → sv.svI = newFile := by
    intro f sv hl
    rw [get?_newFileVolume] at hl
    split at hl
    · rw [← Option.some.inj hl]
    · cases hl
  refine ⟨⟨_, _, sound_newFileVolume.1⟩, fun hl => ?_, fun _ => by decide, fun hl => ?_⟩
  · rw [hget hl]
    rfl
  · rw [hget hl]
    funext p
    exact if_pos ((bare_newFile _).2 (p / 512))

/-- Two bytes written to a new file, and the second one read back. -/
theorem sfsIo_refines_byteFile_fresh :
    ∃ xs s', (requests [.write 3 0 [7, 8], .read 3 1 1]).run newFileVolume = (.done xs, s') ∧
      AnswersAll (fun _ => ByteFile.empty) [.write 3 0 [7, 8], .read 3 1 1] xs ∧
      xs.map (fun x => x.2.iov) = [[], [8]] := by
  have hl : ∃ sv, newFileVolume.mem.sfsVnodes.get? 3 = some sv :=
    ⟨_, (get?_newFileVolume 3).trans (if_pos rfl)⟩
  obtain ⟨hrun, -⟩ := sfsIo_refines_byteFile represents_newFileVolume sound_newFileVolume.2
  obtain ⟨xs, s', hr, hans, -⟩ := hrun [.write 3 0 [7, 8], .read 3 1 1] fun r hr => by
    simp only [List.mem_cons, List.not_mem_nil, or_false] at hr
    rcases hr with rfl | rfl <;> exact ⟨hl, by decide⟩
  have hout : (match ((requests [.write 3 0 [7, 8], .read 3 1 1]).run newFileVolume).1 with
    | .done xs => xs.map (fun x => x.2.iov)
    | .crash _ => []) = [[], [8]] := by decide +kernel
  rw [hr] at hout
  exact ⟨xs, s', hr, hans, hout⟩

end Os161.Sfs
