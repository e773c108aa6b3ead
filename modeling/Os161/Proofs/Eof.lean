import Os161.Proofs.FileRefine

/-!
# Reads and the end of a file

A read that reaches past EOF is shortened to what is left of the file, and
`sfs_io` notices by comparing `uio_offset + uio_resid` with the size. The sum is
put into an `off_t`. A length comes from the user as a `size_t`, so the sum may
not fit; it is then negative, or less than `uio_offset`, and the request is
taken at its full length. It runs past EOF through blocks that read as zeros,
until `sfs_bmap` has no more blocks to offer.

`StopsAtEof` is what a read should do whatever its length. If it fails where
nothing fails, then so does the request for just the bytes that are there: that
happens for a size beyond the largest file, and has nothing to do with the
length.
-/

namespace Os161.Sfs

open Os161.Kern Os161.Lib

/-! ## What a read should do -/

/-- The bytes there are for a request. -/
def available (size off len : Nat) : Nat := min len (size - off)

/-- The uio of a request for `len` bytes at `off` after `k` of them. -/
structure Delivered (v : FileView) (off len k : Nat) (u : Uio) : Prop where
  iov : u.iov = v.slice off k
  offset : u.offset = off + k
  resid : u.resid = len - k

/-- A read fails though nothing else does. -/
def FailsAnyway (f : UInt32) (off len : Nat) (s : SfsMachine) (e : Errno) : Prop :=
  ∃ u s', (sfsRead f off len).run { s with script := Script.good } = (.done (.error e, u), s')

/-- How a read may end on a device that answers as `t` says, with `n` bytes
there for it. -/
inductive ReadEnds (f : UInt32) (off len n : Nat) (s : SfsMachine) (t : Script IoErr) :
    IoResult → Prop where
  | ok {u : Uio} : Delivered (view s.mem s.disk f) off len n u →
      ReadEnds f off len n s t (.ok (), u)
  | error {u : Uio} {e : Errno} {k : Nat} : k ≤ n →
      Delivered (view s.mem s.disk f) off len k u →
      ((∃ x, some x ∈ t.rd ∧ x.errno = e) ∨ FailsAnyway f off n s e) →
      ReadEnds f off len n s t (.error e, u)

/-- `sfs_read` delivers what there is, whatever the device does. -/
def StopsAtEof (f : UInt32) (off len : Nat) (s : SfsMachine) : Prop :=
  ∀ t, ∃ r s', (sfsRead f off len).run { s with script := t } = (.done r, s') ∧
    ReadEnds f off len (available (view s.mem s.disk f).inode.sfiSize.toNat off len) s t r

/-! ## What it does -/

/-- The faults in a script. -/
def faultsOf (t : Script IoErr) : Faults where
  rd x := some x ∈ t.rd
  wr x := some x ∈ t.wr
  mem := false ∈ t.mem

/-- A proof about a thread alone, for any answers of the device. -/
theorem faulty_run {X : Type} {s : SfsMachine} {p : SfsProg X} {Q : X → SfsWorld Unit → Prop}
    (h : wp (soloCtx (faultsOf s.script)) p Q (s.world ())) :
    ∃ x s', p.run s = (.done x, s') ∧ Q x (s'.world ()) := by
  have hadm : (soloCtx (faultsOf s.script)).Admits s.script :=
    ⟨fun _ he => he, fun _ he => he, fun he => he⟩
  exact wp_run_done (fun _ => rfl) hadm (fun _ => id) h

section
variable {live leak : Set UInt32} {s : SfsMachine} {f : UInt32} {sv : SfsVnode}
  {off len n : Nat} {t : Script IoErr}

/-- `n` is what `sfs_io` takes the request for. -/
inductive Took (v : FileView) (off len n : Nat) (t : Script IoErr) : IoResult → Prop where
  | ok {u : Uio} : v.inode.sfiSize.toNat ≤ off ∨ Fits off n → Delivered v off len n u →
      Took v off len n t (.ok (), u)
  | error {u : Uio} {e : Errno} {k : Nat} : off < v.inode.sfiSize.toNat → k ≤ n →
      (k = 0 ∨ off + k ≤ 73216) → IoFault (soloCtx (faultsOf t)) false off n k e →
      Delivered v off len k u → Took v off len n t (.error e, u)

theorem read_took (hs : Sound live leak s.mem s.disk) (hl : s.mem.sfsVnodes.get? f = some sv)
    (hsize : sv.svI.sfiSize.toNat < 2147483648) (hoff : off < 2147483648)
    (hlen : len < 4294967296) (hn : Job.clip sv.svI.sfiSize.toNat off len = n)
    (t : Script IoErr) :
    ∃ r s', (sfsRead f off len).run { s with script := t } = (.done r, s') ∧
      Took (view s.mem s.disk f) off len n t r := by
  have hview := view_size (d := s.disk) hl
  have hoT := Job.offT_small hsize
  have hdel : ∀ k, Delivered (view s.mem s.disk f) off len k
      ((mkKuio [] len off .UIO_READ).fill ((view s.mem s.disk f).slice off k)) := by
    intro k
    refine ⟨List.nil_append _, ?_, ?_⟩ <;> simp [Uio.fill, mkKuio]
  let J := soloJob (faultsOf t) f live (hs.table.live hl)
  have hw : wp J.c (sfsRead f off len) (fun r _ => Took (view s.mem s.disk f) off len n t r)
      (Machine.world { s with script := t } ()) := by
    refine Job.io_read (J := J) (soloJob_held.2 hs) hl rfl le_rfl hoff hlen
      (by rw [hoT]; exact hn) (fun _ hfit => .ok ?_ (hdel n))
      fun {e k _ _} _ hlt hk hend hf => .error ?_ hk hend hf (hdel k)
    · rw [hview]
      rw [hoT] at hfit
      exact hfit.imp_left Int.ofNat_le.1
    · rw [hview]
      rw [hoT] at hlt
      exact Int.ofNat_lt.1 hlt
  obtain ⟨r, s', hrun, hr⟩ := faulty_run (s := { s with script := t }) hw
  exact ⟨r, s', hrun, hr⟩

/-! ## The end of the request -/

variable {size : Nat}

theorem clip_available (hs : size < 2147483648) (h : size ≤ off ∨ off + len < 2147483648)
    (hoff : off < 2147483648) : Job.clip size off len = available size off len := by
  by_cases hle : size ≤ off
  · rw [Job.clip, Job.offT_small hoff, if_pos (Int.ofNat_le.2 hle), available]
    omega
  · have hc := clip_eq hs (h.resolve_left hle)
    rwa [Job.offT_small hs] at hc

/-- The sum does not fit into an `off_t`, so it is not past the size. -/
theorem clip_wrapped (hs : size < 2147483648) (hoff : off < size)
    (hlen : len < 4294967296) (hw : 2147483648 ≤ off + len) : Job.clip size off len = len := by
  have hcases := offT_cases (off + len)
  rw [Job.clip, Job.offT_small (by omega : off < 2147483648), if_neg (by omega),
    if_neg (by omega)]

theorem IoFault.not_fits {c : SfsCtx Unit} {k : Nat} {e : Errno} (h : IoFault c false off n k e)
    (hk : k ≤ n) (hr : ∀ x, ¬ c.rdErr x) : e = .EINVAL ∧ ¬ Fits off n := by
  cases h with
  | range h1 h2 h3 => exact ⟨rfl, by unfold Fits; omega⟩
  | full h => cases h
  | read h => exact absurd h (hr _)

theorem not_rdErr_good (x : IoErr) : ¬ (soloCtx (faultsOf Script.good)).rdErr x := by
  simp [faultsOf, soloCtx, Script.good]

/-- Bytes that are there can be read if a file can have them. -/
theorem failsAnyway_iff {e : Errno} (hs : Sound live leak s.mem s.disk)
    (hl : s.mem.sfsVnodes.get? f = some sv) (hsize : sv.svI.sfiSize.toNat < 2147483648)
    (hoff : off < sv.svI.sfiSize.toNat) (hn : off + n ≤ sv.svI.sfiSize.toNat) :
    FailsAnyway f off n s e ↔ e = .EINVAL ∧ ¬ Fits off n := by
  have hclip : Job.clip sv.svI.sfiSize.toNat off n = n := by
    rw [clip_available hsize (by omega) (by omega), available]
    omega
  have hview := view_size (d := s.disk) hl
  obtain ⟨r, s', hrun, htook⟩ :=
    read_took hs hl hsize (by omega) (by omega) hclip Script.good
  constructor
  · rintro ⟨u, s'', hrun'⟩
    rw [hrun, Prod.mk.injEq, Outcome.done.injEq] at hrun'
    rw [hrun'.1] at htook
    cases htook with
    | error _ hk _ hf _ => exact hf.not_fits hk not_rdErr_good
  · rintro ⟨rfl, hnot⟩
    cases htook with
    | ok hfit _ =>
      rw [hview] at hfit
      exact absurd (hfit.resolve_left (by omega)) hnot
    | @error u e k _ hk _ hf _ =>
      obtain ⟨rfl, -⟩ := hf.not_fits hk not_rdErr_good
      exact ⟨u, s', hrun⟩

/-- The condition under which the end of a file ends a read: the sum of offset
and length is an `off_t`, or does not matter. -/
def EndsInRange (size off len : Nat) : Prop :=
  size ≤ off ∨ off + len < 2147483648 ∨ 73216 < size

/-- What there is for a request lies in the file. -/
theorem available_le (h : off < size) : off + available size off len ≤ size := by
  unfold available
  omega

section
variable (hs : Sound live leak s.mem s.disk) (hl : s.mem.sfsVnodes.get? f = some sv)
include hs hl

theorem stopsAtEof_of (hsize : sv.svI.sfiSize.toNat < 2147483648)
    (hoff : off < 2147483648) (hlen : len < 4294967296)
    (hin : EndsInRange sv.svI.sfiSize.toNat off len) : StopsAtEof f off len s := by
  have hview := view_size (d := s.disk) hl
  intro t
  rw [hview]
  by_cases hfit : sv.svI.sfiSize.toNat ≤ off ∨ off + len < 2147483648
  · obtain ⟨r, s', hrun, htook⟩ :=
      read_took hs hl hsize hoff hlen (clip_available hsize hfit hoff) t
    refine ⟨r, s', hrun, ?_⟩
    cases htook with
    | ok _ hdel => exact .ok hdel
    | error hlt hk _ hf hdel =>
      rw [hview] at hlt
      refine .error hk hdel ?_
      cases hf with
      | range h1 h2 h3 =>
        exact .inr ((failsAnyway_iff hs hl hsize hlt (available_le hlt)).2
          ⟨rfl, by unfold Fits; omega⟩)
      | full h => cases h
      | read hx => exact .inl ⟨_, hx, rfl⟩
  · -- the request keeps its length, but the file is too large for what there is as well
    have hlt : off < sv.svI.sfiSize.toNat := by omega
    have hbig : 73216 < sv.svI.sfiSize.toNat := by
      unfold EndsInRange at hin
      omega
    obtain ⟨r, s', hrun, htook⟩ :=
      read_took hs hl hsize hoff hlen (clip_wrapped hsize hlt hlen (by omega)) t
    refine ⟨r, s', hrun, ?_⟩
    cases htook with
    | ok hfit' _ =>
      rw [hview] at hfit'
      unfold Fits at hfit'
      omega
    | error _ hk hend hf hdel =>
      refine .error (by unfold available; omega) hdel ?_
      cases hf with
      | range _ _ _ =>
        exact .inr ((failsAnyway_iff hs hl hsize hlt (available_le hlt)).2
          ⟨rfl, by unfold Fits available; omega⟩)
      | full h => cases h
      | read hx => exact .inl ⟨_, hx, rfl⟩
    
/-- Without the condition the request fails, and only because it is long. -/
theorem read_too_long (hoff : off < sv.svI.sfiSize.toNat)
    (hsize : sv.svI.sfiSize.toNat ≤ 73216) (hlen : len < 4294967296) (hw : 2147483648 ≤ off + len) :
    FailsAnyway f off len s .EINVAL ∧
      ∀ e, ¬ FailsAnyway f off (available sv.svI.sfiSize.toNat off len) s e := by
  have hview := view_size (d := s.disk) hl
  constructor
  · obtain ⟨r, s', hrun, htook⟩ := read_took hs hl (by omega) (by omega) hlen
      (clip_wrapped (by omega) hoff hlen hw) Script.good
    cases htook with
    | ok hfit _ =>
      rw [hview] at hfit
      unfold Fits at hfit
      omega
    | @error u e k _ hk _ hf _ =>
      obtain ⟨rfl, -⟩ := hf.not_fits hk not_rdErr_good
      exact ⟨u, s', hrun⟩
  · intro e hfail
    obtain ⟨-, hnot⟩ := (failsAnyway_iff hs hl (by omega) hoff (available_le hoff)).1 hfail
    have hle : off + available sv.svI.sfiSize.toNat off len ≤ sv.svI.sfiSize.toNat :=
      available_le hoff
    exact hnot (.inl (by omega))

theorem not_stopsAtEof (hoff : off < sv.svI.sfiSize.toNat) (hsize : sv.svI.sfiSize.toNat ≤ 73216)
    (hlen : len < 4294967296) (hw : 2147483648 ≤ off + len) : ¬ StopsAtEof f off len s := by
  intro hstops
  have hview := view_size (d := s.disk) hl
  obtain ⟨⟨u, s', hrun⟩, hnever⟩ := read_too_long hs hl hoff hsize hlen hw
  obtain ⟨r, s'', hrun', hends⟩ := hstops Script.good
  rw [hrun, Prod.mk.injEq, Outcome.done.injEq] at hrun'
  rw [hview, ← hrun'.1] at hends
  cases hends with
  | error _ _ hwhy =>
    rcases hwhy with ⟨x, hx, -⟩ | hfail
    · exact not_rdErr_good x hx
    · exact hnever _ hfail

end

/-- A read stops at EOF exactly if its end can be computed. -/
theorem stopsAtEof_iff (hs : Sound live leak s.mem s.disk)
    (hl : s.mem.sfsVnodes.get? f = some sv) (hsize : sv.svI.sfiSize.toNat < 2147483648)
    (hoff : off < 2147483648) (hlen : len < 4294967296) :
    StopsAtEof f off len s ↔ EndsInRange sv.svI.sfiSize.toNat off len := by
  refine ⟨fun hstops => ?_, stopsAtEof_of hs hl hsize hoff hlen⟩
  by_contra hout
  unfold EndsInRange at hout
  exact not_stopsAtEof hs hl (by omega) (by omega) hlen (by omega) hstops

end

/-! ## A file of one byte -/

/-- A request for more than there is ends where the file does. -/
theorem stopsAtEof_one_byte :
    ∃ (s : SfsMachine) (f : UInt32) (live leak : Set UInt32) (sv : SfsVnode),
      Sound live leak s.mem s.disk ∧ s.mem.sfsVnodes.get? f = some sv ∧
      sv.svI.sfiSize.toNat = 1 ∧ StopsAtEof f 0 2147483647 s := by
  obtain ⟨s, f, live, sv, hs, hl, hi⟩ := exists_file 1
  have hsize : sv.svI.sfiSize.toNat = 1 := by
    rw [hi]
    rfl
  exact ⟨s, f, live, ∅, sv, hs, hl, hsize,
    (stopsAtEof_iff hs hl (by omega) (by omega) (by omega)).2 (.inr (.inl (by omega)))⟩

/-- One byte more, and the sum is negative: the request fails, where the one for
the byte that is there succeeds. -/
theorem read_past_eof :
    ∃ (s : SfsMachine) (f : UInt32) (live leak : Set UInt32) (sv : SfsVnode),
      Sound live leak s.mem s.disk ∧ s.mem.sfsVnodes.get? f = some sv ∧
      sv.svI.sfiSize.toNat = 1 ∧ FailsAnyway f 0 2147483648 s .EINVAL ∧
      (∀ e, ¬ FailsAnyway f 0 1 s e) ∧ ¬ StopsAtEof f 0 2147483648 s := by
  obtain ⟨s, f, live, sv, hs, hl, hi⟩ := exists_file 1
  have hsize : sv.svI.sfiSize.toNat = 1 := by
    rw [hi]
    rfl
  obtain ⟨hfails, hnever⟩ := @read_too_long live ∅ s f sv 0 2147483648 hs hl (by omega)
    (by omega) (by omega) (by omega)
  rw [hsize] at hnever
  exact ⟨s, f, live, ∅, sv, hs, hl, hsize, hfails, hnever,
    not_stopsAtEof hs hl (by omega) (by omega) (by omega) (by omega)⟩

end Os161.Sfs
