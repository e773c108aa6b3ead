import Os161.Proofs.FileIo
import Os161.Sfs.Directory

/-!
# Directory routines

`sfs_readdir` and `sfs_writedir` move 64 bytes that lie within one block, so
that a transfer is one `sfs_partialio` and an entry is written as a whole or
not at all. A failed append may still have raised the size of the directory;
what it has gained is a free slot (`IsDir.grown`).

The routines above them are told in terms of the table: `sfs_dir_findname`
looks at every slot (`FindSpec`), `sfs_dir_link` fills a free one, and
`sfs_dir_unlink` frees one.
-/

namespace Os161.Sfs

open Os161.Kern Os161.Lib

variable {G : Type}

/-! ## Bytes and slots -/

variable {v v' : FileView} {off n i : Nat} {l : List UInt8} {es : Entries}

theorem FileView.slice_congr (h : ∀ p, off ≤ p → p < off + n → v'.byte p = v.byte p) :
    v'.slice off n = v.slice off n := by
  refine List.map_congr_left fun i hi => ?_
  have := List.mem_range.1 hi
  exact h _ (by omega) (by omega)

theorem FileView.slice_patch (h : v'.byte = patchBytes v.byte off l) :
    v'.slice off l.length = l := by
  refine List.ext_getElem (by simp) fun i h1 h2 => ?_
  simp only [FileView.slice, List.getElem_map, List.getElem_range, h, patchBytes]
  rw [if_pos (by omega), Nat.add_sub_cancel_left, List.getD_eq_getElem _ _ h2]

theorem FileView.slice_patch_other {o : Nat} (h : v'.byte = patchBytes v.byte off l)
    (hd : o + n ≤ off ∨ off + l.length ≤ o) : v'.slice o n = v.slice o n := by
  refine FileView.slice_congr fun p h1 h2 => ?_
  rw [h, patchBytes, if_neg (by omega)]

/-- A slot of the directory is written. -/
theorem IsDir.written {s : Option (CString × UInt32)} (h : IsDir v es) (hi : i ≤ es.length)
    (hmax : i < maxEntries) (hs : SlotOk s) (htype : v'.inode.sfiType = v.inode.sfiType)
    (hsize : v'.inode.sfiSize.toNat = max (es.length * 64) (i * 64 + 64))
    (hbyte : v'.byte = patchBytes v.byte (i * 64) (SfsDir.ofSlot s).toBytes) :
    IsDir v' (es.fill i s) := by
  have hlen := SfsDir.length_toBytes (SfsDir.length_ofSlot hs)
  have hfill : (es.fill i s).length = if i < es.length then es.length else es.length + 1 :=
    Slots.length_fill
  have hroom := h.room
  refine ⟨htype.trans h.type, ?_, ?_, fun {j s'} hj => ?_, fun p hp => ?_, fun {j name ino}
    hj => ?_⟩
  · rw [hsize, hfill]
    split <;> omega
  · rw [hfill]
    split <;> omega
  · rw [Slots.getElem?_fill hi] at hj
    split at hj
    · next he =>
      subst he
      obtain rfl := Option.some.inj hj
      have := FileView.slice_patch hbyte
      rwa [hlen] at this
    · next hne =>
      rw [FileView.slice_patch_other hbyte (by rw [hlen]; omega)]
      exact h.slot hj
  · rw [hbyte, patchBytes, hlen]
    rw [hfill] at hp
    rw [if_neg (by split at hp <;> omega)]
    exact h.past p (by split at hp <;> omega)
  · rw [Slots.At, Slots.getElem?_fill hi] at hj
    split at hj
    · exact hs name ino (Option.some.inj hj)
    · exact h.wf hj

/-- Nothing has become of the directory. -/
theorem IsDir.congr (h : IsDir v es) (htype : v'.inode.sfiType = v.inode.sfiType)
    (hsize : v'.inode.sfiSize = v.inode.sfiSize) (hbyte : v'.byte = v.byte) : IsDir v' es where
  type := htype.trans h.type
  size := by rw [hsize, h.size]
  room := h.room
  slot hs := (FileView.slice_congr fun p _ _ => by rw [hbyte]).trans (h.slot hs)
  past p hp := by
    rw [hbyte]
    exact h.past p hp
  wf := h.wf

/-! ## Transfers within one block -/

/-- Such a request is one piece. -/
theorem ioPieces_single {c : SfsCtx G} {w : SfsWorld G} {f : UInt32} {uio : Uio}
    {Q : IoResult → SfsWorld G → Prop} (hpos : 0 < uio.resid) (hlt : uio.resid < 512)
    (hin : uio.offset % 512 + uio.resid ≤ 512)
    (h : wp c (sfsPartialio f uio (uio.offset % 512) uio.resid)
      (fun r w' => Q r w' ∧ (r.1 = .ok () → r.2.resid = 0)) w) :
    wp c (ioPieces f uio) Q w := by
  rw [ioPieces, wp_onOk, ioHead]
  by_cases h0 : uio.offset % 512 = 0
  · -- it starts a block, and is the trailing piece
    rw [if_pos h0, wp_pure]
    show wp c (if uio.resid = 0 then _ else _) Q w
    rw [if_neg (by omega), wp_bind]
    refine wp_assert_of h0 ?_
    rw [show uio.resid / blockSize = 0 from Nat.div_eq_of_lt hlt, ioBlocks, wp_onOk, wp_pure]
    show wp c (ioTail f uio) Q w
    rw [ioTail, wp_bind]
    refine wp_assert_of hlt ?_
    rw [if_neg (by omega)]
    rw [h0] at h
    exact wp_mono h fun r w' hr => hr.1
  · rw [if_neg h0, show min (blockSize - uio.offset % blockSize) uio.resid = uio.resid from
      Nat.min_eq_right (by show uio.resid ≤ 512 - uio.offset % 512; omega)]
    refine wp_mono h fun r w' hr => ?_
    obtain ⟨_ | _, u⟩ := r
    · exact hr.1
    · show wp c (if _ then _ else _) Q w'
      rw [if_pos (hr.2 rfl)]
      exact hr.1

namespace Job

variable {J : Job G} {L : Set UInt32} {w : SfsWorld G}

/-- A write within one block: all of it, or nothing. -/
theorem write_single [Stores J.c] {uio : Uio} {sv : SfsVnode} {Q : IoResult → SfsWorld G → Prop}
    (h : J.Held ∅ L w) (hl : w.mem.sfsVnodes.get? J.f = some sv) (hrw : uio.rw = .UIO_WRITE)
    (hpos : 0 < uio.resid) (hlt : uio.resid < 512) (hin : uio.offset % 512 + uio.resid ≤ 512)
    (hlen : uio.resid ≤ uio.iovLen) (hoff : uio.offset + uio.resid < 2147483648)
    (hsz : offT sv.svI.sfiSize.toNat < offT (uio.offset + uio.resid) →
      J.sz (uio.offset + uio.resid))
    (hle : offT uio.offset ≤ offT sv.svI.sfiSize.toNat)
    (hok : ∀ {L' w'}, J.Grown uio.offset (uio.iov.take uio.resid) (uio.offset + uio.resid)
      L w L' w' → uio.offset / 512 < 143 → Q (.ok (), uio.drain uio.resid) w')
    (herr : ∀ {e L' w'}, J.Mapped L w L' w' → BmapFault J.c (uio.offset / 512) true e →
      Q (.error e, uio) w') : wp J.c (sfsIo J.f uio) Q w := by
  have hi : ∀ {sv' : SfsVnode} {w' : SfsWorld G}, w'.mem.sfsVnodes.get? J.f = some sv' →
      (w'.view J.f).inode = sv'.svI := by
    intro sv' w' hl'
    rw [SfsWorld.view, view_of_get? hl']
    rfl
  have hsize : ∀ {l L' w' sv'}, J.Wrote uio.offset l L w L' w' →
      w'.mem.sfsVnodes.get? J.f = some sv' → sv'.svI.sfiSize = sv.svI.sfiSize := by
    intro l L' w' sv' t hl'
    rw [← hi hl', ← hi hl]
    exact t.size
  refine ioWrite_of (ioPieces_single hpos hlt hin ?_) hrw
  refine partialio_write h hl hrw rfl hin hlen le_rfl (fun {L' w'} t hfb => ?_)
    fun {e L' w'} t he => ?_
  · obtain ⟨sv', hl'⟩ := t.get? hl
    refine ⟨⟨sv', hl', ?_⟩, fun _ => Nat.sub_self _⟩
    exact hok (sized t hl' hoff fun hlt' => hsz (hsize t hl' ▸ hlt')) hfb
  · obtain ⟨sv', hl'⟩ := (t.wrote uio.offset).get? hl
    refine ⟨⟨sv', hl', ?_⟩, by rintro ⟨⟩⟩
    rw [if_neg (by rw [hsize (t.wrote uio.offset) hl']; exact Int.not_lt.2 hle)]
    exact herr t he

/-! ## Reading slots -/

section
variable {es : Entries} {sv : SfsVnode}

variable {slot : Nat} {s : Option (CString × UInt32)} {Q : FindResult → SfsWorld G → Prop}
  {name : CString} {found : Option (UInt32 × Nat)} {emptyslot : Option Nat} {L' : Set UInt32}
  {w' : SfsWorld G}

/-- `sfs_readdir` of a slot of the directory. -/
theorem readdir {Q : Except Errno SfsDir → SfsWorld G → Prop} (h : J.Held ∅ L w)
    (hl : w.mem.sfsVnodes.get? J.f = some sv) (hd : IsDir (w.view J.f) es)
    (hs : es[slot]? = some s) (hok : ∀ {L' w'}, J.Passed L w L' w' → Q (.ok (SfsDir.ofSlot s)) w')
    (herr : ∀ {e L' w'}, J.Passed L w L' w' → J.c.rdErr e → Q (.error e.errno) w') :
    wpE J.c (sfsReaddir J.f slot) Q w := by
  have hlt : slot < es.length := (List.getElem?_eq_some_iff.1 hs).1
  have hroom : es.length ≤ 1144 := hd.room
  have hsize : sv.svI.sfiSize.toNat = es.length * 64 := view_size (d := w.disk) hl ▸ hd.size
  have hoT : offT sv.svI.sfiSize.toNat = (es.length * 64 : Nat) := by
    rw [hsize, offT_small (by omega)]
  have hclip : clip (offT sv.svI.sfiSize.toNat) (slot * 64) 64 = 64 := by
    rw [clip, hoT, offT_small (by omega), offT_small (by omega), if_neg (by omega),
      if_neg (by omega)]
  rw [sfsReaddir, wpE_call_bind]
  refine io_read h hl rfl le_rfl (show slot * 64 < 2147483648 by omega)
    (show 64 < 4294967296 by decide) hclip (fun t _ => ?_) fun t hpos hk _ hf => ?_
  · have hlen : ((w.view J.f).slice (slot * 64) 64).length = 64 :=
      FileView.length_slice ..
    have hres : ¬ 0 < (J.readUio w (mkKuio [] 64 (slot * 64) .UIO_READ) 64).resid := by
      show ¬ 0 < 64 - ((w.view J.f).slice (slot * 64) 64).length
      omega
    rw [if_neg hres, wpE_pure]
    have hbytes : (J.readUio w (mkKuio [] 64 (slot * 64) .UIO_READ) 64).iov =
        (SfsDir.ofSlot s).toBytes := hd.slot hs
    rw [hbytes, SfsDir.ofBytes_ofSlot (hd.slotOk hs)]
    exact hok t
  · cases hf with
    | range hge hk' hn =>
      have hge : 73216 ≤ slot * 64 + _ := hge
      omega
    | full hx => cases hx
    | read he => exact herr t he

theorem dirNentries {Q : Nat → SfsWorld G → Prop} (hl : w.mem.sfsVnodes.get? J.f = some sv)
    (hd : IsDir (w.view J.f) es) : wp J.c (sfsDirNentries J.f) Q w ↔ Q es.length w := by
  have htype : sv.svI.sfiType = sfsTypeDir := by
    have := hd.type
    rwa [SfsWorld.view, view_of_get? hl] at this
  have hsize : sv.svI.sfiSize.toNat = es.length * 64 := view_size (d := w.disk) hl ▸ hd.size
  rw [sfsDirNentries, wp_bind, wp_vnode hl, wp_bind, Prog.assert, if_pos htype]
  show wp J.c (if sv.svI.sfiSize.toNat % 64 ≠ 0 then _ else _) Q w ↔ _
  rw [if_neg (by rw [hsize]; omega), wp_pure, hsize]
  show Q (es.length * 64 / 64) w ↔ _
  rw [Nat.mul_div_cancel _ (by decide)]

/-- What `sfs_dir_findname` knows after the first `n` slots. -/
structure SeenTo (es : Entries) (name : CString) (n : Nat) (found : Option (UInt32 × Nat))
    (emptyslot : Option Nat) : Prop where
  hit : ∀ r, found = some r → r.2 < n ∧ es.At r.2 name r.1
  miss : found = none → ∀ i < n, ∀ ino, ¬ es.At i name ino
  spare : ∀ i, emptyslot = some i → es[i]? = some none

/-- What it reports in the end. -/
inductive FindSpec (es : Entries) (name : CString) : FindResult → Prop where
  | found {ino : UInt32} {i : Nat} {slot : Option Nat} : es.At i name ino →
      FindSpec es name (.ok (ino, i), slot)
  | absent {slot : Option Nat} : es.Absent name → (∀ i, slot = some i → es[i]? = some none) →
      FindSpec es name (.error .ENOENT, slot)

theorem SeenTo.spec (h : SeenTo es name es.length found emptyslot) :
    FindSpec es name (match found with
      | some r => (.ok r, emptyslot) | none => (.error .ENOENT, emptyslot)) := by
  cases found with
  | none => exact .absent (fun i v hat => h.miss rfl i hat.lt v hat) h.spare
  | some r => exact .found (h.hit r rfl).2

theorem SeenTo.step {n : Nat} (h : SeenTo es name n found emptyslot) (hs : es[n]? = some s) :
    (s = none → SeenTo es name (n + 1) found (some n)) ∧
    (∀ name' ino, s = some (name', ino) → name' ≠ name → SeenTo es name (n + 1) found emptyslot) ∧
    ∀ ino, s = some (name, ino) → SeenTo es name (n + 1) (some (ino, n)) emptyslot := by
  have hmiss : (∀ ino, s ≠ some (name, ino)) → found = none →
      ∀ i < n + 1, ∀ ino, ¬ es.At i name ino := by
    intro hne hf i hi ino hat
    rcases Nat.lt_or_ge i n with hlt | hge
    · exact h.miss hf i hlt ino hat
    · obtain rfl : i = n := by omega
      exact hne ino (Option.some.inj (hs.symm.trans hat))
  have hhit : ∀ r, found = some r → r.2 < n + 1 ∧ es.At r.2 name r.1 := fun r hr =>
    ⟨Nat.lt_succ_of_lt (h.hit r hr).1, (h.hit r hr).2⟩
  refine ⟨fun hn => ⟨hhit, hmiss (by simp [hn]), fun i hi => ?_⟩,
    fun name' ino hn hne => ⟨hhit, hmiss (by simp [hn, hne]), h.spare⟩,
    fun ino hn => ⟨fun r hr => ?_, fun hx => (by cases hx), h.spare⟩⟩
  · cases hi
    rw [hs, hn]
  · cases hr
    exact ⟨Nat.lt_succ_self n, hs.trans (congrArg some hn)⟩

theorem findnameLoop {left : Nat} (hdist : es.Distinct) (h : J.Held ∅ L w)
    (hl : w.mem.sfsVnodes.get? J.f = some sv) (hd : IsDir (w.view J.f) es)
    (hle : left ≤ es.length) (hseen : SeenTo es name (es.length - left) found emptyslot)
    (hok : ∀ {r L' w'}, J.Passed L w L' w' → FindSpec es name r → Q r w')
    (herr : ∀ {e slot L' w'}, J.Passed L w L' w' → J.c.rdErr e → Q (.error e.errno, slot) w') :
    wp J.c (findname.loop J.f name es.length left found emptyslot) Q w := by
  induction left generalizing L w found emptyslot with
  | zero =>
    have := hok (.refl h) hseen.spec
    cases found with
    | none => exact this
    | some r => exact this
  | succ left ih =>
    rw [findname.loop, wp_bind, wp_run_iff]
    have hlt : es.length - (left + 1) < es.length := by omega
    have hnext : es.length - (left + 1) + 1 = es.length - left := by omega
    have hs := List.getElem?_eq_getElem hlt
    obtain ⟨hnone, hother, hname⟩ := hseen.step hs
    rw [hnext] at hnone hother hname
    refine readdir h hl hd hs (fun {L' w'} t => ?_) herr
    have hl' := t.get?.trans hl
    have hd' : IsDir (w'.view J.f) es := by rwa [t.view]
    have hgo : ∀ {found emptyslot}, SeenTo es name (es.length - left) found emptyslot →
        wp J.c (findname.loop J.f name es.length left found emptyslot) Q w' := fun hseen' =>
      ih t.held hl' hd' (by omega) hseen' (fun t' => hok (t.trans t'))
        fun t' => herr (t.trans t')
    have hwf := hd.slotOk hs
    cases hslot : es[es.length - (left + 1)] with
    | none =>
      show wp J.c (if sfsNoino = sfsNoino then _ else _) Q w'
      rw [if_pos rfl]
      exact hgo (hnone hslot)
    | some e =>
      obtain ⟨name', ino⟩ := e
      obtain ⟨hn, hi⟩ := hwf name' ino hslot
      show wp J.c (if ino = sfsNoino then _ else if (SfsDir.entry ino name').name = name then _
        else _) Q w'
      rw [if_neg hi, SfsDir.name_entry hn]
      by_cases he : name' = name
      · subst he
        rw [if_pos rfl, wp_bind]
        refine wp_assert_of ?_ (hgo (hname ino hslot))
        -- a name that has been seen already is in an earlier slot
        cases found with
        | none => rfl
        | some r =>
          obtain ⟨hr, hat⟩ := hseen.hit r rfl
          have hat' : es.At (es.length - (left + 1)) name' ino :=
            hs.trans (congrArg some hslot)
          exact absurd (hdist hat hat') (Nat.ne_of_lt hr)
      · rw [if_neg he]
        exact hgo (hother name' ino hslot he)

theorem dirFindname (hdist : es.Distinct) (h : J.Held ∅ L w)
    (hl : w.mem.sfsVnodes.get? J.f = some sv) (hd : IsDir (w.view J.f) es)
    (hok : ∀ {r L' w'}, J.Passed L w L' w' → FindSpec es name r → Q r w')
    (herr : ∀ {e slot L' w'}, J.Passed L w L' w' → J.c.rdErr e → Q (.error e.errno, slot) w') :
    wp J.c (sfsDirFindname J.f name) Q w := by
  rw [sfsDirFindname, wp_bind, dirNentries hl hd]
  refine findnameLoop hdist h hl hd le_rfl ⟨fun r hr => ?_, fun _ i hi => ?_,
    fun i hi => ?_⟩ hok herr
  · cases hr
  · omega
  · cases hi

/-! ## Writing slots -/

/-- The job's file has been changed, as far as `Grows` allows, and no other. -/
structure Touched (J : Job G) (L : Set UInt32) (w : SfsWorld G) (L' : Set UInt32)
    (w' : SfsWorld G) : Prop where
  later : Later J.c L L'
  held : J.Held ∅ L' w'
  frame : Frame (J.S \ {J.f}) w w'
  grows : Grows J.sz J.f w w'
  started : w.started = true → w'.started = true

theorem Mapped.touched (t : J.Mapped L w L' w') : J.Touched L w L' w' :=
  ⟨t.later, t.held, t.frame, t.grows, t.started⟩

theorem Grown.touched {off q : Nat} {l : List UInt8} (t : J.Grown off l q L w L' w') :
    J.Touched L w L' w' :=
  ⟨t.later, t.held, t.frame, t.grows, t.started⟩

theorem Passed.touched (t : J.Passed L w L' w') : J.Touched L w L' w' :=
  t.mapped.touched

theorem Touched.trans {L1 L2 : Set UInt32} {w1 w2 : SfsWorld G} (h1 : J.Touched L w L1 w1)
    (h2 : J.Touched L1 w1 L2 w2) : J.Touched L w L2 w2 where
  later := h1.later.trans h2.later
  held := h2.held
  frame := h1.frame.trans h2.frame
  grows := h1.grows.trans h2.grows
  started hs := h2.started (h1.started hs)

/-- `sfs_writedir` of a slot of the directory, or of the one behind the last. -/
theorem writedir [Stores J.c] {Q : Except Errno Unit → SfsWorld G → Prop} (h : J.Held ∅ L w)
    (hl : w.mem.sfsVnodes.get? J.f = some sv) (hd : IsDir (w.view J.f) es)
    (hs : SlotOk s) (hi : slot ≤ es.length) (hsz : slot = es.length → J.sz (slot * 64 + 64))
    (hok : ∀ {L' w'}, J.Touched L w L' w' → IsDir (w'.view J.f) (es.fill slot s) → Q (.ok ()) w')
    (herr : ∀ {e L' w'}, J.Touched L w L' w' → IsDir (w'.view J.f) es →
      BmapFault J.c (slot / 8) true e → Q (.error e) w') :
        wpE J.c (sfsWritedir J.f (SfsDir.ofSlot s) slot) Q w := by
  have hroom : es.length ≤ 1144 := hd.room
  have hsize : sv.svI.sfiSize.toNat = es.length * 64 := view_size (d := w.disk) hl ▸ hd.size
  have hoT : offT sv.svI.sfiSize.toNat = (es.length * 64 : Nat) := by
    rw [hsize, offT_small (by omega)]
  have hlen := SfsDir.length_toBytes (SfsDir.length_ofSlot hs)
  have hblk : slot * 64 / 512 = slot / 8 := by omega
  have hv : (w.view J.f).inode.sfiSize = sv.svI.sfiSize := view_size hl
  -- how far the directory reaches afterwards
  have hgrown : ∀ {l L' w'}, J.Grown (slot * 64) l (slot * 64 + 64) L w L' w' →
      (w'.view J.f).inode.sfiSize.toNat = max (es.length * 64) (slot * 64 + 64) :=
    fun t => by rw [t.size, hv, grownSize_toNat (by omega) (by omega), hsize]
  rw [sfsWritedir, wpE_call_bind]
  refine write_single h hl rfl (show 0 < 64 by decide) (show 64 < 512 by decide)
    (show slot * 64 % 512 + 64 ≤ 512 by omega) le_rfl
    (show slot * 64 + 64 < 2147483648 by omega) (fun hlt => ?_) ?_ (fun {L' w'} t hfb => ?_)
    fun {e L' w'} t he => ?_
  · have hlt : offT sv.svI.sfiSize.toNat < offT (slot * 64 + 64) := hlt
    rw [hoT, offT_small (by omega)] at hlt
    exact hsz (by omega)
  · show offT (slot * 64) ≤ _
    rw [hoT, offT_small (by omega)]
    omega
  · have hfb : slot * 64 / 512 < 143 := hfb
    refine hok t.touched (hd.written hi (show slot < 1144 by omega) hs t.grows.type (hgrown t) ?_)
    have hbyte : (w'.view J.f).byte = patchBytes (w.view J.f).byte (slot * 64)
      ((SfsDir.ofSlot s).toBytes.take 64) := t.byte
    rwa [List.take_of_length_le (Nat.le_of_eq hlen)] at hbyte
  · refine herr t.touched (hd.congr t.grows.type t.size t.byte) ?_
    rw [← hblk]
    exact he

/-- `sfs_dir_link`: a free slot is filled. -/
theorem dirLink [Stores J.c] {ino : UInt32} (hdist : es.Distinct) (hino : ino ≠ sfsNoino)
    {Q : Except Errno Nat → SfsWorld G → Prop} (h : J.Held ∅ L w)
    (hl : w.mem.sfsVnodes.get? J.f = some sv) (hd : IsDir (w.view J.f) es)
    (hsz : J.sz (es.length * 64 + 64))
    (hok : ∀ {slot L' w'}, J.Touched L w L' w' → es.Absent name → es.Free slot →
      IsDir (w'.view J.f) (es.put slot name ino) → Q (.ok slot) w')
    (hbound : ∀ {i x L' w'}, J.Passed L w L' w' → es.At i name x → Q (.error .EEXIST) w')
    (hlong : ∀ {L' w'}, J.Passed L w L' w' → es.Absent name → sfsNamelen < name.strlen + 1 →
      Q (.error .ENAMETOOLONG) w')
    (hread : ∀ {e L' w'}, J.Passed L w L' w' → J.c.rdErr e → Q (.error e.errno) w')
    (herr : ∀ {e fb L' w'}, J.Touched L w L' w' → es.Absent name → IsDir (w'.view J.f) es →
      BmapFault J.c fb true e → Q (.error e) w') : wpE J.c (sfsDirLink J.f name ino) Q w := by
  rw [sfsDirLink, wpE_call_bind]
  refine dirFindname hdist h hl hd (fun {r L1 w1} t1 hr => ?_) fun {e slot L1 w1} t1 he => ?_
  · have hl1 := t1.get?.trans hl
    have hd1 : IsDir (w1.view J.f) es := by rwa [t1.view]
    cases hr with
    | found hat => exact hbound t1 hat
    | @absent slot habs hspare =>
      show wpE J.c (if (Errno.ENOENT : Errno) ≠ .ENOENT then _ else _) Q w1
      rw [if_neg (not_not_intro rfl)]
      by_cases hlen : sfsNamelen < name.strlen + 1
      · rw [if_pos hlen]
        exact hlong t1 habs hlen
      rw [if_neg hlen]
      -- the entry goes into `i`
      have hwrite : ∀ i, es.Free i →
          wpE J.c (sfsWritedir J.f (SfsDir.entry ino name) i >>= fun _ => pure i) Q w1 := by
        intro i hfree
        rw [wpE_bind]
        refine writedir (s := some (name, ino)) t1.held hl1 hd1
          (slotOk_some (Nat.not_lt.1 hlen) hino) hfree.le (fun he => he ▸ hsz)
          (fun t hd => ?_) fun t hd hf => ?_
        · exact hok (t1.touched.trans t) habs hfree hd
        · exact herr (t1.touched.trans t) habs hd hf
      cases slot with
      | some i => exact hwrite i (.inl (hspare i rfl))
      | none =>
        rw [wpE_call_bind, dirNentries hl1 hd1]
        exact hwrite es.length (.inr rfl)
  · have hne : e.errno ≠ .ENOENT := by cases e <;> decide
    show wpE J.c (if e.errno ≠ .ENOENT then _ else _) Q w1
    rw [if_pos hne]
    exact hread t1 he

end

end Job

end Os161.Sfs
