import Os161.Proofs.Mksfs
import Os161.Proofs.Store

/-!
# What a failed open leaves behind

`vfs_open` takes references on its way and gives them back before it returns an
error. `Amid` is what holds in between: the counts are those of the beginning, plus
the references that it holds.

One thing is not taken back. A file that `sfs_creat` has made is there, and has its
name, when VOP_OPEN or the check of O_TRUNC turns the flags down afterwards. All this
is for a device that stores what is written to it; and with O_TRUNC for one that can
be read, since `sfs_truncate` has let the direct blocks go when it finds that it
cannot read the indirect block.
-/

namespace Os161.Sfs

open Os161.Kern Os161.Lib Function

/-- The directory binds `name` to `ino`: one of its slots says so. -/
def FileView.Binds (v : FileView) (name : CString) (ino : UInt32) : Prop :=
  ∃ k, (k + 1) * 64 ≤ v.inode.sfiSize.toNat ∧
    (SfsDir.ofBytes (v.slice (k * 64) 64)).sfdIno = ino ∧ ino ≠ sfsNoino ∧
    (SfsDir.ofBytes (v.slice (k * 64) 64)).name = name

theorem IsDir.binds_iff {v : FileView} {es : Entries} (h : IsDir v es) {name : CString}
    {ino : UInt32} : v.Binds name ino ↔ ∃ i, es.At i name ino := by
  have hslot : ∀ {k s}, es[k]? = some s →
      SfsDir.ofBytes (v.slice (k * 64) 64) = SfsDir.ofSlot s := by
    intro k s hs
    rw [h.slot hs, SfsDir.ofBytes_ofSlot (h.slotOk hs)]
  have hsize := h.size
  constructor
  · rintro ⟨k, hk, hino, hne, hname⟩
    have hlt : k < es.length := by omega
    have hs := List.getElem?_eq_getElem hlt
    rw [hslot hs] at hino hname
    refine ⟨k, hs.trans ?_⟩
    cases hc : es[k] with
    | none =>
      rw [hc] at hino
      exact absurd hino.symm hne
    | some e =>
      obtain ⟨name', ino'⟩ := e
      rw [hc] at hino hname
      have hwf := h.wf (hs.trans (congrArg some hc))
      rw [show (SfsDir.ofSlot (some (name', ino'))).name = name' from
        SfsDir.name_entry hwf.1] at hname
      rw [hname, ← hino]
      rfl
  · rintro ⟨k, hat⟩
    have hwf := h.wf hat
    refine ⟨k, ?_, ?_, hwf.2, ?_⟩
    · have := hat.lt
      omega
    · rw [hslot hat]
      rfl
    · rw [hslot hat]
      exact SfsDir.name_entry hwf.1

namespace Open

/-- What is to hold when a routine has returned. -/
abbrev Post (α : Type) : Type := Except Errno α → Beside → SfsWorld Unit → Prop

/-! ## In between -/

/-- What has become of the names and the files: they are those of before, except for
a file by the name `new` that has been made. -/
structure Text (A₀ A : Store) (new : Option CString) : Prop where
  live : A₀.live ⊆ A.live
  ok : A.Ok
  same : ∀ name, new ≠ some name → ∀ ino,
    (∃ i, A.es.At i name ino) ↔ ∃ i, A₀.es.At i name ino
  made : ∀ name, new = some name → A₀.es.Absent name ∧ ∃ i ino, A.es.At i name ino
  file : ∀ f ∈ A₀.live, f ≠ sfsRootLocation → A.file f = A₀.file f

/-- What has become of the counts: there are our references. -/
structure Tally (A₀ : Store) (t₀ : Beside) (held opened : Multiset Vnode) (A : Store)
    (t : Beside) : Prop where
  refs : ∀ f, A.refs f = A₀.refs f + held.count (.file f)
  opens : ∀ f, A.opens f = A₀.opens f + opened.count (.file f)
  devRefs : ∀ d, t.refs d = t₀.refs d + held.count (.dev d)
  devOpens : ∀ d, t.opens d = t₀.opens d + opened.count (.dev d)

/-- `A` and `t` are what has become of `A₀` and `t₀`, with references to `held`. A file
that we are the only ones to refer to has a name. -/
structure Mid (A₀ : Store) (t₀ : Beside) (new : Option CString) (held opened : Multiset Vnode)
    (A : Store) (t : Beside) : Prop where
  text : Text A₀ A new
  tally : Tally A₀ t₀ held opened A t
  links : ∀ f, .file f ∈ held → A₀.refs f = 0 → A.links f ≠ 0
  dev : ∀ d, .dev d ∈ held → t₀.refs d ≠ 0

def Amid (A₀ : Store) (t₀ : Beside) (new : Option CString) (held opened : Multiset Vnode)
    (t : Beside) (w : SfsWorld Unit) : Prop :=
  ∃ A L, Mid A₀ t₀ new held opened A t ∧ Holds A L w

section
variable {x : Faults} {A₀ A : Store} {t₀ t t' : Beside} {new : Option CString}
  {held opened : Multiset Vnode} {L : Set UInt32} {w : SfsWorld Unit} {f : UInt32}

/-! ## References -/

theorem count_file_cons (f g : UInt32) (held : Multiset Vnode) :
    (Vnode.file f ::ₘ held).count (.file g) = held.count (.file g) + if g = f then 1 else 0 := by
  rw [Multiset.count_cons]
  simp only [Vnode.file.injEq]

theorem count_dev_cons (f : UInt32) (d : Nat) (held : Multiset Vnode) :
    (Vnode.file f ::ₘ held).count (.dev d) = held.count (.dev d) := by
  rw [Multiset.count_cons_of_ne]
  simp

theorem count_file_cons_dev (d : Nat) (f : UInt32) (held : Multiset Vnode) :
    (Vnode.dev d ::ₘ held).count (.file f) = held.count (.file f) := by
  rw [Multiset.count_cons_of_ne]
  simp

theorem file_injective : Injective Vnode.file := fun _ _ h => Vnode.file.inj h

theorem dev_injective : Injective Vnode.dev := fun _ _ h => Vnode.dev.inj h

section Counts
variable {ι : Type} [DecidableEq ι] {k : ι → Vnode} {c b : ι → Nat} {m : Multiset Vnode} {i : ι}

/-- A count of references, with one more of them. -/
theorem counts_cons (hk : Injective k) (h : ∀ j, c j = b j + m.count (k j)) (j : ι) :
    update c i (c i + 1) j = b j + (k i ::ₘ m).count (k j) := by
  have hi := h i
  have hj := h j
  rw [Multiset.count_cons, update_apply]
  by_cases he : j = i
  · subst he
    rw [if_pos rfl, if_pos rfl]
    omega
  · rw [if_neg he, if_neg fun hc => he (hk hc)]
    omega

theorem counts_uncons (hk : Injective k) (h : ∀ j, c j = b j + (k i ::ₘ m).count (k j))
    (j : ι) : update c i (c i - 1) j = b j + m.count (k j) := by
  have hi := h i
  have hj := h j
  rw [Multiset.count_cons] at hi hj
  rw [if_pos rfl] at hi
  rw [update_apply]
  by_cases he : j = i
  · subst he
    rw [if_pos rfl]
    omega
  · rw [if_neg fun hc => he (hk hc)] at hj
    rw [if_neg he]
    omega

end Counts

/-- Names and files do not depend on the counts. -/
theorem Text.count (h : Text A₀ A new) (r o : Nat) : Text A₀ (A.count f r o) new :=
  ⟨h.live, ⟨h.ok.distinct, h.ok.bound, h.ok.rootLinks⟩, h.same, h.made, h.file⟩

namespace Tally

theorem congr {A' : Store} (h : Tally A₀ t₀ held opened A t) (hr : A'.refs = A.refs)
    (ho : A'.opens = A.opens) : Tally A₀ t₀ held opened A' t :=
  ⟨fun g => by rw [hr, h.refs], fun g => by rw [ho, h.opens], h.devRefs, h.devOpens⟩

theorem ref (h : Tally A₀ t₀ held opened A t) :
    Tally A₀ t₀ (.file f ::ₘ held) opened (A.ref f) t := by
  refine ⟨counts_cons file_injective h.refs, fun g => ?_, fun d => ?_, h.devOpens⟩
  · show update A.opens f (A.opens f) g = _
    rw [update_eq_self, h.opens]
  · rw [count_dev_cons, h.devRefs]

theorem unref (h : Tally A₀ t₀ (.file f ::ₘ held) opened A t) :
    Tally A₀ t₀ held opened (A.unref f) t := by
  refine ⟨counts_uncons file_injective h.refs, fun g => ?_, fun d => ?_, h.devOpens⟩
  · show update A.opens f (A.opens f) g = _
    rw [update_eq_self, h.opens]
  · rw [h.devRefs, count_dev_cons]

/-- One more reference to the vnode of a device. -/
theorem redev {d : Nat} (h : Tally A₀ t₀ held opened A t) :
    Tally A₀ t₀ (.dev d ::ₘ held) opened A
      { t with refs := update t.refs d (t.refs d + 1) } := by
  refine ⟨fun g => ?_, h.opens, counts_cons dev_injective h.devRefs, h.devOpens⟩
  rw [count_file_cons_dev, h.refs]

/-- One reference less to the vnode of a device. -/
theorem undev {d : Nat} (h : Tally A₀ t₀ (.dev d ::ₘ held) opened A t) :
    Tally A₀ t₀ held opened A { t with refs := update t.refs d (t.refs d - 1) } := by
  refine ⟨fun g => ?_, h.opens, counts_uncons dev_injective h.devRefs, h.devOpens⟩
  rw [h.refs, count_file_cons_dev]

end Tally

namespace Mid

theorem ref (h : Mid A₀ t₀ new held opened A t) (hl : A₀.refs f = 0 → A.links f ≠ 0) :
    Mid A₀ t₀ new (.file f ::ₘ held) opened (A.ref f) t := by
  refine ⟨h.text.count _ _, h.tally.ref, fun g hg hr => ?_, fun d hd => ?_⟩
  · rcases Multiset.mem_cons.1 hg with he | hg
    · cases he
      exact hl hr
    · exact h.links g hg hr
  · rcases Multiset.mem_cons.1 hd with he | hd
    · cases he
    · exact h.dev d hd

theorem unref (h : Mid A₀ t₀ new (.file f ::ₘ held) opened A t) :
    Mid A₀ t₀ new held opened (A.unref f) t :=
  ⟨h.text.count _ _, h.tally.unref, fun g hg => h.links g (Multiset.mem_cons_of_mem hg),
    fun d hd => h.dev d (Multiset.mem_cons_of_mem hd)⟩

theorem redev {d : Nat} (h : Mid A₀ t₀ new held opened A t) (hd : t₀.refs d ≠ 0) :
    Mid A₀ t₀ new (.dev d ::ₘ held) opened A
      { t with refs := update t.refs d (t.refs d + 1) } := by
  refine ⟨h.text, h.tally.redev, fun g hg hr => ?_, fun e he => ?_⟩
  · rcases Multiset.mem_cons.1 hg with he | hg
    · cases he
    · exact h.links g hg hr
  · rcases Multiset.mem_cons.1 he with he | he
    · cases he
      exact hd
    · exact h.dev e he

theorem undev {d : Nat} (h : Mid A₀ t₀ new (.dev d ::ₘ held) opened A t) :
    Mid A₀ t₀ new held opened A { t with refs := update t.refs d (t.refs d - 1) } :=
  ⟨h.text, h.tally.undev, fun g hg => h.links g (Multiset.mem_cons_of_mem hg),
    fun d hd => h.dev d (Multiset.mem_cons_of_mem hd)⟩

/-- What we refer to is loaded. -/
theorem refs_ne_zero (h : Mid A₀ t₀ new held opened A t) (hf : .file f ∈ held) :
    A.refs f ≠ 0 := by
  have hrefs := h.tally.refs f
  have hpos := Multiset.count_pos.2 hf
  omega

end Mid

/-- `vnode_incref`, of a vnode that we refer to or somebody did from the beginning. -/
theorem Amid.incref (h : Amid A₀ t₀ new held opened t w) (hf : .file f ∈ held ∨ A₀.refs f ≠ 0) :
    Amid A₀ t₀ new (.file f ::ₘ held) opened t (w.withMem (w.mem.withVnode f fun sv =>
      { sv with vnRefcount := sv.vnRefcount + 1 })) := by
  obtain ⟨A, L, hm, hA⟩ := h
  rcases hf with hf | hf
  · exact ⟨_, L, hm.ref (hm.links f hf), hA.incref (hm.refs_ne_zero hf)⟩
  · have hrefs := hm.tally.refs f
    exact ⟨_, L, hm.ref fun h0 => absurd h0 hf, hA.incref (by omega)⟩

variable {v : Vnode} {Q : Post Unit} {α : Type} (hopen : ∀ f, A₀.opens f ≤ A₀.refs f)
  {openflags : UInt32} {buflen : Nat} {es : Entries} {canwrite : Bool}

include hopen in
theorem wpR_decref [Stores (soloCtx x)] (h : Amid A₀ t₀ new (v ::ₘ held) opened t w)
    (hsub : opened ≤ held)
    (hQ : ∀ t' w', Amid A₀ t₀ new held opened t' w' → Q (.ok ()) t' w') :
    wpR (soloCtx x) (vopDecref v) Q t w := by
  obtain ⟨A, L, hm, hA⟩ := h
  cases v with
  | file f =>
    rw [vopDecref, wpR_call]
    have hrefs := hm.tally.refs f
    rw [count_file_cons, if_pos rfl] at hrefs
    have hopens := hm.tally.opens f
    have hle := hopen f
    have hcount := Multiset.le_iff_count.1 hsub (.file f)
    exact wp_decref hA (by omega)
      (fun hr => hm.links f (Multiset.mem_cons_self _ _) (by omega))
      fun w' hA' => hQ t w' ⟨_, L, hm.unref, hA'⟩
  | dev d =>
    have hrefs := hm.tally.devRefs d
    have hpos := hm.dev d (Multiset.mem_cons_self _ _)
    rw [Multiset.count_cons_self] at hrefs
    rw [vopDecref, wpR_bind, wpR_look]
    dsimp only
    rw [wpR_call_bind]
    refine wp_assert_of (by omega) ?_
    rw [if_pos (by omega), wpR_note]
    exact hQ _ w ⟨A, L, hm.undev, hA⟩

/-- A vnode with `sfs_fileops`. -/
def Vnode.IsFile : Vnode → Prop
  | .file f => f ≠ sfsRootLocation
  | .dev _ => False

/-- Somebody referred to the vnode from the beginning. -/
def Vnode.Known (A₀ : Store) (t₀ : Beside) : Vnode → Prop
  | .file f => A₀.refs f ≠ 0
  | .dev d => t₀.refs d ≠ 0

theorem wpR_incref (h : Amid A₀ t₀ new held opened t w) (hv : v ∈ held ∨ v.Known A₀ t₀)
    (hQ : ∀ t' w', Amid A₀ t₀ new (v ::ₘ held) opened t' w' → Q (.ok ()) t' w') :
    wpR (soloCtx x) (vopIncref v) Q t w := by
  cases v with
  | file f =>
    rw [vopIncref, wpR_call, vnodeIncref, wp_setVnode]
    exact hQ t _ (h.incref hv)
  | dev d =>
    obtain ⟨A, L, hm, hA⟩ := h
    rw [vopIncref, wpR_note]
    exact hQ _ w ⟨A, L, hm.redev (hv.elim (hm.dev d) id), hA⟩

theorem wpR_getroot {Q : Post UInt32}
    (h : Amid A₀ t₀ new held opened t w) (hx : x.fails .getroot)
    (hQ : ∀ w', Amid A₀ t₀ new (.file sfsRootLocation ::ₘ held) opened t w' →
      Q (.ok sfsRootLocation) t w') :
    wpR (soloCtx x) (Rec.call sfsGetroot) Q t w := by
  obtain ⟨A, L, hm, hA⟩ := h
  rw [wpR_call]
  exact wp_getroot hA hx fun w' hA' =>
    hQ w' ⟨_, L, hm.ref fun _ => hm.text.ok.rootLinks, hA'⟩

/-! ## Where a path begins -/

/-- The places are referred to. -/
structure Places.Ok (P : Places) (A₀ : Store) (t₀ : Beside) : Prop where
  cwd : ∀ v, P.cwd = some v → A₀.refs v ≠ 0
  bootfs : ∀ v, P.bootfs = some v → A₀.refs v ≠ 0
  named : ∀ name d, P.named name = .ok (.device d) → t₀.refs d ≠ 0

variable {P : Places} {path name : CString} (hP : P.Ok A₀ t₀) (hx : x.fails .getroot)

theorem wpR_getcurdir {Q : Post UInt32}
    (h : Amid A₀ t₀ new held opened t w) (hP : P.Ok A₀ t₀)
    (hok : ∀ v t' w', Amid A₀ t₀ new (.file v ::ₘ held) opened t' w' → Q (.ok v) t' w')
    (herr : ∀ e, Q (.error e) t w) : wpR (soloCtx x) (vfsGetcurdir P) Q t w := by
  rw [vfsGetcurdir]
  cases hc : P.cwd with
  | none => exact herr _
  | some v =>
    rw [wpR_bind]
    exact wpR_incref h (.inr (hP.cwd v hc)) (hok v)

/-- What `getdevice` leaves of a path. -/
def subpath (path : CString) : CString :=
  match Vfs.getdevice.scan path.bytes 0 with
  | (_, some (colon + 1)) => (path.after (colon + 2)).skip Vfs.chSlash
  | (slash, none) => if slash ≠ some 0 then path else (path.after 1).skip Vfs.chSlash
  | (_, some 0) => (path.after 1).skip Vfs.chSlash

section
variable {Q : Post (CString × Vnode)}
    (h : Amid A₀ t₀ new 0 0 t w)
    (herr : ∀ e t' w', Amid A₀ t₀ new 0 0 t' w' → Q (.error e) t' w')
include hopen hP hx h herr

theorem wpR_getdeviceRoot [Stores (soloCtx x)] (hok : ∀ v t' w', Amid A₀ t₀ new (v ::ₘ 0) 0 t' w' →
      Q (.ok ((path.after 1).skip Vfs.chSlash, v)) t' w') : wpR (soloCtx x) (getdevice.root P path)
        Q t w := by
  rw [getdevice.root]
  split
  · cases hb : P.bootfs with
    | none => exact herr _ t w h
    | some v =>
      rw [wpR_bind]
      exact wpR_incref h (.inr (hP.bootfs v hb)) (hok _)
  · rw [wpR_bind]
    refine wpR_getcurdir h hP (fun v t1 w1 h1 => ?_) fun e => herr e t w h
    dsimp only
    rw [wpR_bind]
    refine wpR_getroot h1 hx fun w2 h2 => ?_
    dsimp only
    rw [wpR_bind]
    rw [Multiset.cons_swap] at h2
    exact wpR_decref hopen h2 (Multiset.zero_le _) (hok _)

theorem wpR_getdevice [Stores (soloCtx x)] (hok : ∀ v t' w', Amid A₀ t₀ new (v ::ₘ 0) 0 t' w' →
      Q (.ok (subpath path, v)) t' w') : wpR (soloCtx x) (getdevice P path) Q t w := by
  rcases hscan : Vfs.getdevice.scan path.bytes 0 with ⟨slash, _ | _ | colon⟩
  · simp only [subpath, hscan] at hok
    simp only [getdevice, hscan]
    split
    · next hslash =>
      rw [if_pos hslash] at hok
      rw [wpR_bind]
      exact wpR_getcurdir h hP (fun v => hok _) fun e => herr e t w h
    · next hslash =>
      rw [if_neg hslash] at hok
      exact wpR_getdeviceRoot hopen hP hx h herr hok
  · simp only [subpath, hscan] at hok
    simp only [getdevice, hscan]
    exact wpR_getdeviceRoot hopen hP hx h herr hok
  · simp only [subpath, hscan] at hok
    simp only [getdevice, hscan]
    rw [wpR_bind, vfsGetroot]
    cases hname : P.named _ with
    | error e => exact herr e t w h
    | ok v =>
      cases v with
      | volume =>
        rw [wpR_bind]
        exact wpR_getroot h hx fun w' h' => hok _ t w' h'
      | device d =>
        rw [wpR_bind]
        exact wpR_incref h (.inr (hP.named _ d hname)) (hok _)

end

/-! ## Operations on vnodes -/

/-- The operations of a file are `sfs_fileops`, those of the root directory
`sfs_dirops`. -/
theorem wpR_vop {fileop dirop : OpenM α} {Q : Post α}
    (h : Amid A₀ t₀ new held opened t w) (hf : .file f ∈ held)
    (hfile : f ≠ sfsRootLocation → wpR (soloCtx x) fileop Q t w)
    (hdir : f = sfsRootLocation → wpR (soloCtx x) dirop Q t w) :
    wpR (soloCtx x) (vop f fileop dirop) Q t w := by
  obtain ⟨A, L, hm, hA⟩ := h
  obtain ⟨sv, hl, -⟩ := hA.loaded (hm.refs_ne_zero hf)
  rw [vop, wpR_call_bind, wp_vnode hl, hA.sound.table.ops hl, opsOf]
  by_cases hr : f = sfsRootLocation
  · rw [if_pos hr]
    exact hdir hr
  · rw [if_neg hr]
    exact hfile hr

theorem wpR_ret {r : Except Errno α} {Q : Post α} :
    wpR (soloCtx x) (ret r) Q t w ↔ Q r t w := by
  cases r <;> exact .rfl

section
variable (h : Amid A₀ t₀ new held opened t w) (hv : v ∈ held)
include h hv

/-- VOP_OPEN changes nothing. -/
theorem wpR_vopOpen (hok : Q (.ok ()) t w)
    (herr : ∀ e, (v.IsFile → openflags &&& Vfs.oAppend ≠ 0) → Q (.error e) t w) :
    wpR (soloCtx x) (vopOpen P openflags v) Q t w := by
  cases v with
  | file f =>
    refine wpR_vop h hv (fun hne => wpR_ret.2 ?_) fun hr => wpR_ret.2 ?_
    · unfold sfsOpen
      split
      · next ha => exact herr _ fun _ => ha
      · exact hok
    · cases sfsOpendir openflags with
      | ok _ => exact hok
      | error e => exact herr e fun hf => absurd hr hf
  | dev d =>
    rw [vopOpen]
    split
    · exact herr _ fun hf => hf.elim
    · rw [wpR_ret]
      cases P.dOpen d openflags with
      | ok _ => exact hok
      | error e => exact herr e fun hf => hf.elim

/-- VOP_LOOKPARENT. The only directory is the root. -/
theorem wpR_vopLookparent {Q : Post (Vnode × CString)}
    (hok : ∀ w', Amid A₀ t₀ new (.file sfsRootLocation ::ₘ held) opened t w' →
      Q (.ok (.file sfsRootLocation, path)) t w') (herr : ∀ e, Q (.error e) t w) :
    wpR (soloCtx x) (vopLookparent path buflen v) Q t w := by
  cases v with
  | dev d => exact herr _
  | file f =>
    refine wpR_vop h hv (fun _ => herr _) fun hr => ?_
    subst hr
    have h' := h.incref (.inl hv)
    obtain ⟨A, L, hm, hA⟩ := h
    obtain ⟨sv, hl, -⟩ := hA.loaded (hm.refs_ne_zero hv)
    rw [wpR_bind, wpR_callE, sfsLookparent, wpE_call_bind, wp_vnode hl]
    split
    · exact herr _
    · split
      · exact herr _
      · rw [wpE_call_bind, vnodeIncref, wp_setVnode]
        exact hok _ h'

theorem wpR_vopLookup {Q : Post Vnode}
    (hok : ∀ v' t' w', Amid A₀ t₀ new (v' ::ₘ held) opened t' w' → Q (.ok v') t' w')
    (herr : ∀ e w', Amid A₀ t₀ new held opened t w' → Q (.error e) t w') :
    wpR (soloCtx x) (vopLookup path v) Q t w := by
  cases v with
  | dev d =>
    rw [vopLookup]
    split
    · exact herr _ w h
    · rw [wpR_bind]
      exact wpR_incref h (.inl hv) (hok _)
  | file f =>
    refine wpR_vop h hv (fun _ => herr _ w h) fun hr => ?_
    subst hr
    obtain ⟨A, L, hm, hA⟩ := h
    obtain ⟨sv, hl, -⟩ := hA.loaded (hm.refs_ne_zero hv)
    rw [wpR_bind, wpR_callE, sfsLookup, wpE_call_bind, wp_vnode hl]
    split
    · exact herr _ w ⟨A, L, hm, hA⟩
    · rw [wpE_bind]
      refine wp_lookonce hA hm.text.ok (hm.refs_ne_zero hv) (fun ino i L' w' hat _ hA' => ?_)
        fun e L' w' _ _ hA' => herr e w' ⟨A, L', hm, hA'⟩
      exact hok _ t w' ⟨_, L', hm.ref fun _ => (hm.text.ok.bound hat).2, hA'⟩

end

/-! ## Looking a path up -/

variable (t₀) in
include hopen in
/-- What `p` returns is returned once `vn` has been let go of. -/
theorem wpR_thenDecref [Stores (soloCtx x)] {p : OpenM α} {vn : Vnode}
    {Q : Post α}
    (hp : wpR (soloCtx x) p (fun r t' w' => ∃ new held', Amid A₀ t₀ new (vn ::ₘ held') 0 t' w' ∧
      ∀ t'' w'', Amid A₀ t₀ new held' 0 t'' w'' → Q r t'' w'') t w) :
    wpR (soloCtx x) (thenDecref p vn) Q t w := by
  rw [thenDecref, wpR_result_bind]
  refine wpR_mono hp fun r t' w' hr => ?_
  obtain ⟨_, held', h', hQ⟩ := hr
  rw [wpR_bind]
  exact wpR_decref hopen h' (Multiset.zero_le _) fun t'' w'' h'' => wpR_ret.2 (hQ t'' w'' h'')

include hopen hP hx in
theorem wpR_lookparent [Stores (soloCtx x)] {Q : Post (Vnode × CString)}
    (h : Amid A₀ t₀ new 0 0 t w)
    (hok : ∀ t' w', Amid A₀ t₀ new {.file sfsRootLocation} 0 t' w' →
      Q (.ok (.file sfsRootLocation, subpath path)) t' w')
    (herr : ∀ e t' w', Amid A₀ t₀ new 0 0 t' w' → Q (.error e) t' w') :
    wpR (soloCtx x) (vfsLookparent P path buflen) Q t w := by
  rw [vfsLookparent, wpR_bind]
  refine wpR_getdevice hopen hP hx h herr fun v t1 w1 h1 => ?_
  dsimp only
  split
  · exact wpR_thenDecref t₀ hopen ⟨_, 0, h1, fun t2 w2 h2 => herr _ t2 w2 h2⟩
  · refine wpR_thenDecref t₀ hopen (wpR_vopLookparent h1 (Multiset.mem_cons_self _ _)
      (fun w2 h2 => ⟨_, {.file sfsRootLocation}, ?_, fun t3 w3 h3 => hok t3 w3 h3⟩)
      fun e => ⟨_, 0, h1, fun t2 w2 h2 => herr _ t2 w2 h2⟩)
    rw [← Multiset.cons_zero, Multiset.cons_swap]
    exact h2

include hopen hP hx in
theorem wpR_lookup [Stores (soloCtx x)] {Q : Post Vnode} (h : Amid A₀ t₀ new 0 0 t w)
    (hok : ∀ v t' w', Amid A₀ t₀ new {v} 0 t' w' → Q (.ok v) t' w')
    (herr : ∀ e t' w', Amid A₀ t₀ new 0 0 t' w' → Q (.error e) t' w') :
    wpR (soloCtx x) (vfsLookup P path) Q t w := by
  rw [vfsLookup, wpR_bind]
  refine wpR_getdevice hopen hP hx h herr fun v t1 w1 h1 => ?_
  dsimp only
  split
  · exact hok v t1 w1 h1
  · refine wpR_thenDecref t₀ hopen (wpR_vopLookup h1 (Multiset.mem_cons_self _ _)
      (fun v' t2 w2 h2 => ⟨_, {v'}, ?_, fun t3 w3 h3 => hok v' t3 w3 h3⟩)
      fun e w2 h2 => ⟨_, 0, h2, fun t3 w3 h3 => herr _ t3 w3 h3⟩)
    rw [← Multiset.cons_zero, Multiset.cons_swap]
    exact h2

/-! ## Making a file -/

/-- `A'` differs from `A` in what it says about `f`. -/
structure Beyond (f : UInt32) (A A' : Store) : Prop where
  live : A.live ⊆ A'.live
  es : A'.es = A.es
  file : ∀ g, g ≠ f → A'.file g = A.file g
  rootLinks : A'.rootLinks = A.rootLinks

namespace Beyond

variable {A' : Store}

theorem links (h : Beyond f A A') {g : UInt32} (hg : g ≠ f) : A'.links g = A.links g := by
  rw [Store.links, Store.links, h.file g hg, h.rootLinks]

/-- A file that is not there has no name. -/
theorem ok (h : Beyond f A A') (hA : A.Ok) (hf : f ∉ A.live) : A'.Ok := by
  refine ⟨h.es ▸ hA.distinct, @fun i name ino hat => ?_, ?_⟩
  · rw [h.es] at hat
    obtain ⟨hlive, hlinks⟩ := hA.bound hat
    rw [h.links (ne_of_mem_of_not_mem hlive hf)]
    exact ⟨h.live hlive, hlinks⟩
  · rw [h.rootLinks]
    exact hA.rootLinks

theorem text (h : Beyond f A A') (ht : Text A₀ A new) (hf : f ∉ A.live) : Text A₀ A' new := by
  refine ⟨fun g hg => h.live (ht.live hg), h.ok ht.ok hf, h.es ▸ ht.same, h.es ▸ ht.made,
    fun g hg hne => ?_⟩
  exact (h.file g (ne_of_mem_of_not_mem (ht.live hg) hf)).trans (ht.file g hg hne)

end Beyond

section
variable (h : Mid A₀ t₀ none held opened A t) (hA : Holds A L w) (hf : f ∉ A.live)
include h hA hf

/-- Nobody refers to a file that is not there. -/
theorem Mid.refs_of_not_live : A.refs f = 0 ∧ A.opens f = 0 ∧ .file f ∉ held := by
  have hr := hA.refs_of_not_live hf
  exact ⟨hr, hA.opens_of_refs hr, fun hn => h.refs_ne_zero hn hr⟩

/-- A new file that has got its name. -/
theorem Mid.made {name : CString} {slot : Nat} (hne : f ≠ sfsRootLocation)
    (habs : A.es.Absent name) (hfree : A.es.Free slot) {v : FileView}
    (hv : v.inode.sfiLinkcount ≠ 0) : Mid A₀ t₀ (some name) (.file f ::ₘ held) opened
      (((A.add f).setEs (A.es.put slot name f)).setFile f v) t := by
  obtain ⟨hr, ho, hheld⟩ := h.refs_of_not_live hA hf
  have hfile : ∀ g, g ≠ f →
      (((A.add f).setEs (A.es.put slot name f)).setFile f v).file g = A.file g :=
    fun g hg => (update_of_ne hg ..).trans (update_of_ne hg ..)
  have hlinks : ∀ g, g ≠ f →
      (((A.add f).setEs (A.es.put slot name f)).setFile f v).links g = A.links g := by
    intro g hg
    rw [Store.links, Store.links, hfile g hg]
    rfl
  have hself : (((A.add f).setEs (A.es.put slot name f)).setFile f v).links f ≠ 0 := by
    rw [Store.links, if_neg hne]
    show (update (A.add f).file f v f).inode.sfiLinkcount ≠ 0
    rw [update_self]
    exact hv
  have hok := h.text.ok
  refine ⟨⟨fun g hg => .inr (h.text.live hg), ⟨Slots.Distinct.put hok.distinct habs hfree.le,
      @fun i name' ino hat => ?_, hok.rootLinks⟩, fun n hn ino => ?_, fun n hn => ?_,
      fun g hg hroot => ?_⟩, ?_, fun g hg hr => ?_, fun d hd => ?_⟩
  · rcases (Slots.at_put hfree.le).1 hat with ⟨-, -, hino⟩ | ⟨-, hat⟩
    · rw [hino]
      exact ⟨.inl rfl, hself⟩
    · obtain ⟨hlive, hl⟩ := hok.bound hat
      rw [hlinks ino (ne_of_mem_of_not_mem hlive hf)]
      exact ⟨.inr hlive, hl⟩
  · exact (Slots.exists_at_put hfree fun he => hn (congrArg some he.symm)).trans
      (h.text.same n (Option.some_ne_none _).symm ino)
  · cases hn
    refine ⟨fun i ino hat => ?_, slot, f, (Slots.at_put hfree.le).2 (.inl ⟨rfl, rfl, rfl⟩)⟩
    obtain ⟨j, hj⟩ := (h.text.same name (Option.some_ne_none _).symm ino).2 ⟨i, hat⟩
    exact habs j ino hj
  · rw [hfile g (ne_of_mem_of_not_mem (h.text.live hg) hf)]
    exact h.text.file g hg hroot
  · refine h.tally.ref.congr ?_ ?_
    · show update A.refs f 1 = update A.refs f (A.refs f + 1)
      rw [hr]
    · show update A.opens f 0 = update A.opens f (A.opens f)
      rw [ho]
  · rcases Multiset.mem_cons.1 hg with he | hg
    · cases he
      exact hself
    · rw [hlinks g fun he => hheld (he ▸ hg)]
      exact h.links g hg hr
  · rcases Multiset.mem_cons.1 hd with he | hd
    · cases he
    · exact h.dev d hd

/-- A new file that has not got its name, and is gone again. -/
theorem Mid.unmade : Mid A₀ t₀ none held opened ((A.add f).erase f) t := by
  obtain ⟨hr, ho, hheld⟩ := h.refs_of_not_live hA hf
  have hb : Beyond f A ((A.add f).erase f) :=
    ⟨fun g hg => ⟨.inr hg, ne_of_mem_of_not_mem hg hf⟩, rfl, fun g hg => update_of_ne hg .., rfl⟩
  refine ⟨hb.text h.text hf, h.tally.congr ?_ ?_, fun g hg hr => ?_, h.dev⟩
  · show update (update A.refs f 1) f 0 = A.refs
    rw [update_idem, ← hr, update_eq_self]
  · show update (update A.opens f 0) f 0 = A.opens
    rw [update_idem, ← ho, update_eq_self]
  · rw [hb.links fun he => hheld (he ▸ hg)]
    exact h.links g hg hr

end

/-- `name` is the name of `f`, and the other names are those of before. -/
def Names (A₀ : Store) (name : CString) (f : UInt32) (w : SfsWorld Unit) : Prop :=
  (w.view sfsRootLocation).Binds name f ∧ ∀ n ino, n ≠ name →
    ((w.view sfsRootLocation).Binds n ino ↔ ∃ i, A₀.es.At i n ino)

/-- `sfs_creat` for a name that does not exist. -/
theorem wp_make [Stores (soloCtx x)] {Q : Except Errno UInt32 → SfsWorld Unit → Prop}
    (hm : Mid A₀ t₀ none held opened A t) (hA : Holds A L w)
    (hroot : .file sfsRootLocation ∈ held)
    (hok : ∀ f w', f ≠ sfsRootLocation → Amid A₀ t₀ (some name) (.file f ::ₘ held) opened t w' →
      Names A₀ name f w' → Q (.ok f) w')
    (herr : ∀ e w', Amid A₀ t₀ none held opened t w' → Q (.error e) w') :
    wpE (soloCtx x) (creat.make sfsRootLocation name) Q w := by
  rw [creat.make, wpE_bind]
  refine wp_makeobj hA (fun f L1 w1 hf hne _ h1 => ?_)
    fun e L1 w1 _ _ h1 => herr e w1 ⟨A, L1, hm, h1⟩
  have hok1 : (A.add f).Ok :=
    Beyond.ok ⟨fun g hg => .inr hg, rfl, fun g hg => update_of_ne hg .., rfl⟩ hm.text.ok hf
  have hr1 : (A.add f).refs sfsRootLocation ≠ 0 := by
    show update A.refs f 1 sfsRootLocation ≠ 0
    rw [update_of_ne (Ne.symm hne)]
    exact hm.refs_ne_zero hroot
  have hf1 : f ∈ (A.add f).live := .inl rfl
  have hblank : (A.add f).file f = blankFile := update_self ..
  have hone : (A.add f).refs f = 1 := update_self ..
  dsimp only
  rw [wpE_result_bind]
  refine wp_dirLink h1 hok1 hr1 (ne_of_mem_of_not_mem hf1 h1.sound.nonzero)
    (fun slot L2 w2 habs hfree _ h2 => ?_) fun e L2 w2 _ _ h2 => ?_
  · obtain ⟨sv, hl, -⟩ := h2.loaded (f := f) (by
      show (A.add f).refs f ≠ 0
      rw [hone]
      decide)
    dsimp only
    rw [wpE_call_bind, linkcountUp, wp_setInode, wpE_pure]
    have h3 := h2.linkcountUp hl hne
    refine hok f _ hne ⟨_, L2, hm.made hA hf hne habs hfree ?_, h3⟩
      ⟨h3.dir.binds_iff.2 ⟨slot, (Slots.at_put hfree.le).2 (.inl ⟨rfl, rfl, rfl⟩)⟩, fun n ino hn =>
        h3.dir.binds_iff.trans ((Slots.exists_at_put hfree hn).trans
          (hm.text.same n (Option.some_ne_none _).symm ino))⟩
    show ((A.add f).file f).inode.sfiLinkcount + 1 ≠ 0
    rw [hblank]
    decide
  · show wpE (soloCtx x) (call (vnodeDecref f) >>= fun _ => throw e) Q w2
    rw [wpE_call_bind]
    refine wp_decref_erase h2 hne hone (update_self ..) ?_ ?_ fun w3 h3 =>
      herr _ w3 ⟨_, L2, hm.unmade hA hf, h3⟩
    · rw [hblank]
      rfl
    · rw [hblank]
      rfl

/-- What `sfs_creat` has found or made under a name. -/
def Found (A₀ : Store) (name : CString) (f : UInt32) (new : Option CString) : Prop :=
  (new = none ∧ ∃ i, A₀.es.At i name f) ∨ (new = some name ∧ f ≠ sfsRootLocation)

theorem wp_creat [Stores (soloCtx x)] {excl : Bool}
    {Q : Except Errno UInt32 → SfsWorld Unit → Prop} (h : Amid A₀ t₀ none held opened t w)
    (hroot : .file sfsRootLocation ∈ held)
    (hok : ∀ f new w', Found A₀ name f new → Amid A₀ t₀ new (.file f ::ₘ held) opened t w' →
      Names A₀ name f w' → Q (.ok f) w')
    (herr : ∀ e w', Amid A₀ t₀ none held opened t w' → Q (.error e) w') :
    wpE (soloCtx x) (sfsCreat sfsRootLocation name excl) Q w := by
  obtain ⟨A, L, hm, hA⟩ := h
  have hmake : ∀ {L1 w1}, Holds A L1 w1 →
      wpE (soloCtx x) (creat.make sfsRootLocation name) Q w1 := fun h1 =>
    wp_make hm h1 hroot (fun f w' hne => hok f _ w' (.inr ⟨rfl, hne⟩)) herr
  rw [sfsCreat, wpE_call_bind]
  refine wp_findname hA hm.text.ok (hm.refs_ne_zero hroot) (fun r L1 w1 hfind _ h1 => ?_)
    fun e slot L1 w1 _ _ h1 => ?_
  · cases hfind with
    | absent habs _ => exact hmake h1
    | @found ino i slot hat =>
      obtain ⟨hlive, hlinks⟩ := hm.text.ok.bound hat
      dsimp only
      split
      · exact herr _ w1 ⟨A, L1, hm, h1⟩
      · exact wp_loadvnode h1 hlive
          (fun w2 h2 => hok ino none w2
            (.inl ⟨rfl, (hm.text.same name (Option.some_ne_none _).symm ino).1 ⟨i, hat⟩⟩)
            ⟨_, L1, hm.ref fun _ => hlinks, h2⟩
            ⟨h2.dir.binds_iff.2 ⟨i, hat⟩, fun n ino' _ =>
              h2.dir.binds_iff.trans (hm.text.same n (Option.some_ne_none _).symm ino')⟩)
          fun e _ => herr e w1 ⟨A, L1, hm, h1⟩
  · dsimp only
    split
    · exact herr _ w1 ⟨A, L1, hm, h1⟩
    · exact hmake h1

/-- A file has been made for a path, or it was not called for. -/
def Made (A₀ : Store) (path : CString) (openflags : UInt32) (v : Vnode) (new : Option CString) :
    Prop :=
  (new = none ∧ ¬ (openflags &&& Vfs.oCreat ≠ 0 ∧ A₀.es.Absent (subpath path))) ∨
    (new = some (subpath path) ∧ openflags &&& Vfs.oCreat ≠ 0 ∧ v.IsFile)

include hopen hP hx in
/-- The vnode for `vfs_open`. -/
theorem wpR_find [Stores (soloCtx x)] {Q : Post Vnode} (h : Amid A₀ t₀ none 0 0 t w)
    (hok : ∀ v new t' w', Made A₀ path openflags v new → Amid A₀ t₀ new {v} 0 t' w' →
      Q (.ok v) t' w')
    (herr : ∀ e t' w', Amid A₀ t₀ none 0 0 t' w' → Q (.error e) t' w') :
    wpR (soloCtx x) (vfsOpen.find P path openflags) Q t w := by
  rw [vfsOpen.find]
  split
  · next hcreat =>
    rw [wpR_bind]
    refine wpR_lookparent hopen hP hx h (fun t1 w1 h1 => ?_) herr
    refine wpR_thenDecref t₀ hopen (wpR_vop h1 (Multiset.mem_singleton_self _)
      (absurd rfl) fun _ => ?_)
    rw [wpR_bind, wpR_callE]
    refine wp_creat h1 (Multiset.mem_singleton_self _)
      (fun f new w2 hf h2 _ => ⟨new, {.file f}, ?_, fun t3 w3 h3 => hok _ new t3 w3 ?_ h3⟩)
      fun e w2 h2 => ⟨none, 0, h2, fun t3 w3 h3 => herr e t3 w3 h3⟩
    · rw [← Multiset.cons_zero, Multiset.cons_swap]
      exact h2
    · exact hf.imp (fun ⟨hn, i, hat⟩ => ⟨hn, fun hc => hc.2 i f hat⟩)
        fun ⟨hn, hne⟩ => ⟨hn, hcreat, hne⟩
  · next hcreat =>
    exact wpR_lookup hopen hP hx h
      (fun v t' w' h' => hok v none t' w' (.inl ⟨rfl, fun hc => hcreat hc.1⟩) h') herr

/-! ## Open counts -/

namespace Tally

theorem incopen (h : Tally A₀ t₀ held opened A t) :
    Tally A₀ t₀ held (.file f ::ₘ opened) (A.incopen f) t := by
  refine ⟨fun g => ?_, counts_cons file_injective h.opens, h.devRefs, fun d => ?_⟩
  · show update A.refs f (A.refs f) g = _
    rw [update_eq_self, h.refs]
  · rw [count_dev_cons, h.devOpens]

theorem decopen (h : Tally A₀ t₀ held (.file f ::ₘ opened) A t) :
    Tally A₀ t₀ held opened (A.decopen f) t := by
  refine ⟨fun g => ?_, counts_uncons file_injective h.opens, h.devRefs,
    fun d => ?_⟩
  · show update A.refs f (A.refs f) g = _
    rw [update_eq_self, h.refs]
  · rw [h.devOpens, count_dev_cons]

theorem incopenDev {d : Nat} (h : Tally A₀ t₀ held opened A t) :
    Tally A₀ t₀ held (.dev d ::ₘ opened) A
      { t with opens := update t.opens d (t.opens d + 1) } := by
  refine ⟨h.refs, fun g => ?_, h.devRefs, counts_cons dev_injective h.devOpens⟩
  rw [count_file_cons_dev, h.opens]

theorem decopenDev {d : Nat} (h : Tally A₀ t₀ held (.dev d ::ₘ opened) A t) :
    Tally A₀ t₀ held opened A { t with opens := update t.opens d (t.opens d - 1) } := by
  refine ⟨h.refs, fun g => ?_, h.devRefs, counts_uncons dev_injective h.devOpens⟩
  rw [h.opens, count_file_cons_dev]

end Tally

include hopen in
theorem wpR_incopen (h : Amid A₀ t₀ new {v} 0 t w)
    (hQ : ∀ t' w', Amid A₀ t₀ new {v} {v} t' w' → Q (.ok ()) t' w') :
    wpR (soloCtx x) (vopIncopen v) Q t w := by
  obtain ⟨A, L, hm, hA⟩ := h
  cases v with
  | file f =>
    have hmem : Vnode.file f ∈ ({.file f} : Multiset Vnode) := Multiset.mem_singleton_self _
    obtain ⟨sv, hl, -⟩ := hA.loaded (hm.refs_ne_zero hmem)
    have hrefs := hm.tally.refs f
    have hopens := hm.tally.opens f
    have hle := hopen f
    rw [Multiset.count_singleton_self] at hrefs
    rw [Multiset.count_zero] at hopens
    rw [vopIncopen, wpR_call, wp_setVnode]
    exact hQ t _ ⟨_, L, ⟨hm.text.count _ _, hm.tally.incopen, hm.links, hm.dev⟩,
      hA.incopen hl (by omega)⟩
  | dev d =>
    rw [vopIncopen, wpR_note]
    exact hQ _ w ⟨A, L, ⟨hm.text, hm.tally.incopenDev, hm.links, hm.dev⟩,
      hA⟩

theorem wpR_decopen [Stores (soloCtx x)] (h : Amid A₀ t₀ new held (v ::ₘ opened) t w)
    (hQ : ∀ t' w', Amid A₀ t₀ new held opened t' w' → Q (.ok ()) t' w') :
    wpR (soloCtx x) (vopDecopen v) Q t w := by
  obtain ⟨A, L, hm, hA⟩ := h
  cases v with
  | file f =>
    have hopens := hm.tally.opens f
    rw [Multiset.count_cons_self] at hopens
    rw [vopDecopen, wpR_call]
    exact wp_decopen hA (by omega) fun w' hA' =>
      hQ t w' ⟨_, L, ⟨hm.text.count _ _, hm.tally.decopen, hm.links, hm.dev⟩, hA'⟩
  | dev d =>
    have hopens := hm.tally.devOpens d
    rw [Multiset.count_cons_self] at hopens
    rw [vopDecopen, wpR_bind, wpR_look]
    dsimp only
    rw [wpR_call_bind]
    refine wp_assert_of (by omega) ?_
    rw [wpR_note]
    exact hQ _ w ⟨A, L, ⟨hm.text, hm.tally.decopenDev, hm.links, hm.dev⟩,
      hA⟩

/-! ## The whole -/

/-- Flags that are turned down when the file is there: O_APPEND, and O_TRUNC without
write access. -/
def TurnedDown (canwrite : Bool) (openflags : UInt32) : Prop :=
  openflags &&& Vfs.oAppend ≠ 0 ∨ (openflags &&& Vfs.oTrunc ≠ 0 ∧ canwrite = false)

theorem wpR_vfsTruncate [Stores (soloCtx x)]
    (hrd : openflags &&& Vfs.oTrunc ≠ 0 → ∀ e, ¬ x.rd e) (h : Amid A₀ t₀ new held opened t w)
    (hv : v ∈ held) (hok : ∀ w', Q (.ok ()) t w')
    (herr : ∀ e, (v.IsFile → TurnedDown canwrite openflags) → Q (.error e) t w) :
    wpR (soloCtx x) (vfsOpen.truncate P canwrite v openflags) Q t w := by
  rw [vfsOpen.truncate]
  split
  · next htrunc =>
    split
    · cases v with
      | file f =>
        refine wpR_vop h hv (fun hne => ?_) fun hr => herr _ fun hf => absurd hr hf
        obtain ⟨A, L, hm, hA⟩ := h
        obtain ⟨sv, hl, -⟩ := hA.loaded (hm.refs_ne_zero hv)
        rw [wpR_callE]
        exact wp_truncate hA.sound hl hA.started (fun w' _ => hok w')
          fun e w' he => absurd he (hrd htrunc e)
      | dev d =>
        rw [vopTruncate, wpR_ret]
        cases P.dTruncate d with
        | ok _ => exact hok w
        | error e => exact herr e fun hf => hf.elim
    · next hw => exact herr _ fun _ => .inr ⟨htrunc, Bool.eq_false_iff.2 hw⟩
  · exact hok w

include hopen in
/-- `vfs_open` once it has the vnode. -/
theorem wpR_enter [Stores (soloCtx x)] {Q : Post Vnode}
    (hrd : openflags &&& Vfs.oTrunc ≠ 0 → ∀ e, ¬ x.rd e) (h : Amid A₀ t₀ new {v} 0 t w)
    (hok : ∀ t' w', Q (.ok v) t' w')
    (herr : ∀ e t' w', Amid A₀ t₀ new 0 0 t' w' → (v.IsFile → TurnedDown canwrite openflags) →
      Q (.error e) t' w') :
    wpR (soloCtx x) (vfsOpen.enter P canwrite openflags v) Q t w := by
  have hmem : v ∈ ({v} : Multiset Vnode) := Multiset.mem_singleton_self _
  have hdecref : ∀ {e t1 w1}, (v.IsFile → TurnedDown canwrite openflags) →
      Amid A₀ t₀ new {v} 0 t1 w1 →
      wpR (soloCtx x) (vopDecref v >>= fun _ => throw e) Q t1 w1 := by
    intro e t1 w1 hdown h1
    rw [wpR_bind]
    exact wpR_decref hopen h1 (Multiset.zero_le _) fun t2 w2 h2 => herr e t2 w2 h2 hdown
  rw [vfsOpen.enter, wpR_result_bind]
  refine wpR_vopOpen h hmem ?_ fun e happ => hdecref (fun hf => .inl (happ hf)) h
  rw [wpR_bind]
  refine wpR_incopen hopen h fun t1 w1 h1 => ?_
  rw [wpR_result_bind]
  refine wpR_vfsTruncate hrd h1 hmem (hok t1) fun e hdown => ?_
  rw [wpR_bind]
  exact wpR_decopen h1 fun t2 w2 h2 => hdecref hdown h2

/-! ## From one machine to another -/

end

/-- A volume in order: the entries of the directory have different names, and what
they name is there and has a link. -/
structure InOrder (live : Set UInt32) (s : SfsMachine) : Prop where
  sound : ∃ leak, Sound live leak s.mem s.disk
  dir : ∃ es, IsDir (view s.mem s.disk sfsRootLocation) es ∧ es.Distinct
  bound : ∀ name ino, (view s.mem s.disk sfsRootLocation).Binds name ino →
    ino ∈ live ∧ (view s.mem s.disk ino).inode.sfiLinkcount ≠ 0
  rootLinks : (view s.mem s.disk sfsRootLocation).inode.sfiLinkcount ≠ 0

/-- The vnodes that paths begin at are referred to. -/
structure Places.Held (P : Places) (t : Beside) (s : SfsMachine) : Prop where
  cwd : ∀ v, P.cwd = some v → SfsWorld.refs (s.world ()) v ≠ 0
  bootfs : ∀ v, P.bootfs = some v → SfsWorld.refs (s.world ()) v ≠ 0
  named : ∀ name d, P.named name = .ok (.device d) → t.refs d ≠ 0

/-- The bindings of the directory, the sizes and contents of the files, and the counts of
all vnodes are as before. -/
structure NoEffect (live : Set UInt32) (t : Beside) (s : SfsMachine) (t' : Beside)
    (s' : SfsMachine) : Prop where
  names : ∀ name ino, (view s'.mem s'.disk sfsRootLocation).Binds name ino ↔
    (view s.mem s.disk sfsRootLocation).Binds name ino
  size : ∀ f ∈ live, f ≠ sfsRootLocation →
    (view s'.mem s'.disk f).inode.sfiSize = (view s.mem s.disk f).inode.sfiSize
  byte : ∀ f ∈ live, f ≠ sfsRootLocation → ∀ p < (view s.mem s.disk f).inode.sfiSize.toNat,
    (view s'.mem s'.disk f).byte p = (view s.mem s.disk f).byte p
  refs : ∀ f, SfsWorld.refs (s'.world ()) f = SfsWorld.refs (s.world ()) f
  opens : ∀ f, SfsWorld.opens (s'.world ()) f = SfsWorld.opens (s.world ()) f
  devRefs : ∀ d, t'.refs d = t.refs d
  devOpens : ∀ d, t'.opens d = t.opens d

/-- A volume as a store. -/
def storeOf (live : Set UInt32) (es : Entries) (s : SfsMachine) : Store where
  live := live
  es := es
  file := view s.mem s.disk
  rootLinks := (view s.mem s.disk sfsRootLocation).inode.sfiLinkcount
  refs := SfsWorld.refs (s.world ())
  opens := SfsWorld.opens (s.world ())

/-- Any allocation may fail, and those reads that the script says. -/
def readFaults (t : Script IoErr) : Faults :=
  ⟨fun e => some e ∈ t.rd, fun _ => False, True, fun _ => True⟩

instance (t : Script IoErr) : Stores (soloCtx (readFaults t)) := ⟨fun _ => id⟩

theorem admits_readFaults {t : Script IoErr} (hwr : ∀ e, some e ∉ t.wr) :
    (soloCtx (readFaults t)).Admits t :=
  ⟨fun _ => id, fun e he => hwr e he, fun _ => trivial⟩

section
variable {live leak : Set UInt32} {es : Entries} {s s' : SfsMachine} {t t' : Beside}
  {A₀ : Store} {P : Places} {path : CString} {openflags : UInt32} {e : Errno}

theorem holds_storeOf (hs : Sound live leak s.mem s.disk)
    (hd : IsDir (view s.mem s.disk sfsRootLocation) es) :
    Holds (storeOf live es s) leak (s.world ()) :=
  ⟨hs, hd, rfl, fun _ _ _ => rfl, fun _ => rfl, fun _ => rfl, rfl⟩

theorem links_storeOf (f : UInt32) :
    (storeOf live es s).links f = (view s.mem s.disk f).inode.sfiLinkcount := by
  rw [Store.links]
  split
  · next hf =>
    rw [hf]
    rfl
  · rfl

theorem InOrder.ok (h : InOrder live s) (hd : IsDir (view s.mem s.disk sfsRootLocation) es)
    (hes : es.Distinct) : (storeOf live es s).Ok := by
  refine ⟨hes, @fun i name ino hat => ?_, h.rootLinks⟩
  rw [links_storeOf]
  exact h.bound name ino (hd.binds_iff.2 ⟨i, hat⟩)

theorem Mid.start (hA : A₀.Ok) : Mid A₀ t none 0 0 A₀ t := by
  refine ⟨⟨Set.Subset.rfl, hA, fun _ _ _ => .rfl, nofun, fun _ _ _ => rfl⟩, ⟨fun f => ?_,
    fun f => ?_, fun d => ?_, fun d => ?_⟩, fun f hf => absurd hf (Multiset.notMem_zero _),
    fun d hd => absurd hd (Multiset.notMem_zero _)⟩
  all_goals
    rw [Multiset.count_zero]
    rfl

/-- A call that has given everything back and has made no file. -/
theorem Amid.noEffect (h : Amid (storeOf live es s) t none 0 0 t' (s'.world ()))
    (hd : IsDir (view s.mem s.disk sfsRootLocation) es) : NoEffect live t s t' s' := by
  obtain ⟨A, L, hm, hA⟩ := h
  have hfile : ∀ f ∈ live, f ≠ sfsRootLocation →
      view s'.mem s'.disk f = view s.mem s.disk f := fun f hf hne =>
    (hA.file f (hm.text.live hf) hne).trans (hm.text.file f hf hne)
  have hcounts := hm.tally
  refine ⟨fun name ino => ?_, fun f hf hne => ?_, fun f hf hne p _ => ?_, fun f => ?_,
    fun f => ?_, fun d => ?_, fun d => ?_⟩
  · rw [hd.binds_iff]
    exact hA.dir.binds_iff.trans (hm.text.same name (Option.some_ne_none _).symm ino)
  · rw [hfile f hf hne]
  · rw [hfile f hf hne]
  · have := hcounts.refs f
    rw [Multiset.count_zero] at this
    exact (hA.refs f).trans this
  · have := hcounts.opens f
    rw [Multiset.count_zero] at this
    exact (hA.opens f).trans this
  · have := hcounts.devRefs d
    rwa [Multiset.count_zero] at this
  · have := hcounts.devOpens d
    rwa [Multiset.count_zero] at this

theorem Amid.not_noEffect {name : CString}
    (h : Amid (storeOf live es s) t (some name) 0 0 t' (s'.world ()))
    (hd : IsDir (view s.mem s.disk sfsRootLocation) es) : ¬ NoEffect live t s t' s' := by
  obtain ⟨A, L, hm, hA⟩ := h
  intro hn
  obtain ⟨habs, i, ino, hat⟩ := hm.text.made name rfl
  obtain ⟨j, hj⟩ := hd.binds_iff.1 ((hn.names name ino).1 (hA.dir.binds_iff.2 ⟨i, hat⟩))
  exact habs j ino hj

theorem opens_le_refs (hs : Sound live leak s.mem s.disk) (f : UInt32) :
    (storeOf live es s).opens f ≤ (storeOf live es s).refs f := by
  show SfsWorld.opens (s.world ()) f ≤ SfsWorld.refs (s.world ()) f
  cases hl : (s.world ()).mem.sfsVnodes.get? f with
  | none =>
    rw [opens_of_none hl]
    exact Nat.zero_le _
  | some sv =>
    rw [opens_of_get? hl, refs_of_get? hl]
    exact hs.table.opens hl

/-- Where the search for the vnode has come to. -/
def Searched (A₀ : Store) (t₀ : Beside) (path : CString) (openflags : UInt32) (t : Beside)
    (w : SfsWorld Unit) : Except Errno Vnode → Prop
  | .error _ => Amid A₀ t₀ none 0 0 t w
  | .ok v => ∃ new, Made A₀ path openflags v new ∧ Amid A₀ t₀ new {v} 0 t w

theorem find_searched (hv : InOrder live s) (hd : IsDir (view s.mem s.disk sfsRootLocation) es)
    (hes : es.Distinct) (hP : P.Held t s) (hwr : ∀ e, some e ∉ s.script.wr)
    {r : Except Errno Vnode}
    (hr : ((vfsOpen.find P path openflags).run.run t).run s = (.done (r, t'), s')) :
    Searched (storeOf live es s) t path openflags t' (s'.world ()) r := by
  obtain ⟨leak, hs⟩ := hv.sound
  have hwp : wpR (soloCtx (readFaults s.script)) (vfsOpen.find P path openflags)
      (fun r t' w' => Searched (storeOf live es s) t path openflags t' w' r) t (s.world ()) :=
    wpR_find (opens_le_refs hs) ⟨hP.cwd, hP.bootfs, hP.named⟩ trivial
      ⟨_, leak, Mid.start (hv.ok hd hes), holds_storeOf hs hd⟩
      (fun v new t' w' hmade h' => ⟨new, hmade, h'⟩) fun e t' w' h' => h'
  have hends := wp_run (fun _ => rfl) (admits_readFaults hwr) hwp
  rw [hr] at hends
  exact hends

/-- What comes of the rest, if it fails. -/
theorem enter_amid {x : Faults} [Stores (soloCtx x)] {A₀ : Store} {new : Option CString}
    {v : Vnode} {t₀ : Beside} {canwrite : Bool} (hopen : ∀ f, A₀.opens f ≤ A₀.refs f)
    (hadm : (soloCtx x).Admits s.script) (hrd : openflags &&& Vfs.oTrunc ≠ 0 → ∀ e, ¬ x.rd e)
    (h : Amid A₀ t₀ new {v} 0 t (s.world ()))
    (hr : ((vfsOpen.enter P canwrite openflags v).run.run t).run s = (.done (.error e, t'), s')) :
    Amid A₀ t₀ new 0 0 t' (s'.world ()) ∧ (v.IsFile → TurnedDown canwrite openflags) := by
  have hwp : wpR (soloCtx x) (vfsOpen.enter P canwrite openflags v)
      (fun r t' w' => ∀ e, r = .error e → Amid A₀ t₀ new 0 0 t' w' ∧
        (v.IsFile → TurnedDown canwrite openflags)) t (s.world ()) :=
    wpR_enter hopen hrd h (fun _ _ => nofun) fun e t' w' h' hdown e' _ => ⟨h', hdown⟩
  have hends := wp_run (fun _ => rfl) hadm hwp
  rw [hr] at hends
  exact hends e rfl

/-- Flags that `vfs_open` turns down only when it has a file. -/
def Refused (openflags : UInt32) : Prop :=
  ∃ canwrite, Vfs.vfsOpen.canwrite openflags = some canwrite ∧ TurnedDown canwrite openflags

end

/-! ## On a small volume -/

theorem isDir_newRoot (d : Disk) : IsDir (fileView newRoot d) [] := by
  refine ⟨rfl, rfl, Nat.zero_le _, @fun i s hs => ?_, fun p _ => ?_, @fun i name ino hat => ?_⟩
  · cases hs
  · show byteOf newRoot d p = 0
    have hp : ptrOf newRoot d (p / 512) = 0 := by
      rw [ptrOf]
      split
      · rfl
      · exact if_neg fun hc => hc.2 rfl
    rw [byteOf, if_pos hp]
  · cases hat

theorem view_smallVolume :
    view smallVolume.mem smallVolume.disk sfsRootLocation = fileView newRoot smallVolume.disk := by
  rw [view, freshMount_smallVolume.root]

theorem isDir_smallVolume : IsDir (view smallVolume.mem smallVolume.disk sfsRootLocation) [] := by
  rw [view_smallVolume]
  exact isDir_newRoot _

theorem inOrder_smallVolume : InOrder {sfsRootLocation} smallVolume where
  sound := ⟨∅, freshMount_smallVolume.sound⟩
  dir := ⟨[], isDir_smallVolume, @fun i j k v v' hi _ => by cases hi⟩
  bound name ino hb := by
    obtain ⟨i, hat⟩ := isDir_smallVolume.binds_iff.1 hb
    cases hat
  rootLinks := by
    rw [view_smallVolume]
    decide

/-- No device and no directory: all names are the volume's. -/
def smallPlaces : Places :=
  ⟨none, none, fun _ => .ok .volume, fun _ _ => .ok (), fun _ => .ok ()⟩

def nothingYet : Beside := ⟨fun _ => 0, fun _ => 0⟩

theorem held_smallPlaces : smallPlaces.Held nothingYet smallVolume where
  cwd v hv := by cases hv
  bootfs v hv := by cases hv
  named name d hn := by cases hn

/-- Opening `v:a` on the small volume. -/
def smallOpen (openflags : UInt32) : Outcome Panic (Except Errno Vnode × Beside) × SfsMachine :=
  ((vfsOpen smallPlaces (CString.ofBytes [118, 58, 97]) openflags).run.run nothingYet).run
    smallVolume

/-- The root directory. -/
abbrev rootOf (s : SfsMachine) : FileView := view s.mem s.disk sfsRootLocation

/-- The error that a run has returned, with the size of the directory and the inode
number in its first slot. -/
def answer (r : Outcome Panic (Except Errno Vnode × Beside) × SfsMachine) :
    Option (Errno × UInt32 × UInt32) :=
  match r.1 with
  | .done (.error e, _) => some (e, (rootOf r.2).inode.sfiSize,
      (SfsDir.ofBytes ((rootOf r.2).slice 0 64)).sfdIno)
  | _ => none

theorem of_answer {e : Errno} {size ino : UInt32}
    {r : Outcome Panic (Except Errno Vnode × Beside) × SfsMachine}
    (h : answer r = some (e, size, ino)) :
    ∃ t s, r = (.done (.error e, t), s) ∧ (rootOf s).inode.sfiSize = size ∧
      (SfsDir.ofBytes ((rootOf s).slice 0 64)).sfdIno = ino := by
  obtain ⟨o, s⟩ := r
  unfold answer at h
  split at h
  · next e' t ho =>
    cases h
    exact ⟨t, s, by rw [show o = _ from ho], rfl, rfl⟩
  · cases h

/-- What `sfs_creat` has done to a volume: files and names are those of before, except
that `name` is now the name of the file that it returns. -/
structure Creates (live : Set UInt32) (s : SfsMachine) (name : CString) (r : Except Errno UInt32)
    (s' : SfsMachine) : Prop where
  inOrder : ∃ live', live ⊆ live' ∧ InOrder live' s'
  root : SfsWorld.refs (s'.world ()) sfsRootLocation ≠ 0
  file : ∀ f ∈ live, f ≠ sfsRootLocation → view s'.mem s'.disk f = view s.mem s.disk f
  ok : ∀ f, r = .ok f → SfsWorld.refs (s'.world ()) f ≠ 0 ∧ (rootOf s').Binds name f
  names : ∀ n ino, (∃ e, r = .error e) ∨ n ≠ name →
    ((rootOf s').Binds n ino ↔ (rootOf s).Binds n ino)

section
variable {live : Set UInt32} {s s' : SfsMachine} {es : Entries} {name : CString}

theorem InOrder.of_holds {A : Store} {L : Set UInt32} (h : Holds A L (s.world ())) (hA : A.Ok) :
    InOrder A.live s where
  sound := ⟨L, h.sound⟩
  dir := ⟨A.es, h.dir, hA.distinct⟩
  bound name ino hb := by
    obtain ⟨i, hat⟩ := h.dir.binds_iff.1 hb
    obtain ⟨hlive, hlinks⟩ := hA.bound hat
    exact ⟨hlive, (h.links hlive).trans_ne hlinks⟩
  rootLinks := h.rootLinks.trans_ne hA.rootLinks

theorem Amid.kept {new : Option CString} {held : Multiset Vnode} {t t' : Beside}
    (h : Amid ((storeOf live es s).unref sfsRootLocation) t new held 0 t' (s'.world ())) :
    (∃ live', live ⊆ live' ∧ InOrder live' s') ∧
      (∀ f, .file f ∈ held → SfsWorld.refs (s'.world ()) f ≠ 0) ∧
      ∀ f ∈ live, f ≠ sfsRootLocation → view s'.mem s'.disk f = view s.mem s.disk f := by
  obtain ⟨A, L, hm, hA⟩ := h
  refine ⟨⟨A.live, hm.text.live, .of_holds hA hm.text.ok⟩, fun f hf => ?_, fun f hf hne => ?_⟩
  · exact (hA.refs _).trans_ne (hm.refs_ne_zero hf)
  · exact (hA.file f (hm.text.live hf) hne).trans (hm.text.file f hf hne)

/-- Whatever reads and allocations fail on the way, on a device that stores what is
written to it `sfs_creat` returns and leaves a volume in order. -/
theorem sfsCreat_creates (hv : InOrder live s) (hwr : ∀ e, some e ∉ s.script.wr)
    (hroot : SfsWorld.refs (s.world ()) sfsRootLocation ≠ 0) (name : CString) (excl : Bool) :
    ∃ r s', (sfsCreat sfsRootLocation name excl).run.run s = (.done r, s') ∧
      Creates live s name r s' := by
  obtain ⟨leak, hs⟩ := hv.sound
  obtain ⟨es, hd, hes⟩ := hv.dir
  obtain ⟨hdist, hbound, hlinks⟩ := hv.ok hd hes
  -- one of the references to the directory is the caller's
  have hA₀ : ((storeOf live es s).unref sfsRootLocation).Ok := ⟨hdist, hbound, hlinks⟩
  have hmid := (Mid.start (t := nothingYet) hA₀).ref (f := sfsRootLocation) fun _ => hlinks
  rw [Store.ref_unref hroot] at hmid
  have hmem := Multiset.mem_cons_self (Vnode.file sfsRootLocation) 0
  have hst : Stores (soloCtx ⟨fun _ => True, fun _ => False, True, fun _ => False⟩) :=
    ⟨fun _ => id⟩
  have hwp : wpE (soloCtx ⟨fun _ => True, fun _ => False, True, fun _ => False⟩)
      (sfsCreat sfsRootLocation name excl)
      (fun r w' => ∀ s', w' = s'.world () → Creates live s name r s') (s.world ()) := by
    refine wp_creat ⟨_, leak, hmid, holds_storeOf hs hd⟩ hmem ?_ ?_
    · rintro f new _ - h ⟨hb, hn⟩ s' rfl
      obtain ⟨hin, hrefs, hfile⟩ := h.kept
      refine ⟨hin, hrefs _ (Multiset.mem_cons_of_mem hmem), hfile, ?_, fun n ino hne => ?_⟩
      · rintro _ ⟨⟩
        exact ⟨hrefs f (Multiset.mem_cons_self _ _), hb⟩
      · exact (hn n ino (hne.resolve_left nofun)).trans hd.binds_iff.symm
    · rintro e _ h s' rfl
      obtain ⟨hin, hrefs, hfile⟩ := h.kept
      obtain ⟨A, L, hm, hA⟩ := h
      refine ⟨hin, hrefs _ hmem, hfile, nofun, fun n ino _ => ?_⟩
      exact (hA.dir.binds_iff.trans (hm.text.same n (Option.some_ne_none _).symm ino)).trans
        hd.binds_iff.symm
  obtain ⟨r, s', hr, hq⟩ := wp_run_done (fun _ => rfl)
    ⟨fun _ _ => trivial, fun e he => hwr e he, fun _ => trivial⟩ (fun _ => id) hwp
  exact ⟨r, s', hr, hq s' rfl⟩

end

/-- On a new volume, once its root has been loaded. -/
theorem sfsCreat_creates_smallVolume : ∃ s r s', InOrder {sfsRootLocation} s ∧
    (sfsCreat sfsRootLocation (.ofBytes [97]) true).run.run s = (.done r, s') ∧
    Creates {sfsRootLocation} s (.ofBytes [97]) r s' := by
  have h := holds_storeOf freshMount_smallVolume.sound isDir_smallVolume
  obtain ⟨hdist, hbound, hlinks⟩ :=
    inOrder_smallVolume.ok isDir_smallVolume (@fun i j k v v' hi _ => by cases hi)
  obtain ⟨-, s, -, hg, hs⟩ := fine_run (s := smallVolume) rfl (wp_loadvnode
    (Q := fun _ w' => Holds _ ∅ w') h h.sound.root (fun _ => id) fun _ hn => by
      cases hn <;> contradiction)
  have hv : InOrder {sfsRootLocation} s := .of_holds hs ⟨hdist, hbound, hlinks⟩
  have hroot : SfsWorld.refs (s.world ()) sfsRootLocation ≠ 0 := by
    rw [hs.refs]
    simp [Store.ref, Store.count]
  obtain ⟨r, s', h'⟩ := sfsCreat_creates hv (by simp [hg, Script.good]) hroot (.ofBytes [97]) true
  exact ⟨s, r, s', hv, h'⟩

end Open

end Os161.Sfs
