import Os161.Proofs.Kheap

/-!
# Every run of the kernel heap

`kmalloc` and `kfree` as a whole, and what follows for every sequence of them.
Between two calls the blocks that were handed out belong to whoever asked for
them, and may be written; everything else outside the pages of the heap may
change as it likes.
-/

namespace Os161.Kern.Kheap

open Os161.Lib Os161.Vm Function

/-! ## The blocks that are out -/

/-- Every page has a block that was handed out. -/
def View.Busy (v : View) : Prop := ∀ p ∈ v.all, v.held p ≠ []

section
variable {v : View} {p : Nat}

/-- The blocks of one page, and the others. -/
theorem flatMap_update {α : Type} {f : Nat → List α} {l : List Nat} (hnodup : l.Nodup)
    (hp : p ∈ l) : ∃ rest, ∀ g, (l.flatMap (update f p g)).Perm (g ++ rest) := by
  refine ⟨(l.erase p).flatMap f, ?_⟩
  intro g
  have hperm := (List.perm_cons_erase hp).flatMap_right (update f p g)
  rw [List.flatMap_cons, update_self] at hperm
  have hrest : (l.erase p).flatMap (update f p g) = (l.erase p).flatMap f := by
    apply List.flatMap_congr
    intro q hq
    exact update_of_ne (hnodup.mem_erase_iff.1 hq).1 _ _
  rwa [hrest] at hperm

variable {free : List Word} {x : Word × Nat}

/-- A block more on one page. -/
theorem View.live_setPage_cons (hnodup : v.all.Nodup)
    (hp : p ∈ v.all) : (v.setPage p free (x :: v.held p)).live.Perm (x :: v.live) := by
  obtain ⟨rest, hrest⟩ := flatMap_update (f := v.held) hnodup hp
  have hold := hrest (v.held p)
  rw [update_eq_self] at hold
  exact (hrest (x :: v.held p)).trans (hold.symm.cons x)

/-- A block less. -/
theorem View.live_setPage_erase {held : List (Word × Nat)} (hnodup : v.all.Nodup) (hp : p ∈ v.all)
    (hx : (v.held p).Perm (x :: held)) : v.live.Perm (x :: (v.setPage p free held).live) := by
  obtain ⟨rest, hrest⟩ := flatMap_update (f := v.held) hnodup hp
  have hold := hrest (v.held p)
  rw [update_eq_self] at hold
  exact hold.trans ((hx.append_right rest).trans ((hrest held).symm.cons x))

theorem View.live_add {b : Nat} (hp : p ∉ v.all) : (v.add p b free).live = v.live := by
  show (p :: v.all).flatMap (update v.held p []) = _
  rw [List.flatMap_cons, update_self, List.nil_append]
  apply List.flatMap_congr
  intro q hq
  apply update_of_ne
  intro hqp
  exact hp (hqp ▸ hq)

theorem View.live_remove (hp : p ∈ v.all) (hheld : v.held p = []) :
    v.live.Perm (v.remove p).live := by
  have hperm := (List.perm_cons_erase hp).flatMap_right v.held
  rwa [List.flatMap_cons, hheld, List.nil_append] at hperm

end

/-! ## `kmalloc` -/

section
variable {h : Heap} {v : View} {t : Terms Panic} {slow : Bool}

variable {sz p spl : Nat} {Q : Word → Heap → Prop} {answer ptr : Word}

theorem awp_blocktype {Q : Nat → Heap → Prop} (hsz : sz < LARGEST_SUBPAGE_SIZE)
    (hQ : ∀ b < NSIZES, sz ≤ sizes b → Q b h) : awp t (blocktype sz) Q h := by
  unfold blocktype
  cases hfind : (List.range NSIZES).find? fun i => sz ≤ sizes i with
  | some b =>
    have hb := List.mem_range.1 (List.mem_of_find?_eq_some hfind)
    have hle := List.find?_some hfind
    rw [decide_eq_true_eq] at hle
    exact hQ b hb hle
  | none =>
    have hlast := List.find?_eq_none.1 hfind 7 (by decide)
    rw [decide_eq_true_eq] at hlast
    exact absurd (Nat.le_of_lt hsz) hlast

/-- The bits may be stored in another way. -/
theorem Inv.bits (hi : Inv h v) {inuse : Nat → BitVec 32}
    (hsame : ∀ j, Heap.InUse { h with pagerefsInuse := inuse } j ↔ h.InUse j) :
    Inv { h with pagerefsInuse := inuse } v :=
  { hi with inuse := fun j => (hi.inuse j).trans (hsame j).symm }

/-- What `alloc_kpages` may answer. -/
def Answer (h : Heap) (page : Word) : Prop := page = 0 ∨ Kpage page ∧ page ∉ h.kpages

/-- A block is taken from the page of pageref `p`. -/
theorem awp_takeBlock (hi : Inv h v) (hbusy : ∀ q ∈ v.all, q ≠ p → v.held q ≠ [])
    (hspl : 0 < h.curspl) (hp : p ∈ v.all) (hfree : 0 < (v.free p).length)
    (hsz : sz ≤ sizes (h.type p))
    (hQ : ∀ h' v' a, Inv h' v' → v'.Busy → a ≠ 0 → v'.live.Perm ((a, sz) :: v.live) → Q a h') :
    awp t (subpageKmalloc.doalloc slow p spl) Q h := by
  obtain ⟨a, free, hlist⟩ := List.exists_cons_of_length_pos hfree
  have hok := hi.page p hp
  rw [hlist] at hok
  obtain ⟨hlt, _, ha⟩ := hok.head
  apply awp_doalloc hi hspl hp hlist hsz
  intro h' hi' _
  refine hQ h' _ a hi' ?_ (ha ▸ hok.kpage.ne_zero hlt) (View.live_setPage_cons hi.nodup hp)
  intro q hq
  by_cases hqp : q = p
  · subst hqp
    rw [View.setPage_self.2]
    simp
  · rw [(View.setPage_other hqp).2]
    exact hbusy q hq hqp

theorem awp_subpageKmalloc
    (hi : Inv h v) (hbusy : v.Busy) (hsz : sz < LARGEST_SUBPAGE_SIZE) (hans : Answer h answer)
    (hnull : ∀ h', Inv h' v → Q 0 h')
    (hQ : ∀ h' v' a, Inv h' v' → v'.Busy → a ≠ 0 → v'.live.Perm ((a, sz) :: v.live) → Q a h') :
    awp t (subpageKmalloc slow sz answer) Q h := by
  refine awp_bind.2 (awp_blocktype hsz fun b hb hle => ?_)
  refine awp_bind.2 (awp_bind.2 (awp_mem.2 (awp_bind.2 ((awp_put _).2 ?_))))
  have hhigh := hi.spl 15
  have hpos : 0 < ({ h with curspl := 15 } : Heap).curspl := Nat.succ_pos 14
  have hans : Answer { h with curspl := 15 } answer := hans
  generalize ({ h with curspl := 15 } : Heap) = h1 at hhigh hpos hans ⊢
  have hvalid : (Link.same b).Valid := hb
  refine awp_bind.2 (awp_checksubpages hhigh hpos ?_)
  refine awp_bind.2 (awp_mem.2 (awp_bind.2 (awp_findFree (hhigh.list _ hvalid) ?_ ?_ hpos
    (hhigh.length_list hvalid) ?_ ?_)))
  · exact fun p hp => ((hhigh.mem_same hb).1 hp).2
  · exact fun p hp => ⟨_, _, hhigh.page p (hhigh.mem_list hvalid hp)⟩
  · -- all pages of this size are full
    refine awp_bind.2 (awp_allocpageref_loop le_rfl ?_ ?_)
    · exact awp_bind.2 ((awp_modify _).2 (hnull _ (hhigh.spl _)))
    · intro p inuse _ hnew hinuse
      refine awp_bind.2 ?_
      rcases hans with rfl | ⟨hkp, hfresh⟩
      · -- there is no page, and the pageref is given back
        rw [allocKpages, if_pos rfl]
        refine (awp_pure _).2 ?_
        rw [if_pos rfl]
        refine awp_bind.2 (awp_freepageref ((hinuse p).2 (.inl rfl)) ?_)
        intro inuse' hinuse'
        refine awp_bind.2 ((awp_modify _).2 (hnull _ (Inv.spl (hhigh.bits ?_) _)))
        intro j
        rw [show Heap.InUse { h1 with pagerefsInuse := inuse' } j ↔ _ from hinuse' j, hinuse j]
        constructor
        · intro ⟨hjp, hj⟩
          exact hj.resolve_left hjp
        · intro hj
          exact ⟨fun hjp => hnew (hjp ▸ hj), .inr hj⟩
      · have hne : answer ≠ 0 := by
          have hzero := hkp.ne_zero (show 0 < 4096 by decide)
          simpa using hzero
        rw [allocKpages, if_neg hne]
        refine awp_bind.2 ((awp_modify _).2 ((awp_pure _).2 ?_))
        rw [if_neg hne]
        refine awp_bind.2 (awp_fresh (h := h1) hhigh hnew hb hkp hfresh hinuse ?_)
        intro h2 hi2 hcurspl htype
        have hpall : p ∉ v.all := fun hp => hnew ((hhigh.inuse p).1 hp)
        refine awp_takeBlock hi2 ?_ ?_ List.mem_cons_self ?_ (htype ▸ hle) ?_
        · intro q hq hqp
          have hq : q ∈ v.all := (List.mem_cons.1 hq).resolve_left hqp
          show update v.held p [] q ≠ []
          rw [update_of_ne hqp]
          exact hbusy q hq
        · rw [hcurspl]
          exact hpos
        · show 0 < (update v.free p _ p).length
          rw [update_self, List.length_reverse, length_blocksOf]
          obtain ⟨hlo, hhi, _⟩ := sizes_spec hb
          exact Nat.div_pos (by omega) (by omega)
        · intro h' v' a hi' hbusy' ha hperm
          rw [View.live_add hpall] at hperm
          exact hQ h' v' a hi' hbusy' ha hperm
  · intro p hp hfree
    obtain ⟨hpall, htype⟩ := (hhigh.mem_same hb).1 hp
    refine awp_takeBlock hhigh (fun q hq _ => hbusy q hq) hpos hpall ?_ (htype ▸ hle) hQ
    rw [← (hhigh.page p hpall).nfree]
    exact hfree

/-! ## `kfree` -/

/-- The block has its link, and is put on the free list. -/
theorem awp_putBlock {mem : Word → Word} {Q : Bool → Heap → Prop} (hi : Inv h v) (hbusy : v.Busy)
    (hspl : 0 < h.curspl) (hp : p ∈ v.all) (hheld : (ptr, sz) ∈ v.held p)
    (hnext : ptrOf (mem ptr) = (v.free p).head?) (hfree : ∀ b ∈ v.free p, mem b = h.mem b)
    (hmem : ∀ b, b &&& PAGE_FRAME ≠ h.page p → mem b = h.mem b)
    (hQ : ∀ h' v', Inv h' v' → v'.Busy → v.live.Perm ((ptr, sz) :: v'.live) → Q true h') :
    awp t (subpageKfree.finish slow p (h.pagerefs p) (ptr - (h.pagerefs p).pageaddr) spl) Q
      { h with mem := mem } := by
  have hok := hi.page p hp
  have hptr : ptr ∈ v.addrs p := List.mem_map.2 ⟨_, hheld, rfl⟩
  obtain ⟨off, hoff, _, hptroff⟩ := hok.block (.inr hptr)
  have hnum : (ptr - (h.pagerefs p).pageaddr).toNat % 65536 =
      (ptr - (h.pagerefs p).pageaddr).toNat := by
    rw [hptroff, Kpage.toNat_sub hoff]
    omega
  have hperm := List.perm_cons_erase hheld
  have hlen := hok.length
  have hle := hok.length_le
  have hcount : (v.addrs p).length = ((v.held p).erase (ptr, sz)).length + 1 := by
    rw [View.addrs, List.length_map, hperm.length_eq, List.length_cons]
  have hnfree : ((h.pagerefs p).nfree + 1) % 65536 = (v.free p).length + 1 := by
    rw [hok.nfree]
    omega
  have hi' : Inv (Heap.setRef { h with mem := mem } p fun pr => { pr with
        freelistOffset := (ptr - (h.pagerefs p).pageaddr).toNat
        nfree := (v.free p).length + 1 })
      (v.setPage p (ptr :: v.free p) ((v.held p).erase (ptr, sz))) := by
    refine hi.setPage hp ?_ ?_ ?_ (hok.put (hperm.map Prod.fst) hnext hfree) ?_ hmem
    · rfl
    · rfl
    · rfl
    · exact fun x hx => hi.fits p hp x (List.mem_of_mem_erase hx)
  have hlive : v.live.Perm
      ((ptr, sz) :: (v.setPage p (ptr :: v.free p) ((v.held p).erase (ptr, sz))).live) :=
    View.live_setPage_erase hi.nodup hp hperm
  have hothers : ∀ q ∈ v.all, q ≠ p →
      (v.setPage p (ptr :: v.free p) ((v.held p).erase (ptr, sz))).held q ≠ [] := by
    intro q hq hqp
    rw [(View.setPage_other hqp).2]
    exact hbusy q hq
  unfold subpageKfree.finish
  rw [hnum, hnfree]
  refine awp_bind.2 ((awp_modify _).2 ?_)
  refine awp_bind.2 (awp_assert.2 ⟨fun _ => ?_, fun hno => absurd (by omega) hno⟩)
  have hpr : (Heap.setRef { h with mem := mem } p fun pr => { pr with
      freelistOffset := (ptr - (h.pagerefs p).pageaddr).toNat
      nfree := (v.free p).length + 1 }).pagerefs p = { h.pagerefs p with
        freelistOffset := (ptr - (h.pagerefs p).pageaddr).toNat
        nfree := (v.free p).length + 1 } := update_self ..
  have hspl' : 0 < (Heap.setRef { h with mem := mem } p fun pr => { pr with
      freelistOffset := (ptr - (h.pagerefs p).pageaddr).toNat
      nfree := (v.free p).length + 1 }).curspl := hspl
  generalize (Heap.setRef { h with mem := mem } p fun pr => { pr with
    freelistOffset := (ptr - (h.pagerefs p).pageaddr).toNat
    nfree := (v.free p).length + 1 }) = h2 at hi' hpr hspl' ⊢
  by_cases hfull : (v.free p).length + 1 = 4096 / sizes (h.pagerefs p).blocktype
  · rw [if_pos hfull]
    have htype : (h.pagerefs p).blocktype = h2.type p := by
      rw [Heap.type, hpr]
      rfl
    have hpage : (h.pagerefs p).pageaddr = h2.page p := by
      rw [Heap.page, hpr]
      rfl
    have hnil : (v.held p).erase (ptr, sz) = [] := by
      apply List.eq_nil_of_length_eq_zero
      omega
    rw [htype, hpage]
    refine awp_bind.2 (awp_release hi' hspl' hp ?_)
    intro h3 hi3 hspl3
    refine awp_bind.2 (awp_checksubpages hi3 (by rw [hspl3]; exact hspl') ?_)
    refine awp_bind.2 ((awp_modify _).2 (hQ _ _ (hi3.spl spl) ?_ ?_))
    · intro q hq
      obtain ⟨hqp, hq⟩ := hi.nodup.mem_erase_iff.1 hq
      exact hothers q hq hqp
    · apply hlive.trans
      apply List.Perm.cons
      apply View.live_remove (v := v.setPage p (ptr :: v.free p) ((v.held p).erase (ptr, sz))) hp
      rw [View.setPage_self.2]
      exact hnil
  · rw [if_neg hfull]
    refine awp_bind.2 (awp_checksubpages hi' hspl' ?_)
    refine awp_bind.2 ((awp_modify _).2 (hQ _ _ (hi'.spl spl) ?_ hlive))
    intro q hq
    by_cases hqp : q = p
    · subst hqp
      rw [View.setPage_self.2]
      intro hnil
      rw [hnil] at hcount
      simp at hcount
      omega
    · exact hothers q hq hqp

theorem awp_subpageKfree {Q : Bool → Heap → Prop} (hi : Inv h v) (hbusy : v.Busy)
    (hx : (ptr, sz) ∈ v.live)
    (hQ : ∀ h' v', Inv h' v' → v'.Busy → v.live.Perm ((ptr, sz) :: v'.live) → Q true h') :
    awp t (subpageKfree slow ptr) Q h := by
  refine awp_bind.2 (awp_bind.2 (awp_mem.2 (awp_bind.2 ((awp_put _).2 ?_))))
  have hhigh := hi.spl 15
  have hpos : 0 < ({ h with curspl := 15 } : Heap).curspl := Nat.succ_pos 14
  generalize ({ h with curspl := 15 } : Heap) = h1 at hhigh hpos ⊢
  obtain ⟨p, hp, hheld⟩ := List.mem_flatMap.1 hx
  have hptr : ptr ∈ v.addrs p := List.mem_map.2 ⟨_, hheld, rfl⟩
  have hok := hhigh.page p hp
  obtain ⟨off, hoff, hdvd, hptroff⟩ := hok.block (.inr hptr)
  have hnum : (ptr - (h1.pagerefs p).pageaddr).toNat = off := by
    rw [hptroff, Kpage.toNat_sub hoff]
  have hback : (h1.pagerefs p).pageaddr + (ptr - (h1.pagerefs p).pageaddr) = ptr := by
    rw [BitVec.add_comm, BitVec.sub_add_cancel]
  refine awp_bind.2 (awp_checksubpages hhigh hpos ?_)
  refine awp_bind.2 (awp_mem.2 (awp_bind.2 (awp_findPage (hhigh.list .all trivial) ?_ hpos
    hhigh.length_all hp ?_ ?_ ?_)))
  · exact fun q hq => ⟨_, _, hhigh.page q hq⟩
  · rw [hptroff]
    exact hok.kpage.inPage hoff
  · exact fun q hq heq => hhigh.page_inj hp hq heq
  refine awp_bind.2 (awp_mem.2 (awp_bind.2 (awp_assert.2 ⟨fun _ => ?_, fun hno => absurd ?_ hno⟩)))
  · refine awp_bind.2 ((awp_modify _).2 ?_)
    rw [hback]
    -- the link is what was the head of the list before
    have hlinked : ∀ w, ptrOf w = (v.free p).head? → awp t (do
        store ptr w
        subpageKfree.finish slow p (h1.pagerefs p) (ptr - (h1.pagerefs p).pageaddr) h.curspl) Q
        { h1 with mem := fillDeadbeef ptr (sizes (h1.pagerefs p).blocktype / 4) h1.mem } := by
      intro w hw
      obtain ⟨hfree, hout⟩ := hok.filled (w := w) hptr
      refine awp_bind.2 ((awp_modify _).2 (awp_putBlock hhigh hbusy hpos hp hheld ?_ hfree hout hQ))
      rw [update_self]
      exact hw
    cases hlist : v.free p with
    | nil =>
      rw [hlist] at hok hlinked
      rw [if_pos (show (h1.pagerefs p).freelistOffset = INVALID_OFFSET from hok.offset)]
      exact hlinked 0 rfl
    | cons a free =>
      rw [hlist] at hok hlinked
      obtain ⟨hlt, _, ha⟩ := hok.head
      have hinv : (h1.pagerefs p).freelistOffset ≠ INVALID_OFFSET := by
        unfold INVALID_OFFSET
        omega
      rw [if_neg hinv, ha]
      apply hlinked a
      exact ptrOf_of_ne (ha ▸ hok.kpage.ne_zero hlt)
  · exact ⟨BitVec.lt_def.2 (hnum ▸ hoff), hnum ▸ Nat.mod_eq_zero_of_dvd hdvd⟩

theorem awp_kmalloc_small
    (hi : Inv h v) (hbusy : v.Busy) (hsz : sz < LARGEST_SUBPAGE_SIZE) (hans : Answer h answer)
    (hnull : ∀ h', Inv h' v → Q 0 h')
    (hQ : ∀ h' v' a, Inv h' v' → v'.Busy → a ≠ 0 → v'.live.Perm ((a, sz) :: v.live) → Q a h') :
    awp t (kmalloc slow sz answer) Q h := by
  rw [kmalloc, if_neg (Nat.not_le_of_lt hsz)]
  exact awp_subpageKmalloc hi hbusy hsz hans hnull hQ

theorem awp_kfree {Q : Unit → Heap → Prop} (hi : Inv h v) (hbusy : v.Busy) (hx : (ptr, sz) ∈ v.live)
    (hQ : ∀ h' v', Inv h' v' → v'.Busy → v.live.Perm ((ptr, sz) :: v'.live) → Q () h') :
    awp t (kfree slow ptr) Q h := by
  obtain ⟨p, hp, hheld⟩ := List.mem_flatMap.1 hx
  have hmem : ptr ∈ v.addrs p := List.mem_map.2 ⟨_, hheld, rfl⟩
  obtain ⟨off, hoff, _, hptr⟩ := (hi.page p hp).block (.inr hmem)
  have hne : ptr ≠ 0 := hptr ▸ (hi.page p hp).kpage.ne_zero hoff
  rw [kfree, if_neg hne]
  refine awp_bind.2 (awp_subpageKfree hi hbusy hx ?_)
  intro h' v' hi' hbusy' hlive
  rw [if_pos rfl]
  exact (awp_pure _).2 (hQ h' v' hi' hbusy' hlive)

end

/-! ## Runs -/

/-- The heap, and the blocks that are out with the sizes that were asked for. -/
structure Use where
  heap : Heap
  live : List (Word × Nat)

/-- The call returns, and leaves the heap so. -/
def Ends {α : Type} (p : HeapM α) (h : Heap) (x : α) (h' : Heap) : Prop :=
  ∃ m m' : Machine Heap Empty Unit Empty, m.mem = h ∧ m'.mem = h' ∧ p.run m = (.done x, m')

/-- The call returns, whatever the rest of the machine is like. -/
def Returns {α : Type} (p : HeapM α) (h : Heap) (Q : α → Heap → Prop) : Prop :=
  ∀ m : Machine Heap Empty Unit Empty, m.mem = h →
    ∃ x m', p.run m = (.done x, m') ∧ Q x m'.mem

/-- Nothing may fail. -/
def strict : Terms Panic := ⟨fun _ => False, False, True⟩

variable {α : Type}

theorem returns_of_awp {p : HeapM α} {h : Heap} {Q : α → Heap → Prop}
    (hp : awp strict p Q h) : Returns p h Q := by
  intro m hm
  subst hm
  exact awp_run_done (fun _ => id) (fun _ => trivial) hp

theorem Ends.of_awp {p : HeapM α} {h h' : Heap} {x : α} {Q : α → Heap → Prop}
    (he : Ends p h x h') (hp : awp strict p Q h) : Q x h' := by
  obtain ⟨m, m', hm, hm', hrun⟩ := he
  obtain ⟨y, m'', hrun', hQ⟩ := returns_of_awp hp m hm
  rw [hrun] at hrun'
  cases hrun'
  exact hm' ▸ hQ

namespace Use

/-- Memory that whoever uses the heap may write to: outside the pages of the
heap, and in the blocks that were handed out. -/
def Writable (σ : Use) (a : Word) : Prop :=
  a &&& PAGE_FRAME ∉ σ.heap.kpages ∨ ∃ x ∈ σ.live, Within a x.1 x.2

inductive Step (slow : Bool) : Use → Use → Prop where
  | kmalloc {σ : Use} {sz : Nat} {answer r : Word} {h : Heap} :
      sz < LARGEST_SUBPAGE_SIZE → Answer σ.heap answer →
      Ends (kmalloc slow sz answer) σ.heap r h →
      Step slow σ ⟨h, if r = 0 then σ.live else (r, sz) :: σ.live⟩
  | kfree {σ : Use} {ptr : Word} {sz : Nat} {h : Heap} :
      (ptr, sz) ∈ σ.live → Ends (kfree slow ptr) σ.heap () h →
      Step slow σ ⟨h, σ.live.erase (ptr, sz)⟩
  | kfreeNull {σ : Use} {h : Heap} :
      Ends (Kheap.kfree slow 0) σ.heap () h → Step slow σ ⟨h, σ.live⟩
  | write {σ : Use} {mem : Word → Word} :
      (∀ a, ¬ σ.Writable a → mem a = σ.heap.mem a) →
      Step slow σ ⟨{ σ.heap with mem := mem }, σ.live⟩

/-- The heap before its first use: everything but the memory is zero. -/
structure Booted (σ : Use) : Prop where
  inuse : ∀ i, σ.heap.pagerefsInuse i = 0
  sizebases : ∀ b, σ.heap.sizebases b = none
  allbase : σ.heap.allbase = none
  kpages : σ.heap.kpages = []
  live : σ.live = []

inductive Run (slow : Bool) (σ₀ : Use) : Use → Prop where
  | refl : Run slow σ₀ σ₀
  | tail {σ σ' : Use} : Run slow σ₀ σ → Step slow σ σ' → Run slow σ₀ σ'

/-- What holds between two calls. -/
structure Good (σ : Use) (v : View) : Prop where
  inv : Inv σ.heap v
  busy : v.Busy
  live : v.live.Perm σ.live

end Use

/-! ## Blocks and pages -/

section
variable {h : Heap} {v : View}

/-- A block of the page of pageref `p`, free or not. -/
def View.Block (v : View) (p : Nat) (a : Word) : Prop := a ∈ v.free p ∨ a ∈ v.addrs p

/-- Different blocks have no byte in common. -/
theorem Inv.blocks_apart (hi : Inv h v) {p q : Nat} {a b c : Word} (hp : p ∈ v.all) (hq : q ∈ v.all)
    (ha : v.Block p a) (hb : v.Block q b) (hca : Within c a (sizes (h.type p)))
    (hcb : Within c b (sizes (h.type q))) : p = q ∧ a = b := by
  obtain ⟨hpage, hca⟩ := (hi.page p hp).within ha hca
  obtain ⟨hpage', hcb⟩ := (hi.page q hq).within hb hcb
  have hpq : p = q := hi.page_inj hq hp (hpage.symm.trans hpage')
  subst hpq
  exact ⟨rfl, hca.trans hcb.symm⟩

theorem within_self {a : Word} {n : Nat} (hn : 0 < n) : Within a a n := by
  rw [Within, BitVec.sub_self]
  exact hn

/-- Writing to blocks that are out does not touch the free lists. -/
theorem Inv.write (hi : Inv h v) {mem : Word → Word}
    (hmem : ∀ a, a &&& PAGE_FRAME ∈ h.kpages → (∀ x ∈ v.live, ¬ Within a x.1 x.2) →
      mem a = h.mem a) : Inv { h with mem := mem } v := by
  refine { hi with page := ?_ }
  intro p hp
  have hok := hi.page p hp
  refine hok.congr fun a ha => hmem a ?_ ?_
  · rw [hi.kpages.mem_iff, hok.frame (.inl ha)]
    exact List.mem_map_of_mem hp
  · intro x hx hin
    obtain ⟨q, hq, hheld⟩ := List.mem_flatMap.1 hx
    have hxq : x.1 ∈ v.addrs q := List.mem_map_of_mem hheld
    have hsize : 0 < sizes (h.type p) := Nat.lt_of_lt_of_le (by decide) (sizes_spec hok.type).1
    obtain ⟨hpq, hax⟩ := hi.blocks_apart hp hq (.inl ha) (.inr hxq) (within_self hsize)
      (Nat.lt_of_lt_of_le hin (hi.fits q hq x hheld))
    subst hpq
    exact (List.nodup_append.1 hok.nodup).2.2 a ha x.1 hxq hax

/-- The pages of the heap are those with a block that is out. -/
theorem Inv.mem_kpages (hi : Inv h v) (hbusy : v.Busy) {page : Word} :
    page ∈ h.kpages ↔ ∃ x ∈ v.live, x.1 &&& PAGE_FRAME = page := by
  have hframe : ∀ p ∈ v.all, ∀ x ∈ v.held p, x.1 &&& PAGE_FRAME = h.page p := by
    intro p hp x hx
    exact (hi.page p hp).frame (.inr (List.mem_map_of_mem hx))
  rw [hi.kpages.mem_iff, List.mem_map]
  constructor
  · rintro ⟨p, hp, rfl⟩
    obtain ⟨x, hx⟩ := List.exists_mem_of_ne_nil _ (hbusy p hp)
    exact ⟨x, List.mem_flatMap.2 ⟨p, hp, hx⟩, hframe p hp x hx⟩
  · rintro ⟨x, hx, rfl⟩
    obtain ⟨p, hp, hheld⟩ := List.mem_flatMap.1 hx
    exact ⟨p, hp, (hframe p hp x hheld).symm⟩

/-- The blocks that are out have no byte in common. -/
theorem Inv.live_apart (hi : Inv h v) :
    v.live.Pairwise fun x y => ∀ c, Within c x.1 x.2 → ¬ Within c y.1 y.2 := by
  have hmeet : ∀ {p q x y c}, p ∈ v.all → q ∈ v.all → x ∈ v.held p → y ∈ v.held q →
      Within c x.1 x.2 → Within c y.1 y.2 → p = q ∧ x.1 = y.1 := by
    intro p q x y c hp hq hx hy hcx hcy
    exact hi.blocks_apart hp hq (.inr (List.mem_map_of_mem hx)) (.inr (List.mem_map_of_mem hy))
      (Nat.lt_of_lt_of_le hcx (hi.fits p hp x hx)) (Nat.lt_of_lt_of_le hcy (hi.fits q hq y hy))
  rw [View.live, List.pairwise_flatMap]
  constructor
  · intro p hp
    have hnodup : (v.addrs p).Nodup := (List.nodup_append.1 (hi.page p hp).nodup).2.1
    refine (List.pairwise_map.1 hnodup).imp_of_mem ?_
    intro x y hx hy hne c hcx hcy
    exact hne (hmeet hp hp hx hy hcx hcy).2
  · refine hi.nodup.imp_of_mem ?_
    intro p q hp hq hne x hx y hy c hcx hcy
    exact hne (hmeet hp hq hx hy hcx hcy).1

end

/-! ## The invariant of a run -/

namespace Use

variable {σ σ₀ σ' : Use} {v : View} {slow : Bool}

theorem Booted.good (h : σ.Booted) : σ.Good ⟨[], fun _ => [], fun _ => [], fun _ => []⟩ where
  inv := {
    list := by
      intro c _
      cases c with
      | all => exact h.allbase
      | same b => exact h.sizebases b
    nodup := .nil
    inuse := by
      intro j
      simp [Heap.InUse, h.inuse]
    same := fun _ _ => .nil
    page := by simp
    fits := by simp
    kpages := by simp [h.kpages]
    apart := .nil }
  busy := by simp [View.Busy]
  live := by simp [View.live, h.live]

variable {sz p : Nat} {answer ptr : Word}

/-- What a call of `kmalloc` does, and that it returns. -/
theorem Good.kmalloc (hg : σ.Good v) (hsz : sz < LARGEST_SUBPAGE_SIZE)
    (hans : Answer σ.heap answer) : awp strict (kmalloc slow sz answer)
      (fun r h => ∃ v', Good ⟨h, if r = 0 then σ.live else (r, sz) :: σ.live⟩ v') σ.heap := by
  apply awp_kmalloc_small hg.inv hg.busy hsz hans
  · intro h hi
    exact ⟨v, hi, hg.busy, hg.live⟩
  · intro h v' a hi hbusy ha hlive
    refine ⟨v', hi, hbusy, ?_⟩
    rw [if_neg ha]
    exact hlive.trans (hg.live.cons _)

theorem Good.kfree (hg : σ.Good v) (hx : (ptr, sz) ∈ σ.live) : awp strict (kfree slow ptr)
      (fun _ h => ∃ v', Good ⟨h, σ.live.erase (ptr, sz)⟩ v') σ.heap := by
  apply awp_kfree hg.inv hg.busy (hg.live.mem_iff.2 hx)
  intro h v' hi hbusy hlive
  refine ⟨v', hi, hbusy, ?_⟩
  have hcons := hlive.symm.trans (hg.live.trans (List.perm_cons_erase hx))
  exact hcons.cons_inv

theorem Good.step (hg : σ.Good v) (hstep : Step slow σ σ') : ∃ v', σ'.Good v' := by
  cases hstep with
  | kmalloc hsz hans he => exact he.of_awp (hg.kmalloc hsz hans)
  | kfree hx he => exact he.of_awp (hg.kfree hx)
  | kfreeNull he =>
    have hsame : Good ⟨_, σ.live⟩ v := he.of_awp (Q := fun _ h => Good ⟨h, σ.live⟩ v) hg
    exact ⟨v, hsame⟩
  | write hmem =>
    refine ⟨v, hg.inv.write ?_, hg.busy, hg.live⟩
    intro a hpage hlive
    apply hmem
    intro hw
    rcases hw with hw | ⟨x, hx, hin⟩
    · exact hw hpage
    · exact hlive x (hg.live.mem_iff.2 hx) hin

theorem Run.good (h₀ : σ₀.Booted) (hrun : Run slow σ₀ σ) : ∃ v, σ.Good v := by
  induction hrun with
  | refl => exact ⟨_, h₀.good⟩
  | tail _ hstep ih =>
    obtain ⟨v, hg⟩ := ih
    exact hg.step hstep

/-! ## Integrity -/

/-- Where the free list of a page starts. -/
def freelist (h : Heap) (p : Nat) : Option Word :=
  if (h.pagerefs p).freelistOffset = INVALID_OFFSET then none
  else some (h.page p + BitVec.ofNat 32 (h.pagerefs p).freelistOffset)

/-- The data structures of the heap fit together. -/
structure Intact (σ : Use) (v : View) : Prop where
  /-- The view has all blocks that are out. -/
  live : v.live.Perm σ.live
  /-- Each pageref in use is on `allbase` once, -/
  allbase : Linked (σ.heap.next .all) σ.heap.allbase v.all ∧ v.all.Nodup
  /-- and on the list of its block type, and no other, once. -/
  sizebases : ∀ b < NSIZES, Linked (σ.heap.next (.same b)) (σ.heap.sizebases b) (v.same b) ∧
    (v.same b).Nodup ∧ ∀ p, p ∈ v.same b ↔ p ∈ v.all ∧ σ.heap.type p = b
  type : ∀ p ∈ v.all, σ.heap.type p < NSIZES
  /-- The bits are those of the pagerefs on the lists. -/
  inuse : ∀ p, σ.heap.InUse p ↔ p ∈ v.all
  /-- The free list of a page ends, and is as long as `nfree` says. -/
  free : ∀ p ∈ v.all, Linked (nextFree σ.heap.mem) (freelist σ.heap p) (v.free p) ∧
    (σ.heap.pagerefs p).nfree = (v.free p).length
  /-- The blocks of a page, free or not, are at multiples of their size, -/
  aligned : ∀ p ∈ v.all, ∀ a, v.Block p a → ∃ off, off + sizes (σ.heap.type p) ≤ 4096 ∧
    sizes (σ.heap.type p) ∣ off ∧ a = σ.heap.page p + BitVec.ofNat 32 off
  /-- each of them is either free or out, -/
  blocks : ∀ p ∈ v.all, (v.free p ++ v.addrs p).Nodup
  /-- and they fill the page. -/
  count : ∀ p ∈ v.all,
    (σ.heap.pagerefs p).nfree + (v.held p).length = 4096 / sizes (σ.heap.type p)
  /-- Each pageref has a page of its own, and all pages are used. -/
  kpages : σ.heap.kpages.Perm (v.all.map σ.heap.page) ∧ σ.heap.kpages.Nodup
  /-- A page has a block that is out. -/
  busy : ∀ p ∈ v.all, v.held p ≠ []
  /-- A block is as long as was asked for, and aligned to its size. -/
  fits : ∀ p ∈ v.all, ∀ x ∈ v.held p,
    x.2 ≤ sizes (σ.heap.type p) ∧ sizes (σ.heap.type p) ∣ x.1.toNat

theorem freelist_eq (hi : Inv σ.heap v) (hp : p ∈ v.all) :
    freelist σ.heap p = (v.free p).head? := by
  have hok := hi.page p hp
  unfold freelist
  cases hfree : v.free p with
  | nil =>
    rw [hfree] at hok
    exact if_pos hok.offset
  | cons a free =>
    rw [hfree] at hok
    obtain ⟨hlt, _, ha⟩ := hok.head
    rw [if_neg (by unfold INVALID_OFFSET; omega)]
    exact congrArg some ha

/-- A block is aligned to its size, since the page is. -/
theorem block_aligned (hi : Inv σ.heap v) (hp : p ∈ v.all) {a : Word} (ha : v.Block p a) :
    sizes (σ.heap.type p) ∣ a.toNat := by
  have hok := hi.page p hp
  obtain ⟨_, _, hdiv⟩ := sizes_spec hok.type
  obtain ⟨off, hoff, hdvd, rfl⟩ := hok.block ha
  rw [hok.kpage.toNat_add hoff]
  have hpage : 4096 ∣ (σ.heap.pagerefs p).pageaddr.toNat :=
    Nat.dvd_of_mod_eq_zero hok.kpage.aligned
  have hsize : sizes (σ.heap.type p) ∣ 4096 := ⟨_, (Nat.mul_comm _ _ ▸ hdiv).symm⟩
  exact Nat.dvd_add (hsize.trans hpage) hdvd

theorem Good.intact (hg : σ.Good v) : σ.Intact v where
  live := hg.live
  allbase := ⟨hg.inv.list .all trivial, hg.inv.nodup⟩
  sizebases := by
    intro b hb
    exact ⟨hg.inv.list (.same b) hb, hg.inv.nodup_list (c := .same b) hb,
      fun p => hg.inv.mem_same hb⟩
  type := fun p hp => (hg.inv.page p hp).type
  inuse := fun p => (hg.inv.inuse p).symm
  free := by
    intro p hp
    rw [freelist_eq hg.inv hp]
    exact ⟨(hg.inv.page p hp).chain, (hg.inv.page p hp).nfree⟩
  aligned := by
    intro p hp a ha
    obtain ⟨off, hoff, hdvd, ha⟩ := (hg.inv.page p hp).block ha
    exact ⟨off, block_room (hg.inv.page p hp).type hoff hdvd, hdvd, ha⟩
  blocks := fun p hp => (hg.inv.page p hp).nodup
  count := by
    intro p hp
    have hlen := (hg.inv.page p hp).length
    rw [View.addrs, List.length_map, ← (hg.inv.page p hp).nfree] at hlen
    exact hlen
  kpages := ⟨hg.inv.kpages, hg.inv.kpages.nodup_iff.2 hg.inv.apart⟩
  busy := hg.busy
  fits := by
    intro p hp x hx
    exact ⟨hg.inv.fits p hp x hx, block_aligned hg.inv hp (.inr (List.mem_map_of_mem hx))⟩

theorem Good.mem_kpages (hg : σ.Good v) {page : Word} :
    page ∈ σ.heap.kpages ↔ ∃ x ∈ σ.live, x.1 &&& PAGE_FRAME = page := by
  rw [hg.inv.mem_kpages hg.busy]
  simp only [hg.live.mem_iff]

/-- A call of `kmalloc` gives no page back. -/
theorem Good.kmalloc_returns (hg : σ.Good v) (hsz : sz < LARGEST_SUBPAGE_SIZE)
    (hans : Answer σ.heap answer) :
    Returns (Kheap.kmalloc slow sz answer) σ.heap fun _ h =>
      ∀ page ∈ σ.heap.kpages, page ∈ h.kpages := by
  refine returns_of_awp (awp_mono (hg.kmalloc hsz hans) ?_)
  intro r h ⟨v', hg'⟩ page hpage
  obtain ⟨x, hx, hframe⟩ := hg.mem_kpages.1 hpage
  refine hg'.mem_kpages.2 ⟨x, ?_, hframe⟩
  split
  · exact hx
  · exact List.mem_cons_of_mem _ hx

/-- A call of `kfree` gives the page back if this was its last block. -/
theorem Good.kfree_returns (hg : σ.Good v) (hx : (ptr, sz) ∈ σ.live) :
    Returns (Kheap.kfree slow ptr) σ.heap fun _ h =>
      ∀ page, page ∈ h.kpages ↔ page ∈ σ.heap.kpages ∧
        (page = ptr &&& PAGE_FRAME → ∃ x ∈ σ.live.erase (ptr, sz), x.1 &&& PAGE_FRAME = page) := by
  refine returns_of_awp (awp_mono (hg.kfree hx) ?_)
  intro _ h ⟨v', hg'⟩ page
  rw [show page ∈ h.kpages ↔ _ from hg'.mem_kpages, hg.mem_kpages]
  constructor
  · intro ⟨x, hmem, hframe⟩
    exact ⟨⟨x, List.mem_of_mem_erase hmem, hframe⟩, fun _ => ⟨x, hmem, hframe⟩⟩
  · rintro ⟨⟨x, hmem, hframe⟩, hlast⟩
    by_cases hx' : x = (ptr, sz)
    · subst hx'
      exact hlast hframe.symm
    · exact ⟨x, (List.mem_erase_of_ne hx').2 hmem, hframe⟩

/-- The heap keeps its integrity, whatever is asked for and freed: its data
structures fit together, no two blocks that are out overlap, and no call trips an
assertion or follows a list that does not end. A page is given back by the `kfree`
that frees its last block, and by nothing else. -/
theorem heap_integrity (h₀ : σ₀.Booted) (hrun : Run slow σ₀ σ) :
    (∃ v, σ.Intact v) ∧
    (σ.live.Pairwise fun x y => ∀ c, Within c x.1 x.2 → ¬ Within c y.1 y.2) ∧
    (∀ sz answer, sz < LARGEST_SUBPAGE_SIZE → Answer σ.heap answer →
      Returns (Kheap.kmalloc slow sz answer) σ.heap fun _ h =>
        ∀ page ∈ σ.heap.kpages, page ∈ h.kpages) ∧
    ∀ ptr sz, (ptr, sz) ∈ σ.live → Returns (Kheap.kfree slow ptr) σ.heap fun _ h =>
      ∀ page, page ∈ h.kpages ↔ page ∈ σ.heap.kpages ∧
        (page = ptr &&& PAGE_FRAME →
          ∃ x ∈ σ.live.erase (ptr, sz), x.1 &&& PAGE_FRAME = page) := by
  obtain ⟨v, hg⟩ := hrun.good h₀
  refine ⟨⟨v, hg.intact⟩, ?_, ?_, ?_⟩
  · refine hg.live.pairwise hg.inv.live_apart ?_
    intro x y hxy c hcy hcx
    exact hxy c hcx hcy
  · intro sz answer hsz hans
    exact hg.kmalloc_returns hsz hans
  · intro ptr sz hx
    exact hg.kfree_returns hx

/-! A block that is handed out. -/

def bootHeap : Heap where
  mem _ := 0
  pagerefs _ := ⟨none, none, 0, 0, 0⟩
  pagerefsInuse _ := 0
  sizebases _ := none
  allbase := none
  curspl := 0
  kpages := []

theorem bootHeap_booted : Booted ⟨bootHeap, []⟩ where
  inuse _ := rfl
  sizebases _ := rfl
  allbase := rfl
  kpages := rfl
  live := rfl

/-- The heap after a call. -/
def after {α : Type} (h : Heap) (p : HeapM α) : Heap := (p.run ⟨h, fun a => a.elim, {}⟩).2.mem

theorem ends_after {h : Heap} {p : HeapM α} {x : α}
    (hdone : (p.run ⟨h, fun a => a.elim, {}⟩).1 = .done x) : Ends p h x (after h p) :=
  ⟨_, _, rfl, rfl, Prod.ext hdone rfl⟩

def oneBlock : Use :=
  ⟨after bootHeap (Kheap.kmalloc true 1500 0x80001000), [(0x80001800, 1500)]⟩

theorem answer_first : Answer bootHeap 0x80001000 :=
  .inr ⟨⟨rfl, by decide, by decide⟩, by simp [bootHeap]⟩

theorem oneBlock_run : Run true ⟨bootHeap, []⟩ oneBlock :=
  .tail .refl (.kmalloc (r := 0x80001800) (by decide) answer_first (ends_after rfl))

theorem heap_integrity_oneBlock :
    oneBlock.heap.kpages = [0x80001000] ∧ ∃ v, oneBlock.Intact v :=
  ⟨rfl, (heap_integrity bootHeap_booted oneBlock_run).1⟩

end Use

end Os161.Kern.Kheap
