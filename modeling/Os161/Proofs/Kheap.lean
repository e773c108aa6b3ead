import Mathlib.Data.List.Perm.Subperm
import Os161.Proofs.Subpage

/-!
# The kernel heap is sound

`View` is what the heap stands for: the pagerefs in use, in the order of their
lists, and for each of them the free blocks of its page and those that were
handed out, with the sizes that were asked for. `Inv` says that the heap is as
the view has it. `kmalloc` and `kfree` take a view to the next one, and under
`Inv` none of their assertions fails and every list they follow ends.
-/

namespace Os161.Kern.Kheap

open Os161.Lib Os161.Vm Function

/-! ## The invariant -/

structure View where
  all : List Nat
  same : Nat → List Nat
  free : Nat → List Word
  held : Nat → List (Word × Nat)

namespace View

def list (v : View) : Link → List Nat
  | .all => v.all
  | .same b => v.same b

/-- The addresses that were handed out on a page. -/
def addrs (v : View) (p : Nat) : List Word := (v.held p).map Prod.fst

/-- All blocks that were handed out. -/
def live (v : View) : List (Word × Nat) := v.all.flatMap v.held

end View

def Link.Valid : Link → Prop
  | .all => True
  | .same b => b < NSIZES

namespace Heap

/-- The bit of a pageref is set. -/
def InUse (h : Heap) (j : Nat) : Prop :=
  j < NPAGEREFS ∧ h.pagerefsInuse (j / 32) &&& bit (j % 32) ≠ 0

def type (h : Heap) (p : Nat) : Nat := (h.pagerefs p).blocktype

def page (h : Heap) (p : Nat) : Word := (h.pagerefs p).pageaddr

end Heap

structure Inv (h : Heap) (v : View) : Prop where
  list : ∀ c, c.Valid → Linked (h.next c) (h.head c) (v.list c)
  nodup : v.all.Nodup
  inuse : ∀ j, j ∈ v.all ↔ h.InUse j
  same : ∀ b < NSIZES, (v.same b).Perm (v.all.filter fun p => h.type p = b)
  page : ∀ p ∈ v.all, PageOk h.mem (h.pagerefs p) (v.free p) (v.addrs p)
  fits : ∀ p ∈ v.all, ∀ x ∈ v.held p, x.2 ≤ sizes (h.type p)
  kpages : h.kpages.Perm (v.all.map h.page)
  apart : (v.all.map h.page).Nodup

namespace Inv

variable {h : Heap} {v : View}

theorem length_all (hi : Inv h v) : v.all.length ≤ NPAGEREFS := by
  have hsub : v.all ⊆ List.range NPAGEREFS := by
    intro j hj
    exact List.mem_range.2 ((hi.inuse j).1 hj).1
  have hle := (List.Nodup.subperm hi.nodup hsub).length_le
  rwa [List.length_range] at hle

theorem mem_list (hi : Inv h v) {c : Link} (hc : c.Valid) {p : Nat} (hp : p ∈ v.list c) :
    p ∈ v.all := by
  cases c with
  | all => exact hp
  | same b => exact List.mem_of_mem_filter ((hi.same b hc).mem_iff.1 hp)

theorem nodup_list (hi : Inv h v) {c : Link} (hc : c.Valid) : (v.list c).Nodup := by
  cases c with
  | all => exact hi.nodup
  | same b => exact (hi.same b hc).nodup_iff.2 (hi.nodup.filter _)

theorem length_list (hi : Inv h v) {c : Link} (hc : c.Valid) : (v.list c).length ≤ NPAGEREFS := by
  apply Nat.le_trans _ hi.length_all
  cases c with
  | all => exact le_rfl
  | same b =>
    show (v.same b).length ≤ _
    rw [(hi.same b hc).length_eq]
    exact List.length_filter_le _ _

theorem mem_same (hi : Inv h v) {p b : Nat} (hb : b < NSIZES) :
    p ∈ v.same b ↔ p ∈ v.all ∧ h.type p = b := by
  rw [(hi.same b hb).mem_iff, List.mem_filter, decide_eq_true_eq]

/-- Only the memory, the pagerefs and the lists matter. -/
theorem spl (hi : Inv h v) (n : Nat) : Inv { h with curspl := n } v := { hi with }

end Inv

/-! ## The checks -/

section
variable {t : Terms Panic} {h : Heap} {v : View} {slow : Bool}

variable {head : Option Nat} {l : List Nat}

theorem awp_checkList {c : Link} {k n : Nat} {Q : Nat → Heap → Prop} (hl : Linked (h.next c) head l)
    (hok : ∀ p ∈ l, ∃ free held, PageOk h.mem (h.pagerefs p) free held) (hspl : 0 < h.curspl)
    (hk : l.length ≤ k) (hn : n + l.length ≤ NPAGEREFS) (hQ : Q (n + l.length) h) :
    awp t (checksubpages.list slow c k head n) Q h := by
  induction l generalizing head k n with
  | nil =>
    cases hl
    rw [checksubpages.list]
    exact hQ
  | cons p l ih =>
    obtain ⟨rfl, hl⟩ := hl
    obtain ⟨k, rfl⟩ : ∃ j, k = j + 1 := ⟨k - 1, by simp at hk; omega⟩
    rw [List.length_cons] at hk hn hQ
    obtain ⟨free, held, hp⟩ := hok p List.mem_cons_self
    rw [checksubpages.list]
    refine awp_bind.2 (awp_checksubpage hp hspl ?_)
    refine awp_bind.2 (awp_assert.2 ⟨fun _ => ?_, fun hno => absurd (by omega) hno⟩)
    refine awp_bind.2 (awp_mem.2 ?_)
    apply ih hl
    · exact fun q hq => hok q (List.mem_cons_of_mem _ hq)
    · omega
    · omega
    · rw [Nat.add_right_comm]
      exact hQ

/-- The number of pagerefs on the lists of the sizes from `i` on. -/
def View.count (v : View) : Nat → Nat → Nat
  | 0, _ => 0
  | k + 1, i => (v.same i).length + v.count k (i + 1)

/-- Each pageref is on one of the lists. -/
theorem Inv.count (hi : Inv h v) {k i : Nat} (hik : i + k ≤ NSIZES) :
    v.count k i = (v.all.filter fun p => i ≤ h.type p ∧ h.type p < i + k).length := by
  induction k generalizing i with
  | zero =>
    rw [View.count, eq_comm, List.length_eq_zero_iff, List.filter_eq_nil_iff]
    intro p _
    simp only [decide_eq_true_eq]
    omega
  | succ k ih =>
    rw [View.count, ih (by omega), (hi.same i (by omega)).length_eq]
    rw [← List.countP_eq_length_filter, ← List.countP_eq_length_filter,
      ← List.countP_eq_length_filter]
    clear ih hi
    induction v.all with
    | nil => rfl
    | cons p l ih =>
      simp only [List.countP_cons, decide_eq_true_eq]
      split <;> split <;> split <;> omega

theorem Inv.count_all (hi : Inv h v) : v.count NSIZES 0 = v.all.length := by
  rw [hi.count (by omega), List.filter_eq_self.2]
  intro p hp
  have htype : h.type p < NSIZES := (hi.page p hp).type
  simpa using htype

theorem awp_checkSizes {k i sc : Nat} {Q : Nat → Heap → Prop} (hi : Inv h v)
    (hspl : 0 < h.curspl) (hik : i + k ≤ NSIZES) (hsc : sc + v.count k i ≤ NPAGEREFS)
    (hQ : Q (sc + v.count k i) h) : awp t (checksubpages.sizes slow k i sc) Q h := by
  induction k generalizing i sc with
  | zero => exact hQ
  | succ k ih =>
    rw [View.count] at hsc hQ
    have hvalid : (Link.same i).Valid := show i < NSIZES by omega
    refine awp_bind.2 (awp_mem.2 (awp_bind.2 (awp_checkList (hi.list _ hvalid) ?_ hspl
      (hi.length_list hvalid) ?_ ?_)))
    · exact fun p hp => ⟨_, _, hi.page p (hi.mem_list hvalid hp)⟩
    · show sc + (v.same i).length ≤ _
      omega
    · have hadd : sc + (v.list (.same i)).length + v.count k (i + 1) =
          sc + ((v.same i).length + v.count k (i + 1)) := Nat.add_assoc _ _ _
      apply ih
      · omega
      · rw [hadd]
        exact hsc
      · rw [hadd]
        exact hQ

theorem awp_checksubpages {Q : Unit → Heap → Prop} (hi : Inv h v) (hspl : 0 < h.curspl)
    (hQ : Q () h) : awp t (checksubpages slow) Q h := by
  unfold checksubpages
  cases slow with
  | false => exact hQ
  | true =>
    have hle := hi.length_all
    have hcount := hi.count_all
    rw [if_pos rfl]
    refine awp_bind.2 (awp_mem.2 (awp_bind.2 (awp_assert.2 ⟨fun _ => ?_, absurd hspl⟩)))
    refine awp_bind.2 (awp_checkSizes hi hspl le_rfl (by omega) ?_)
    refine awp_bind.2 (awp_mem.2 (awp_bind.2 (awp_checkList (hi.list .all trivial) ?_ hspl hle
      (by rw [Nat.zero_add]; exact hle) ?_)))
    · exact fun p hp => ⟨_, _, hi.page p hp⟩
    · refine awp_assert.2 ⟨fun _ => hQ, fun hno => absurd ?_ hno⟩
      rw [Nat.zero_add, Nat.zero_add, hcount]
      rfl

/-! ## Looking for a page -/

theorem awp_findFree {b k : Nat} {Q : Option Nat → Heap → Prop}
    (hl : Linked (h.next (.same b)) head l) (htype : ∀ p ∈ l, h.type p = b)
    (hok : ∀ p ∈ l, ∃ free held, PageOk h.mem (h.pagerefs p) free held) (hspl : 0 < h.curspl)
    (hk : l.length ≤ k) (hnone : Q none h)
    (hsome : ∀ p ∈ l, 0 < (h.pagerefs p).nfree → Q (some p) h) :
    awp t (subpageKmalloc.find slow b k head) Q h := by
  induction l generalizing head k with
  | nil =>
    cases hl
    rw [subpageKmalloc.find]
    exact hnone
  | cons p l ih =>
    obtain ⟨rfl, hl⟩ := hl
    obtain ⟨k, rfl⟩ : ∃ j, k = j + 1 := ⟨k - 1, by simp at hk; omega⟩
    rw [List.length_cons] at hk
    obtain ⟨free, held, hp⟩ := hok p List.mem_cons_self
    rw [subpageKmalloc.find]
    refine awp_bind.2 (awp_mem.2 (awp_bind.2 (awp_assert.2 ⟨fun _ => ?_, fun hno =>
      absurd (htype p List.mem_cons_self) hno⟩)))
    refine awp_bind.2 (awp_checksubpage hp hspl ?_)
    by_cases hfree : 0 < (h.pagerefs p).nfree
    · rw [if_pos hfree]
      exact hsome p List.mem_cons_self hfree
    · rw [if_neg hfree]
      apply ih hl
      · exact fun q hq => htype q (List.mem_cons_of_mem _ hq)
      · exact fun q hq => hok q (List.mem_cons_of_mem _ hq)
      · omega
      · exact fun q hq => hsome q (List.mem_cons_of_mem _ hq)

/-- The page of a block is found: no other page has an address of it. -/
theorem awp_findPage {k p : Nat} {ptr : Word}
    {Q : Option Nat → Heap → Prop} (hl : Linked (h.next .all) head l)
    (hok : ∀ q ∈ l, ∃ free held, PageOk h.mem (h.pagerefs q) free held) (hspl : 0 < h.curspl)
    (hk : l.length ≤ k) (hp : p ∈ l) (hin : h.page p ≤ ptr ∧ ptr < h.page p + PAGE_SIZE)
    (hother : ∀ q ∈ l, h.page q = h.page p → q = p) (hQ : Q (some p) h) :
    awp t (subpageKfree.find slow ptr k head) Q h := by
  induction l generalizing head k with
  | nil => cases hp
  | cons q l ih =>
    obtain ⟨rfl, hl⟩ := hl
    obtain ⟨k, rfl⟩ : ∃ j, k = j + 1 := ⟨k - 1, by simp at hk; omega⟩
    rw [List.length_cons] at hk
    obtain ⟨free, held, hq⟩ := hok q List.mem_cons_self
    rw [subpageKfree.find]
    refine awp_bind.2 (awp_mem.2 (awp_bind.2 (awp_assert.2 ⟨fun _ => ?_, absurd hq.type⟩)))
    refine awp_bind.2 (awp_checksubpage hq hspl ?_)
    by_cases hhere : (h.pagerefs q).pageaddr ≤ ptr ∧ ptr < (h.pagerefs q).pageaddr + PAGE_SIZE
    · have hqp : q = p := by
        apply hother q List.mem_cons_self
        obtain ⟨free', held', hp'⟩ := hok p hp
        have hframe : ptr &&& PAGE_FRAME = h.page p := hp'.kpage.of_inPage hin.1 hin.2
        exact (hq.kpage.of_inPage hhere.1 hhere.2).symm.trans hframe
      rw [if_pos hhere, hqp]
      exact hQ
    · rw [if_neg hhere]
      have hqp : p ≠ q := by
        intro hqp
        subst hqp
        exact hhere hin
      apply ih hl
      · exact fun r hr => hok r (List.mem_cons_of_mem _ hr)
      · omega
      · exact (List.mem_cons.1 hp).resolve_left hqp
      · exact fun r hr => hother r (List.mem_cons_of_mem _ hr)

end

/-! ## Changes to the heap -/

namespace View

/-- Other blocks are free and handed out on one page. -/
def setPage (v : View) (p : Nat) (free : List Word) (held : List (Word × Nat)) : View :=
  { v with free := update v.free p free, held := update v.held p held }

variable {free : List Word} {held : List (Word × Nat)}

theorem setPage_self {v : View} {p : Nat} :
    (v.setPage p free held).free p = free ∧ (v.setPage p free held).held p = held :=
  ⟨update_self .., update_self ..⟩

theorem setPage_other {v : View} {p q : Nat} (hq : q ≠ p)
    : (v.setPage p free held).free q = v.free q ∧ (v.setPage p free held).held q = v.held q :=
  ⟨update_of_ne hq _ _, update_of_ne hq _ _⟩

end View

namespace Inv

variable {h : Heap} {v : View}

/-- The page of a pageref is the page of no other. -/
theorem page_inj (hi : Inv h v) {p q : Nat} (hp : p ∈ v.all) (hq : q ∈ v.all)
    (heq : h.page q = h.page p) : q = p :=
  List.inj_on_of_nodup_map hi.apart hq hp heq

/-- What stands on one page has changed, and what its pageref says about it. -/
theorem setPage (hi : Inv h v) {p : Nat} (hp : p ∈ v.all) {pr : Pageref} {mem : Word → Word}
    {free : List Word} {held : List (Word × Nat)}
    (hpab : pr.pageaddrAndBlocktype = (h.pagerefs p).pageaddrAndBlocktype)
    (hsame : pr.nextSamesize = (h.pagerefs p).nextSamesize)
    (hall : pr.nextAll = (h.pagerefs p).nextAll)
    (hok : PageOk mem pr free (held.map Prod.fst))
    (hfits : ∀ x ∈ held, x.2 ≤ sizes (h.type p))
    (hmem : ∀ a, a &&& PAGE_FRAME ≠ h.page p → mem a = h.mem a) :
    Inv { h with mem := mem, pagerefs := update h.pagerefs p pr }
      (v.setPage p free held) := by
  have htype : ∀ q, Heap.type { h with mem := mem, pagerefs := update h.pagerefs p pr } q =
      h.type q := by
    intro q
    unfold Heap.type
    by_cases hq : q = p
    · subst hq
      dsimp only
      rw [update_self, Pageref.blocktype, Pageref.blocktype, hpab]
    · dsimp only
      rw [update_of_ne hq]
  have hpage : Heap.page { h with mem := mem, pagerefs := update h.pagerefs p pr } =
      h.page := by
    funext q
    unfold Heap.page
    by_cases hq : q = p
    · subst hq
      dsimp only
      rw [update_self, Pageref.pageaddr, Pageref.pageaddr, hpab]
    · dsimp only
      rw [update_of_ne hq]
  have hnext : ∀ c, Heap.next { h with
      mem := mem, pagerefs := update h.pagerefs p pr } c = h.next c := by
    intro c
    funext q
    by_cases hq : q = p
    · subst hq
      cases c with
      | all => simpa [Heap.next] using hall
      | same b => simpa [Heap.next] using hsame
    · cases c with
      | all => simp [Heap.next, update_of_ne hq]
      | same b => simp [Heap.next, update_of_ne hq]
  constructor
  · intro c hc
    rw [hnext]
    cases c with
    | all => exact hi.list .all hc
    | same b => exact hi.list (.same b) hc
  · exact hi.nodup
  · exact hi.inuse
  · intro b hb
    simp only [htype]
    exact hi.same b hb
  · intro q hq
    by_cases hqp : q = p
    · subst hqp
      rw [View.addrs, View.setPage_self.1, View.setPage_self.2]
      dsimp only
      rw [update_self]
      exact hok
    · rw [View.addrs, (View.setPage_other hqp).1, (View.setPage_other hqp).2]
      dsimp only
      rw [update_of_ne hqp]
      apply (hi.page q hq).congr
      intro a ha
      apply hmem
      rw [(hi.page q hq).frame (.inl ha)]
      exact fun heq => hqp (hi.page_inj hp hq heq)
  · intro q hq x hx
    rw [htype]
    by_cases hqp : q = p
    · subst hqp
      rw [View.setPage_self.2] at hx
      exact hfits x hx
    · rw [(View.setPage_other hqp).2] at hx
      exact hi.fits q hq x hx
  · rw [hpage]
    exact hi.kpages
  · rw [hpage]
    exact hi.apart

end Inv

/-! ## Taking a block -/

variable {p : Nat}

theorem setRef_setRef {h : Heap} {f g : Pageref → Pageref} :
    (h.setRef p f).setRef p g = h.setRef p fun pr => g (f pr) := by
  simp [Heap.setRef]

section
variable {t : Terms Panic} {h : Heap} {v : View} {slow : Bool}

theorem awp_doalloc {p spl sz : Nat} {a : Word} {free : List Word} {Q : Word → Heap → Prop}
    (hi : Inv h v) (hspl : 0 < h.curspl) (hp : p ∈ v.all) (hfree : v.free p = a :: free)
    (hsz : sz ≤ sizes (h.type p))
    (hQ : ∀ h', Inv h' (v.setPage p free ((a, sz) :: v.held p)) → h'.curspl = spl → Q a h') :
    awp t (subpageKmalloc.doalloc slow p spl) Q h := by
  have hok := hi.page p hp
  rw [hfree] at hok
  obtain ⟨hlt, _, ha⟩ := hok.head
  have hle := hok.length_le
  have hnfree := hok.nfree
  rw [List.length_cons] at hle hnfree
  have hnum : ((h.pagerefs p).nfree + 65535) % 65536 = free.length := by omega
  refine awp_bind.2 (awp_mem.2 (awp_bind.2 (awp_assert.2 ⟨fun _ => ?_, absurd hlt⟩)))
  dsimp only
  rw [ha, hnum]
  refine awp_bind.2 ((awp_modify _).2 ?_)
  have htaken : Inv (h.setRef p fun pr => { pr with
      nfree := free.length, freelistOffset := headOffset (h.page p) free })
      (v.setPage p free ((a, sz) :: v.held p)) := by
    refine hi.setPage hp ?_ ?_ ?_ hok.take ?_ (fun _ _ => rfl)
    · rfl
    · rfl
    · rfl
    · intro x hx
      rcases List.mem_cons.1 hx with rfl | hx
      · exact hsz
      · exact hi.fits p hp x hx
  have hend : ∀ h', h' = h.setRef p (fun pr => { pr with
      nfree := free.length, freelistOffset := headOffset (h.page p) free }) →
      awp t (do checksubpages slow; splx spl; pure a) Q h' := by
    intro h' hh'
    rw [← hh'] at htaken
    refine awp_bind.2 (awp_checksubpages htaken (by rw [hh']; exact hspl) ?_)
    exact awp_bind.2 ((awp_modify _).2 (hQ _ (htaken.spl spl) rfl))
  have hnext := hok.next
  cases free with
  | nil =>
    have h0 := ptrOf_eq_none hnext
    rw [if_neg (by simp [h0])]
    refine awp_bind.2 (awp_assert.2 ⟨fun _ => ?_, absurd rfl⟩)
    refine awp_bind.2 ((awp_modify _).2 ?_)
    apply hend
    exact setRef_setRef
  | cons b free =>
    obtain ⟨hb, hb0⟩ := ptrOf_eq_some hnext
    obtain ⟨off, hoff, _, hboff⟩ := hok.block (.inl (List.mem_cons_of_mem _ List.mem_cons_self))
    have hnumb : (b - (h.pagerefs p).pageaddr).toNat < 4096 := by
      rw [hboff, Kpage.toNat_sub hoff]
      exact hoff
    rw [hb, if_pos hb0]
    refine awp_bind.2 (awp_assert.2 ⟨fun _ => ?_, fun hno => absurd (Nat.succ_pos _) hno⟩)
    refine awp_bind.2 (awp_assert.2 ⟨fun _ => ?_, fun hno => absurd ?_ hno⟩)
    · refine awp_bind.2 ((awp_modify _).2 ?_)
      apply hend
      have hoffset : (b - (h.pagerefs p).pageaddr).toNat % 65536 =
          headOffset (h.page p) (b :: free) := by
        show _ = (b - (h.pagerefs p).pageaddr).toNat
        omega
      rw [hoffset]
      exact setRef_setRef
    · exact BitVec.lt_def.2 hnumb

end

/-! ## Pagerefs -/

theorem and_bit (w : BitVec 32) {i : Nat} (hi : i < 32) : w &&& bit i ≠ 0 ↔ w.getLsbD i = true := by
  have hbit : bit i = BitVec.twoPow 32 i := rfl
  rw [hbit, BitVec.and_twoPow]
  cases hw : w.getLsbD i with
  | false => simp
  | true =>
    simp only [if_true, iff_true]
    intro h0
    have hz := congrArg (fun x => x.getLsbD i) h0
    simp [hi] at hz

theorem getLsbD_bit {i j : Nat} (hi : i < 32) : (bit j).getLsbD i = decide (j = i) := by
  have hbit : bit j = BitVec.twoPow 32 j := rfl
  rw [hbit, BitVec.getLsbD_twoPow]
  simp
  omega

variable {w : BitVec 32}

theorem clearBit_some {j : Nat} (h : clearBit w = some j) : j < 32 ∧ w.getLsbD j = false := by
  have hj : j < 32 := List.mem_range.1 (List.mem_of_find?_eq_some h)
  refine ⟨hj, ?_⟩
  have h0 := List.find?_some h
  rw [decide_eq_true_eq] at h0
  rw [← Bool.not_eq_true, ← and_bit w hj]
  exact fun hne => hne h0

theorem clearBit_none (h : clearBit w = none) : w = 0xffffffff := by
  have hall := List.find?_eq_none.1 h
  apply BitVec.eq_of_getLsbD_eq
  intro i hi
  have hbit := hall i (List.mem_range.2 hi)
  rw [decide_eq_true_eq] at hbit
  rw [(and_bit w hi).1 hbit]
  have hones : (0xffffffff : BitVec 32) = BitVec.allOnes 32 := rfl
  rw [hones, BitVec.getLsbD_allOnes]
  simp [hi]

/-- One bit of the map is set or cleared. -/
theorem inUse_update {h : Heap} {b : Bool} (hp : p < NPAGEREFS)
    (hw : ∀ i < 32, w.getLsbD i =
      if i = p % 32 then b else (h.pagerefsInuse (p / 32)).getLsbD i) (j : Nat) :
    Heap.InUse { h with pagerefsInuse := update h.pagerefsInuse (p / 32) w } j ↔
      if j = p then b = true else h.InUse j := by
  have hmod : j % 32 < 32 := Nat.mod_lt _ (by decide)
  unfold Heap.InUse
  rw [and_bit _ hmod, and_bit _ hmod]
  dsimp only
  by_cases hword : j / 32 = p / 32
  · rw [hword, update_self, hw _ hmod]
    by_cases hbit : j % 32 = p % 32
    · have hjp : j = p := by omega
      rw [if_pos hbit, if_pos hjp]
      exact and_iff_right (hjp ▸ hp)
    · have hjp : j ≠ p := fun hjp => hbit (hjp ▸ rfl)
      rw [if_neg hbit, if_neg hjp]
  · have hjp : j ≠ p := fun hjp => hword (hjp ▸ rfl)
    rw [update_of_ne hword, if_neg hjp]

section
variable {t : Terms Panic} {h : Heap}

theorem awp_allocpageref_loop {k i : Nat} {Q : Option Nat → Heap → Prop}
    (hik : i + k ≤ INUSE_WORDS) (hnone : Q none h)
    (hsome : ∀ p inuse, p < NPAGEREFS → ¬ h.InUse p →
      (∀ j, Heap.InUse { h with pagerefsInuse := inuse } j ↔ j = p ∨ h.InUse j) →
      Q (some p) { h with pagerefsInuse := inuse }) :
    awp t (allocpageref.loop k i) Q h := by
  induction k generalizing i with
  | zero => exact hnone
  | succ k ih =>
    refine awp_bind.2 (awp_mem.2 ?_)
    by_cases hfull : h.pagerefsInuse i = 0xffffffff
    · rw [if_pos hfull]
      exact ih (by omega)
    · rw [if_neg hfull]
      cases hbit : clearBit (h.pagerefsInuse i) with
      | none => exact absurd (clearBit_none hbit) hfull
      | some j =>
        obtain ⟨hj, hclear⟩ := clearBit_some hbit
        have hdiv : (i * 32 + j) / 32 = i := by omega
        have hmod : (i * 32 + j) % 32 = j := by omega
        have hp : i * 32 + j < NPAGEREFS := by
          unfold INUSE_WORDS at hik
          unfold NPAGEREFS
          omega
        refine awp_bind.2 ((awp_put _).2 (hsome _ _ hp ?_ ?_))
        · intro huse
          have hset := (and_bit _ (Nat.mod_lt _ (by decide))).1 huse.2
          rw [hdiv, hmod, hclear] at hset
          cases hset
        · intro j'
          have hupd := inUse_update (h := h) (w := h.pagerefsInuse i ||| bit j) (b := true) hp
            ?_ j'
          · rw [hdiv] at hupd
            rw [hupd]
            by_cases hj' : j' = i * 32 + j
            · simp [hj']
            · simp [hj']
          · intro n hn
            rw [BitVec.getLsbD_or, getLsbD_bit hn, hmod, hdiv]
            by_cases hnj : n = j
            · simp [hnj]
            · simp [hnj, Ne.symm hnj]

theorem awp_freepageref {Q : Unit → Heap → Prop} (hp : h.InUse p)
    (hQ : ∀ inuse, (∀ j, Heap.InUse { h with pagerefsInuse := inuse } j ↔ j ≠ p ∧ h.InUse j) →
      Q () { h with pagerefsInuse := inuse }) :
    awp t (freepageref p) Q h := by
  refine awp_bind.2 (awp_assert.2 ⟨fun _ => ?_, absurd hp.1⟩)
  refine awp_bind.2 (awp_mem.2 (awp_bind.2 (awp_assert.2 ⟨fun _ => ?_, absurd hp.2⟩)))
  refine (awp_put _).2 (hQ _ ?_)
  intro j
  rw [inUse_update (b := false) hp.1]
  · by_cases hj : j = p
    · simp [hj]
    · simp [hj]
  · intro n hn
    rw [BitVec.getLsbD_and, BitVec.getLsbD_not, getLsbD_bit hn]
    by_cases hnj : n = p % 32
    · simp [hnj]
    · simp [hnj, Ne.symm hnj, hn]

end

/-! ## A new page -/

/-- Block `i` of a page. -/
def nth (page : Word) (size i : Nat) : Word := page + BitVec.ofNat 32 (i * size)

/-- The memory when the first blocks, up to block `i`, have been chained. -/
def threaded (page : Word) (size : Nat) (mem : Word → Word) : Nat → Word → Word
  | 0 => update mem page 0
  | i + 1 => update (threaded page size mem i) (nth page size (i + 1)) (nth page size i)

theorem nth_zero {page : Word} {size : Nat} : nth page size 0 = page := by
  simp [nth]

theorem nextFree_update {mem : Word → Word} {a w : Word} :
    nextFree (update mem a w) = update (nextFree mem) a (ptrOf w) := by
  funext b
  unfold nextFree
  by_cases hb : b = a
  · subst hb
    rw [update_self, update_self]
  · rw [update_of_ne hb, update_of_ne hb]

section
variable {page : Word} {size : Nat} {mem : Word → Word}

/-- The chain goes down from the last block to the first. -/
theorem linked_threaded (hp : Kpage page) (hs : 0 < size) {i : Nat} (hi : i * size < 4096) :
    Linked (nextFree (threaded page size mem i)) (some (nth page size i))
      ((List.range (i + 1)).map (nth page size)).reverse := by
  induction i with
  | zero =>
    rw [nth_zero]
    refine ⟨by simp [nth_zero], ?_⟩
    rw [threaded, nextFree, nth_zero, update_self]
    rfl
  | succ i ih =>
    have hle : i * size + size < 4096 := by
      rw [← Nat.succ_mul]
      exact hi
    rw [List.range_succ, List.map_append, List.reverse_append, threaded, nextFree_update]
    have hne : nth page size i ≠ 0 := hp.ne_zero (by omega)
    rw [ptrOf_of_ne hne]
    apply (ih (by omega)).push
    rw [List.mem_reverse, List.mem_map]
    rintro ⟨j, hj, heq⟩
    have hji : j * size ≤ i * size :=
      Nat.mul_le_mul_right _ (Nat.lt_succ_iff.1 (List.mem_range.1 hj))
    have hoff := Kpage.offset_inj (by omega) hi heq
    rw [Nat.succ_mul] at hoff
    omega

/-- Other pages are not touched. -/
theorem threaded_of_ne (hp : Kpage page) {i : Nat} (hi : i * size < 4096) {a : Word}
    (ha : a &&& PAGE_FRAME ≠ page) : threaded page size mem i a = mem a := by
  induction i with
  | zero =>
    apply update_of_ne
    intro hap
    subst hap
    exact ha hp.frame_self
  | succ i ih =>
    have hle : i * size ≤ (i + 1) * size := Nat.mul_le_mul_right _ (Nat.le_succ i)
    rw [threaded, update_of_ne]
    · exact ih (by omega)
    · intro hap
      subst hap
      exact ha (hp.frame hi)

variable {t : Terms Panic} {h : Heap}

theorem awp_chain (hs : 0 < size) {k i : Nat} {Q : Word → Heap → Prop}
    (hbound : (i + k) * size < 4096) (hmem : h.mem = threaded page size mem i)
    (hQ : Q (nth page size (i + k)) { h with mem := threaded page size mem (i + k) }) :
    awp t (subpageKmalloc.chain page size k (i + 1) (nth page size i)) Q h := by
  induction k generalizing i h with
  | zero =>
    rw [Nat.add_zero, ← hmem] at hQ
    exact hQ
  | succ k ih =>
    have hsum : i + (k + 1) = i + 1 + k := by omega
    rw [hsum] at hbound hQ
    have hmul : i * size + size ≤ (i + 1 + k) * size := by
      rw [← Nat.succ_mul]
      exact Nat.mul_le_mul_right _ (by omega)
    have hne : nth page size (i + 1) ≠ nth page size i := by
      intro heq
      have hoff := Kpage.offset_inj (by rw [Nat.succ_mul]; omega) (by omega) heq
      rw [Nat.succ_mul] at hoff
      omega
    refine awp_bind.2 ((awp_modify _).2 (awp_bind.2 (awp_mem.2 (awp_bind.2
      (awp_assert.2 ⟨fun _ => ?_, fun hno => absurd ?_ hno⟩)))))
    · apply ih hbound
      · rw [threaded, ← hmem]
        rfl
      · exact hQ
    · dsimp only
      rw [update_self]
      exact hne

end

theorem awp_chain_first {page : Word} {size n : Nat} {mem : Word → Word} {t : Terms Panic}
    {h : Heap} {Q : Word → Heap → Prop} (hs : 0 < size)
    (hbound : n * size < 4096) (hmem : h.mem = update mem page 0)
    (hQ : Q (nth page size n) { h with mem := threaded page size mem n }) :
    awp t (subpageKmalloc.chain page size n 1 page) Q h := by
  have hchain : awp t (subpageKmalloc.chain page size n (0 + 1) (nth page size 0)) Q h := by
    apply awp_chain hs _ hmem
    · rwa [Nat.zero_add]
    · rwa [Nat.zero_add]
  rwa [nth_zero] at hchain

theorem mkpab_spec {page : Word} {b : Nat} (hp : Kpage page) (hb : b < NSIZES) (pr : Pageref)
    (hpr : pr.pageaddrAndBlocktype = mkpab page b) : pr.pageaddr = page ∧ pr.blocktype = b := by
  have hlow : BitVec.ofNat 32 b &&& ~~~ PAGE_FRAME = BitVec.ofNat 32 b := by
    have hall : ∀ b < NSIZES, BitVec.ofNat 32 b &&& ~~~ PAGE_FRAME = BitVec.ofNat 32 b := by
      decide
    exact hall b hb
  have hlt : (BitVec.ofNat 32 b).toNat < 2 ^ 12 := by
    unfold NSIZES at hb
    rw [BitVec.toNat_ofNat]
    omega
  have hpage : pr.pageaddr = page := by
    rw [Pageref.pageaddr, hpr, mkpab, hlow, hp.frame_self, PAGE_FRAME_eq]
    exact or_and_pageMask hp.aligned hlt
  refine ⟨hpage, ?_⟩
  have hzero : page &&& ~~~ PAGE_FRAME = 0 := by
    rw [← hp.frame_self, BitVec.and_assoc, BitVec.and_not_self]
    simp
  rw [Pageref.blocktype, hpr, mkpab, hlow, hp.frame_self, BitVec.and_or_distrib_right, hzero, hlow,
    BitVec.toNat_or, BitVec.toNat_ofNat]
  unfold NSIZES at hb
  simp
  omega

namespace View

/-- A new page, all of it free. -/
def add (v : View) (p b : Nat) (free : List Word) : View where
  all := p :: v.all
  same := update v.same b (p :: v.same b)
  free := update v.free p free
  held := update v.held p []

end View

namespace Inv

variable {h : Heap} {v : View}

theorem add (hi : Inv h v) {p b : Nat} {pr : Pageref} {mem : Word → Word} {page : Word}
    {inuse : Nat → BitVec 32} {free : List Word} (hnew : ¬ h.InUse p) (hb : b < NSIZES)
    (hkp : page ∉ h.kpages)
    (hinuse : ∀ j, Heap.InUse { h with pagerefsInuse := inuse } j ↔ j = p ∨ h.InUse j)
    (hpr : pr.pageaddr = page ∧ pr.blocktype = b)
    (hsame : pr.nextSamesize = h.sizebases b) (hall : pr.nextAll = h.allbase)
    (hok : PageOk mem pr free [])
    (hmem : ∀ a, a &&& PAGE_FRAME ≠ page → mem a = h.mem a) :
    Inv { h with
        mem := mem
        pagerefs := update h.pagerefs p pr
        pagerefsInuse := inuse
        sizebases := update h.sizebases b (some p)
        allbase := some p
        kpages := page :: h.kpages }
      (v.add p b free) := by
  have hpall : p ∉ v.all := fun hp => hnew ((hi.inuse p).1 hp)
  have hne : ∀ q ∈ v.all, q ≠ p := fun q hq hqp => hpall (hqp ▸ hq)
  have hold : ∀ q ∈ v.all, update h.pagerefs p pr q = h.pagerefs q :=
    fun q hq => update_of_ne (hne q hq) _ _
  have hpages : page ∉ v.all.map h.page := fun hin => hkp (hi.kpages.mem_iff.2 hin)
  generalize hh' : ({ h with
      mem := mem
      pagerefs := update h.pagerefs p pr
      pagerefsInuse := inuse
      sizebases := update h.sizebases b (some p)
      allbase := some p
      kpages := page :: h.kpages } : Heap) = h'
  have hrefs : h'.pagerefs = update h.pagerefs p pr := hh' ▸ rfl
  have hmap : (v.add p b free).all.map h'.page = page :: v.all.map h.page := by
    show h'.page p :: v.all.map h'.page = _
    have hfirst : h'.page p = page := by
      rw [Heap.page, hrefs, update_self, hpr.1]
    have hrest : v.all.map h'.page = v.all.map h.page := by
      apply List.map_congr_left
      intro q hq
      rw [Heap.page, hrefs, hold q hq]
      rfl
    rw [hfirst, hrest]
  have htypep : h'.type p = b := by
    rw [Heap.type, hrefs, update_self, hpr.2]
  have htype : ∀ q ∈ v.all, h'.type q = h.type q := by
    intro q hq
    rw [Heap.type, hrefs, hold q hq]
    rfl
  have hnextall : h'.next .all = update (h.next .all) p h.allbase := by
    funext q
    by_cases hqp : q = p
    · subst hqp
      simp [Heap.next, hrefs, hall]
    · simp [Heap.next, hrefs, update_of_ne hqp]
  have hnextsame : ∀ c, h'.next (.same c) =
      update (h.next (.same c)) p (h.sizebases b) := by
    intro c
    funext q
    by_cases hqp : q = p
    · subst hqp
      simp [Heap.next, hrefs, hsame]
    · simp [Heap.next, hrefs, update_of_ne hqp]
  constructor
  · intro c hc
    have hpc : p ∉ v.list c := fun hp => hpall (hi.mem_list hc hp)
    cases c with
    | all =>
      rw [hnextall, ← hh']
      exact (hi.list .all hc).push hpc
    | same c =>
      rw [hnextsame]
      show Linked _ (h'.sizebases c) (update v.same b (p :: v.same b) c)
      have hbases : h'.sizebases = update h.sizebases b (some p) := hh' ▸ rfl
      rw [hbases]
      by_cases hcb : c = b
      · subst hcb
        rw [update_self, update_self]
        exact (hi.list (.same c) hc).push hpc
      · rw [update_of_ne hcb, update_of_ne hcb]
        apply (hi.list (.same c) hc).congr
        intro q hq
        apply update_of_ne
        exact hne q (hi.mem_list hc hq)
  · exact List.nodup_cons.2 ⟨hpall, hi.nodup⟩
  · intro j
    have huse : h'.InUse j ↔ j = p ∨ h.InUse j := by
      rw [← hinuse j, ← hh']
      exact Iff.rfl
    rw [huse, ← hi.inuse j]
    exact List.mem_cons
  · intro c hc
    have hfilter : (v.add p b free).all.filter (fun q => h'.type q = c) =
        if b = c then p :: v.all.filter fun q => h.type q = c
        else v.all.filter fun q => h.type q = c := by
      have hrest : v.all.filter (fun q => decide (h'.type q = c)) =
          v.all.filter fun q => decide (h.type q = c) := by
        apply List.filter_congr
        intro q hq
        rw [htype q hq]
      show (p :: v.all).filter _ = _
      rw [List.filter_cons, htypep, hrest]
      simp only [decide_eq_true_eq]
    rw [hfilter]
    show (update v.same b (p :: v.same b) c).Perm _
    by_cases hbc : b = c
    · subst hbc
      rw [if_pos rfl, update_self]
      exact (hi.same b hc).cons p
    · rw [if_neg hbc, update_of_ne (Ne.symm hbc)]
      exact hi.same c hc
  · intro q hq
    have hmem' : h'.mem = mem := hh' ▸ rfl
    rw [hmem', hrefs]
    by_cases hqp : q = p
    · subst hqp
      simp only [View.add, View.addrs, update_self, List.map_nil]
      exact hok
    · have hq : q ∈ v.all := (List.mem_cons.1 hq).resolve_left hqp
      simp only [View.add, View.addrs, update_of_ne hqp]
      apply (hi.page q hq).congr
      intro a ha
      apply hmem
      rw [(hi.page q hq).frame (.inl ha)]
      intro heq
      exact hpages (heq ▸ List.mem_map.2 ⟨q, hq, rfl⟩)
  · intro q hq x hx
    by_cases hqp : q = p
    · subst hqp
      simp [View.add] at hx
    · have hq : q ∈ v.all := (List.mem_cons.1 hq).resolve_left hqp
      rw [htype q hq]
      simp only [View.add, update_of_ne hqp] at hx
      exact hi.fits q hq x hx
  · rw [hmap, ← hh']
    exact hi.kpages.cons page
  · rw [hmap]
    exact List.nodup_cons.2 ⟨hpages, hi.apart⟩

end Inv

section
variable {t : Terms Panic} {h : Heap} {v : View} {slow : Bool}

theorem awp_fresh {p b : Nat} {page : Word} {inuse : Nat → BitVec 32} {Q : Unit → Heap → Prop}
    (hi : Inv h v) (hnew : ¬ h.InUse p) (hb : b < NSIZES) (hp : Kpage page)
    (hkp : page ∉ h.kpages)
    (hinuse : ∀ j, Heap.InUse { h with pagerefsInuse := inuse } j ↔ j = p ∨ h.InUse j)
    (hQ : ∀ h', Inv h' (v.add p b (blocksOf page (sizes b)).reverse) → h'.curspl = h.curspl →
      h'.type p = b → Q () h') :
    awp t (subpageKmalloc.fresh p b page) Q
      { h with pagerefsInuse := inuse, kpages := page :: h.kpages } := by
  obtain ⟨hlo, hle, hdiv⟩ := sizes_spec hb
  obtain ⟨n, hn⟩ : ∃ n, 4096 / sizes b = n + 1 := by
    have hpos : 0 < 4096 / sizes b := Nat.div_pos (by omega) (by omega)
    exact ⟨4096 / sizes b - 1, by omega⟩
  have hbound : n * sizes b < 4096 := by
    rw [hn, Nat.succ_mul] at hdiv
    omega
  have hlast : (nth page (sizes b) n - page).toNat = n * sizes b :=
    Kpage.toNat_sub hbound
  have hoff : (nth page (sizes b) n - page).toNat % 65536 = n * sizes b := by
    rw [hlast]
    exact Nat.mod_eq_of_lt (by omega)
  have hblocks : (blocksOf page (sizes b)).reverse =
      nth page (sizes b) n :: ((List.range n).map (nth page (sizes b))).reverse := by
    show ((List.range (4096 / sizes b)).map (nth page (sizes b))).reverse = _
    rw [hn, List.range_succ, List.map_append, List.reverse_append]
    rfl
  refine awp_bind.2 ((awp_modify _).2 (awp_bind.2 ((awp_modify _).2 ?_)))
  rw [hn, Nat.add_sub_cancel]
  refine awp_bind.2 (awp_chain_first (by omega) hbound rfl ?_)
  rw [hoff]
  refine awp_bind.2 ((awp_modify _).2 (awp_bind.2 (awp_assert.2 ⟨fun _ => ?_, absurd rfl⟩)))
  refine awp_bind.2 ((awp_modify _).2 ((awp_modify _).2 ?_))
  have hpr := mkpab_spec hp hb
    ⟨h.sizebases b, h.allbase, mkpab page b, n * sizes b, n + 1⟩ rfl
  have hok : PageOk (threaded page (sizes b) h.mem n)
      ⟨h.sizebases b, h.allbase, mkpab page b, n * sizes b, n + 1⟩
      (blocksOf page (sizes b)).reverse [] := by
    constructor
    · rw [hpr.2]
      exact hb
    · rw [hpr.1]
      exact hp
    · rw [hpr.1, hpr.2, List.append_nil]
      exact List.reverse_perm _
    · have hlinked : Linked (nextFree (threaded page (sizes b) h.mem n)) _ _ :=
        linked_threaded hp (show 0 < sizes b by omega) hbound
      have hhead : (blocksOf page (sizes b)).reverse.head? = some (nth page (sizes b) n) := by
        rw [hblocks]
        rfl
      rw [← hn] at hlinked
      rw [hhead]
      exact hlinked
    · rw [hpr.1, hblocks]
      exact hlast.symm
    · rw [List.length_reverse, length_blocksOf, hn]
  have hdone := hi.add hnew hb hkp hinuse hpr rfl rfl hok
    (fun a ha => threaded_of_ne hp hbound ha)
  have hQ' := hQ _ hdone rfl ?_
  · simpa [Heap.setRef, Heap.setNext, Heap.setHead, Heap.head] using hQ'
  · rw [Heap.type]
    dsimp only
    rw [update_self]
    exact hpr.2

end

/-! ## Giving up a page -/

/-- Everything but the links is the same. -/
structure Relinked (h h' : Heap) : Prop where
  mem : h'.mem = h.mem
  inuse : h'.pagerefsInuse = h.pagerefsInuse
  curspl : h'.curspl = h.curspl
  kpages : h'.kpages = h.kpages
  refs : ∀ q, ∃ x y, h'.pagerefs q = { h.pagerefs q with nextSamesize := x, nextAll := y }

namespace Relinked

variable {h h' h'' : Heap}

theorem trans (hr : Relinked h h') (hr' : Relinked h' h'') : Relinked h h'' where
  mem := hr'.mem.trans hr.mem
  inuse := hr'.inuse.trans hr.inuse
  curspl := hr'.curspl.trans hr.curspl
  kpages := hr'.kpages.trans hr.kpages
  refs q := by
    obtain ⟨x, y, hxy⟩ := hr.refs q
    obtain ⟨x', y', hxy'⟩ := hr'.refs q
    exact ⟨x', y', by rw [hxy', hxy]⟩

theorem pageOk (hr : Relinked h h') {q : Nat} {free held : List Word}
    (hok : PageOk h.mem (h.pagerefs q) free held) : PageOk h'.mem (h'.pagerefs q) free held := by
  obtain ⟨x, y, hxy⟩ := hr.refs q
  rw [hr.mem, hxy]
  exact hok.links x y

theorem type (hr : Relinked h h') : h'.type = h.type := by
  funext q
  obtain ⟨x, y, hxy⟩ := hr.refs q
  rw [Heap.type, hxy]
  rfl

theorem page (hr : Relinked h h') : h'.page = h.page := by
  funext q
  obtain ⟨x, y, hxy⟩ := hr.refs q
  rw [Heap.page, hxy]
  rfl

end Relinked

theorem erase_append_cons {l pre post : List Nat} (hl : l = pre ++ p :: post)
    (hnodup : l.Nodup) : l.erase p = pre ++ post := by
  subst hl
  have hp : p ∉ pre := by
    intro hp
    exact (List.nodup_append.1 hnodup).2.2 p hp p List.mem_cons_self rfl
  rw [List.erase_append_right _ hp, List.erase_cons_head]

section
variable {h : Heap} {c c' : Link} {guy x : Option Nat}

theorem assign_relinked : Relinked h (h.assign c guy x) := by
  cases guy with
  | none => cases c <;> exact ⟨rfl, rfl, rfl, rfl, fun q => ⟨_, _, rfl⟩⟩
  | some r =>
    have hrefs : ∀ q, ∃ y z, ((h.setNext c r x).pagerefs q) =
        { h.pagerefs q with nextSamesize := y, nextAll := z } := by
      intro q
      by_cases hq : q = r
      · subst hq
        cases c with
        | all => exact ⟨_, _, update_self ..⟩
        | same b => exact ⟨_, _, update_self ..⟩
      · cases c with
        | all => exact ⟨_, _, update_of_ne hq _ _⟩
        | same b => exact ⟨_, _, update_of_ne hq _ _⟩
    cases c <;> exact ⟨rfl, rfl, rfl, rfl, hrefs⟩

/-- A pageref that is behind `guy` in its list is taken out. -/
theorem assign_unlinks {pre post : List Nat}
    (hl : Linked (h.next c) (h.head c) (pre ++ p :: post)) (hnodup : (pre ++ p :: post).Nodup) :
    Linked ((h.assign c pre.getLast? (h.next c p)).next c)
      ((h.assign c pre.getLast? (h.next c p)).head c) (pre ++ post) := by
  obtain ⟨hfirst, hlater⟩ := hl.unlink hnodup
  cases hlast : pre.getLast? with
  | none =>
    have hnil := List.getLast?_eq_none_iff.1 hlast
    have hdone := hfirst hnil
    rw [hnil]
    cases c with
    | all => exact hdone
    | same b =>
      show Linked _ (update h.sizebases b _ b) _
      rw [update_self]
      exact hdone
  | some r =>
    have hnext : (h.setNext c r (h.next c p)).next c =
        update (h.next c) r (h.next c p) := by
      funext q
      by_cases hq : q = r
      · subst hq
        cases c <;> simp [Heap.next, Heap.setNext, Heap.setRef]
      · cases c <;> simp [Heap.next, Heap.setNext, Heap.setRef, update_of_ne hq]
    show Linked ((h.setNext c r _).next c) _ _
    rw [hnext]
    cases c <;> exact hlater r hlast

/-- The other lists stay as they are. -/
theorem assign_other {l : List Nat} (hc : c' ≠ c) (hl : Linked (h.next c') (h.head c') l)
    (hapart : ∀ b b', c = .same b → c' = .same b' → ∀ q ∈ l, guy ≠ some q) :
    Linked ((h.assign c guy x).next c') ((h.assign c guy x).head c') l := by
  cases guy with
  | none =>
    cases c with
    | all =>
      cases c' with
      | all => exact absurd rfl hc
      | same b' => exact hl
    | same b =>
      cases c' with
      | all => exact hl
      | same b' =>
        show Linked _ (update h.sizebases b x b') l
        rw [update_of_ne (fun hbb => hc (congrArg Link.same hbb))]
        exact hl
  | some r =>
    have hnext : ∀ q ∈ l, (h.setNext c r x).next c' q = h.next c' q := by
      intro q hq
      by_cases hqr : q = r
      · subst hqr
        cases c with
        | all =>
          cases c' with
          | all => exact absurd rfl hc
          | same b' => simp [Heap.next, Heap.setNext, Heap.setRef]
        | same b =>
          cases c' with
          | all => simp [Heap.next, Heap.setNext, Heap.setRef]
          | same b' => exact absurd rfl (hapart b b' rfl rfl q hq)
      · cases c <;> cases c' <;>
          simp [Heap.next, Heap.setNext, Heap.setRef, update_of_ne hqr]
    have hhead : (h.setNext c r x).head c' = h.head c' := by
      cases c <;> cases c' <;> rfl
    show Linked _ ((h.setNext c r x).head c') l
    rw [hhead]
    exact hl.congr hnext

variable {t : Terms Panic} {slow : Bool}

variable {Q : Unit → Heap → Prop}

/-- One loop of `remove_lists`, with the pagerefs of `pre` behind it. -/
theorem awp_removeLoop {p k : Nat} {pre l : List Nat}
    (hl : Linked (h.next c) (h.head c) (pre ++ l)) (hp : p ∈ l)
    (hok : ∀ q ∈ l, ∃ free held, PageOk h.mem (h.pagerefs q) free held) (hspl : 0 < h.curspl)
    (hk : l.length ≤ k) (hQ : ∀ pre' post, pre ++ l = pre' ++ p :: post →
      Q () (h.assign c pre'.getLast? (h.next c p))) :
    awp t (removeLists.loop slow c p k pre.getLast?) Q h := by
  induction l generalizing pre k with
  | nil => cases hp
  | cons q l ih =>
    obtain ⟨k, rfl⟩ : ∃ j, k = j + 1 := ⟨k - 1, by simp at hk; omega⟩
    rw [List.length_cons] at hk
    have hderef : h.deref c pre.getLast? = some q := by
      have hrest := hl.drop.1
      cases hlast : pre.getLast? with
      | none =>
        rw [hlast] at hrest
        exact hrest
      | some r =>
        rw [hlast] at hrest
        exact hrest
    obtain ⟨free, held, hq⟩ := hok q List.mem_cons_self
    refine awp_bind.2 (awp_mem.2 ?_)
    rw [hderef]
    refine awp_bind.2 (awp_checksubpage hq hspl ?_)
    by_cases hqp : q = p
    · subst hqp
      rw [if_pos rfl]
      exact (awp_modify _).2 (hQ pre l rfl)
    · rw [if_neg hqp]
      have hsnoc : pre ++ q :: l = pre ++ [q] ++ l := by simp
      have hlast : (pre ++ [q]).getLast? = some q := List.getLast?_concat
      rw [← hlast]
      apply ih
      · rw [← hsnoc]
        exact hl
      · exact (List.mem_cons.1 hp).resolve_left (Ne.symm hqp)
      · exact fun r hr => hok r (List.mem_cons_of_mem _ hr)
      · omega
      · rw [← hsnoc]
        exact hQ

/-- What is left of the list when the loop is done, and of the other lists. -/
theorem awp_removeFrom {p k : Nat} {l : List Nat}
    (hl : Linked (h.next c) (h.head c) l) (hnodup : l.Nodup) (hp : p ∈ l)
    (hok : ∀ q ∈ l, ∃ free held, PageOk h.mem (h.pagerefs q) free held) (hspl : 0 < h.curspl)
    (hk : l.length ≤ k) (hQ : ∀ h', Relinked h h' → Linked (h'.next c) (h'.head c) (l.erase p) →
      (∀ c' l', c' ≠ c → Linked (h.next c') (h.head c') l' →
        (∀ b b', c = .same b → c' = .same b' → ∀ q ∈ l', q ∉ l) →
        Linked (h'.next c') (h'.head c') l') → Q () h') :
    awp t (removeLists.loop slow c p k none) Q h := by
  show awp t (removeLists.loop slow c p k ([] : List Nat).getLast?) Q h
  apply awp_removeLoop hl hp hok hspl hk
  intro pre post hsplit
  rw [List.nil_append] at hsplit
  apply hQ _ assign_relinked
  · rw [erase_append_cons hsplit hnodup]
    subst hsplit
    exact assign_unlinks hl hnodup
  · intro c' l' hc hl' hapart
    apply assign_other hc hl'
    intro b b' hb hb' q hq hlast
    apply hapart b b' hb hb' q hq
    rw [hsplit]
    exact List.mem_append_left _ (List.mem_of_getLast? hlast)

end

namespace View

/-- A page is given up. -/
def remove (v : View) (p : Nat) : View :=
  { v with all := v.all.erase p, same := fun b => (v.same b).erase p }

end View

section
variable {h : Heap} {v : View} {t : Terms Panic} {slow : Bool}

theorem Inv.remove (hi : Inv h v) (hp : p ∈ v.all) {h' : Heap}
    {inuse : Nat → BitVec 32} (hr : Relinked h h')
    (hlist : ∀ c, c.Valid → Linked (h'.next c) (h'.head c) ((v.list c).erase p))
    (hinuse : ∀ j, Heap.InUse { h' with pagerefsInuse := inuse } j ↔ j ≠ p ∧ h.InUse j) :
    Inv { h' with pagerefsInuse := inuse, kpages := h'.kpages.erase (h.page p) }
      (v.remove p) := by
  have hsub : ∀ q ∈ v.all.erase p, q ∈ v.all := fun q hq => List.mem_of_mem_erase hq
  have hperm := List.perm_cons_erase hp
  have hmap : (v.all.map h.page).Perm (h.page p :: (v.all.erase p).map h.page) :=
    hperm.map h.page
  have htype := hr.type
  have hpage := hr.page
  constructor
  · intro c hc
    have hl := hlist c hc
    cases c with
    | all => exact hl
    | same b => exact hl
  · exact hi.nodup.erase p
  · intro j
    rw [show (v.remove p).all = v.all.erase p from rfl, hi.nodup.mem_erase_iff, hi.inuse j]
    exact (hinuse j).symm
  · intro b hb
    show ((v.same b).erase p).Perm ((v.all.erase p).filter fun q => h'.type q = b)
    rw [htype]
    have hfilter : ((v.all.erase p).filter fun q => h.type q = b) =
        (v.all.filter fun q => h.type q = b).erase p := by
      rw [hi.nodup.erase_eq_filter, (hi.nodup.filter _).erase_eq_filter, List.filter_filter,
        List.filter_filter]
      apply List.filter_congr
      intro q _
      exact Bool.and_comm _ _
    rw [hfilter]
    exact (hi.same b hb).erase p
  · intro q hq
    exact hr.pageOk (hi.page q (hsub q hq))
  · intro q hq x hx
    show x.2 ≤ sizes (h'.type q)
    rw [htype]
    exact hi.fits q (hsub q hq) x hx
  · show (h'.kpages.erase (h.page p)).Perm ((v.all.erase p).map h'.page)
    rw [hpage, hr.kpages]
    have herase := (hi.kpages.trans hmap).erase (h.page p)
    rwa [List.erase_cons_head] at herase
  · show ((v.all.erase p).map h'.page).Nodup
    rw [hpage]
    exact (List.nodup_cons.1 (hmap.nodup_iff.1 hi.apart)).2

/-- `remove_lists`, `free_kpages` and `freepageref`. -/
theorem awp_release {Q : Unit → Heap → Prop} (hi : Inv h v) (hspl : 0 < h.curspl)
    (hp : p ∈ v.all) (hQ : ∀ h', Inv h' (v.remove p) → h'.curspl = h.curspl → Q () h') :
    awp t (subpageKfree.release slow p (h.type p) (h.page p)) Q h := by
  have htype : h.type p < NSIZES := (hi.page p hp).type
  have hsame : (Link.same (h.type p)).Valid := htype
  have hpsame : p ∈ v.same (h.type p) := (hi.mem_same htype).2 ⟨hp, rfl⟩
  refine awp_bind.2 (awp_bind.2 (awp_assert.2 ⟨fun _ => ?_, absurd htype⟩))
  refine awp_bind.2 (awp_removeFrom (hi.list _ hsame) (hi.nodup_list hsame) hpsame ?_ hspl
    (hi.length_list hsame) ?_)
  · exact fun q hq => ⟨_, _, hi.page q (hi.mem_list hsame hq)⟩
  intro h1 hr1 hsame1 hother1
  have hall1 : Linked (h1.next .all) (h1.head .all) v.all := by
    apply hother1 .all _ (by simp) (hi.list .all trivial)
    intro b b' _ hb'
    cases hb'
  apply awp_removeFrom hall1 hi.nodup hp _ (by rw [hr1.curspl]; exact hspl) hi.length_all
  · intro h2 hr hall2 hother2
    have hr2 := hr1.trans hr
    have hlist : ∀ c, c.Valid → Linked (h2.next c) (h2.head c) ((v.list c).erase p) := by
      intro c hc
      cases c with
      | all => exact hall2
      | same b =>
        apply hother2 (.same b) _ (by simp)
        · by_cases hb : b = h.type p
          · subst hb
            exact hsame1
          · have hpb : p ∉ v.list (.same b) := fun hpb => hb ((hi.mem_same hc).1 hpb).2.symm
            rw [List.erase_of_not_mem hpb]
            apply hother1 (.same b) _ (by simpa using hb) (hi.list _ hc)
            -- a pageref is on one of the lists of the sizes only
            intro b1 b2 _ _ q hq hq'
            exact hb (((hi.mem_same hc).1 hq).2.symm.trans ((hi.mem_same htype).1 hq').2)
        · intro b1 b2 hb1
          cases hb1
    refine awp_bind.2 ((awp_modify _).2 ?_)
    have huse : Heap.InUse { h2 with kpages := h2.kpages.erase (h.page p) } p := by
      have hin := (hi.inuse p).1 hp
      unfold Heap.InUse at hin ⊢
      rw [hr2.inuse]
      exact hin
    apply awp_freepageref huse
    intro inuse hinuse
    refine hQ _ (hi.remove hp hr2 hlist ?_) hr2.curspl
    intro j
    have hj := hinuse j
    unfold Heap.InUse at hj ⊢
    dsimp only at hj ⊢
    rw [hj, hr2.inuse]
  · exact fun q hq => ⟨_, _, hr1.pageOk (hi.page q hq)⟩

end

end Os161.Kern.Kheap
