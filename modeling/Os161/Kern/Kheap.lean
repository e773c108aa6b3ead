import Os161.Lib.Atomic
import Os161.Vm.Ram

/-!
# The kernel heap

`lib/kheap.c`. Requests of less than half a page are served from pages that are
cut into blocks of one size. The free blocks of a page are chained through their
first words. What else there is to know about the page is in a `pageref`; the
pagerefs are an array, with a bit for each that is set while it is in use, and
the used ones are on two lists, one for all of them and one for those with the
same size of blocks.

Memory is accessed by the word. A pointer to a pageref is its index. The lists
of pagerefs and the free lists are followed for as many steps as there can be
nodes at most; if they go on then, the loop of the source does not end, and the
model stops with `Panic.hangs`.

The answer of `alloc_kpages` is a parameter of the routine that asks. `kpages` is
not in the source: the pages that `alloc_kpages` has returned and `free_kpages`
has not taken back. The checks that `SLOW` and `SLOWER` switch on are made if
`slow` is true.
-/

namespace Os161.Kern.Kheap

open Os161.Lib Os161.Vm Function

def MIPS_KSEG1 : Word := 0xa0000000

def NSIZES : Nat := 8

/-- `sizes[]`. -/
def sizes (b : Nat) : Nat := [16, 32, 64, 128, 256, 512, 1024, 2048].getD b 0

def LARGEST_SUBPAGE_SIZE : Nat := 2048

structure Pageref where
  nextSamesize : Option Nat
  nextAll : Option Nat
  pageaddrAndBlocktype : Word
  freelistOffset : Nat
  nfree : Nat

def INVALID_OFFSET : Nat := 0xffff

def Pageref.pageaddr (pr : Pageref) : Word := pr.pageaddrAndBlocktype &&& PAGE_FRAME

def Pageref.blocktype (pr : Pageref) : Nat :=
  (pr.pageaddrAndBlocktype &&& ~~~ PAGE_FRAME).toNat

/-- `MKPAB`. -/
def mkpab (pa : Word) (blk : Nat) : Word :=
  pa &&& PAGE_FRAME ||| BitVec.ofNat 32 blk &&& ~~~ PAGE_FRAME

def NPAGEREFS : Nat := 256
def INUSE_WORDS : Nat := 8

structure Heap where
  mem : Word → Word
  pagerefs : Nat → Pageref
  pagerefsInuse : Nat → BitVec 32
  sizebases : Nat → Option Nat
  allbase : Option Nat
  curspl : Nat
  kpages : List Word

/-- The assertions of `checksubpage` and `checksubpages`. -/
inductive Check where
  | spl | noneFree | offset | offsetAligned | inPage | aligned | kseg0 | kseg1 | count
  | tooMany | total
  deriving DecidableEq

inductive Panic where
  /-- A list does not end. -/
  | hangs
  /-- `assert(0)` in `allocpageref`. -/
  | noBit
  | pagerefRange
  | pagerefFree
  | listType
  | cannotHandle (sz : Nat)
  | wrongType
  | offset
  | someFree
  | nextInPage
  | noneFree
  | selfLink
  | freshOffset
  | blockType
  | invalidAddr
  | tooManyFree
  | notAPage
  | check (c : Check)
  deriving DecidableEq

abbrev HeapM : Type → Type := Prog Heap Empty Unit Empty Panic

def splhigh : HeapM Nat := do
  let h ← Prog.mem
  Prog.put { h with curspl := 15 }
  pure h.curspl

def splx (spl : Nat) : HeapM Unit := Prog.modify fun h => { h with curspl := spl }

/-- A word of memory is stored. -/
def store (a w : Word) : HeapM Unit :=
  Prog.modify fun h => { h with mem := update h.mem a w }

/-- A change to a pageref. -/
def Heap.setRef (h : Heap) (pr : Nat) (f : Pageref → Pageref) : Heap :=
  { h with pagerefs := update h.pagerefs pr (f (h.pagerefs pr)) }

def setRef (pr : Nat) (f : Pageref → Pageref) : HeapM Unit := Prog.modify fun h => h.setRef pr f

def allocKpages (answer : Word) : HeapM Word := do
  if answer = 0 then pure 0
  else do
    Prog.modify fun h => { h with kpages := answer :: h.kpages }
    pure answer

def freeKpages (addr : Word) : HeapM Unit :=
  Prog.modify fun h => { h with kpages := h.kpages.erase addr }

/-! ## Pagerefs -/

/-- The word with one bit. -/
def bit (j : Nat) : BitVec 32 := (1 : BitVec 32) <<< j

/-- The first clear bit of a word. -/
def clearBit (w : BitVec 32) : Option Nat :=
  (List.range 32).find? fun j => w &&& bit j = 0

/-- `allocpageref`, from word `i` on. -/
def allocpageref.loop : Nat → Nat → HeapM (Option Nat)
  | 0, _ => pure none
  | k + 1, i => do
      let h ← Prog.mem
      if h.pagerefsInuse i = 0xffffffff then
        allocpageref.loop k (i + 1)
      else
        match clearBit (h.pagerefsInuse i) with
        | none => Prog.panic .noBit
        | some j => do
            Prog.put { h with
              pagerefsInuse := update h.pagerefsInuse i
                (h.pagerefsInuse i ||| bit j) }
            pure (some (i * 32 + j))

def allocpageref : HeapM (Option Nat) := allocpageref.loop INUSE_WORDS 0

def freepageref (p : Nat) : HeapM Unit := do
  Prog.assert (p < NPAGEREFS) .pagerefRange
  let h ← Prog.mem
  Prog.assert (h.pagerefsInuse (p / 32) &&& bit (p % 32) ≠ 0) .pagerefFree
  Prog.put { h with
    pagerefsInuse := update h.pagerefsInuse (p / 32)
      (h.pagerefsInuse (p / 32) &&& ~~~ bit (p % 32)) }

/-! ## Consistency checks -/

/-- The free list from `fl` on, with the number of blocks before it. -/
def checksubpage.walk (prpage : Word) (size : Nat) : Nat → Word → Nat → HeapM Nat
  | 0, fl, nfree => if fl = 0 then pure nfree else Prog.panic .hangs
  | k + 1, fl, nfree =>
    if fl = 0 then pure nfree
    else do
      Prog.assert (prpage ≤ fl ∧ fl < prpage + PAGE_SIZE) (.check .inPage)
      Prog.assert ((fl - prpage).toNat % size = 0) (.check .aligned)
      Prog.assert (MIPS_KSEG0 ≤ fl) (.check .kseg0)
      Prog.assert (fl < MIPS_KSEG1) (.check .kseg1)
      let h ← Prog.mem
      checksubpage.walk prpage size k (h.mem fl) (nfree + 1)

def checksubpage (slow : Bool) (p : Nat) : HeapM Unit :=
  if slow then do
    let h ← Prog.mem
    Prog.assert (0 < h.curspl) (.check .spl)
    let pr := h.pagerefs p
    if pr.freelistOffset = INVALID_OFFSET then
      Prog.assert (pr.nfree = 0) (.check .noneFree)
    else do
      Prog.assert (pr.freelistOffset < 4096) (.check .offset)
      Prog.assert (pr.freelistOffset % sizes pr.blocktype = 0) (.check .offsetAligned)
      let nfree ← checksubpage.walk pr.pageaddr (sizes pr.blocktype) 256
        (pr.pageaddr + BitVec.ofNat 32 pr.freelistOffset) 0
      Prog.assert (nfree = pr.nfree) (.check .count)
  else pure ()

/-- The two kinds of lists. -/
inductive Link where
  | all
  | same (blktype : Nat)
  deriving DecidableEq

namespace Heap

def head (h : Heap) : Link → Option Nat
  | .all => h.allbase
  | .same b => h.sizebases b

def next (h : Heap) : Link → Nat → Option Nat
  | .all, p => (h.pagerefs p).nextAll
  | .same _, p => (h.pagerefs p).nextSamesize

def setHead (h : Heap) : Link → Option Nat → Heap
  | .all, x => { h with allbase := x }
  | .same b, x => { h with sizebases := update h.sizebases b x }

def setNext (h : Heap) : Link → Nat → Option Nat → Heap
  | .all, p, x => h.setRef p fun pr => { pr with nextAll := x }
  | .same _, p, x => h.setRef p fun pr => { pr with nextSamesize := x }

end Heap

/-- The pagerefs of a list are checked and counted. -/
def checksubpages.list (slow : Bool) (c : Link) : Nat → Option Nat → Nat → HeapM Nat
  | _, none, n => pure n
  | 0, some _, _ => Prog.panic .hangs
  | k + 1, some p, n => do
      checksubpage slow p
      Prog.assert (n < NPAGEREFS) (.check .tooMany)
      let h ← Prog.mem
      checksubpages.list slow c k (h.next c p) (n + 1)

def checksubpages.sizes (slow : Bool) : Nat → Nat → Nat → HeapM Nat
  | 0, _, sc => pure sc
  | k + 1, i, sc => do
      let h ← Prog.mem
      let sc ← checksubpages.list slow (.same i) NPAGEREFS (h.head (.same i)) sc
      checksubpages.sizes slow k (i + 1) sc

def checksubpages (slow : Bool) : HeapM Unit :=
  if slow then do
    let h ← Prog.mem
    Prog.assert (0 < h.curspl) (.check .spl)
    let sc ← checksubpages.sizes slow NSIZES 0 0
    let h ← Prog.mem
    let ac ← checksubpages.list slow .all NPAGEREFS (h.head .all) 0
    Prog.assert (sc = ac) (.check .total)
  else pure ()

/-! ## Lists -/

/-- What a pointer to a pointer points to: the head of the list, or the link of
a pageref. -/
def Heap.deref (h : Heap) (c : Link) : Option Nat → Option Nat
  | none => h.head c
  | some p => h.next c p

def Heap.assign (h : Heap) (c : Link) (guy : Option Nat) (x : Option Nat) : Heap :=
  match guy with
  | none => h.setHead c x
  | some p => h.setNext c p x

/-- One of the two loops of `remove_lists`. -/
def removeLists.loop (slow : Bool) (c : Link) (pr : Nat) : Nat → Option Nat → HeapM Unit
  | 0, guy => do
      let h ← Prog.mem
      if (h.deref c guy).isSome then Prog.panic .hangs else pure ()
  | k + 1, guy => do
      let h ← Prog.mem
      match h.deref c guy with
      | none => pure ()
      | some p => do
          checksubpage slow p
          if p = pr then
            Prog.modify fun h => h.assign c guy (h.next c pr)
          else
            removeLists.loop slow c pr k (some p)

def removeLists (slow : Bool) (pr blktype : Nat) : HeapM Unit := do
  Prog.assert (blktype < NSIZES) .listType
  removeLists.loop slow (.same blktype) pr NPAGEREFS none
  removeLists.loop slow .all pr NPAGEREFS none

/-! ## Allocation -/

/-- `blocktype`. -/
def blocktype (sz : Nat) : HeapM Nat :=
  match (List.range NSIZES).find? fun i => sz ≤ sizes i with
  | some i => pure i
  | none => Prog.panic (.cannotHandle sz)

/-- The loop of `subpage_kmalloc`: a page with a free block. -/
def subpageKmalloc.find (slow : Bool) (blktype : Nat) : Nat → Option Nat → HeapM (Option Nat)
  | _, none => pure none
  | 0, some _ => Prog.panic .hangs
  | k + 1, some p => do
      let h ← Prog.mem
      Prog.assert ((h.pagerefs p).blocktype = blktype) .wrongType
      checksubpage slow p
      if 0 < (h.pagerefs p).nfree then
        pure (some p)
      else
        subpageKmalloc.find slow blktype k (h.next (.same blktype) p)

/-- From `doalloc` on. -/
def subpageKmalloc.doalloc (slow : Bool) (p spl : Nat) : HeapM Word := do
  let h ← Prog.mem
  let pr := h.pagerefs p
  Prog.assert (pr.freelistOffset < 4096) .offset
  let prpage := pr.pageaddr
  let retptr := prpage + BitVec.ofNat 32 pr.freelistOffset
  let fl := h.mem retptr
  let nfree := (pr.nfree + 65535) % 65536
  setRef p fun pr => { pr with nfree := nfree }
  if fl ≠ 0 then do
    Prog.assert (0 < nfree) .someFree
    Prog.assert (fl - prpage < PAGE_SIZE) .nextInPage
    setRef p fun pr => { pr with freelistOffset := (fl - prpage).toNat % 65536 }
  else do
    Prog.assert (nfree = 0) .noneFree
    setRef p fun pr => { pr with freelistOffset := INVALID_OFFSET }
  checksubpages slow
  splx spl
  pure retptr

/-- The free list of a new page, from block `i` on; the last block is returned. -/
def subpageKmalloc.chain (prpage : Word) (size : Nat) : Nat → Nat → Word → HeapM Word
  | 0, _, fl => pure fl
  | k + 1, i, _ => do
      let fl := prpage + BitVec.ofNat 32 (i * size)
      store fl (prpage + BitVec.ofNat 32 ((i - 1) * size))
      let h ← Prog.mem
      Prog.assert (fl ≠ h.mem fl) .selfLink
      subpageKmalloc.chain prpage size k (i + 1) fl

/-- A new page for pageref `p`, put on the lists. -/
def subpageKmalloc.fresh (p blktype : Nat) (prpage : Word) : HeapM Unit := do
  let size := sizes blktype
  let nfree := 4096 / size
  setRef p fun pr => { pr with pageaddrAndBlocktype := mkpab prpage blktype, nfree := nfree }
  store prpage 0
  let fl ← subpageKmalloc.chain prpage size (nfree - 1) 1 prpage
  let offset := (fl - prpage).toNat % 65536
  setRef p fun pr => { pr with freelistOffset := offset }
  Prog.assert (offset = (nfree - 1) * size) .freshOffset
  Prog.modify fun h => (h.setNext (.same blktype) p (h.head (.same blktype))).setHead
    (.same blktype) (some p)
  Prog.modify fun h => (h.setNext .all p (h.head .all)).setHead .all (some p)

def subpageKmalloc (slow : Bool) (sz : Nat) (answer : Word) : HeapM Word := do
  let blktype ← blocktype sz
  let spl ← splhigh
  checksubpages slow
  let h ← Prog.mem
  match ← subpageKmalloc.find slow blktype NPAGEREFS (h.head (.same blktype)) with
  | some p => subpageKmalloc.doalloc slow p spl
  | none => do
      match ← allocpageref with
      | none => do
          splx spl
          pure 0
      | some p => do
          let prpage ← allocKpages answer
          if prpage = 0 then do
            freepageref p
            splx spl
            pure 0
          else do
            subpageKmalloc.fresh p blktype prpage
            subpageKmalloc.doalloc slow p spl

/-- `kmalloc`. -/
def kmalloc (slow : Bool) (sz : Nat) (answer : Word) : HeapM Word :=
  if LARGEST_SUBPAGE_SIZE ≤ sz then
    allocKpages answer
  else
    subpageKmalloc slow sz answer

/-! ## Freeing -/

/-- `fill_deadbeef`. -/
def fillDeadbeef (ptr : Word) : Nat → (Word → Word) → Word → Word
  | 0, mem => mem
  | n + 1, mem =>
    update (fillDeadbeef ptr n mem) (ptr + BitVec.ofNat 32 (4 * n)) 0xdeadbeef

/-- The pageref of the page that a pointer points into. -/
def subpageKfree.find (slow : Bool) (ptraddr : Word) : Nat → Option Nat → HeapM (Option Nat)
  | _, none => pure none
  | 0, some _ => Prog.panic .hangs
  | k + 1, some p => do
      let h ← Prog.mem
      let pr := h.pagerefs p
      Prog.assert (pr.blocktype < NSIZES) .blockType
      checksubpage slow p
      if pr.pageaddr ≤ ptraddr ∧ ptraddr < pr.pageaddr + PAGE_SIZE then
        pure (some p)
      else
        subpageKfree.find slow ptraddr k (h.next .all p)

/-- The whole page is free. -/
def subpageKfree.release (slow : Bool) (p blktype : Nat) (prpage : Word) : HeapM Unit := do
  removeLists slow p blktype
  freeKpages prpage
  freepageref p

/-- From the moment on when the block has its link. `pr` is what the pageref was. -/
def subpageKfree.finish (slow : Bool) (p : Nat) (pr : Pageref) (offset : Word) (spl : Nat) :
    HeapM Bool := do
  let size := sizes pr.blocktype
  let nfree := (pr.nfree + 1) % 65536
  setRef p fun pr => { pr with freelistOffset := offset.toNat % 65536, nfree := nfree }
  Prog.assert (nfree ≤ 4096 / size) .tooManyFree
  if nfree = 4096 / size then
    subpageKfree.release slow p pr.blocktype pr.pageaddr
  else pure ()
  checksubpages slow
  splx spl
  pure true

/-- `subpage_kfree`; `false` when the pointer is not on any of the pages. -/
def subpageKfree (slow : Bool) (ptr : Word) : HeapM Bool := do
  let spl ← splhigh
  checksubpages slow
  let h ← Prog.mem
  match ← subpageKfree.find slow ptr NPAGEREFS (h.head .all) with
  | none => do
      splx spl
      pure false
  | some p => do
      let h ← Prog.mem
      let pr := h.pagerefs p
      let prpage := pr.pageaddr
      let size := sizes pr.blocktype
      let offset := ptr - prpage
      Prog.assert (offset < PAGE_SIZE ∧ offset.toNat % size = 0) .invalidAddr
      Prog.modify fun h => { h with mem := fillDeadbeef ptr (size / 4) h.mem }
      let fla := prpage + offset
      if pr.freelistOffset = INVALID_OFFSET then
        store fla 0
      else
        store fla (prpage + BitVec.ofNat 32 pr.freelistOffset)
      subpageKfree.finish slow p pr offset spl

/-- `kfree`. -/
def kfree (slow : Bool) (ptr : Word) : HeapM Unit :=
  if ptr = 0 then
    pure ()
  else do
    if ← subpageKfree slow ptr then
      pure ()
    else do
      Prog.assert (ptr.toNat % 4096 = 0) .notAPage
      freeKpages ptr

end Os161.Kern.Kheap
