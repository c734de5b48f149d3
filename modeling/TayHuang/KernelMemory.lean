import Mathlib.Algebra.Group.Int.Defs
import Mathlib.Algebra.Group.Nat.Defs
import Mathlib.Logic.Function.Basic

/-! The page allocator of pmm.c and the kernel heap of kheap.c. They call each
other: a free list keeps its nodes on the heap, and a full heap asks the free
lists for more pages. The recursion runs on fuel.

Numbers written out here: `MEMUNIT_SZ` is 4096, `MAX_ORDER` is 9, `MIN_SEG_SIZE`
is 64, `ALLOC_PAGE_ORDER` is 6, `sizeof(seg_info_struct)` is 24 and
`sizeof(free_area_struct)` is 16. -/

namespace TayHuang

open Function (update)

/-- `struct __seg_info`, the header in front of every heap segment. -/
structure SegInfo where
  size : Nat
  used : Bool
  next : Option Nat
  last : Option Nat
  deriving DecidableEq, Repr

/-- `struct __free_area`, a node of a free list. -/
structure FreeArea where
  address : Nat
  next : Option Nat
  deriving DecidableEq, Repr

/-- What the two allocators keep in memory. `grown` records, in order, the
blocks (address and order) that the heap asked for; the code never reads it. -/
structure KMem where
  startAddr : Nat
  seg : Nat → SegInfo
  area : Nat → FreeArea
  listHead : Nat → Option Nat
  listTail : Nat → Option Nat
  grown : List (Nat × Nat)

/-- A pointer as C reads an address: 0 is `NULL`. -/
def toPtr (a : Nat) : Option Nat := if a = 0 then none else some a

/-! ### Page allocator -/

/-- The node becomes the whole list of its order. -/
def linkEmpty (s : KMem) (order address head : Nat) : KMem :=
  { s with
    area := update s.area head ⟨address, none⟩
    listTail := update s.listTail order (some head)
    listHead := update s.listHead order (some head) }

/-- The node is linked behind `tail`. -/
def linkTail (s : KMem) (order address tail node : Nat) : KMem :=
  { s with
    area := update (update s.area tail { s.area tail with next := some node })
      node ⟨address, none⟩
    listTail := update s.listTail order (some node) }

/-- `add_free_area`, over the `kmalloc` that provides the node. The head and the
tail are read before the call and written after it. -/
def addFreeAreaWith (km : KMem → Nat → Option (KMem × Nat)) (s : KMem) (order address : Nat) :
    Option KMem :=
  match s.listHead order with
  | none => (km s 16).map fun r => linkEmpty r.1 order address r.2
  | some _ =>
    -- a missing tail would be written through NULL
    (s.listTail order).bind fun tail =>
      (km s 16).map fun r => linkTail r.1 order address tail r.2

/-- The loop over the low `MAX_ORDER` bits of a page count, for `k` more bits
from order `i` on; `advance i` is what the code adds to `start` after a block of
order `i`. -/
def addBits (km : KMem → Nat → Option (KMem × Nat)) (advance : Nat → Nat) :
    Nat → Nat → KMem → Nat → Int → Option (KMem × Nat × Int)
  | 0, _, s, start, pages => some (s, start, pages)
  | k + 1, i, s, start, pages =>
    if pages % 2 ≠ 0 then
      (addFreeAreaWith km s i start).bind fun s =>
        addBits km advance k (i + 1) s (start + advance i) (pages / 2)
    else addBits km advance k (i + 1) s start (pages / 2)

/-- The loop over the blocks of order `MAX_ORDER`. -/
def addTop (km : KMem → Nat → Option (KMem × Nat)) : Nat → KMem → Nat → Option KMem
  | 0, s, _ => some s
  | n + 1, s, start =>
    (addFreeAreaWith km s 9 start).bind fun s => addTop km n s (start + 4096 * 2 ^ 9)

/-- `return_pages`. `pages` is an `int`: for a negative one the shifts keep the
sign and the second loop is empty. -/
def returnPagesWith (km : KMem → Nat → Option (KMem × Nat)) (s : KMem) (addr : Nat) (pages : Int) :
    Option KMem :=
  (addBits km (fun i => 4096 * 2 ^ i) 9 0 s addr pages).bind fun (s, start, pages) =>
    addTop km pages.toNat s start

/-- The loop of `__alloc_free_pages`, for `k` more orders from `i` on. -/
def allocFreePagesFrom (s : KMem) (orderGive : Nat) : Nat → Nat → KMem × Nat × Nat
  | 0, _ => (s, 0, orderGive)
  | k + 1, i =>
    match s.listHead i with
    | some head =>
      ({ s with
          listHead := update s.listHead i (s.area head).next
          listTail := if (s.area head).next = none then update s.listTail i none
            else s.listTail },
        (s.area head).address, i)
    | none => allocFreePagesFrom s orderGive k (i + 1)

/-- `__alloc_free_pages`: the state, the address (0 for `NULL`) and the value of
`*order_give` afterwards, which is left as it was when nothing is found. -/
def allocFreePages (s : KMem) (order orderGive : Nat) : KMem × Nat × Nat :=
  allocFreePagesFrom s orderGive (10 - order) order

/-! ### Kernel heap -/

/-- The first half of `do_combine`: a free segment that starts where `a` ends is
merged into it. -/
def combineNext (m : Nat → SegInfo) (a : Nat) : Nat → SegInfo :=
  match (m a).next with
  | some n =>
    if (m n).used = false ∧ a + (m a).size = n then
      let m' := update m a { m a with size := (m a).size + (m n).size, next := (m n).next }
      match (m n).next with
      | some nn => update m' nn { m' nn with last := some a }
      | none => m'
    else m
  | none => m

/-- The second half of `do_combine`: `a` is merged into a free segment that ends
where it starts. -/
def combineLast (m : Nat → SegInfo) (a : Nat) : (Nat → SegInfo) × Nat :=
  match (m a).last with
  | some l =>
    if (m l).used = false ∧ l + (m l).size = a then
      let m' := update m l { m l with size := (m l).size + (m a).size, next := (m a).next }
      match (m a).next with
      | some n => (update m' n { m' n with last := some l }, l)
      | none => (m', l)
    else (m, a)
  | none => (m, a)

def doCombine (m : Nat → SegInfo) (a : Nat) : (Nat → SegInfo) × Nat :=
  combineLast (combineNext m a) a

/-- The search loop of `kmalloc`: the first free segment of the size asked for,
or the last segment. -/
def findSeg (m : Nat → SegInfo) (fixed : Nat) : Nat → Nat → Option Nat
  | 0, _ => none
  | fuel + 1, cur =>
    if (m cur).size < fixed ∨ (m cur).used then
      match (m cur).next with
      | some n => findSeg m fixed fuel n
      | none => some cur
    else some cur

/-- The end of `kmalloc`: `cur` is split when at least `MIN_SEG_SIZE` is left. -/
def takeSeg (m : Nat → SegInfo) (cur fixed : Nat) : Nat → SegInfo :=
  if 64 ≤ (m cur).size - fixed then
    let c := m cur
    let m := update m (cur + fixed) ⟨c.size - fixed, false, c.next, some cur⟩
    let m :=
      match c.next with
      | some n => update m n { m n with last := some (cur + fixed) }
      | none => m
    update m cur ⟨fixed, true, some (cur + fixed), c.last⟩
  else update m cur { m cur with used := true }

/-- The growth path of `kmalloc` up to the call of `return_pages`: pages are
asked for, linked behind `cur` as a segment and combined. The result holds the
address and the order of the block. -/
def growHeap (s : KMem) (cur : Nat) : KMem × Nat × Nat :=
  let r := allocFreePages s 6 0
  let m := update r.1.seg r.2.1 ⟨4096 * 2 ^ 6, false, none, some cur⟩
  let m := update m cur { m cur with next := toPtr r.2.1 }
  ({ r.1 with seg := (doCombine m r.2.1).1, grown := r.1.grown ++ [r.2] }, r.2)

/-- `size` rounded up to a multiple of `MIN_SEG_SIZE`. -/
def fixSize (size : Nat) : Nat := (size + 63) % 2 ^ 64 / 64 * 64

/-- `kmalloc`. After growing the heap it starts again with the enlarged `size`,
so every growth adds another header to the request. -/
def kmalloc : Nat → KMem → Nat → Option (KMem × Nat)
  | 0, _, _ => none
  | fuel + 1, s, size =>
    let size := (size + 24) % 2 ^ 64
    (findSeg s.seg (fixSize size) fuel s.startAddr).bind fun cur =>
      if (s.seg cur).size < fixSize size ∨ (s.seg cur).used then
        let r := growHeap s cur
        (returnPagesWith (kmalloc fuel) r.1 (r.2.1 + 4096 * 2 ^ 6) (2 ^ r.2.2 - 2 ^ 6)).bind
          fun s => kmalloc fuel s size
      else some ({ s with seg := takeSeg s.seg cur (fixSize size) }, cur + 24)

def kfree (s : KMem) (ptr : Nat) : KMem :=
  { s with seg := (doCombine (update s.seg (ptr - 24) { s.seg (ptr - 24) with used := false })
      (ptr - 24)).1 }

def initKheap (s : KMem) (prepareBase prepareSize : Nat) : KMem :=
  { s with
    startAddr := prepareBase
    seg := update s.seg prepareBase ⟨prepareSize, false, none, none⟩
    grown := [] }

/-! ### The page allocator over this heap -/

def addFreeArea (fuel : Nat) : KMem → Nat → Nat → Option KMem :=
  addFreeAreaWith (kmalloc fuel)

def returnPages (fuel : Nat) : KMem → Nat → Int → Option KMem :=
  returnPagesWith (kmalloc fuel)

/-- `alloc_pages`. Nothing checks that a block was found. -/
def allocPages (fuel : Nat) (s : KMem) (order : Nat) : Option (KMem × Nat) :=
  let r := allocFreePages s order 0
  (returnPages fuel r.1 (r.2.1 + 4096 * 2 ^ order) (2 ^ r.2.2 - 2 ^ order)).map
    fun s => (s, r.2.1)

/-- The number of whole pages that cover `x` bytes, as `init_pmm` computes it. -/
def pageCount (x : Nat) : Nat := (x + 4095) % 2 ^ 64 / 4096

/-- `init_pmm`. Its first loop advances by `MEMUNIT_SZ << 1` whatever the order;
its second loop counts in an `int`, which must not overflow. -/
def initPmm (fuel : Nat) (s : KMem) (memsize reservedLimit : Nat) : Option KMem :=
  let pages : Nat := (pageCount memsize + 2 ^ 64 - pageCount reservedLimit) % 2 ^ 64
  (addBits (kmalloc fuel) (fun _ => 4096 * 2 ^ 1) 9 0 s reservedLimit pages).bind
    fun (s, start, pages) =>
      if pages.toNat < 2 ^ 31 then addTop (kmalloc fuel) pages.toNat s start else none

end TayHuang
