import Mathlib.Algebra.Group.Nat.Defs
import Mathlib.Logic.Function.Basic

/-! The page tables of paging.c. An entry keeps the fields that the code writes;
`address` is the 39-bit field, and the compiler computes `address << 12` in 39
bits. -/

namespace TayHuang

open Function (update)

/-- An entry of any of the four levels. -/
structure PageEntry where
  p : Bool
  rw : Bool
  us : Bool
  pwt : Bool
  pcd : Bool
  a : Bool
  d : Bool
  pat : Bool
  g : Bool
  address : Nat
  deriving DecidableEq, Repr

def PageEntry.zero : PageEntry :=
  ⟨false, false, false, false, false, false, false, false, false, 0⟩

/-- The table frames in memory, by address and index, and the frames that
`alloc_pages(0)` will hand out. -/
structure PTMem where
  entry : Nat → Nat → PageEntry
  frames : List Nat

/-- `PML4E`, `PDPTE` and `PDE` index, and the index of the `PTE`. -/
def pml4eIdx (v : Nat) : Nat := v / 2 ^ 39 % 512
def pdpteIdx (v : Nat) : Nat := v / 2 ^ 30 % 512
def pdeIdx (v : Nat) : Nat := v / 2 ^ 21 % 512
def pteIdx (v : Nat) : Nat := v / 2 ^ 12 % 512

/-- The 39-bit field that keeps `a >> 12`. -/
def toField (a : Nat) : Nat := a / 2 ^ 12 % 2 ^ 39

/-- `address << 12`. -/
def ofField (address : Nat) : Nat := address * 2 ^ 12 % 2 ^ 39

/-- `alloc_pages(0)`, with 0 when no frame is left. -/
def allocFrame (s : PTMem) : PTMem × Nat :=
  match s.frames with
  | [] => (s, 0)
  | f :: fs => ({ s with frames := fs }, f)

/-- `create_pgd` and `__get_free_page`: a frame full of zeros. -/
def getFreePage (s : PTMem) : PTMem × Nat :=
  let r := allocFrame s
  ({ r.1 with entry := update r.1.entry r.2 fun _ => .zero }, r.2)

def setEntry (s : PTMem) (table idx : Nat) (e : PageEntry) : PTMem :=
  { s with entry := update s.entry table (update (s.entry table) idx e) }

/-- One of the three upper levels of `__set_mapping`: an entry that is not
present gets a new table. The result holds the table below the entry. -/
def enterTable (s : PTMem) (table idx : Nat) (rw us : Bool) : PTMem × Nat :=
  let s :=
    if (s.entry table idx).p = false then
      let s := setEntry s table idx
        { s.entry table idx with p := true, rw := rw, us := us, pcd := false, pwt := false, a := false }
      let r := getFreePage s
      setEntry r.1 table idx { r.1.entry table idx with address := toField r.2 }
    else s
  (s, ofField (s.entry table idx).address)

/-- The last level of `__set_mapping`. -/
def setPte (s : PTMem) (pt idx paddr : Nat) (rw us : Bool) : PTMem :=
  let s :=
    if (s.entry pt idx).p = false then
      setEntry s pt idx
        { s.entry pt idx with p := true, rw := rw, us := us, pcd := false, pwt := false, a := false,
                              d := false, pat := false, g := false }
    else s
  setEntry s pt idx { s.entry pt idx with address := toField paddr }

set_option linter.style.nameCheck false in
def __setMapping (s : PTMem) (pgd vaddr paddr : Nat) (rw us : Bool) : PTMem × Bool :=
  let r := enterTable s pgd (pml4eIdx vaddr) rw us
  if r.2 = 0 then (r.1, false)
  else
    let r := enterTable r.1 r.2 (pdpteIdx vaddr) rw us
    if r.2 = 0 then (r.1, false)
    else
      let r := enterTable r.1 r.2 (pdeIdx vaddr) rw us
      if r.2 = 0 then (r.1, false)
      else (setPte r.1 r.2 (pteIdx vaddr) paddr rw us, true)

/-- `get_physical_address`; 0 is `NULL`. -/
def getPhysicalAddress (s : PTMem) (pgd vaddr : Nat) : Nat :=
  let pml4e := s.entry pgd (pml4eIdx vaddr)
  if pml4e.p = false then 0
  else
    let pdpte := s.entry (ofField pml4e.address) (pdpteIdx vaddr)
    if pdpte.p = false then 0
    else
      let pde := s.entry (ofField pdpte.address) (pdeIdx vaddr)
      if pde.p = false then 0
      else
        let pte := s.entry (ofField pde.address) (pteIdx vaddr)
        if pte.p = false then 0
        else ofField pte.address + vaddr % 2 ^ 12

end TayHuang
