import TayHuang.Paging
import TayHuang.UserMalloc
import Mathlib.Data.List.Nodup

/-! The page tables of the loader, setup_lm.c, and the walk of the processor through
them. Memory is given by entries, at the address of each. -/

namespace TayHuang

open Function (update)

def pageAddress : Nat := 0x3000000

/-- `(n + d - 1) / d` of `int`s. -/
def ceilDiv (n d : Int) : Int := asInt ((asInt (n + d - 1)).tdiv d)

/-! The counts of `setup_paging`. -/

def pageNum (memsz : Nat) : Int := asInt ((memsz + 4096 - 1) % 2 ^ 64 / 4096 : Nat)
def ptNum (memsz : Nat) : Int := ceilDiv (pageNum memsz) 512
def pdNum (memsz : Nat) : Int := ceilDiv (ptNum memsz) 512
def pdptNum (memsz : Nat) : Int := ceilDiv (pdNum memsz) 512
def pml4Num (memsz : Nat) : Int := ceilDiv (pdptNum memsz) 512

def pdptStart (memsz : Nat) : Nat := asDword (pageAddress + pml4Num memsz * 4096)
def pdStart (memsz : Nat) : Nat := asDword (pdptStart memsz + pdptNum memsz * 4096)
def ptStart (memsz : Nat) : Nat := asDword (pdStart memsz + pdNum memsz * 4096)
def pageStart (memsz : Nat) : Nat := asDword (ptStart memsz + ptNum memsz * 4096)

/-- An entry that is present, writable and for the supervisor. -/
def presentEntry (address : Nat) : PageEntry :=
  { PageEntry.zero with p := true, rw := true, address := address % 2 ^ 39 }

/-- The entry of the table at `start + no * 4096`. -/
def tableEntry (start no : Nat) : PageEntry := presentEntry (asDword (start + asInt (no * 4096)) / 2 ^ 12)

/-- A turn of the inner loops: the entries from `num` on are not present. -/
def initEntry (start : Nat) (num : Int) (entry : Nat → PageEntry) (mem : Nat → PageEntry) (no : Nat) :
    Nat → PageEntry :=
  update mem (asDword (start + no * 8)) (if num ≤ no then .zero else entry no)

/-- The inner loop, over a table. -/
def initTable (start : Nat) (num : Int) (entry : Nat → PageEntry) (mem : Nat → PageEntry) (i : Nat) :
    Nat → PageEntry :=
  (List.range 512).foldl (fun mem j => initEntry start num entry mem (512 * i + j)) mem

/-- The loops over the tables of a level. -/
def initTables (start : Nat) (tables num : Int) (entry : Nat → PageEntry) (mem : Nat → PageEntry) :
    Nat → PageEntry :=
  (List.range tables.toNat).foldl (initTable start num entry) mem

/-- `setup_paging`: the memory, the address of the PML4 and the limit. -/
def setupPaging (memsz : Nat) (mem : Nat → PageEntry) : (Nat → PageEntry) × Nat × Option Nat :=
  if pml4Num memsz ≠ 1 then (mem, 0, none)
  else
    let mem := initTables (ptStart memsz) (ptNum memsz) (pageNum memsz) presentEntry mem
    let mem := initTables (pdStart memsz) (pdNum memsz) (ptNum memsz) (tableEntry (ptStart memsz)) mem
    let mem := initTables (pdptStart memsz) (pdptNum memsz) (pdNum memsz) (tableEntry (pdStart memsz)) mem
    let mem := initTables pageAddress (pml4Num memsz) (pdptNum memsz) (tableEntry (pdptStart memsz)) mem
    (mem, pageAddress, some (pageStart memsz))

/-! ### The walk -/

/-- Where a virtual address leads, and what is allowed there. -/
structure Translation where
  address : Nat
  rw : Bool
  us : Bool
  deriving DecidableEq, Repr

/-- The walk through the levels that `idxs` index; `acc` is the frame reached, with the
rights so far. -/
def walkTables (mem : Nat → PageEntry) (v : Nat) : List (Nat → Nat) → Translation → Option Translation
  | [], acc => some { acc with address := acc.address + v % 2 ^ 12 }
  | idx :: idxs, acc =>
    let e := mem (acc.address + 8 * idx v)
    if e.p then walkTables mem v idxs ⟨e.address * 2 ^ 12, acc.rw && e.rw, acc.us && e.us⟩ else none

def translate (mem : Nat → PageEntry) (pml4 v : Nat) : Option Translation :=
  walkTables mem v [pml4eIdx, pdpteIdx, pdeIdx, pteIdx] ⟨pml4, true, true⟩

/-! ### The loops -/

/-- What the turns for the entries `first` to `first + count` leave. -/
theorem initEntries_apply (start : Nat) (num : Int) (entry mem : Nat → PageEntry) (first count : Nat)
    (hfit : start + 8 * (first + count) ≤ 2 ^ 32) :
    (∀ no, first ≤ no → no < first + count →
      (List.range count).foldl (fun mem j => initEntry start num entry mem (first + j)) mem (start + 8 * no) =
        if num ≤ no then .zero else entry no) ∧
    ∀ a, (∀ no, first ≤ no → no < first + count → a ≠ start + 8 * no) →
      (List.range count).foldl (fun mem j => initEntry start num entry mem (first + j)) mem a = mem a := by
  induction count with
  | zero => exact ⟨fun no h h' => by omega, fun a _ => rfl⟩
  | succ count ih =>
    obtain ⟨ihin, ihout⟩ := ih (by omega)
    have haddr : asDword ((start : Int) + ((first + count : Nat) : Int) * 8) = start + 8 * (first + count) := by
      rw [asDword_eq (by omega) (by omega)]
      omega
    simp only [List.range_succ, List.foldl_append, List.foldl_cons, List.foldl_nil]
    refine ⟨fun no h h' => ?_, fun a ha => ?_⟩
    · rw [initEntry, haddr]
      by_cases hno : no = first + count
      · rw [hno, Function.update_self]
      · rw [Function.update_of_ne (by omega)]
        exact ihin no h (by omega)
    · rw [initEntry, haddr, Function.update_of_ne (ha _ (by omega) (by omega))]
      exact ihout a fun no h h' => ha no h (by omega)

/-- Every entry of the tables is set, and nothing else. -/
theorem initTables_apply (start tables : Nat) (num : Int) (entry mem : Nat → PageEntry)
    (hfit : start + 8 * (512 * tables) ≤ 2 ^ 32) :
    (∀ no, no < 512 * tables → initTables start tables num entry mem (start + 8 * no) =
      if num ≤ no then .zero else entry no) ∧
    ∀ a, (∀ no, no < 512 * tables → a ≠ start + 8 * no) →
      initTables start tables num entry mem a = mem a := by
  rw [initTables, Int.toNat_natCast]
  induction tables with
  | zero => exact ⟨fun no h => by omega, fun a _ => rfl⟩
  | succ tables ih =>
    obtain ⟨ihin, ihout⟩ := ih (by omega)
    rw [List.range_succ, List.foldl_append, List.foldl_cons, List.foldl_nil]
    obtain ⟨hin, hout⟩ := initEntries_apply start num entry
      ((List.range tables).foldl (initTable start num entry) mem) (512 * tables) 512 (by omega)
    refine ⟨fun no h => ?_, fun a ha => ?_⟩
    · by_cases hno : no < 512 * tables
      · rw [initTable, hout _ fun k hk hk' => by omega]
        exact ihin no hno
      · exact hin no (by omega) (by omega)
    · rw [initTable, hout a fun no hno hno' => ha no (by omega)]
      exact ihout a fun no hno => ha no (by omega)

/-! ### The levels -/

theorem asInt_nat {n : Nat} (h : n < 2 ^ 31) : asInt n = n := asInt_eq (by omega) (by omega)

theorem ceilDiv_nat {n : Nat} (h : n < 2 ^ 30) : ceilDiv n 512 = ((n + 511) / 512 : Nat) := by
  rw [ceilDiv, show (n : Int) + 512 - 1 = ((n + 511 : Nat) : Int) by omega, asInt_nat (by omega)]
  rw [show ((n + 511 : Nat) : Int).tdiv 512 = ((n + 511) / 512 : Nat) from rfl, asInt_nat (by omega)]

/-- How many pages and tables there are. -/
structure TableCounts (memsz pages pts pds : Nat) : Prop where
  pages_eq : pages = (memsz + 4095) / 4096
  pts_eq : pts = (pages + 511) / 512
  pds_eq : pds = (pts + 511) / 512
  pos : 1 ≤ pages
  le : pages ≤ 2 ^ 20 + 2 ^ 5

variable {memsz pages pts pds : Nat}

theorem tableCounts_of_le (h1 : 1 ≤ memsz) (h2 : memsz ≤ 2 ^ 32 + 2 ^ 17) :
    TableCounts memsz ((memsz + 4095) / 4096) (((memsz + 4095) / 4096 + 511) / 512)
      ((((memsz + 4095) / 4096 + 511) / 512 + 511) / 512) := by
  constructor <;> omega

namespace TableCounts

variable (h : TableCounts memsz pages pts pds)

include h

theorem pageNum_eq : pageNum memsz = pages := by
  obtain ⟨he, -, -, h1, h2⟩ := h
  rw [pageNum, show (memsz + 4096 - 1) % 2 ^ 64 / 4096 = pages by omega, asInt_nat (by omega)]

theorem ptNum_eq : ptNum memsz = pts := by
  have hle := h.le
  rw [ptNum, h.pageNum_eq, ceilDiv_nat (by omega), h.pts_eq]

theorem pdNum_eq : pdNum memsz = pds := by
  obtain ⟨-, he, -, h1, h2⟩ := id h
  rw [pdNum, h.ptNum_eq, ceilDiv_nat (by omega), h.pds_eq]

theorem pdptNum_eq : pdptNum memsz = (1 : Nat) := by
  obtain ⟨-, he, he', h1, h2⟩ := id h
  rw [pdptNum, h.pdNum_eq, ceilDiv_nat (by omega), show (pds + 511) / 512 = 1 by omega]

theorem pml4Num_eq : pml4Num memsz = (1 : Nat) := by
  rw [pml4Num, h.pdptNum_eq]
  rfl

theorem pdptStart_eq : pdptStart memsz = pageAddress + 4096 := by
  rw [pdptStart, h.pml4Num_eq]
  rfl

theorem pdStart_eq : pdStart memsz = pageAddress + 8192 := by
  rw [pdStart, h.pdptStart_eq, h.pdptNum_eq]
  rfl

theorem ptStart_eq : ptStart memsz = pageAddress + 8192 + 4096 * pds := by
  obtain ⟨-, he, he', h1, h2⟩ := id h
  rw [ptStart, h.pdStart_eq, h.pdNum_eq, pageAddress, asDword_eq (by omega) (by omega)]
  omega

theorem pageStart_eq : pageStart memsz = pageAddress + 8192 + 4096 * pds + 4096 * pts := by
  obtain ⟨-, he, he', h1, h2⟩ := id h
  rw [pageStart, h.ptStart_eq, h.ptNum_eq, pageAddress, asDword_eq (by omega) (by omega)]
  omega

end TableCounts

theorem tableEntry_eq {start no : Nat} (hno : no < 2 ^ 12) (h : start + 4096 * no < 2 ^ 32) :
    tableEntry start no = presentEntry ((start + 4096 * no) / 2 ^ 12) := by
  rw [tableEntry, show (no : Int) * 4096 = ((4096 * no : Nat) : Int) by omega, asInt_nat (by omega),
    asDword_eq (by omega) (by omega)]
  congr 2

theorem entry_of_lt {start num no : Nat} (hnum : num ≤ 2 ^ 12) (h : start + 4096 * num ≤ 2 ^ 32) :
    (if (num : Int) ≤ no then PageEntry.zero else tableEntry start no) =
      if num ≤ no then .zero else presentEntry ((start + 4096 * no) / 2 ^ 12) := by
  simp only [Int.ofNat_le]
  split
  · rfl
  · exact tableEntry_eq (by omega) (by omega)

/-- The entries of the four levels. -/
structure BootTables (mem mem' : Nat → PageEntry) (pages pts pds : Nat) : Prop where
  pml4e : ∀ no < 512, mem' (pageAddress + 8 * no) =
    if 1 ≤ no then .zero else presentEntry ((pageAddress + 4096 + 4096 * no) / 2 ^ 12)
  pdpte : ∀ no < 512, mem' (pageAddress + 4096 + 8 * no) =
    if pds ≤ no then .zero else presentEntry ((pageAddress + 8192 + 4096 * no) / 2 ^ 12)
  pde : ∀ no < 512 * pds, mem' (pageAddress + 8192 + 8 * no) =
    if pts ≤ no then .zero else presentEntry ((pageAddress + 8192 + 4096 * pds + 4096 * no) / 2 ^ 12)
  pte : ∀ no < 512 * pts, mem' (pageAddress + 8192 + 4096 * pds + 8 * no) =
    if pages ≤ no then .zero else presentEntry no
  others : ∀ a, a < pageAddress ∨ pageAddress + 8192 + 4096 * pds + 4096 * pts ≤ a → mem' a = mem a

/-- The levels are written one after another, each to frames of its own. -/
theorem tables_of_levels (h : TableCounts memsz pages pts pds) {mem pt pd pdpt pml4 : Nat → PageEntry}
    (hpt : pt = initTables (pageAddress + 8192 + 4096 * pds) pts pages presentEntry mem)
    (hpd : pd = initTables (pageAddress + 8192) pds pts (tableEntry (pageAddress + 8192 + 4096 * pds)) pt)
    (hpdpt : pdpt = initTables (pageAddress + 4096) (1 : Nat) pds (tableEntry (pageAddress + 8192)) pd)
    (hpml4 : pml4 = initTables pageAddress (1 : Nat) (1 : Nat) (tableEntry (pageAddress + 4096)) pdpt) :
    BootTables mem pml4 pages pts pds := by
  obtain ⟨-, he, he', h1, h2⟩ := h
  have hbase : pageAddress = 0x3000000 := rfl
  obtain ⟨pte, out1⟩ := initTables_apply (pageAddress + 8192 + 4096 * pds) pts pages presentEntry mem (by omega)
  obtain ⟨pde, out2⟩ := initTables_apply (pageAddress + 8192) pds pts
    (tableEntry (pageAddress + 8192 + 4096 * pds)) pt (by omega)
  obtain ⟨pdpte, out3⟩ := initTables_apply (pageAddress + 4096) 1 pds (tableEntry (pageAddress + 8192)) pd
    (by omega)
  obtain ⟨pml4e, out4⟩ := initTables_apply pageAddress 1 (1 : Nat) (tableEntry (pageAddress + 4096)) pdpt
    (by omega)
  rw [← hpt] at pte out1
  rw [← hpd] at pde out2
  rw [← hpdpt] at pdpte out3
  rw [← hpml4] at pml4e out4
  constructor
  · intro no hno
    rw [pml4e no (by omega)]
    exact entry_of_lt (by omega) (by omega)
  · intro no hno
    rw [out4 _ fun k hk => by omega, pdpte no (by omega)]
    exact entry_of_lt (by omega) (by omega)
  · intro no hno
    rw [out4 _ fun k hk => by omega, out3 _ fun k hk => by omega, pde no hno]
    exact entry_of_lt (by omega) (by omega)
  · intro no hno
    rw [out4 _ fun k hk => by omega, out3 _ fun k hk => by omega, out2 _ fun k hk => by omega, pte no hno]
    simp only [Int.ofNat_le]
  · intro a ha
    rw [out4 a fun k hk => by omega, out3 a fun k hk => by omega, out2 a fun k hk => by omega,
      out1 a fun k hk => by omega]

theorem setupPaging_tables (h : TableCounts memsz pages pts pds) (mem : Nat → PageEntry) :
    ∃ mem', setupPaging memsz mem = (mem', pageAddress, some (pageStart memsz)) ∧
      BootTables mem mem' pages pts pds := by
  refine ⟨_, if_neg (by rw [h.pml4Num_eq]; decide), ?_⟩
  rw [h.pageNum_eq, h.ptNum_eq, h.pdNum_eq, h.pdptNum_eq, h.pml4Num_eq, h.pdptStart_eq, h.pdStart_eq,
    h.ptStart_eq]
  exact tables_of_levels h rfl rfl rfl rfl

/-! ### The walk through the levels -/

theorem walk_step {mem : Nat → PageEntry} {v table : Nat} {idx : Nat → Nat} {idxs : List (Nat → Nat)} {us : Bool}
    (num no next : Nat)
    (hentry : mem (table + 8 * idx v) = if num ≤ no then .zero else presentEntry (next / 2 ^ 12))
    (halign : next % 2 ^ 12 = 0) (hlt : no < num → next < 2 ^ 51) :
    walkTables mem v (idx :: idxs) ⟨table, true, us⟩ =
      if no < num then walkTables mem v idxs ⟨next, true, false⟩ else none := by
  rw [walkTables]
  by_cases hno : no < num
  · have hlt := hlt hno
    rw [if_neg (Nat.not_le.mpr hno)] at hentry
    simp only [hentry, presentEntry, PageEntry.zero, if_true, if_pos hno, Bool.and_true, Bool.and_false]
    rw [Nat.mod_eq_of_lt (by omega), Nat.div_mul_cancel (Nat.dvd_of_mod_eq_zero halign)]
  · rw [if_pos (Nat.not_lt.mp hno)] at hentry
    simp only [hentry, PageEntry.zero, if_neg hno, Bool.false_eq_true, if_false]

/-- Every level is indexed by the page number, divided by 512 once more at each. -/
theorem BootTables.translate_eq {mem mem' : Nat → PageEntry} (ht : BootTables mem mem' pages pts pds)
    (h : TableCounts memsz pages pts pds) {v : Nat} (hv : v < 2 ^ 48) :
    translate mem' pageAddress v = if v / 2 ^ 12 < pages then some ⟨v, true, false⟩ else none := by
  obtain ⟨-, he, he', h1, h2⟩ := h
  have hbase : pageAddress = 0x3000000 := rfl
  obtain ⟨x, hx⟩ : ∃ x, x = v / 2 ^ 12 := ⟨_, rfl⟩
  obtain ⟨r, hr⟩ : ∃ r, r = x / 512 := ⟨_, rfl⟩
  obtain ⟨q, hq⟩ : ∃ q, q = r / 512 := ⟨_, rfl⟩
  obtain ⟨i, hi⟩ : ∃ i, i = q / 512 := ⟨_, rfl⟩
  have e4 : mem' (pageAddress + 8 * pml4eIdx v) =
      if 1 ≤ i then .zero else presentEntry ((pageAddress + 4096 + 4096 * i) / 2 ^ 12) := by
    rw [show pml4eIdx v = i by rw [pml4eIdx]; omega]
    exact ht.pml4e i (by omega)
  have e3 : i < 1 → mem' (pageAddress + 4096 + 4096 * i + 8 * pdpteIdx v) =
      if pds ≤ q then .zero else presentEntry ((pageAddress + 8192 + 4096 * q) / 2 ^ 12) := fun hi0 => by
    rw [show pageAddress + 4096 + 4096 * i + 8 * pdpteIdx v = pageAddress + 4096 + 8 * q by rw [pdpteIdx]; omega]
    exact ht.pdpte q (by omega)
  have e2 : q < pds → mem' (pageAddress + 8192 + 4096 * q + 8 * pdeIdx v) =
      if pts ≤ r then .zero else presentEntry ((pageAddress + 8192 + 4096 * pds + 4096 * r) / 2 ^ 12) :=
      fun hq0 => by
    rw [show pageAddress + 8192 + 4096 * q + 8 * pdeIdx v = pageAddress + 8192 + 8 * r by rw [pdeIdx]; omega]
    exact ht.pde r (by omega)
  have e1 : r < pts → mem' (pageAddress + 8192 + 4096 * pds + 4096 * r + 8 * pteIdx v) =
      if pages ≤ x then .zero else presentEntry (4096 * x / 2 ^ 12) := fun hr0 => by
    rw [show pageAddress + 8192 + 4096 * pds + 4096 * r + 8 * pteIdx v =
      pageAddress + 8192 + 4096 * pds + 8 * x by rw [pteIdx]; omega, show 4096 * x / 2 ^ 12 = x by omega]
    exact ht.pte x (by omega)
  rw [translate, walk_step 1 i _ e4 (by omega) (by omega), ← hx]
  by_cases hi0 : i < 1
  · rw [if_pos hi0, walk_step pds q _ (e3 hi0) (by omega) (by omega)]
    by_cases hq0 : q < pds
    · rw [if_pos hq0, walk_step pts r _ (e2 hq0) (by omega) (by omega)]
      by_cases hr0 : r < pts
      · rw [if_pos hr0, walk_step pages x _ (e1 hr0) (by omega) (by omega), walkTables,
          show 4096 * x + v % 2 ^ 12 = v by omega]
      · rw [if_neg hr0, if_neg (by omega)]
    · rw [if_neg hq0, if_neg (by omega)]
  · rw [if_neg hi0, if_neg (by omega)]

/-! ### The frames -/

/-- The frames of the tables, level by level. -/
def tableFrames (memsz : Nat) : List Nat :=
  let level (start : Nat) (tables : Int) := (List.range tables.toNat).map fun i => start + 4096 * i
  level pageAddress (pml4Num memsz) ++ (level (pdptStart memsz) (pdptNum memsz) ++
    (level (pdStart memsz) (pdNum memsz) ++ level (ptStart memsz) (ptNum memsz)))

/-- They follow one another. -/
theorem tableFrames_eq (h : TableCounts memsz pages pts pds) :
    tableFrames memsz = (List.range (2 + pds + pts)).map fun i => pageAddress + 4096 * i := by
  rw [tableFrames, h.ptNum_eq, h.pdNum_eq, h.pdptNum_eq, h.pml4Num_eq, h.pdptStart_eq, h.pdStart_eq, h.ptStart_eq,
    show 2 + pds + pts = 1 + (1 + (pds + pts)) by omega, List.range_add, List.range_add, List.range_add]
  simp only [Int.toNat_natCast, List.map_append, List.map_map, Function.comp_def]
  refine congrArg₂ (· ++ ·) rfl (congrArg₂ (· ++ ·) ?_ (congrArg₂ (· ++ ·) ?_ ?_)) <;>
    exact List.map_congr_left fun i _ => by omega

theorem mem_tableFrames (h : TableCounts memsz pages pts pds) {f : Nat} :
    f ∈ tableFrames memsz ↔ ∃ i < 2 + pds + pts, pageAddress + 4096 * i = f := by
  rw [tableFrames_eq h, List.mem_map]
  simp only [List.mem_range]

/-- The tables of the loader map every page of memory to itself. -/
theorem boot_identity {memsz : Nat} (h1 : 1 ≤ memsz) (h2 : memsz ≤ 2 ^ 32 + 2 ^ 17) (mem : Nat → PageEntry) :
    ∃ mem' limit, setupPaging memsz mem = (mem', pageAddress, some limit) ∧
      (tableFrames memsz).Nodup ∧
      (∀ f ∈ tableFrames memsz, 4096 ∣ f ∧ pageAddress ≤ f ∧ f + 4096 ≤ limit) ∧
      (∀ a, mem' a ≠ mem a → ∃ f ∈ tableFrames memsz, f ≤ a ∧ a < f + 4096) ∧
      ∀ v < 2 ^ 48, translate mem' pageAddress v =
        if v < (memsz + 4095) / 4096 * 4096 then some ⟨v, true, false⟩ else none := by
  have h := tableCounts_of_le h1 h2
  obtain ⟨mem', hset, ht⟩ := setupPaging_tables h mem
  have hbase : pageAddress = 0x3000000 := rfl
  refine ⟨mem', _, hset, ?_, fun f hf => ?_, fun a ha => ?_, fun v hv => ?_⟩
  · rw [tableFrames_eq h]
    refine List.Nodup.map (fun i j hij => ?_) List.nodup_range
    have hadd : pageAddress + 4096 * i = pageAddress + 4096 * j := hij
    omega
  · obtain ⟨i, hi, rfl⟩ := (mem_tableFrames h).mp hf
    rw [h.pageStart_eq]
    refine ⟨?_, ?_, ?_⟩ <;> omega
  · have hin : ¬ (a < pageAddress ∨ _ ≤ a) := fun hout => ha (ht.others a hout)
    refine ⟨_, (mem_tableFrames h).mpr ⟨(a - pageAddress) / 4096, ?_, rfl⟩, ?_, ?_⟩ <;> omega
  · rw [ht.translate_eq h hv]
    have hiff : v / 2 ^ 12 < (memsz + 4095) / 4096 ↔ v < (memsz + 4095) / 4096 * 4096 :=
      Nat.div_lt_iff_lt_mul (by decide)
    simp only [hiff]

theorem boot_identity_max : ∃ mem' limit, setupPaging (2 ^ 32) (fun _ => .zero) = (mem', pageAddress, some limit) ∧
    (tableFrames (2 ^ 32)).Nodup ∧
    (∀ f ∈ tableFrames (2 ^ 32), 4096 ∣ f ∧ pageAddress ≤ f ∧ f + 4096 ≤ limit) ∧
    (∀ a, mem' a ≠ .zero → ∃ f ∈ tableFrames (2 ^ 32), f ≤ a ∧ a < f + 4096) ∧
    ∀ v < 2 ^ 48, translate mem' pageAddress v =
      if v < (2 ^ 32 + 4095) / 4096 * 4096 then some ⟨v, true, false⟩ else none :=
  boot_identity (by decide) (by decide) _

end TayHuang
