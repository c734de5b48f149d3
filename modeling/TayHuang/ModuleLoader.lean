import TayHuang.VirtualBytes
import TayHuang.LittleEndian

/-! The module loader: it gives the segments of an ELF image in memory their pages and
copies their bytes through the new tables. -/

namespace TayHuang

namespace Vm

open Function (update)
open Fuel Radix Tilings

/-! ### The image -/

structure Elf64Phdr where
  pType : Nat
  pOffset : Nat
  pVaddr : Nat
  pFilesz : Nat
  pMemsz : Nat
  deriving DecidableEq

def readNum (b : Nat → UInt8) (a n : Nat) : Nat :=
  LittleEndian.ofBytes ((List.range n).map fun i => b ((a + i) % 2 ^ 64))

def eEntry (b : Nat → UInt8) (addr : Nat) : Nat := readNum b (addr + 24) 8
def ePhoff (b : Nat → UInt8) (addr : Nat) : Nat := readNum b (addr + 32) 8
def ePhentsize (b : Nat → UInt8) (addr : Nat) : Nat := readNum b (addr + 54) 2
def ePhnum (b : Nat → UInt8) (addr : Nat) : Nat := readNum b (addr + 56) 2

/-- `addr + header->e_phoff + i * header->e_phentsize`, with an `int` product. -/
def phdrAddr (b : Nat → UInt8) (addr i : Nat) : Nat :=
  ((((addr + ePhoff b addr : Nat) : Int) + Int.bmod (i * ePhentsize b addr) (2 ^ 32)) %
    2 ^ 64).toNat

def readPhdr (b : Nat → UInt8) (a : Nat) : Elf64Phdr :=
  ⟨readNum b a 4, readNum b (a + 8) 8, readNum b (a + 16) 8, readNum b (a + 32) 8,
    readNum b (a + 40) 8⟩

/-- The program header with a number. -/
def phdr (b : Nat → UInt8) (addr i : Nat) : Elf64Phdr := readPhdr b (phdrAddr b addr i)

/-! ### Loading -/

structure LoadMem where
  vm : VMem
  bytes : Nat → UInt8

structure ProgramInfo where
  start : Nat
  end_ : Nat
  entry : Nat
  pgd : Nat
  stackTop : Nat
  stackBottom : Nat
  heapBottom : Nat
  heapTop : Nat

def createPgd (fuel : Nat) (v : VMem) : Option (VMem × Nat) :=
  (allocPages fuel v.kmem 0).map fun r => (⟨r.1, update v.entry r.2 fun _ => .zero⟩, r.2)

def mappingKernel (fuel : Nat) (v : VMem) (pgd : Nat) : Option (VMem × Bool × List (Nat × Nat)) :=
  setMapping fuel v pgd 0 0 (0x2000000 / 4096 : Nat) true false

def segPages (h : Elf64Phdr) : Int := Int.bmod ((h.pMemsz + 4095) % 2 ^ 64 / 4096) (2 ^ 32)

def segStart (h : Elf64Phdr) : Nat := (h.pVaddr + 4095) % 2 ^ 64 / 4096 * 4096

/-- `load_program`, with start and end as the caller has set them, and the pages that were
mapped. -/
def loadProgram (fuel : Nat) (s : LoadMem) (pgd addr : Nat) (h : Elf64Phdr) (lim : Nat × Nat) :
    Option (LoadMem × (Nat × Nat) × List (Nat × Nat)) :=
  if h.pType ≠ 1 then some (s, lim, [])
  else
    (allocVpages fuel s.vm pgd (segStart h) (segPages h)).map fun r =>
      let b := pvmemcpy r.1.tables pgd h.pVaddr ((addr + h.pOffset) % 2 ^ 64) h.pFilesz s.bytes
      let b := vmemset r.1.tables pgd ((h.pVaddr + h.pFilesz) % 2 ^ 64) 0
        ((h.pMemsz + 2 ^ 64 - h.pFilesz) % 2 ^ 64) b
      (⟨r.1, b⟩, (h.pVaddr, (h.pVaddr + h.pMemsz) % 2 ^ 64), r.2)

/-- The loop over the program headers, from header `i` on. -/
def loadSegments (fuel addr pgd : Nat) : Nat → Nat → LoadMem → Nat × Nat →
    Option (LoadMem × (Nat × Nat) × List (Elf64Phdr × List (Nat × Nat)))
  | 0, _, _, _ => none
  | k + 1, i, s, lim =>
    if i < ePhnum s.bytes addr then
      let h := phdr s.bytes addr i
      (loadProgram fuel s pgd addr h (2 ^ 64 - 1, 0)).bind fun r =>
        (loadSegments fuel addr pgd k (i + 1) r.1
          (min lim.1 r.2.1.1, max lim.2 r.2.1.2)).map fun t => (t.1, t.2.1, (h, r.2.2) :: t.2.2)
    else some (s, lim, [])

def loadKmodFromMemory (fuel : Nat) (s : LoadMem) (addr : Nat) :
    Option (LoadMem × ProgramInfo × List (Elf64Phdr × List (Nat × Nat))) :=
  (createPgd fuel s.vm).bind fun c =>
    (loadSegments fuel addr c.2 fuel 0 ⟨c.1, s.bytes⟩ (2 ^ 64 - 1, 0)).bind fun r =>
      let heapBottom := (r.2.1.2 + 2 * 4096 + 4095) % 2 ^ 64 / 4096 * 4096
      (mappingKernel fuel r.1.vm c.2).map fun t =>
        (⟨t.1, r.1.bytes⟩,
          ⟨r.2.1.1, r.2.1.2, eEntry s.bytes addr, c.2, 0x40000000, 0x40000000 - 0x800000, heapBottom,
            (heapBottom + 0x10000) % 2 ^ 64⟩, r.2.2)

/-! ### Reading the image -/

variable {v v' : VMem} {l : List Seg} {L L' : Nat → List (Nat × Nat)} {fuel pgd : Nat}
  {bytes b c d : Nat → UInt8} {addr size i : Nat} {F₀ : Set Nat} {h : Elf64Phdr}

/-- The segments to load. -/
def loads (b : Nat → UInt8) (addr : Nat) : List Elf64Phdr :=
  ((List.range (ePhnum b addr)).map (phdr b addr)).filter fun h => h.pType = 1

/-- An ELF64 image lies in memory, and none of it in a free page. -/
structure InMemory (b : Nat → UInt8) (addr size : Nat) (F₀ : Set Nat) : Prop where
  pos : 0 < addr
  top : addr + size ≤ 2 ^ 64
  reserved : ∀ k, addr ≤ k → k < addr + size → k ∉ F₀
  header : 64 ≤ size
  entsize : ePhentsize b addr = 56
  table : ePhoff b addr + 56 * ePhnum b addr ≤ size
  files : ∀ h ∈ loads b addr, h.pOffset + h.pFilesz ≤ size

/-- The bytes of the image. -/
def Same (b c : Nat → UInt8) (addr size : Nat) : Prop := ∀ k, addr ≤ k → k < addr + size → c k = b k

theorem readNum_same (hc : Same b c addr size) (ht : addr + size ≤ 2 ^ 64) {o n : Nat}
    (hn : o + n ≤ size) : readNum c (addr + o) n = readNum b (addr + o) n := by
  rw [readNum, readNum]
  congr 1
  refine List.map_congr_left fun i hi => ?_
  have hin := List.mem_range.mp hi
  rw [Nat.mod_eq_of_lt (by omega)]
  exact hc _ (by omega) (by omega)

theorem readNum_lt (b : Nat → UInt8) (a n : Nat) : readNum b a n < 256 ^ n := by
  have hlt := LittleEndian.ofBytes_lt ((List.range n).map fun i => b ((a + i) % 2 ^ 64))
  rwa [List.length_map, List.length_range] at hlt

section Image

variable (him : InMemory b addr size F₀)

include him

theorem InMemory.phdrAddr_eq (hi : i < ePhnum b addr) :
    phdrAddr b addr i = addr + (ePhoff b addr + 56 * i) := by
  have htop := him.top
  have htable := him.table
  have hnum : ePhnum b addr < 256 ^ 2 := readNum_lt b (addr + 56) 2
  have hprod : Int.bmod (i * (56 : Nat)) (2 ^ 32) = 56 * i := by
    rw [Int.bmod_def]
    split <;> omega
  unfold phdrAddr
  rw [him.entsize, hprod]
  omega

variable (hc : Same b c addr size)

include hc

theorem InMemory.phnum_same : ePhnum c addr = ePhnum b addr := by
  have hh := him.header
  unfold ePhnum
  exact readNum_same (o := 56) hc him.top (by omega)

theorem InMemory.phdr_same (hi : i < ePhnum b addr) :
    phdr c addr i = phdr b addr i := by
  have hh := him.header
  have htable := him.table
  have haddr : phdrAddr c addr i = phdrAddr b addr i := by
    have h1 : ePhoff c addr = ePhoff b addr := readNum_same (o := 32) hc him.top (by omega)
    have h2 : ePhentsize c addr = ePhentsize b addr := readNum_same (o := 54) hc him.top (by omega)
    unfold phdrAddr
    rw [h1, h2]
  have hnum := fun (o n : Nat) (ho : o + n ≤ 56) =>
    readNum_same (o := ePhoff b addr + 56 * i + o) (n := n) hc him.top (by omega)
  rw [phdr, phdr, haddr, him.phdrAddr_eq hi, readPhdr, readPhdr]
  simp only [Nat.add_assoc] at hnum ⊢
  rw [hnum 8 8 (by decide), hnum 16 8 (by decide), hnum 32 8 (by decide), hnum 40 8 (by decide)]
  have h0 := hnum 0 4 (by decide)
  simp only [Nat.add_zero] at h0
  rw [h0]

end Image

end Vm

end TayHuang
