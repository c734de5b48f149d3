import TayHuang.PageInit
import Mathlib.Algebra.Group.Nat.Defs
import Mathlib.Algebra.Ring.Nat

/-! From the memory map to the free pages. The loader makes one number of the map, the
kernel makes pages of the number. -/

namespace TayHuang

open Fuel Tilings

/-- `multiboot_mmap_entry`. -/
structure MmapEntry where
  addr : UInt64
  len : UInt64
  type : UInt32
  deriving DecidableEq

/-- `multiboot_tag_mmap`. -/
structure MmapTag where
  size : UInt32
  entrySize : UInt32
  entries : List MmapEntry

def parseMemInfo (tag : MmapTag) : UInt64 :=
  let size := tag.size - 4 * 4
  let entryNum := size / tag.entrySize
  let memsz := (tag.entries.take entryNum.toNat).foldl (fun memsz e =>
    if e.type = 1 then max memsz (e.addr.toUInt32 + e.len.toUInt32).toUInt64 else memsz) 0
  memsz + 0x20000

/-- `args->memory_size`. -/
def memorySize (tag : MmapTag) : Nat := (parseMemInfo tag &&& 0xFFFFFFFF).toNat

/-- The page at `a` lies in an available entry. -/
def InRam (tag : MmapTag) (a : Nat) : Prop :=
  ∃ e ∈ tag.entries, e.type = 1 ∧ e.addr.toNat ≤ a ∧ a + 4096 ≤ e.addr.toNat + e.len.toNat

/-- The pages of the blocks. -/
def PagesOf (bs : List (Nat × Nat)) : Set Nat := {a | ∃ b ∈ bs, ∃ j < 2 ^ b.1, a = b.2 + 4096 * j}

/-- `initialize` up to `init_pmm` ends with lists of pages of the available memory. -/
def HandsOutRam (s : KMem) (tag : MmapTag) : Prop :=
  ∃ s' L, Settles (fun fuel =>
      initPmm fuel (initKheap s 0x60000 0x40000) (memorySize tag) 0x2000000) s' ∧
    ListsAt s' L ∧ ∀ b ∈ recorded L, ∀ j < 2 ^ b.1, InRam tag (b.2 + 4096 * j)

/-- Where the blocks of the next `k` bits end: each of them starts two pages behind the
one before. -/
def bitTop : Nat → Nat → Nat → Nat → Nat
  | 0, _, start, _ => start
  | k + 1, i, start, pages =>
    if pages % 2 ≠ 0 then
      max (start + 4096 * 2 ^ i) (bitTop k (i + 1) (start + 4096 * 2 ^ 1) (pages / 2))
    else bitTop k (i + 1) start (pages / 2)

/-- Where the blocks that start at `start` and are cut from all pages but the odd one
end. -/
def splitEnd (start pages : Nat) : Nat :=
  max (bitTop 8 1 start (pages / 2))
    (bitEnd (fun _ => 4096 * 2 ^ 1) 8 1 start (pages / 2) + 4096 * 2 ^ 9 * (pages / 512))

/-- The pages that come on the lists. The page behind an odd one is left out. -/
def Given (pages a : Nat) : Prop :=
  4096 ∣ a ∧ if pages % 2 ≠ 0 then
    a = 0x2000000 ∨ 0x2002000 ≤ a ∧ a < splitEnd 0x2002000 pages
  else 0x2000000 ≤ a ∧ a < splitEnd 0x2000000 pages

/-! ### The pages of the blocks -/

theorem pagesOf_append (l r : List (Nat × Nat)) : PagesOf (l ++ r) = PagesOf l ∪ PagesOf r := by
  ext a
  simp only [PagesOf, List.mem_append, Set.mem_ofPred_eq, Set.mem_union]
  constructor
  · rintro ⟨b, hb | hb, h⟩
    · exact .inl ⟨b, hb, h⟩
    · exact .inr ⟨b, hb, h⟩
  · rintro (⟨b, hb, h⟩ | ⟨b, hb, h⟩)
    · exact ⟨b, .inl hb, h⟩
    · exact ⟨b, .inr hb, h⟩

theorem mem_pagesOf_cons {o start a : Nat} {l : List (Nat × Nat)} : a ∈ PagesOf ((o, start) :: l) ↔
    start ≤ a ∧ a < start + 4096 * 2 ^ o ∧ 4096 ∣ a - start ∨ a ∈ PagesOf l := by
  have hone : a ∈ PagesOf [(o, start)] ↔ start ≤ a ∧ a < start + 4096 * 2 ^ o ∧ 4096 ∣ a - start := by
    simp only [PagesOf, Set.mem_ofPred_eq, List.mem_singleton, exists_eq_left]
    constructor
    · rintro ⟨j, hj, rfl⟩
      exact ⟨by omega, by omega, ⟨j, by omega⟩⟩
    · rintro ⟨h1, h2, j, hj⟩
      exact ⟨j, by omega, by omega⟩
  rw [← hone, ← List.singleton_append, pagesOf_append]
  exact Iff.rfl

theorem mem_pagesOf_bitBlocks {k i start pages a : Nat} (hi : 1 ≤ i) :
    a ∈ PagesOf (bitBlocks (fun _ => 4096 * 2 ^ 1) k i start pages) ↔
      start ≤ a ∧ a < bitTop k i start pages ∧ 4096 ∣ a - start := by
  induction k generalizing i start pages with
  | zero =>
    simp only [bitBlocks, PagesOf, bitTop, Set.mem_ofPred_eq, List.not_mem_nil, false_and,
      exists_false, false_iff]
    omega
  | succ k ih =>
    have hw : 2 ^ 1 ≤ 2 ^ i := Nat.pow_le_pow_right (by decide) hi
    rw [bitBlocks, bitTop]
    split
    · rw [mem_pagesOf_cons, ih (by omega)]
      generalize bitTop k (i + 1) (start + 4096 * 2 ^ 1) (pages / 2) = stop
      generalize 2 ^ i = w at hw ⊢
      omega
    · exact ih (by omega)

theorem mem_pagesOf_topBlocks {n start a : Nat} : a ∈ PagesOf (topBlocks n start) ↔
    start ≤ a ∧ a < start + 4096 * 2 ^ 9 * n ∧ 4096 ∣ a - start := by
  induction n generalizing start with
  | zero =>
    simp only [topBlocks, PagesOf, Set.mem_ofPred_eq, List.not_mem_nil, false_and, exists_false,
      false_iff]
    omega
  | succ n ih =>
    rw [topBlocks, mem_pagesOf_cons, ih]
    omega

theorem bitEnd_le_bitTop (k i start pages : Nat) (hi : 1 ≤ i) :
    start ≤ bitEnd (fun _ => 4096 * 2 ^ 1) k i start pages ∧
      4096 ∣ bitEnd (fun _ => 4096 * 2 ^ 1) k i start pages - start ∧
      bitEnd (fun _ => 4096 * 2 ^ 1) k i start pages ≤ bitTop k i start pages := by
  induction k generalizing i start pages with
  | zero => simp [bitEnd, bitTop]
  | succ k ih =>
    rw [bitEnd, bitTop]
    split
    · obtain ⟨h1, h2, h3⟩ := ih (i + 1) (start + 4096 * 2 ^ 1) (pages / 2) (by omega)
      omega
    · exact ih (i + 1) start (pages / 2) (by omega)

theorem mem_pagesOf_split {start pages a : Nat} :
    a ∈ PagesOf (bitBlocks (fun _ => 4096 * 2 ^ 1) 8 1 start (pages / 2) ++
        topBlocks (pages / 512) (bitEnd (fun _ => 4096 * 2 ^ 1) 8 1 start (pages / 2))) ↔
      start ≤ a ∧ a < splitEnd start pages ∧ 4096 ∣ a - start := by
  obtain ⟨h1, h2, h3⟩ := bitEnd_le_bitTop 8 1 start (pages / 2) le_rfl
  rw [pagesOf_append, Set.mem_union, mem_pagesOf_bitBlocks le_rfl, mem_pagesOf_topBlocks, splitEnd]
  omega

theorem mem_pagesOf_initBlocks {pages a : Nat} :
    a ∈ PagesOf (initBlocks 0x2000000 pages) ↔ Given pages a := by
  rw [initBlocks, show (2 : Nat) ^ 9 = 512 by decide, Given, bitBlocks, bitEnd]
  split
  · rw [List.cons_append, mem_pagesOf_cons, mem_pagesOf_split,
      show 0x2000000 + 4096 * 2 ^ 1 = 0x2002000 by decide]
    omega
  · rw [mem_pagesOf_split]
    omega

/-! ### The kernel at boot -/

theorem initKheap_heapAt (s : KMem) :
    HeapAt {k | k < 0x2000000} (initKheap s 0x60000 0x40000) [⟨0x60000, 0x40000, false⟩] := by
  refine ⟨rfl, ⟨by simp [initKheap, segCell], trivial⟩, by simp, ?_, by simp, ?_, by simp⟩
  · intro x hx
    rw [List.mem_singleton.mp hx]
    decide
  · intro x hx k hk
    rw [List.mem_singleton.mp hx] at hk
    have hlt : k < 0x60000 + 0x40000 := hk.2
    have hout : k < 0x2000000 := by omega
    exact hout

theorem memorySize_lt (tag : MmapTag) : memorySize tag < 2 ^ 32 := by
  have hle : memorySize tag ≤ 0xFFFFFFFF := by
    rw [memorySize, UInt64.toNat_and]
    exact Nat.and_le_right
  omega

theorem onesIn_le (k n : Nat) : onesIn k n ≤ k := by
  induction k generalizing n with
  | zero => exact le_rfl
  | succ k ih =>
    have hk := ih (n / 2)
    rw [onesIn]
    omega

theorem blockCount_le_room {pages : Nat} (h : pages ≤ 2 ^ 20) :
    blockCount pages ≤ room [⟨0x60000, 0x40000, false⟩] := by
  have hones := onesIn_le 9 pages
  have hroom : room [⟨0x60000, 0x40000, false⟩] = 4096 := by decide
  rw [hroom, blockCount]
  omega

theorem given_iff_blocks {tag : MmapTag} {pages : Nat} :
    (∀ a, Given pages a → InRam tag a) ↔
      ∀ b ∈ initBlocks 0x2000000 pages, ∀ j < 2 ^ b.1, InRam tag (b.2 + 4096 * j) := by
  constructor
  · exact fun h b hb j hj => h _ (mem_pagesOf_initBlocks.mp ⟨b, hb, j, hj, rfl⟩)
  · intro h a ha
    obtain ⟨b, hb, j, hj, rfl⟩ := mem_pagesOf_initBlocks.mpr ha
    exact h b hb j hj

theorem handsOutRam_iff {s : KMem} (hlists : ∀ o ≤ 9, s.listHead o = none) {tag : MmapTag}
    (hle : 0x2000000 ≤ memorySize tag + 4095) :
    HandsOutRam s tag ↔ ∀ a, Given (freePages (memorySize tag) 0x2000000) a → InRam tag a := by
  have hsize := memorySize_lt tag
  unfold HandsOutRam
  generalize memorySize tag = memsize at hsize hle ⊢
  have hp : (pageCount memsize + 2 ^ 64 - pageCount 0x2000000) % 2 ^ 64 =
      freePages memsize 0x2000000 := by
    unfold pageCount freePages
    omega
  have hpages : freePages memsize 0x2000000 ≤ 2 ^ 20 := by
    unfold freePages
    omega
  obtain ⟨s', L, hset, hL, hrec⟩ := initBlocks_room 0x2000000 (initKheap_heapAt s) hlists
    (blockCount_le_room hpages)
  have heq : (fun fuel => initPmm fuel (initKheap s 0x60000 0x40000) memsize 0x2000000) =
      fun fuel => addAll (kmalloc fuel) (initKheap s 0x60000 0x40000)
        (initBlocks 0x2000000 (freePages memsize 0x2000000)) := by
    funext fuel
    rw [initPmm_eq fuel _ hp, if_pos (by omega)]
  have hmem : ∀ b, b ∈ recorded L ↔ b ∈ initBlocks 0x2000000 (freePages memsize 0x2000000) := by
    intro b
    rw [hrec, Multiset.mem_coe]
  rw [heq, given_iff_blocks]
  constructor
  · rintro ⟨s₁, L₁, hset₁, hL₁, h⟩
    obtain rfl := hset₁.eq hset
    rw [hL₁.recorded_eq hL] at h
    exact fun b hb => h b ((hmem b).mpr hb)
  · intro h
    exact ⟨s', L, hset, hL, fun b hb => h b ((hmem b).mp hb)⟩

theorem not_handsOutRam {s : KMem} {tag : MmapTag} (hlt : memorySize tag + 4095 < 0x2000000) :
    ¬ HandsOutRam s tag := by
  rintro ⟨s', L, hset, -⟩
  obtain ⟨N, hN⟩ := hset.enough
  have hrun := hN N le_rfl
  have hp : (pageCount (memorySize tag) + 2 ^ 64 - pageCount 0x2000000) % 2 ^ 64 =
      pageCount (memorySize tag) + 2 ^ 64 - pageCount 0x2000000 := by
    unfold pageCount
    omega
  rw [initPmm_eq N _ hp, if_neg (by unfold pageCount; omega)] at hrun
  simp at hrun

/-- The kernel only hands out memory that the map has if and only if there are 32 MiB of
it and the map has every page that the page count is split into. -/
theorem real_ram_iff {s : KMem} (hlists : ∀ o ≤ 9, s.listHead o = none) (tag : MmapTag) :
    HandsOutRam s tag ↔ 0x2000000 ≤ memorySize tag + 4095 ∧
      ∀ a, Given (freePages (memorySize tag) 0x2000000) a → InRam tag a := by
  by_cases hle : 0x2000000 ≤ memorySize tag + 4095
  · rw [handsOutRam_iff hlists hle]
    exact ⟨fun h => ⟨hle, h⟩, fun h => h.2⟩
  · exact ⟨fun h => absurd h (not_handsOutRam (by omega)), fun h => absurd h.1 hle⟩

/-- One entry up to 80 pages behind 32 MiB. -/
def smallMap : MmapTag := ⟨40, 24, [⟨0x100000, 0x1F50000, 1⟩]⟩

theorem real_ram_small : HandsOutRam bootMem smallMap := by
  have hmemory : memorySize smallMap = 0x2070000 := by decide
  have hend : splitEnd 0x2000000 112 = 0x2044000 := by decide
  refine (real_ram_iff (fun _ _ => rfl) smallMap).mpr ⟨by rw [hmemory]; decide, fun a ha => ?_⟩
  rw [hmemory, show freePages 0x2070000 0x2000000 = 112 by decide, Given, if_neg (by decide), hend]
    at ha
  refine ⟨_, List.mem_singleton_self _, rfl, ?_, ?_⟩
  · change 0x100000 ≤ a
    omega
  · change a + 4096 ≤ 0x100000 + 0x1F50000
    omega

/-- 128 MiB, of which the last 128 KiB are not available. -/
def machineMap : MmapTag :=
  ⟨88, 24, [⟨0, 0x9FC00, 1⟩, ⟨0x100000, 0x7EE0000, 1⟩, ⟨0x7FE0000, 0x20000, 2⟩]⟩

theorem real_ram_fails : ¬ ∀ (s : KMem) (tag : MmapTag), (∀ o ≤ 9, s.listHead o = none) →
    tag.size.toNat = 16 + 24 * tag.entries.length → tag.entrySize = 24 →
    (∀ e ∈ tag.entries, e.type = 1 → e.addr.toNat + e.len.toNat ≤ 2 ^ 32) →
      HandsOutRam s tag := by
  intro hall
  have hlists : ∀ o ≤ 9, bootMem.listHead o = none := fun _ _ => rfl
  have hmemory : memorySize machineMap = 0x8000000 := by decide
  have hram := hall bootMem machineMap hlists (by decide) rfl (by decide)
  rw [handsOutRam_iff hlists (by rw [hmemory]; decide), hmemory] at hram
  obtain ⟨e, he, htype, hlow, hhigh⟩ := hram 0x7FE0000 (by unfold Given; decide)
  have hout : ∀ e ∈ machineMap.entries, e.type = 1 →
      ¬ 0x7FE0000 + 4096 ≤ e.addr.toNat + e.len.toNat := by
    decide
  exact hout e he htype hhigh

end TayHuang
