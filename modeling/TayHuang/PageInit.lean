import TayHuang.InitBlocks
import TayHuang.PageAccount

/-! The free lists as `init_pmm` leaves them. -/

namespace TayHuang

open Function (update)
open LinkedCells Fuel Tilings

variable {s : KMem} {l : List Seg} {memsize limit : Nat}

/-- The free pages: those of the memory, rounded up, behind the reserved ones. -/
def freePages (memsize limit : Nat) : Nat := (memsize + 4095) / 4096 - limit / 4096

/-- The number of ones among the low `k` bits. -/
def onesIn : Nat → Nat → Nat
  | 0, _ => 0
  | k + 1, n => n % 2 + onesIn k (n / 2)

/-- The number of blocks that `pages` pages are cut into. -/
def blockCount (pages : Nat) : Nat := onesIn 9 pages + pages / 512

/-- From here on the lists record every free page, each of them once. -/
def InitsExactly (s : KMem) (memsize limit : Nat) : Prop :=
  ∃ s' L, Settles (fun fuel => initPmm fuel s memsize limit) s' ∧ ListsAt s' L ∧
    Tiles Prod.snd blockSize (recorded L) limit (4096 * freePages memsize limit)

theorem length_bitBlocks (advance : Nat → Nat) (k i start pages : Nat) :
    (bitBlocks advance k i start pages).length = onesIn k pages := by
  induction k generalizing i start pages with
  | zero => rfl
  | succ k ih =>
    rw [bitBlocks, onesIn]
    split
    · rw [List.length_cons, ih]
      omega
    · rw [ih]
      omega

theorem length_initBlocks (start pages : Nat) :
    (initBlocks start pages).length = blockCount pages := by
  rw [initBlocks, List.length_append, length_bitBlocks, topBlocks_length, blockCount,
    show (2 : Nat) ^ 9 = 512 by decide]

theorem initPmm_eq (fuel : Nat) (s : KMem) {pages : Nat}
    (hp : (pageCount memsize + 2 ^ 64 - pageCount limit) % 2 ^ 64 = pages) :
    initPmm fuel s memsize limit =
      if pages / 512 < 2 ^ 31 then addAll (kmalloc fuel) s (initBlocks limit pages) else none := by
  simp only [initPmm, hp, addBits_eq, initBlocks, addAll_append, show (2 : Nat) ^ 9 = 512 by decide]
  cases addAll (kmalloc fuel) s (bitBlocks (fun _ => 4096 * 2 ^ 1) 9 0 limit pages) with
  | none => simp
  | some t => simp only [Option.map_some, Option.bind_some, Int.toNat_natCast, addTop_eq]

theorem freePages_eq (hpage : 4096 ∣ limit) (hle : limit ≤ memsize) (hwrap : memsize + 4095 < 2 ^ 64) :
    (pageCount memsize + 2 ^ 64 - pageCount limit) % 2 ^ 64 = freePages memsize limit := by
  unfold pageCount freePages
  omega

theorem listsAt_empty (hlists : ∀ o ≤ 9, s.listHead o = none) : ListsAt s fun _ => [] := by
  refine ⟨?_, ?_, ?_, ?_, ?_⟩
  · exact hlists
  · exact fun _ _ => trivial
  · simp
  · simp
  · simp

theorem recorded_empty : recorded (fun _ => []) = 0 := by
  simp [recorded, blocksOf]

theorem card_Ico (a b : Nat) : (Multiset.Ico a b).card = b - a := Nat.card_Ico a b

theorem card_bag (bs : List (Nat × Nat)) :
    (bag (bs : Multiset (Nat × Nat))).card = total blockSize bs := by
  induction bs with
  | nil => rfl
  | cons b bs ih =>
    rw [← Multiset.cons_coe, ← Multiset.singleton_add, bag_add, Multiset.card_add, ih, bag_singleton,
      total_cons, card_Ico, Nat.add_sub_cancel_left]

theorem nodup_bag {bs : List (Nat × Nat)}
    (h : bs.Pairwise fun x y => Disjoint (Tilings.span Prod.snd blockSize x)
        (Tilings.span Prod.snd blockSize y)) :
    (bag (bs : Multiset (Nat × Nat))).Nodup := by
  induction bs with
  | nil => simp
  | cons b bs ih =>
    rw [List.pairwise_cons] at h
    rw [← Multiset.cons_coe, ← Multiset.singleton_add, bag_add, Multiset.nodup_add, bag_singleton]
    refine ⟨Multiset.nodup_Ico, ih h.2, Multiset.disjoint_left.mpr ?_⟩
    intro k hk hk'
    obtain ⟨c, hc, hkc⟩ := mem_bag.mp hk'
    exact Set.disjoint_left.mp (h.1 c (by simpa using hc)) (Multiset.mem_Ico.mp hk) hkc

theorem initBlocks_room {mem : Set Nat} {pages : Nat} (limit : Nat) (h : HeapAt mem s l)
    (hlists : ∀ o ≤ 9, s.listHead o = none) (hroom : blockCount pages ≤ room l) :
    ∃ s' L, Settles (fun fuel => addAll (kmalloc fuel) s (initBlocks limit pages)) s' ∧
      ListsAt s' L ∧ recorded L = initBlocks limit pages := by
  have hnodes : NodesIn l fun _ => [] := by simp [NodesIn]
  obtain ⟨s', l', ns, hset, -, -, -, -, hns, hL, -⟩ := addAll_settles _ h (listsAt_empty hlists) hnodes
    (initBlocks_order limit pages) (by rwa [length_initBlocks])
  refine ⟨s', _, hset, hL, ?_⟩
  rw [recorded_fileAll, recorded_empty, zero_add, hns]
  intro n hn
  have hm : (n.1, n.2.2) ∈ ns.map fun n => (n.1, n.2.2) := List.mem_map_of_mem hn
  rw [hns] at hm
  exact initBlocks_order limit pages _ hm

theorem initBlocks_lost {pages fuel : Nat} {s' : KMem} {L : Nat → List (Nat × Nat)}
    (h : HeapAt {k | k < limit} s l) (hlists : ∀ o ≤ 9, s.listHead o = none)
    (hdis : (initBlocks limit pages).Pairwise
      fun x y => Disjoint (Tilings.span Prod.snd blockSize x)
        (Tilings.span Prod.snd blockSize y))
    (hroom : room l < blockCount pages)
    (hrun : addAll (kmalloc fuel) s (initBlocks limit pages) = some s') (hL : ListsAt s' L) :
    ¬ Tiles Prod.snd blockSize (recorded L) limit (4096 * pages) := by
  have hzero : bag (recorded (fun _ => []) + (initBlocks limit pages : Multiset (Nat × Nat))) =
      bag (initBlocks limit pages : Multiset (Nat × Nat)) := by
    rw [recorded_empty, zero_add]
  have hlow : ∀ k ∈ bag (initBlocks limit pages : Multiset (Nat × Nat)), limit ≤ k := by
    intro k hk
    obtain ⟨b, hb, hkb⟩ := mem_bag.mp hk
    exact (initBlocks_le limit pages b (by simpa using hb)).trans hkb.1
  have hlimit : 0 < limit := by
    obtain ⟨c, hc⟩ := List.exists_mem_of_ne_nil l h.arena.nonempty
    have hp := h.arena.pos c hc
    have hlt : c.addr < limit := h.arena.within c hc ⟨le_rfl, by omega⟩
    omega
  have hacc : Accounted s l (fun _ => []) (initBlocks limit pages) := by
    refine ⟨h.mono ?_, listsAt_empty hlists, by simp [NodesIn], ?_, ?_⟩
    · intro k hk hkb
      rw [hzero] at hkb
      exact absurd (hlow k hkb) (Nat.not_le.mpr hk)
    · rw [hzero]
      exact nodup_bag hdis
    · rw [hzero]
      exact fun h0 => absurd (hlow 0 h0) (Nat.not_le.mpr hlimit)
  obtain ⟨l', L', hok, hle, -, hlost⟩ := addAll_account hacc (initBlocks_order limit pages) hrun
  have hL' := hok.lists
  obtain ⟨k, hk, hk'⟩ := hlost (by rwa [length_initBlocks])
  rw [hL'.recorded_eq hL, hzero] at hle
  rw [hL'.recorded_eq hL] at hk'
  rw [hzero] at hk
  intro ht
  have hmem : ∀ k, k ∈ Multiset.Ico limit (limit + 4096 * pages) ↔ k ∈ bag (recorded L) := by
    intro k
    rw [mem_bag, Multiset.mem_Ico, ← Set.mem_Ico, ← ht.union]
    rfl
  -- as many bytes as there are in the blocks, so all of them
  have hall : Multiset.Ico limit (limit + 4096 * pages) =
      bag (initBlocks limit pages : Multiset (Nat × Nat)) := by
    refine Multiset.eq_of_le_of_card_le ?_ ?_
    · refine (Multiset.le_iff_subset Multiset.nodup_Ico).mpr ?_
      exact fun k hk => Multiset.mem_of_le hle ((hmem k).mp hk)
    · rw [card_bag, total_initBlocks, card_Ico, Nat.add_sub_cancel_left]
  rw [← hall, hmem] at hk
  exact hk' hk

theorem initPmm_settles_iff (hpage : 4096 ∣ limit) (hle : limit ≤ memsize)
    (hwrap : memsize + 4095 < 2 ^ 64) (hint : freePages memsize limit / 512 < 2 ^ 31) {s' : KMem} :
    Settles (fun fuel => initPmm fuel s memsize limit) s' ↔
      Settles (fun fuel => addAll (kmalloc fuel) s (initBlocks limit (freePages memsize limit)))
        s' := by
  have heq : (fun fuel => initPmm fuel s memsize limit) =
      fun fuel => addAll (kmalloc fuel) s (initBlocks limit (freePages memsize limit)) := by
    funext fuel
    rw [initPmm_eq fuel s (freePages_eq hpage hle hwrap), if_pos hint]
  rw [heq]

/-- With room for all nodes everything depends on the page count. -/
theorem initsExactly_iff_splits {mem : Set Nat} (h : HeapAt mem s l)
    (hlists : ∀ o ≤ 9, s.listHead o = none) (hpage : 4096 ∣ limit) (hle : limit ≤ memsize)
    (hwrap : memsize + 4095 < 2 ^ 64) (hint : freePages memsize limit / 512 < 2 ^ 31)
    (hroom : blockCount (freePages memsize limit) ≤ room l) :
    InitsExactly s memsize limit ↔ Splits (freePages memsize limit) := by
  obtain ⟨s', L, hset, hL, hrec⟩ := initBlocks_room limit h hlists hroom
  have htiles := initBlocks_tiles_iff limit (freePages memsize limit)
  rw [← hrec] at htiles
  constructor
  · rintro ⟨s₁, L₁, hset₁, hL₁, ht⟩
    obtain rfl := ((initPmm_settles_iff hpage hle hwrap hint).mp hset₁).eq hset
    rwa [hL₁.recorded_eq hL, htiles] at ht
  · exact fun hs => ⟨s', L, (initPmm_settles_iff hpage hle hwrap hint).mpr hset, hL, htiles.mpr hs⟩

theorem not_initsExactly_of_wrap (hlists : ∀ o ≤ 9, s.listHead o = none) (hmem : memsize < 2 ^ 64)
    (hpage : 4096 ∣ limit) (hle : limit ≤ memsize)
    (hover : ¬ (memsize + 4095 < 2 ^ 64 ∧ freePages memsize limit / 512 < 2 ^ 31)) :
    ¬ InitsExactly s memsize limit := by
  rintro ⟨s', L, hset, hL, ht⟩
  obtain ⟨N, hN⟩ := hset.enough
  have hrun := hN N le_rfl
  by_cases hwrap : memsize + 4095 < 2 ^ 64
  · rw [initPmm_eq N s (freePages_eq hpage hle hwrap), if_neg (fun hi => hover ⟨hwrap, hi⟩)] at hrun
    simp at hrun
  -- the rounded size is 0 now
  by_cases h0 : limit = 0
  · have hp : (pageCount memsize + 2 ^ 64 - pageCount limit) % 2 ^ 64 = 0 := by
      unfold pageCount
      omega
    rw [initPmm_eq N s hp] at hrun
    obtain rfl : s = s' := by simpa [initBlocks, bitBlocks, topBlocks, addAll] using hrun
    have hmem : 0 ∈ Set.Ico limit (limit + 4096 * freePages memsize limit) := by
      unfold freePages
      exact ⟨by omega, by omega⟩
    rw [← ht.union, hL.recorded_eq (listsAt_empty hlists), recorded_empty] at hmem
    simp at hmem
  · have hp : (pageCount memsize + 2 ^ 64 - pageCount limit) % 2 ^ 64 = 2 ^ 64 - limit / 4096 := by
      unfold pageCount
      omega
    rw [initPmm_eq N s hp, if_neg (by omega)] at hrun
    simp at hrun

/-- The free lists cover the free pages, each page once, if and only if the page
count is one that can be cut up by steps of two pages, nothing overflows and the
heap has room for all nodes. A heap without room must not be given memory twice. -/
theorem initPmm_exact_iff (h : HeapAt {k | k < limit} s l) (hlists : ∀ o ≤ 9, s.listHead o = none)
    (hmem : memsize < 2 ^ 64) (hpage : 4096 ∣ limit) (hle : limit ≤ memsize)
    (hdis : blockCount (freePages memsize limit) ≤ room l ∨
      (initBlocks limit (freePages memsize limit)).Pairwise
        fun x y => Disjoint (Tilings.span Prod.snd blockSize x)
        (Tilings.span Prod.snd blockSize y)) :
    InitsExactly s memsize limit ↔ memsize + 4095 < 2 ^ 64 ∧
      freePages memsize limit / 512 < 2 ^ 31 ∧ Splits (freePages memsize limit) ∧
      blockCount (freePages memsize limit) ≤ room l := by
  by_cases hover : memsize + 4095 < 2 ^ 64 ∧ freePages memsize limit / 512 < 2 ^ 31
  · obtain ⟨hwrap, hint⟩ := hover
    by_cases hroom : blockCount (freePages memsize limit) ≤ room l
    · rw [initsExactly_iff_splits h hlists hpage hle hwrap hint hroom]
      exact ⟨fun hs => ⟨hwrap, hint, hs, hroom⟩, fun hh => hh.2.2.1⟩
    · refine ⟨?_, fun hh => absurd hh.2.2.2 hroom⟩
      rintro ⟨s', L, hset, hL, ht⟩
      obtain ⟨N, hN⟩ := ((initPmm_settles_iff hpage hle hwrap hint).mp hset).enough
      exact absurd ht (initBlocks_lost h hlists (hdis.resolve_left hroom) (by omega) (hN N le_rfl)
        hL)
  · refine ⟨fun hh => absurd hh (not_initsExactly_of_wrap hlists hmem hpage hle hover), ?_⟩
    exact fun hh => absurd ⟨hh.1, hh.2.1⟩ hover

/-- Memory at boot: nothing on the lists, and a prepared heap of 64 KiB. -/
def bootMem : KMem :=
  initKheap ⟨0, fun _ => ⟨0, false, none, none⟩, fun _ => ⟨0, none⟩, fun _ => none, fun _ => none,
    []⟩ 0x10000 0x10000

theorem bootMem_heapAt : HeapAt {k | k < 0x2000000} bootMem [⟨0x10000, 0x10000, false⟩] := by
  refine ⟨rfl, ⟨by simp [bootMem, initKheap, segCell], trivial⟩, ?_⟩
  refine ⟨by simp, ?_, by simp, ?_, by simp⟩
  · intro x hx
    rw [List.mem_singleton.mp hx]
    decide
  · intro x hx k hk
    rw [List.mem_singleton.mp hx] at hk
    have hlt : k < 0x10000 + 0x10000 := hk.2
    have hout : k < 0x2000000 := by omega
    exact hout

/-- 514 pages behind 32 MiB. -/
theorem initPmm_exact_514 : InitsExactly bootMem (0x2000000 + 514 * 4096) 0x2000000 :=
  (initPmm_exact_iff bootMem_heapAt (fun _ _ => rfl) (by decide) (by decide) (by decide)
    (Or.inl (by decide))).mpr (by decide)

/-- Three pages behind 32 MiB: the second one is skipped. -/
theorem initPmm_skips_page : ¬ ∀ (s : KMem) (l : List Seg) (memsize limit : Nat),
    HeapAt {k | k < limit} s l → (∀ o ≤ 9, s.listHead o = none) → memsize < 2 ^ 64 →
      4096 ∣ limit → limit ≤ memsize → blockCount (freePages memsize limit) ≤ room l →
      InitsExactly s memsize limit := by
  intro hall
  have hex := hall _ _ (0x2000000 + 3 * 4096) _ bootMem_heapAt (fun _ _ => rfl) (by decide)
    (by decide) (by decide) (by decide)
  rw [initsExactly_iff_splits bootMem_heapAt (fun _ _ => rfl) (by decide) (by decide) (by decide)
    (by decide) (by decide)] at hex
  revert hex
  decide

end TayHuang
