import TayHuang.PageInit

/-! Taking blocks off the free lists and returning them while the heap has room
for the nodes. The pieces of a split block, and the blocks of a returned range,
tile the pages they stand for. -/

namespace TayHuang

open Function (update)
open LinkedCells Fuel Tilings

variable {mem : Set Nat} {s : KMem} {l : List Seg} {L : Nat → List (Nat × Nat)}
variable {order i : Nat} {x : Nat × Nat} {rest : List (Nat × Nat)}

/-- The bytes on the free lists. -/
def freeSet (L : Nat → List (Nat × Nat)) : Set Nat :=
  {k | ∃ b ∈ recorded L, k ∈ Tilings.span Prod.snd blockSize b}

/-- No byte is on the free lists twice. -/
def ApartBlocks (L : Nat → List (Nat × Nat)) : Prop :=
  (recorded L).Pairwise fun x y =>
    Disjoint (Tilings.span Prod.snd blockSize x) (Tilings.span Prod.snd blockSize y)

/-- The least order from `order` on with a free block. -/
def Found (L : Nat → List (Nat × Nat)) (order i : Nat) : Prop :=
  order ≤ i ∧ i ≤ 9 ∧ L i ≠ [] ∧ ∀ j, order ≤ j → j < i → L j = []

/-- The blocks that `return_pages` makes of `pages` pages. -/
def returnBlocks (start pages : Nat) : List (Nat × Nat) :=
  bitBlocks (fun i => 4096 * 2 ^ i) 9 0 start pages ++
    topBlocks (pages / 2 ^ 9) (bitEnd (fun i => 4096 * 2 ^ i) 9 0 start pages)

theorem freeSet_eq (L : Nat → List (Nat × Nat)) : freeSet L = {k | k ∈ bag (recorded L)} := by
  ext k
  exact mem_bag.symm

theorem apart_of_nodup_bag {bs : List (Nat × Nat)} (h : (bag (bs : Multiset (Nat × Nat))).Nodup) :
    bs.Pairwise fun x y =>
      Disjoint (Tilings.span Prod.snd blockSize x) (Tilings.span Prod.snd blockSize y) := by
  induction bs with
  | nil => exact List.Pairwise.nil
  | cons b bs ih =>
    rw [← Multiset.cons_coe, ← Multiset.singleton_add, bag_add, Multiset.nodup_add] at h
    refine List.pairwise_cons.mpr ⟨?_, ih h.2.1⟩
    intro c hc
    apply Set.disjoint_left.mpr
    intro k hk hk'
    refine Multiset.disjoint_left.mp h.2.2 ?_ (mem_bag.mpr ⟨c, by simpa using hc, hk'⟩)
    exact mem_bag.mpr ⟨b, by simp, hk⟩

theorem apartBlocks_iff : ApartBlocks L ↔ (bag (recorded L)).Nodup := by
  constructor
  · rintro ⟨bs, hbs, hp⟩
    rw [hbs]
    exact nodup_bag hp
  · intro h
    induction hm : recorded L using Quotient.inductionOn with
    | h bs =>
      have hh : recorded L = (bs : Multiset (Nat × Nat)) := hm
      rw [hh] at h
      exact ⟨bs, hh, apart_of_nodup_bag h⟩

/-! ### The blocks of a returned range -/

theorem contiguous_bitBlocks (k i start pages : Nat) : Contiguous Prod.snd blockSize start
      (bitBlocks (fun i => 4096 * 2 ^ i) k i start pages) ∧
    bitEnd (fun i => 4096 * 2 ^ i) k i start pages = start +
      total blockSize (bitBlocks (fun i => 4096 * 2 ^ i) k i start pages) := by
  induction k generalizing i start pages with
  | zero => exact ⟨trivial, rfl⟩
  | succ k ih =>
    rw [bitBlocks, bitEnd]
    split
    · obtain ⟨h1, h2⟩ := ih (i + 1) (start + 4096 * 2 ^ i) (pages / 2)
      refine ⟨⟨rfl, h1⟩, ?_⟩
      rw [h2, total_cons]
      simp only [blockSize]
      omega
    · exact ih (i + 1) start (pages / 2)

theorem contiguous_returnBlocks (start pages : Nat) :
    Contiguous Prod.snd blockSize start (returnBlocks start pages) := by
  obtain ⟨h1, h2⟩ := contiguous_bitBlocks 9 0 start pages
  rw [returnBlocks, contiguous_append, contiguous_topBlocks]
  exact ⟨h1, Or.inr h2⟩

theorem paged_contiguous {a : Nat} {bs : List (Nat × Nat)}
    (h : Contiguous Prod.snd blockSize a bs) (ha : 4096 ∣ a) : Paged (bs : Multiset (Nat × Nat)) := by
  induction bs generalizing a with
  | nil => simp [Paged]
  | cons b bs ih =>
    obtain ⟨rfl, h⟩ := h
    intro c hc
    rcases List.mem_cons.mp (Multiset.mem_coe.mp hc) with rfl | hc
    · exact ha
    · exact ih h (Nat.dvd_add ha (Nat.dvd_mul_right _ _)) c hc

theorem total_returnBlocks (start pages : Nat) :
    total blockSize (returnBlocks start pages) = 4096 * pages := by
  have happ : ∀ l r : List (Nat × Nat),
      total blockSize (l ++ r) = total blockSize l + total blockSize r := by
    intro l r
    simp [total]
  rw [returnBlocks, happ, total_bitBlocks, total_topBlocks]
  omega

theorem returnBlocks_order (start pages : Nat) : ∀ b ∈ returnBlocks start pages, b.1 ≤ 9 := by
  intro b hb
  rcases List.mem_append.mp hb with hb | hb
  · exact bitBlocks_order (by decide) b hb
  · exact topBlocks_order _ _ b hb

theorem length_returnBlocks (start pages : Nat) :
    (returnBlocks start pages).length = blockCount pages := by
  rw [returnBlocks, List.length_append, length_bitBlocks, topBlocks_length, blockCount,
    show (2 : Nat) ^ 9 = 512 by decide]

theorem bag_contiguous {a : Nat} {bs : List (Nat × Nat)}
    (h : Contiguous Prod.snd blockSize a bs) :
    bag (bs : Multiset (Nat × Nat)) = Multiset.Ico a (a + total blockSize bs) := by
  induction bs generalizing a with
  | nil => simp
  | cons b bs ih =>
    obtain ⟨rfl, h⟩ := h
    rw [← Multiset.cons_coe, ← Multiset.singleton_add, bag_add, bag_singleton, ih h, total_cons,
      ← Nat.add_assoc]
    exact Multiset.Ico_add_Ico_eq_Ico (Nat.le_add_right _ _) (Nat.le_add_right _ _)

theorem bag_returnBlocks (start pages : Nat) :
    bag (returnBlocks start pages : Multiset (Nat × Nat)) =
      Multiset.Ico start (start + 4096 * pages) := by
  rw [bag_contiguous (contiguous_returnBlocks start pages), total_returnBlocks]

theorem returnPages_eq (fuel : Nat) (s : KMem) (addr pages : Nat) :
    returnPages fuel s addr pages = addAll (kmalloc fuel) s (returnBlocks addr pages) :=
  returnPagesWith_eq addr pages

/-! ### The two operations -/

theorem returnPages_settles (h : HeapAt mem s l) (hL : ListsAt s L) (hN : NodesIn l L)
    (addr pages : Nat) (hroom : blockCount pages ≤ room l) :
    ∃ s' l' L', Settles (fun fuel => returnPages fuel s addr pages) s' ∧ HeapAt mem s' l' ∧
      ListsAt s' L' ∧ NodesIn l' L' ∧ room l' + blockCount pages = room l ∧
      recorded L' = recorded L + (returnBlocks addr pages : Multiset (Nat × Nat)) ∧
      (TailsAt s L → TailsAt s' L') ∧ s'.grown = s.grown := by
  have hlen := length_returnBlocks addr pages
  obtain ⟨s', l', ns, hset, hl', -, hr, -, hns, hL', hN', hg, ht, -⟩ :=
    addAll_settles (returnBlocks addr pages) h hL hN (returnBlocks_order addr pages) (by omega)
  have h9 : ∀ n ∈ ns, n.1 ≤ 9 := by
    intro n hn
    have hm : (n.1, n.2.2) ∈ ns.map fun n => (n.1, n.2.2) := List.mem_map_of_mem hn
    rw [hns] at hm
    exact returnBlocks_order addr pages _ hm
  refine ⟨s', l', _, ?_, hl', hL', hN', by omega, ?_, ht, hg⟩
  · simpa only [returnPages_eq] using hset
  · rw [recorded_fileAll h9, hns]

theorem allocFreePages_found (hL : ListsAt s L) (hf : Found L order i) (hx : L i = x :: rest)
    (give : Nat) : allocFreePages s order give = (popped s i x.1, x.2, i) := by
  obtain ⟨hoi, h9, -, hmin⟩ := hf
  have hhead : s.listHead i = some x.1 := by rw [hL.head i h9, hx]; rfl
  have hnone : ∀ o, order ≤ o → o < i → s.listHead o = none := by
    intro o ho hlt
    rw [hL.head o (by omega), hmin o ho hlt]
    rfl
  rw [allocFreePages, allocFreePagesFrom_least hoi (by omega) hnone hhead, hL.area_head h9 hx]

/-- The number of pieces that are left of a block of order `i`. -/
theorem blockCount_split : ∀ i ≤ 9, ∀ order ≤ i, blockCount (2 ^ i - 2 ^ order) = i - order := by
  decide

theorem bag_split (a : Nat) (hoi : order ≤ i) : bag {(i, a)} =
    Multiset.Ico a (a + 4096 * 2 ^ order) +
      bag (returnBlocks (a + 4096 * 2 ^ order) (2 ^ i - 2 ^ order) : Multiset (Nat × Nat)) := by
  have hpow : 2 ^ order ≤ 2 ^ i := Nat.pow_le_pow_right (by decide) hoi
  have hend : a + 4096 * 2 ^ order + 4096 * (2 ^ i - 2 ^ order) = a + 4096 * 2 ^ i := by omega
  rw [bag_returnBlocks, bag_singleton, hend]
  have hle : a + 4096 * 2 ^ order ≤ a + 4096 * 2 ^ i :=
    Nat.add_le_add_left (Nat.mul_le_mul_left _ hpow) _
  exact (Multiset.Ico_add_Ico_eq_Ico (Nat.le_add_right _ _) hle).symm

theorem exists_found (h : ∃ i, order ≤ i ∧ i ≤ 9 ∧ L i ≠ []) : ∃ i, Found L order i := by
  obtain ⟨i, hoi, h9, hne, hmin⟩ := exists_least h
  exact ⟨i, hoi, h9, hne, hmin⟩

theorem allocFreePages_empty (hnone : ∀ i, order ≤ i → i ≤ 9 → s.listHead i = none) :
    allocFreePages s order 0 = (s, 0, 0) :=
  allocFreePagesFrom_none fun o ho hk => hnone o ho (by omega)

theorem allocPages_none (hnone : ∀ i ≤ 9, s.listHead i = none) (fuel : Nat) :
    allocPages fuel s 0 = some (s, 0) := by
  simp only [allocPages, allocFreePages_empty fun i _ hi => hnone i hi, pow_zero, sub_self]
  have hret : returnPages fuel s (0 + 4096 * 1) 0 =
      addAll (kmalloc fuel) s (returnBlocks (0 + 4096 * 1) 0) := returnPages_eq fuel s _ 0
  rw [hret]
  simp [returnBlocks, bitBlocks, topBlocks, addAll]

theorem found_surplus (hoi : order ≤ i) :
    (2 ^ i - 2 ^ order : Int) = ((2 ^ i - 2 ^ order : Nat) : Int) := by
  have := Nat.pow_le_pow_right (n := 2) (by decide) hoi
  push_cast [this]
  rfl

/-- What `alloc_pages` does when it finds a block: the front of the list goes out
and its pieces behind the first `2 ^ order` pages come back. -/
theorem allocPages_settles (h : HeapAt mem s l) (hL : ListsAt s L) (hN : NodesIn l L)
    (hf : Found L order i) (hx : L i = x :: rest) (hroom : i - order ≤ room l) :
    ∃ s' l' L', Settles (fun fuel => allocPages fuel s order) (s', x.2) ∧ HeapAt mem s' l' ∧
      ListsAt s' L' ∧ NodesIn l' L' ∧ room l' + (i - order) = room l ∧
      bag (recorded L) = Multiset.Ico x.2 (x.2 + 4096 * 2 ^ order) + bag (recorded L') ∧
      (TailsAt s L → TailsAt s' L') ∧ s'.grown = s.grown := by
  have hoi := hf.1
  have h9 := hf.2.1
  have hcount := blockCount_split i h9 order hoi
  have hcast := found_surplus hoi
  obtain ⟨s', l', L', hset, hl', hL', hN', hr, hrec, ht, hg⟩ :=
    returnPages_settles (show HeapAt mem (popped s i x.1) l from h.congr rfl rfl) (hL.pop h9 hx)
      (hN.pop hx)
      (x.2 + 4096 * 2 ^ order) (2 ^ i - 2 ^ order) (by omega)
  refine ⟨s', l', L', ?_, hl', hL', hN', by omega, ?_, fun htl => ht (htl.pop hL h9 hx), hg⟩
  · simp only [allocPages, allocFreePages_found hL hf hx, hcast]
    exact hset.map fun s => (s, x.2)
  · rw [hrec, ← recorded_pop h9 hx, bag_add, bag_add, bag_split x.2 hoi]
    ac_rfl

/-- Pages are conserved. `alloc_pages` takes the pages it returns off the free
lists and no others, `return_pages` puts the pages it is given on them and no
others, and the free blocks stay apart. -/
theorem pages_conserved (h : HeapAt mem s l) (hL : ListsAt s L) (hN : NodesIn l L)
    (hd : ApartBlocks L) :
    (∀ order, (∃ i, order ≤ i ∧ i ≤ 9 ∧ L i ≠ []) →
      (∀ i, Found L order i → i - order ≤ room l) →
      ∃ s' a L', Settles (fun fuel => allocPages fuel s order) (s', a) ∧ ListsAt s' L' ∧
        Set.Ico a (a + 4096 * 2 ^ order) ⊆ freeSet L ∧
        freeSet L' = freeSet L \ Set.Ico a (a + 4096 * 2 ^ order) ∧ ApartBlocks L') ∧
    ∀ a n, (∀ k ∈ Set.Ico a (a + 4096 * n), k ∉ freeSet L) → blockCount n ≤ room l →
      ∃ s' L' bs, Settles (fun fuel => returnPages fuel s a (n : Nat)) s' ∧ ListsAt s' L' ∧
        recorded L' = recorded L + (bs : Multiset (Nat × Nat)) ∧ (∀ b ∈ bs, b.1 ≤ 9) ∧
        Tiles Prod.snd blockSize bs a (4096 * n) ∧
        freeSet L' = freeSet L ∪ Set.Ico a (a + 4096 * n) ∧ ApartBlocks L' := by
  rw [apartBlocks_iff] at hd
  constructor
  · intro order hany hroom
    obtain ⟨i, hf⟩ := exists_found hany
    obtain ⟨x, rest, hx⟩ := List.exists_cons_of_ne_nil hf.2.2.1
    obtain ⟨s', l', L', hset, -, hL', -, -, hbag, -⟩ :=
      allocPages_settles h hL hN hf hx (hroom _ hf)
    rw [hbag, Multiset.nodup_add] at hd
    refine ⟨s', x.2, L', hset, hL', ?_, ?_, apartBlocks_iff.mpr hd.2.1⟩
    · intro k hk
      rw [freeSet_eq, hbag]
      exact Multiset.mem_add.mpr (Or.inl (Multiset.mem_Ico.mpr hk))
    · ext k
      simp only [freeSet_eq, hbag, Set.mem_ofPred_eq, Set.mem_sdiff, Multiset.mem_add,
        Multiset.mem_Ico, Set.mem_Ico]
      constructor
      · intro hk
        exact ⟨Or.inr hk, fun hk' => Multiset.disjoint_left.mp hd.2.2 (Multiset.mem_Ico.mpr hk') hk⟩
      · rintro ⟨hk | hk, hno⟩
        · exact absurd hk hno
        · exact hk
  · intro a n hnot hroom
    obtain ⟨s', l', L', hset, -, hL', -, -, hrec, -⟩ := returnPages_settles h hL hN a n hroom
    have hbag : bag (recorded L') = bag (recorded L) + Multiset.Ico a (a + 4096 * n) := by
      rw [hrec, bag_add, bag_returnBlocks]
    have htiles := (contiguous_returnBlocks a n).tiles
    rw [total_returnBlocks] at htiles
    refine ⟨s', L', returnBlocks a n, hset, hL', hrec, returnBlocks_order a n, htiles, ?_, ?_⟩
    · ext k
      simp [freeSet_eq, hbag]
    · rw [apartBlocks_iff, hbag, Multiset.nodup_add]
      refine ⟨hd, Multiset.nodup_Ico, Multiset.disjoint_left.mpr fun {k} hk hk' => ?_⟩
      refine hnot k (Multiset.mem_Ico.mp hk') ?_
      rw [freeSet_eq]
      exact hk

/-- A heap of 4 KiB whose first segment holds the node of the only free block: one
of order 3 at 32 MiB. -/
def roomyHeap : KMem where
  startAddr := 0x60000
  seg := update (update (fun _ => ⟨0, false, none, none⟩) 0x60000 ⟨64, true, some 0x60040, none⟩)
    0x60040 ⟨0xfc0, false, none, some 0x60000⟩
  area := update (fun _ => ⟨0, none⟩) 0x60018 ⟨0x2000000, none⟩
  listHead := update (fun _ => none) 3 (some 0x60018)
  listTail := update (fun _ => none) 3 (some 0x60018)
  grown := []

def roomyLists : Nat → List (Nat × Nat) := update (fun _ => []) 3 [(0x60018, 0x2000000)]

theorem listsAt_single {o p a : Nat} (hh : s.listHead = update (fun _ => none) o (some p))
    (ht : s.listTail = update (fun _ => none) o (some p)) (ha : s.area p = ⟨a, none⟩) :
    ListsAt s (update (fun _ => []) o [(p, a)]) := by
  have hmem : ∀ j, ∀ y ∈ update (fun _ => []) o [(p, a)] j, j = o := by
    intro j y hy
    by_contra he
    simp [he] at hy
  refine ⟨?_, ?_, ?_, ?_, ?_⟩
  · intro j _
    by_cases he : j = o <;> simp [hh, he]
  · intro j _
    by_cases he : j = o
    · subst he
      simp [Chained, areaCell, ha]
    · simp [he, Chained]
  · intro j _
    by_cases he : j = o <;> simp [ht, he]
  · intro j _
    by_cases he : j = o <;> simp [he]
  · intro j _ j' _ hne x hx y hy
    exact absurd ((hmem j x hx).trans (hmem j' y hy).symm) hne

theorem mem_roomyLists {o : Nat} {x : Nat × Nat}
    (hx : x ∈ roomyLists o) :
    o = 3 ∧ x = ((0x60018, 0x2000000) : Nat × Nat) := by
  by_cases he : o = 3
  · subst he
    exact ⟨rfl, List.mem_singleton.mp hx⟩
  · simp [roomyLists, he] at hx

theorem roomyHeap_heapAt :
    HeapAt Set.univ roomyHeap [⟨0x60000, 64, true⟩, ⟨0x60040, 0xfc0, false⟩] := by
  refine ⟨rfl, ⟨?_, ?_, trivial⟩, ?_⟩
  · simp [roomyHeap, segCell, entry]
  · simp [roomyHeap, segCell, entry]
  · exact ⟨by simp, by decide, by simp [Seg.Apart], by simp, by simp [Seg.Mergeable]⟩

theorem roomyHeap_listsAt :
    ListsAt roomyHeap roomyLists := listsAt_single rfl rfl rfl

theorem recorded_roomyLists :
    recorded roomyLists = {(3, 0x2000000)} := by
  have hh := recorded_update (L := fun _ => []) (o := 3) [(0x60018, 0x2000000)] (by decide)
  rw [recorded_empty, zero_add] at hh
  simpa [blocksOf, roomyLists] using hh

/-- One page of the block: seven pages come back. -/
theorem pages_conserved_split : ∃ s' a L',
    Settles (fun fuel => allocPages fuel roomyHeap 0) (s', a) ∧ ListsAt s' L' ∧
      freeSet L' = freeSet roomyLists \
        Set.Ico a (a + 4096 * 2 ^ 0) := by
  have hN : NodesIn [⟨0x60000, 64, true⟩, ⟨0x60040, 0xfc0, false⟩]
      roomyLists := by
    intro o ho x hx
    rw [(mem_roomyLists hx).2]
    exact ⟨⟨0x60000, 64, true⟩, by simp, rfl, rfl⟩
  have hd : ApartBlocks roomyLists := by
    rw [ApartBlocks, recorded_roomyLists]
    exact ⟨[(3, 0x2000000)], rfl, by simp⟩
  obtain ⟨s', a, L', hset, hL', -, hfree, -⟩ :=
    (pages_conserved roomyHeap_heapAt roomyHeap_listsAt hN hd).1 0
      ⟨3, by decide, by decide, by simp [roomyLists]⟩ (by
        intro i hf
        have h9 := hf.2.1
        simp
        omega)
  exact ⟨s', a, L', hset, hL', hfree⟩

end TayHuang
