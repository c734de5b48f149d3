import TayHuang.GrowthTally

/-! What a call of `kmalloc` comes to. It serves the request from a free segment,
or from the free blocks that it grows by; when these do not suffice, it goes on
with the block at NULL, and never says so. -/

namespace TayHuang

open Function (update)
open Fuel

variable {mem : Set Nat} {s s' : KMem} {l l₁ : List Seg} {L : Nat → List (Nat × Nat)}
variable {n i p : Nat} {x : Nat × Nat} {rest : List (Nat × Nat)}

/-- `n` bytes in whole units. -/
def roundUp (n : Nat) : Nat := (n + 63) / 64 * 64

/-- Both allocators intact: the heap in its memory `mem`, the free blocks outside
of it and apart from one another, all of them within physical memory. -/
structure Stocked (mem : Set Nat) (s : KMem) (l : List Seg) (L : Nat → List (Nat × Nat)) :
    Prop where
  heap : HeapAt mem s l
  lists : ListsAt s L
  nodes : NodesIn l L
  apart : ApartBlocks L
  outside : Disjoint mem (freeSet L)
  below : mem ∪ freeSet L ⊆ Set.Ioo 0 (2 ^ 52)

/-- A free segment has room for `n` bytes, the header included. -/
def SegFits (l : List Seg) (n : Nat) : Prop := ∃ y ∈ l, y.used = false ∧ roundUp n ≤ y.size

/-- After some of the growths `cs` the last segment has room for the request, which
became 24 bytes larger with each of them. -/
def Enough (cs : List (Nat × Nat)) (t : Tally) (n : Nat) : Prop :=
  ∃ k < cs.length, roundUp (n + 24 * (k + 2)) ≤ 64 * ((cs.take (k + 1)).foldl Tally.grow t).tail

def Servable (l : List Seg) (L : Nat → List (Nat × Nat)) (n : Nat) : Prop :=
  SegFits l (n + 24) ∨ Enough (chunks L) (tally l) n

/-- `p` points to `n` bytes of a used segment of its own, in memory that was the
heap's before or on the free lists. -/
structure Gave (mem : Set Nat) (s : KMem) (l : List Seg) (L : Nat → List (Nat × Nat)) (n : Nat)
    (s' : KMem) (p : Nat) : Prop where
  segment : ∃ l', HeapAt (mem ∪ freeSet L) s' l' ∧ Kept l l' ∧ Served l l' p n
  blocks : ∃ g, s'.grown = s.grown ++ g ∧
    ∀ b ∈ g, Set.Ico b.1 (b.1 + 4096 * 2 ^ 6) ⊆ freeSet L

/-- There was nothing to give, and nothing has changed. -/
structure Refused (s : KMem) (l : List Seg) (L : Nat → List (Nat × Nat)) (n : Nat) (s' : KMem)
    (p : Nat) : Prop where
  nofit : ¬ SegFits l (n + 24)
  noblock : ∀ i, 6 ≤ i → i ≤ 9 → L i = []
  null : p = 0
  seg : s'.seg = s.seg
  lists : s'.area = s.area ∧ s'.listHead = s.listHead ∧ s'.listTail = s.listTail

/-- The call terminates, and either serves the request or refuses it. -/
def Clean (mem : Set Nat) (s : KMem) (l : List Seg) (L : Nat → List (Nat × Nat)) (n : Nat) : Prop :=
  ∃ s' p, Settles (fun fuel => kmalloc fuel s n) (s', p) ∧
    (Gave mem s l L n s' p ∨ Refused s l L n s' p)

/-! ### The condition -/

theorem roundUp_mono {n k : Nat} (h : n ≤ k) : roundUp n ≤ roundUp k := by
  unfold roundUp
  omega

theorem Servable.mono {k : Nat} (h : Servable l L k) (hn : n ≤ k) : Servable l L n := by
  rcases h with ⟨y, hy, hu, hs⟩ | ⟨j, hj, hs⟩
  · exact Or.inl ⟨y, hy, hu, (roundUp_mono (by omega)).trans hs⟩
  · exact Or.inr ⟨j, hj, (roundUp_mono (by omega)).trans hs⟩

theorem enough_cons {c : Nat × Nat} {cs : List (Nat × Nat)} {t : Tally} :
    Enough (c :: cs) t n ↔
      roundUp (n + 48) ≤ 64 * (t.grow c).tail ∨ Enough cs (t.grow c) (n + 24) := by
  constructor
  · rintro ⟨k, hk, hs⟩
    cases k with
    | zero => exact Or.inl (by simpa using hs)
    | succ k =>
      refine Or.inr ⟨k, by simpa using hk, ?_⟩
      rw [List.take_succ_cons, List.foldl_cons] at hs
      have he : n + 24 + 24 * (k + 2) = n + 24 * (k + 1 + 2) := by omega
      rwa [he]
  · rintro (hs | ⟨k, hk, hs⟩)
    · exact ⟨0, by simp, by simpa using hs⟩
    · refine ⟨k + 1, by simpa using hk, ?_⟩
      rw [List.take_succ_cons, List.foldl_cons]
      have he : n + 24 * (k + 1 + 2) = n + 24 + 24 * (k + 2) := by omega
      rwa [he]

theorem not_enough_nil {t : Tally} : ¬ Enough [] t n := by
  rintro ⟨k, hk, -⟩
  simp at hk

/-- Growing the heap does not change whether the request can be served. -/
theorem servable_grown {t : KMem} {ns : List (Nat × Nat × Nat)} (hl : Units l) (hne : l ≠ [])
    (hno : ¬ SegFits l (n + 24)) (hf : Found L 6 i) (hx : L i = x :: rest)
    (hg : Enlarged mem s l L i x rest n t l₁ ns) :
    Servable l L n ↔ Servable l₁ (fileAll (update L i rest) ns) (n + 24) := by
  have hsmall : ∀ y ∈ l, y.used = false → y.size < roundUp (n + 24) := by
    intro y hy hu
    by_contra hs
    exact hno ⟨y, hy, hu, by omega⟩
  obtain ⟨h1, h2, h3⟩ := tally_joinAt (a := x.2) hl hne hsmall
  obtain ⟨ht, hu, hfront⟩ := hg.carved.tally h2
  have hgrow : tally l₁ = (tally l).grow (x.2, i - 6) := by
    rw [ht, h1]
    rfl
  have hlast := fits_iff_tail hu hg.heap.arena.nonempty (hfront _ h3)
    (roundUp_mono (show n + 24 ≤ n + 48 by omega)) (by unfold roundUp; omega)
  rw [hgrow] at hlast
  rw [Servable, Servable, chunks_grown hf hx hg.pieces, enough_cons, hgrow, ← hlast]
  constructor
  · rintro (h | h)
    · exact absurd h hno
    · exact h
  · exact Or.inr

/-! ### Growth by a free block -/

theorem apart_of_disjoint {y z : Seg} (hy : 0 < y.size) (hz : 0 < z.size)
    (h : Disjoint y.bytes z.bytes) : y.Apart z := by
  by_contra hno
  unfold Seg.Apart at hno
  rw [not_or, not_le, not_le] at hno
  have hmy : max y.addr z.addr ∈ y.bytes := ⟨le_max_left _ _, by omega⟩
  have hmz : max y.addr z.addr ∈ z.bytes := ⟨le_max_right _ _, by omega⟩
  exact Set.disjoint_left.mp h hmy hmz

theorem bag_grown {ns : List (Nat × Nat × Nat)} (hf : Found L 6 i) (hx : L i = x :: rest)
    (hns : (ns.map fun n => (n.1, n.2.2)) =
      ((List.range i).filter (6 ≤ ·)).map fun j => (j, x.2 + 4096 * 2 ^ j)) :
    bag (recorded L) = Multiset.Ico x.2 (x.2 + 4096 * 2 ^ 6) +
      bag (recorded (fileAll (update L i rest) ns)) := by
  obtain ⟨hle, hrec⟩ := recorded_grown hf.2.1 hx hns
  have htaken : bag (taken [(x.2, i)]) =
      Multiset.Ico x.2 (x.2 + 4096 * 2 ^ 6) + bag (surplus [(x.2, i)]) := bag_surplus hf.1
  have hback : recorded L = recorded L - taken [(x.2, i)] + taken [(x.2, i)] :=
    (Multiset.sub_add_cancel hle).symm
  rw [hrec, bag_add, hback, bag_add, htaken, Multiset.add_sub_cancel_right]
  ac_rfl

theorem Stocked.grows (h : Stocked mem s l L) (hn : n + 24 + 63 < 2 ^ 64)
    (hno : ¬ SegFits l (n + 24)) (hf : Found L 6 i) (hx : L i = x :: rest) :
    ∃ t l₁ ns, Enlarged (mem ∪ Set.Ico x.2 (x.2 + 4096 * 2 ^ 6)) s l L i x rest n t l₁ ns ∧
      Stocked (mem ∪ Set.Ico x.2 (x.2 + 4096 * 2 ^ 6)) t l₁ (fileAll (update L i rest) ns) ∧
      Set.Ico x.2 (x.2 + 4096 * 2 ^ 6) ⊆ freeSet L ∧
      freeSet (fileAll (update L i rest) ns) ⊆ freeSet L ∧
      (bag (recorded (fileAll (update L i rest) ns))).card + 4096 * 2 ^ 6 =
        (bag (recorded L)).card := by
  have h6 := hf.1
  have h9 := hf.2.1
  have hpow : 2 ^ 6 ≤ 2 ^ i := Nat.pow_le_pow_right (by decide) h6
  have hblock : Set.Ico x.2 (x.2 + 4096 * 2 ^ 6) ⊆ freeSet L := by
    intro k hk
    rw [freeSet_eq, ← recorded_pop h9 hx]
    refine mem_bag.mpr ⟨(i, x.2), by simp, hk.1, ?_⟩
    have := hk.2
    simp only
    omega
  have h0 : x.2 ≠ 0 := by
    have := (h.below (Or.inr (hblock ⟨le_rfl, by omega⟩))).1
    omega
  have hap : ∀ c ∈ l, Seg.Apart c ⟨x.2, 4096 * 2 ^ 6, false⟩ := by
    intro c hc
    refine apart_of_disjoint (h.heap.arena.pos c hc).2.1 (by simp) ?_
    exact (h.outside.mono_left (h.heap.arena.within c hc)).mono_right hblock
  have hsmall : ∀ y ∈ l, y.used = false → y.size < fixSize (n + 24) := by
    intro y hy hu
    rw [fixSize_eq hn]
    by_contra hs
    exact hno ⟨y, hy, hu, by unfold roundUp; omega⟩
  obtain ⟨t, l₁, ns, hg⟩ := kmalloc_enlarges h.heap h.lists h.nodes (by omega) hsmall h6 h9
    (fun o ho hi => hf.2.2.2 o ho hi) hx h0 hap Set.subset_union_left Set.subset_union_right
  have hbag := bag_grown hf hx hg.pieces
  have hnodup := apartBlocks_iff.mp h.apart
  rw [hbag, Multiset.nodup_add] at hnodup
  have hfree : freeSet L = Set.Ico x.2 (x.2 + 4096 * 2 ^ 6) ∪
      freeSet (fileAll (update L i rest) ns) := by
    ext k
    rw [freeSet_eq, freeSet_eq, hbag]
    simp
  refine ⟨t, l₁, ns, hg, ⟨hg.heap, hg.lists, hg.nodes, apartBlocks_iff.mpr hnodup.2.1, ?_, ?_⟩,
    hblock, by rw [hfree]; exact Set.subset_union_right, ?_⟩
  · rw [Set.disjoint_union_left]
    refine ⟨h.outside.mono_right (by rw [hfree]; exact Set.subset_union_right), ?_⟩
    apply Set.disjoint_left.mpr
    intro k hk hk'
    rw [freeSet_eq] at hk'
    exact Multiset.disjoint_left.mp hnodup.2.2 (Multiset.mem_Ico.mpr hk) hk'
  · rw [Set.union_assoc, ← hfree]
    exact h.below
  · rw [hbag, Multiset.card_add, card_Ico]
    omega

/-! ### Growth by the block at NULL -/

theorem kmalloc_pos {fuel : Nat} (h : kmalloc fuel s n = some (s', p)) : p ≠ 0 := by
  induction fuel generalizing s n with
  | zero => simp [kmalloc] at h
  | succ fuel ih =>
    rw [kmalloc] at h
    obtain ⟨c, -, h⟩ := Option.bind_eq_some_iff.mp h
    split at h
    · obtain ⟨t, -, h⟩ := Option.bind_eq_some_iff.mp h
      exact ih h
    · have hp := (Prod.mk.inj (Option.some.inj h)).2
      omega

theorem kmalloc_null {fuel : Nat} {r : KMem × Nat} (h : HeapAt mem s l) (hn : n + 24 + 63 < 2 ^ 64)
    (hno : ¬ SegFits l (n + 24)) (hnone : ∀ o, 6 ≤ o → o ≤ 9 → s.listHead o = none)
    (hr : kmalloc fuel s n = some r) : ∃ g, r.1.grown = s.grown ++ (0, 0) :: g := by
  have hsmall : ∀ y ∈ l, y.used = false → y.size < fixSize (n + 24) := by
    intro y hy hu
    rw [fixSize_eq hn]
    by_contra hs
    exact hno ⟨y, hy, hu, by unfold roundUp; omega⟩
  obtain ⟨pre, b, rfl, hfind, hfull⟩ := findSeg_last h hsmall
  have hgr : (growHeap s b.addr).2 = (0, 0) := by
    simp [growHeap, allocFreePages_empty hnone]
  obtain ⟨fuel', t, ht, hr⟩ := kmalloc_full (by omega) hfind hfull hr
  obtain ⟨g, hg, -⟩ := returnPagesWith_grows (kmalloc_spec 0 0 fuel') ht
  obtain ⟨g', hg', -⟩ := kmalloc_spec 0 0 fuel' _ _ _ _ hr
  refine ⟨g ++ g', ?_⟩
  rw [hg', hg, growHeap_grown, hgr]
  simp

/-! ### Whole calls -/

theorem Gave.of_grown {t : KMem} {ns : List (Nat × Nat × Nat)} {chunk : Set Nat}
    (hg : Enlarged (mem ∪ chunk) s l L i x rest n t l₁ ns)
    (hchunk : Set.Ico x.2 (x.2 + 4096 * 2 ^ 6) ⊆ freeSet L) (hc : chunk ⊆ freeSet L)
    (hfree : freeSet (fileAll (update L i rest) ns) ⊆ freeSet L)
    (h : Gave (mem ∪ chunk) t l₁ (fileAll (update L i rest) ns) (n + 24) s' p) :
    Gave mem s l L n s' p := by
  obtain ⟨⟨l', hl', hk, c, hcl, hcu, hp, hs, hfresh⟩, g, hgr, hblocks⟩ := h
  refine ⟨⟨l', hl'.mono ?_, hg.kept.trans hk, c, hcl, hcu, hp, by omega,
    fun y hy hu => hfresh y (hg.kept y hy hu) hu⟩, (x.2, i) :: g, ?_, ?_⟩
  · rintro k ((hk | hk) | hk)
    · exact Or.inl hk
    · exact Or.inr (hc hk)
    · exact Or.inr (hfree hk)
  · rw [hgr, hg.grown]
    simp
  · intro b hb
    rcases List.mem_cons.mp hb with rfl | hb
    · exact hchunk
    · exact (hblocks b hb).trans hfree

/-- A request that can be served is served; any other one never comes back, or
comes back after the heap has grown by the block at NULL. -/
theorem kmalloc_runs (h : Stocked mem s l L) (hb : n + (bag (recorded L)).card + 87 < 2 ^ 64) :
    (Servable l L n → ∃ s' p, Settles (fun fuel => kmalloc fuel s n) (s', p) ∧
      Gave mem s l L n s' p) ∧
    (¬ Servable l L n → ∀ fuel r, kmalloc fuel s n = some r →
      ∃ g, r.1.grown = s.grown ++ g ∧ (0, 0) ∈ g) := by
  induction hk : (bag (recorded L)).card using Nat.strong_induction_on generalizing mem s l L n with
  | _ k ih =>
    by_cases hfit : SegFits l (n + 24)
    · refine ⟨fun _ => ?_, fun hs => absurd (Or.inl hfit) hs⟩
      obtain ⟨y, hy, hu, hs⟩ := hfit
      obtain ⟨m, p, l', hset, hl', hk, hserved, -⟩ := kmalloc_settles h.heap (n := n) (by omega)
        ⟨y, hy, hu, by rw [fixSize_eq (by omega)]; exact hs⟩
      exact ⟨withSeg s m, p, hset, ⟨l', hl'.mono Set.subset_union_left, hk, hserved⟩, [],
        (List.append_nil _).symm, by simp⟩
    · by_cases hany : ∃ i, 6 ≤ i ∧ i ≤ 9 ∧ L i ≠ []
      · obtain ⟨i, hf⟩ := exists_found hany
        obtain ⟨x, rest, hx⟩ := List.exists_cons_of_ne_nil hf.2.2.1
        obtain ⟨t, l₁, ns, hg, ht, hblock, hfree, hcard⟩ := h.grows (by omega) hfit hf hx
        have hiff := servable_grown h.heap.arena.units h.heap.arena.nonempty hfit hf hx hg
        obtain ⟨h1, h2⟩ := ih _ (by omega) ht (n := n + 24) (by omega) rfl
        rw [hiff]
        refine ⟨fun hs => ?_, fun hs fuel r hr => ?_⟩
        · obtain ⟨s', p, hset, hgave⟩ := h1 hs
          exact ⟨s', p, hg.settles _ hset, hgave.of_grown hg hblock hblock hfree⟩
        · obtain ⟨fuel', hr'⟩ := hg.result fuel r hr
          obtain ⟨g, hgr, hnull⟩ := h2 hs fuel' r hr'
          refine ⟨(x.2, i) :: g, ?_, List.mem_cons_of_mem _ hnull⟩
          rw [hgr, hg.grown]
          simp
      · refine ⟨fun hs => ?_, fun _ fuel r hr => ?_⟩
        · rw [Servable, chunks_eq_nil (empty_of_none hany)] at hs
          rcases hs with hs | hs
          · exact absurd hs hfit
          · exact absurd hs not_enough_nil
        · obtain ⟨g, hg⟩ := kmalloc_null h.heap (by omega) hfit (h.lists.no_heads hany) hr
          exact ⟨(0, 0) :: g, hg, by simp⟩

theorem Stocked.card_le (h : Stocked mem s l L) : (bag (recorded L)).card ≤ 2 ^ 52 := by
  have hle : bag (recorded L) ≤ Multiset.range (2 ^ 52) := by
    refine (Multiset.le_iff_subset (apartBlocks_iff.mp h.apart)).mpr fun k hk => ?_
    have hk' : k ∈ freeSet L := by
      rw [freeSet_eq]
      exact hk
    exact Multiset.mem_range.mpr (h.below (Or.inr hk')).2
  have := Multiset.card_le_card hle
  rwa [Multiset.card_range] at this

theorem Gave.size_le (h : Stocked mem s l L) (hg : Gave mem s l L n s' p) : n + 24 ≤ 2 ^ 52 := by
  obtain ⟨⟨l', hl', -, c, hc, -, -, hs, -⟩, -⟩ := hg
  have hpos := (hl'.arena.pos c hc).2.1
  have hlast : c.addr + c.size - 1 ∈ c.bytes := ⟨by omega, by omega⟩
  have := (h.below (hl'.arena.within c hc hlast)).2
  omega

theorem Servable.size_le (h : Stocked mem s l L) (hs : Servable l L n) : n + 24 ≤ 2 ^ 52 := by
  by_contra hn
  have hcard := h.card_le
  obtain ⟨s', p, -, hg⟩ := (kmalloc_runs h (n := 2 ^ 52 - 23) (by omega)).1 (hs.mono (by omega))
  have := hg.size_le h
  omega

/-- A result that came with growth by the block at NULL is none that was promised. -/
theorem not_gave_of_null {g : List (Nat × Nat)} (h : Stocked mem s l L)
    (hgr : s'.grown = s.grown ++ g) (h0 : (0, 0) ∈ g) : ¬ Gave mem s l L n s' p := by
  rintro ⟨-, g', hgr', hblocks⟩
  rw [hgr] at hgr'
  rw [List.append_cancel_left hgr'] at h0
  have hnull : 0 ∈ freeSet L := hblocks _ h0 ⟨le_rfl, by simp⟩
  have := (h.below (Or.inr hnull)).1
  omega

/-- `kmalloc` is clean exactly when some free segment has room for the request, or
the last segment comes to have it while the heap grows by free blocks. -/
theorem kmalloc_clean_iff (h : Stocked mem s l L) (n : Nat) :
    Clean mem s l L n ↔ Servable l L n := by
  have hcard := h.card_le
  constructor
  · rintro ⟨s', p, hset, hg | hr⟩
    · have hn := hg.size_le h
      obtain ⟨N, hN⟩ := hset.enough
      by_contra hs
      obtain ⟨g, hgr, h0⟩ := (kmalloc_runs h (by omega)).2 hs N _ (hN N le_rfl)
      exact not_gave_of_null h hgr h0 hg
    · obtain ⟨N, hN⟩ := hset.enough
      exact absurd hr.null (kmalloc_pos (hN N le_rfl))
  · intro hs
    have hn := hs.size_le h
    obtain ⟨s', p, hset, hg⟩ := (kmalloc_runs h (by omega)).1 hs
    exact ⟨s', p, hset, Or.inl hg⟩

/-- A heap of 4 KiB with one free block of 512 KiB to grow by. -/
def smallHeap : KMem := { roomyHeap with
  listHead := update (fun _ => none) 7 (some 0x60018)
  listTail := update (fun _ => none) 7 (some 0x60018) }

def oneLarge : Nat → List (Nat × Nat) := update (fun _ => []) 7 [(0x60018, 0x2000000)]

theorem smallHeap_stocked : Stocked (Set.Ico 0x60000 0x61000) smallHeap
    [⟨0x60000, 64, true⟩, ⟨0x60040, 0xfc0, false⟩] oneLarge := by
  have hrec : recorded oneLarge = {(7, 0x2000000)} := by
    have hh := recorded_update (L := fun _ => []) (o := 7) [(0x60018, 0x2000000)] (by decide)
    rw [recorded_empty, zero_add] at hh
    simpa [blocksOf, oneLarge] using hh
  have hfree : freeSet oneLarge = Set.Ico 0x2000000 0x2080000 := by
    rw [freeSet_eq, hrec, bag_singleton]
    ext k
    simp
  have hheap : HeapAt Set.univ smallHeap [⟨0x60000, 64, true⟩, ⟨0x60040, 0xfc0, false⟩] :=
    roomyHeap_heapAt.congr rfl rfl
  refine ⟨⟨hheap.start, hheap.laid, { hheap.arena with within := ?_ }⟩,
    listsAt_single rfl rfl rfl, ?_, ?_, ?_, ?_⟩
  · intro y hy k hk
    have h1 := hk.1
    have h2 := hk.2
    rcases List.mem_cons.mp hy with rfl | hy
    · simp only at h1 h2
      exact ⟨h1, by omega⟩
    · obtain rfl := List.mem_singleton.mp hy
      simp only at h1 h2
      exact ⟨by omega, by omega⟩
  · intro o ho y hy
    by_cases he : o = 7
    · subst he
      obtain rfl := List.mem_singleton.mp hy
      exact ⟨⟨0x60000, 64, true⟩, by simp, rfl, rfl⟩
    · simp [oneLarge, he] at hy
  · rw [ApartBlocks, hrec]
    exact ⟨[(7, 0x2000000)], rfl, by simp⟩
  · rw [hfree]
    apply Set.disjoint_left.mpr
    rintro k ⟨-, h1⟩ ⟨h2, -⟩
    omega
  · rw [hfree]
    rintro k (⟨h1, h2⟩ | ⟨h1, h2⟩)
    · exact ⟨by omega, by omega⟩
    · exact ⟨by omega, by omega⟩

/-- 260 KiB on this heap: it takes both halves of the block, which are merged. -/
theorem kmalloc_clean_merged : Clean (Set.Ico 0x60000 0x61000) smallHeap
    [⟨0x60000, 64, true⟩, ⟨0x60040, 0xfc0, false⟩] oneLarge 0x41000 :=
  (kmalloc_clean_iff smallHeap_stocked 0x41000).mpr (Or.inr ⟨1, by decide, by decide⟩)

/-- The heap as `init_kheap` leaves it, before there are free blocks. -/
def preHeap : KMem :=
  initKheap ⟨0, fun _ => ⟨0, false, none, none⟩, fun _ => ⟨0, none⟩, fun _ => none, fun _ => none,
    []⟩ 0x60000 0x40000

theorem preHeap_stocked :
    Stocked (Set.Ico 0x60000 0xA0000) preHeap [⟨0x60000, 0x40000, false⟩] fun _ => [] := by
  have hfree : freeSet (fun _ => []) = ∅ := by
    rw [freeSet_eq, recorded_empty]
    ext k
    simp
  have hstart : preHeap.startAddr = 0x60000 := rfl
  refine ⟨⟨by rw [hstart]; rfl, ⟨?_, trivial⟩, ?_⟩, ⟨?_, ?_, ?_, ?_, ?_⟩, ?_, ?_, ?_, ?_⟩
  · simp [preHeap, initKheap, segCell]
  · refine ⟨by simp, by decide, by simp, ?_, by simp⟩
    intro y hy k hk
    rw [List.mem_singleton.mp hy] at hk
    exact ⟨hk.1, hk.2⟩
  · exact fun o _ => rfl
  · exact fun o _ => trivial
  · exact fun o _ h => absurd rfl h
  · exact fun o _ => List.nodup_nil
  · exact fun o _ o' _ _ x hx => by simp at hx
  · exact fun o _ x hx => by simp at hx
  · rw [ApartBlocks, recorded_empty]
    exact ⟨[], rfl, List.Pairwise.nil⟩
  · rw [hfree]
    exact Set.disjoint_empty _
  · rw [hfree, Set.union_empty]
    rintro k ⟨h1, h2⟩
    exact ⟨by omega, by omega⟩

/-- 256 KiB that neither the first heap nor the page allocator has. The call comes
back with a pointer into that heap. -/
theorem kmalloc_phantom : ¬ ∀ (mem : Set Nat) (s : KMem) (l : List Seg)
    (L : Nat → List (Nat × Nat)) (n : Nat), Stocked mem s l L → n < 2 ^ 64 →
    Clean mem s l L n := by
  intro hall
  have h := preHeap_stocked
  obtain ⟨s', p, hset, hg | hr⟩ := hall _ _ _ _ 0x40000 h (by decide)
  · have hs : ¬ Servable [⟨0x60000, 0x40000, false⟩] (fun _ => []) 0x40000 := by
      rw [Servable, chunks_eq_nil fun _ _ _ => rfl, not_or]
      refine ⟨?_, not_enough_nil⟩
      rintro ⟨y, hy, -, hle⟩
      rw [List.mem_singleton.mp hy] at hle
      exact absurd hle (by decide)
    have hcard := h.card_le
    obtain ⟨N, hN⟩ := hset.enough
    obtain ⟨g, hgr, h0⟩ := (kmalloc_runs h (by omega)).2 hs N _ (hN N le_rfl)
    exact not_gave_of_null h hgr h0 hg
  · obtain ⟨N, hN⟩ := hset.enough
    exact absurd hr.null (kmalloc_pos (hN N le_rfl))

end TayHuang
