import TayHuang.PageExhaustion
import TayHuang.VirtualMemory
import TayHuang.Runs

/-! The nodes of the free lists as heap segments. `add_free_area` allocates one for every
block that it files, and `__alloc_free_pages` takes it off its list for good. -/

namespace TayHuang

open Function (update)
open LinkedCells Fuel Runs

variable {s s' : KMem} {l : List Seg} {L : Nat → List (Nat × Nat)} {base lost : Multiset Nat}
variable {order give fuel : Nat}

/-- What the used segments hold, as the pointers that `kmalloc` gave out for them. -/
def usedNodes (l : List Seg) : Multiset Nat :=
  ((l.filter fun c => c.used).map fun c => c.addr + 24 : List Nat)

/-- The nodes in the ten free lists. -/
def nodesOn (L : Nat → List (Nat × Nat)) : Multiset Nat :=
  ∑ o ∈ Finset.range 10, ((L o).map Prod.fst : Multiset Nat)

/-- The used segments are those of `base` and the nodes in the lists. -/
def NodesLinked (base : Multiset Nat) (s : KMem) : Prop :=
  ∃ l L, HeapAt Set.univ s l ∧ ListsAt s L ∧ usedNodes l = base + nodesOn L

/-- `lost` are the nodes that were taken off the lists. -/
structure Tallied (base lost : Multiset Nat) (s : KMem) (l : List Seg)
    (L : Nat → List (Nat × Nat)) : Prop where
  heap : HeapAt Set.univ s l
  lists : ListsAt s L
  nodes : NodesIn l L
  tally : usedNodes l = base + nodesOn L + lost

/-- A search of the free lists for `2 ^ order` pages finds a block. -/
def Finds (s : KMem) (order : Nat) : Prop := ∃ i, order ≤ i ∧ i ≤ 9 ∧ s.listHead i ≠ none

/-- The heap has room for `n` nodes. -/
def NodeRoom (s : KMem) (n : Nat) : Prop := ∃ l, HeapAt Set.univ s l ∧ n ≤ room l

/-- The blocks that `return_pages` makes of `pages` pages, a negative count included. -/
def signedBlocks (start : Nat) (pages : Int) : List (Nat × Nat) :=
  bitBlocks (fun i => 4096 * 2 ^ i) 9 0 start (pages % 2 ^ 9).toNat ++
    topBlocks (pages / 2 ^ 9).toNat (bitEnd (fun i => 4096 * 2 ^ i) 9 0 start (pages % 2 ^ 9).toNat)

/-- The blocks that `alloc_pages` gives back. -/
def surplusBlocks (s : KMem) (order : Nat) : List (Nat × Nat) :=
  signedBlocks ((allocFreePages s order 0).2.1 + 4096 * 2 ^ order)
    (2 ^ (allocFreePages s order 0).2.2 - 2 ^ order)

/-! ### The tally -/

theorem HeapAt.unique {mem mem' : Set Nat} {l' : List Seg} (h : HeapAt mem s l) (h' : HeapAt mem' s l') :
    l = l' := by
  refine Linked.unique h.laid h'.laid (h.start.symm.trans h'.start) ?_
  rintro ⟨a, sz, u⟩ ⟨b, sz', u'⟩ p n n' ha hc
  simp only [segCell, SegInfo.mk.injEq] at ha hc
  obtain ⟨rfl, rfl, rfl, -⟩ := hc
  exact ⟨by rw [ha], rfl⟩

theorem usedNodes_append (l l' : List Seg) : usedNodes (l ++ l') = usedNodes l + usedNodes l' := by
  simp [usedNodes]

theorem usedNodes_cons (c : Seg) (l : List Seg) :
    usedNodes (c :: l) = (if c.used then {c.addr + 24} else 0) + usedNodes l := by
  cases hu : c.used <;> simp [usedNodes, hu]

theorem usedNodes_takeAt {pre post : List Seg} {b : Seg} {fixed : Nat} (hu : b.used = false) :
    usedNodes (takeAt pre b post fixed) = usedNodes (pre ++ b :: post) + {b.addr + 24} := by
  unfold takeAt
  split <;> simp only [usedNodes_append, usedNodes_cons, hu, if_true, Bool.false_eq_true, if_false,
    zero_add] <;> ac_rfl

theorem nodesOn_update {o : Nat} (xs : List (Nat × Nat)) (ho : o ≤ 9) :
    nodesOn (update L o xs) + ((L o).map Prod.fst : Multiset Nat) =
      nodesOn L + (xs.map Prod.fst : Multiset Nat) :=
  sum_update (fun _ xs => (xs.map Prod.fst : Multiset Nat)) xs ho

theorem nodesOn_push {o p a : Nat} (ho : o ≤ 9) :
    nodesOn (update L o (L o ++ [(p, a)])) = nodesOn L + {p} := by
  have hh := nodesOn_update (L := L) (L o ++ [(p, a)]) ho
  rw [List.map_append, ← Multiset.coe_add, add_comm ((L o).map Prod.fst : Multiset Nat), ← add_assoc]
    at hh
  exact add_right_cancel hh

theorem nodesOn_pop {o : Nat} {x : Nat × Nat} {xs : List (Nat × Nat)} (ho : o ≤ 9) (hL : L o = x :: xs) :
    nodesOn (update L o xs) + {x.1} = nodesOn L := by
  have hh := nodesOn_update (L := L) xs ho
  rw [hL, List.map_cons, ← Multiset.cons_coe, ← Multiset.singleton_add, ← add_assoc] at hh
  exact add_right_cancel hh

theorem ListsAt.nodesOn_eq {L' : Nat → List (Nat × Nat)} (h : ListsAt s L) (h' : ListsAt s L') :
    nodesOn L = nodesOn L' := by
  refine Finset.sum_congr rfl fun o ho => ?_
  rw [h.unique h' (by simpa [Nat.lt_succ_iff] using ho)]

theorem Tallied.linked_iff (h : Tallied base lost s l L) : NodesLinked base s ↔ lost = 0 := by
  constructor
  · rintro ⟨l', L', hl', hL', hused⟩
    rw [← h.heap.unique hl', ← h.lists.nodesOn_eq hL', h.tally] at hused
    simpa using hused
  · rintro rfl
    exact ⟨l, L, h.heap, h.lists, by rw [h.tally, add_zero]⟩

/-- The node of a block that is filed is the segment that the heap gives for it. -/
theorem Tallied.push (h : Tallied base lost s l L) (h9 : order ≤ 9) (address : Nat) (hroom : 0 < room l)
    (hs : addFreeAreaWith (kmalloc fuel) s order address = some s') :
    ∃ l' L', Tallied base lost s' l' L' ∧ room l' + 1 = room l := by
  obtain ⟨t, p, l', hset, hl', -, hr, hc, hL', hN', -, -, hfresh⟩ :=
    addFreeArea_settles h.heap h.lists h.nodes h9 address hroom
  obtain rfl := hset.unique fuel s' hs
  refine ⟨l', _, ⟨hl', hL', hN', ?_⟩, hr⟩
  obtain ⟨c, hcm, hcu, hcp⟩ := hN' order h9 (p, address) (by simp)
  generalize hone : 1 = k at hc
  cases hc with
  | none => simp at hone
  | @unit n pre post l' b hpre hu hc =>
    obtain rfl : n = 0 := by omega
    cases hc with
    | none =>
      have hp : p = b.addr + 24 := by
        rcases used_of_mem_takeAt hcm hcu with hm | he
        · exact absurd hcp (hfresh c hm hcu)
        · rw [← he]
          exact hcp
      rw [usedNodes_takeAt hu, h.tally, nodesOn_push h9, hp]
      ac_rfl

/-- Filing blocks loses no node while the heap has room. -/
theorem Tallied.file (bs : List (Nat × Nat)) (h : Tallied base lost s l L) (h9 : ∀ b ∈ bs, b.1 ≤ 9)
    (hroom : bs.length ≤ room l) (hs : addAll (kmalloc fuel) s bs = some s') :
    ∃ l' L', Tallied base lost s' l' L' := by
  induction bs generalizing s l L with
  | nil =>
    obtain rfl := Option.some.inj hs
    exact ⟨l, L, h⟩
  | cons b bs ih =>
    rw [List.length_cons] at hroom
    obtain ⟨t, ht, hs⟩ := Option.bind_eq_some_iff.mp hs
    obtain ⟨l₁, L₁, h₁, hr⟩ := h.push (h9 b (by simp)) b.2 (by omega) ht
    exact ih h₁ (fun c hc => h9 c (by simp [hc])) (by omega) hs

/-- A search loses the node of the block that it finds. -/
theorem Tallied.search (h : Tallied base lost s l L) (order give : Nat) :
    ∃ L' gone, Tallied base (lost + gone) (allocFreePages s order give).1 l L' ∧
      (gone = 0 ↔ ¬ Finds s order) := by
  by_cases hf : Finds s order
  · obtain ⟨i, hi, h9, hhead⟩ := hf
    obtain ⟨j, hj⟩ : ∃ j, Found L order j := by
      refine exists_found ⟨i, hi, h9, fun hnil => hhead ?_⟩
      rw [h.lists.head i h9, hnil]
      rfl
    obtain ⟨x, rest, hx⟩ := List.exists_cons_of_ne_nil hj.2.2.1
    have h9' := hj.2.1
    refine ⟨update L j rest, {x.1}, ?_, by simp [show Finds s order from ⟨i, hi, h9, hhead⟩]⟩
    rw [allocFreePages_found h.lists hj hx]
    refine ⟨h.heap.congr rfl rfl, h.lists.pop h9' hx, h.nodes.pop hx, ?_⟩
    rw [h.tally, ← nodesOn_pop h9' hx]
    ac_rfl
  · refine ⟨L, 0, ?_, by simp [hf]⟩
    have hnone : ∀ o, order ≤ o → o < order + (10 - order) → s.listHead o = none := by
      intro o ho hlt
      by_contra hne
      exact hf ⟨o, ho, by omega, hne⟩
    rw [allocFreePages, allocFreePagesFrom_none hnone, add_zero]
    exact h

/-! ### A heap that grows -/

theorem mem_usedNodes {p : Nat} : p ∈ usedNodes l ↔ ∃ c ∈ l, c.used = true ∧ p = c.addr + 24 := by
  simp only [usedNodes, Multiset.mem_coe, List.mem_map, List.mem_filter, and_assoc, eq_comm]

theorem mem_nodesOn {p : Nat} : p ∈ nodesOn L ↔ ∃ o ≤ 9, ∃ x ∈ L o, x.1 = p := by
  simp [nodesOn, Nat.lt_succ_iff]

theorem HeapAt.usedNodes_nodup {mem : Set Nat} (h : HeapAt mem s l) : (usedNodes l).Nodup := by
  refine Multiset.coe_nodup.mpr ?_
  have hsub : (l.filter fun c => c.used).map Seg.addr |>.Sublist (l.map Seg.addr) :=
    List.filter_sublist.map Seg.addr
  have hnodup := (h.arena.beside.addr_nodup.sublist hsub).map (f := (· + 24)) fun a b hab => by
    simpa using hab
  rwa [List.map_map] at hnodup

/-- A node that a full heap is asked for costs another: the one whose block the heap takes. -/
theorem PagesAt.strands {address : Nat} (h : PagesAt s l L) (htally : usedNodes l = base + nodesOn L)
    (hroom : room l = 0) (h9 : order ≤ 9) (hs : addFreeArea fuel s order address = some s') :
    ¬ NodesLinked base s' := by
  rintro ⟨l₂, L₂, hl₂, hL₂, hused⟩
  by_cases hany : ∃ i, 6 ≤ i ∧ i ≤ 9 ∧ L i ≠ []
  · obtain ⟨i, h6, hi, hne, hmin⟩ := exists_least hany
    obtain ⟨x, rest, hx⟩ := List.exists_cons_of_ne_nil hne
    obtain ⟨s₁, p, l₁, l', ns, hr⟩ := h.grows hroom h6 hi hmin hx
    obtain ⟨t, L', hset, hl', hL', -, -, hmem⟩ := hr.link h.lists h6 hmin hx h9 address
    obtain rfl := hset.unique fuel s' hs
    obtain rfl := hl'.unique hl₂
    -- the node of the block stays a used segment
    obtain ⟨c, hc, hcu, hxc⟩ := h.nodes i hi x (by simp [hx])
    have hkept : x.1 ∈ usedNodes l' :=
      mem_usedNodes.mpr ⟨c, hr.kept' c (hr.kept c hc hcu) hcu, hcu, hxc⟩
    have hlinked : x.1 ∈ nodesOn L := mem_nodesOn.mpr ⟨i, hi, x, by simp [hx], rfl⟩
    have hnodup := h.heap.usedNodes_nodup
    rw [htally, Multiset.nodup_add] at hnodup
    rw [hused, Multiset.mem_add] at hkept
    rcases hkept with hbase | hon
    · exact Multiset.disjoint_left.mp hnodup.2.2 hbase hlinked
    · obtain ⟨o, ho, y, hy, hyx⟩ := mem_nodesOn.mp hon
      rw [← hL'.unique hL₂ ho] at hy
      rcases hmem o ho y hy with hyp | hold
      · obtain ⟨d, -, -, hpd, -, hfresh⟩ := hr.served
        exact hfresh c (hr.kept c hc hcu) hcu (by omega)
      · exact hr.off o ho y hold hyx
  · have hk : kmalloc fuel s 16 = none :=
      kmalloc_diverges h.heap hroom (h.lists.no_heads hany) 16 fuel
    unfold addFreeArea addFreeAreaWith at hs
    split at hs <;> simp [hk] at hs

/-! ### The operations -/

theorem signedBlocks_order (start : Nat) (pages : Int) : ∀ b ∈ signedBlocks start pages, b.1 ≤ 9 := by
  intro b hb
  rcases List.mem_append.mp hb with hb | hb
  · exact bitBlocks_order (by decide) b hb
  · exact topBlocks_order _ _ b hb

theorem returnPages_signed (fuel : Nat) (s : KMem) (addr : Nat) (pages : Int) :
    returnPages fuel s addr pages = addAll (kmalloc fuel) s (signedBlocks addr pages) := by
  rw [returnPages, returnPagesWith, addBits_int, signedBlocks, addAll_append]
  cases addAll (kmalloc fuel) s (bitBlocks (fun i => 4096 * 2 ^ i) 9 0 addr (pages % 2 ^ 9).toNat) with
  | none => rfl
  | some t => simp only [Option.map_some, Option.bind_some, addTop_eq]

theorem Tallied.returnPages {addr : Nat} {pages : Int} (h : Tallied base lost s l L)
    (hroom : NodeRoom s (signedBlocks addr pages).length)
    (hs : returnPages fuel s addr pages = some s') : ∃ l' L', Tallied base lost s' l' L' := by
  rw [returnPages_signed] at hs
  obtain ⟨l', hl', hroom⟩ := hroom
  obtain rfl := h.heap.unique hl'
  exact h.file _ (signedBlocks_order addr pages) hroom hs

theorem Tallied.allocPages {a : Nat} (h : Tallied base lost s l L)
    (hroom : NodeRoom s (surplusBlocks s order).length)
    (hs : allocPages fuel s order = some (s', a)) :
    ∃ l' L' gone, Tallied base (lost + gone) s' l' L' ∧ (gone = 0 ↔ ¬ Finds s order) := by
  obtain ⟨t, ht, he⟩ := Option.map_eq_some_iff.mp hs
  obtain ⟨rfl, -⟩ := Prod.mk.inj he
  obtain ⟨L₁, gone, h₁, hgone⟩ := h.search order 0
  obtain ⟨l', hl', hroom⟩ := hroom
  obtain rfl := h.heap.unique hl'
  obtain ⟨l', L', h₂⟩ := h₁.returnPages ⟨l, h₁.heap, hroom⟩ ht
  exact ⟨l', L', gone, h₂, hgone⟩

end TayHuang
