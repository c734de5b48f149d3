import TayHuang.FreeNodes

/-! Runs of the page allocator after `init_pmm`. A node that was taken off its list stays
allocated, so the used segments are the linked nodes only as long as no search of the lists
finds a block. -/

namespace TayHuang

open Fuel Runs

namespace Vm

variable {fuel pgd : Nat} {v v' : VMem}

/-! ### The calls of `alloc_pages` within `alloc_vpages`

Each with the memory that it is made in, in the order of the calls. -/

def enterTableCalls (v : VMem) (table idx : Nat) : List (KMem × Nat) :=
  if (v.entry table idx).p = false then [(v.kmem, 0)] else []

def setMappingCalls (fuel : Nat) (v : VMem) (pgd vaddr : Nat) (rw us : Bool) : List (KMem × Nat) :=
  enterTableCalls v pgd (pml4eIdx vaddr) ++
    (enterTable fuel v pgd (pml4eIdx vaddr) rw us).elim [] fun r =>
      if r.2 = 0 then [] else enterTableCalls r.1 r.2 (pdpteIdx vaddr) ++
        (enterTable fuel r.1 r.2 (pdpteIdx vaddr) rw us).elim [] fun r =>
          if r.2 = 0 then [] else enterTableCalls r.1 r.2 (pdeIdx vaddr)

def mapPagesCalls (fuel pgd : Nat) (frame : VMem → Nat → Nat) (rw us : Bool) (vaddr : Nat) :
    Nat → Nat → VMem → List (KMem × Nat)
  | 0, _, _ => []
  | n + 1, i, v => setMappingCalls fuel v pgd (pageAt vaddr i) rw us ++
      (__setMapping fuel v pgd (pageAt vaddr i) (frame v i) rw us).elim [] fun r =>
        if r.2 = false then [] else mapPagesCalls fuel pgd frame rw us vaddr n (i + 1) r.1

def allocPieceCalls (fuel pgd : Nat) (v : VMem) (piece : Nat × Nat) : List (KMem × Nat) :=
  (v.kmem, piece.1) :: (allocPages fuel v.kmem piece.1).elim [] fun r =>
    mapPagesCalls fuel pgd (fun _ i => pageAt r.2 i) true true (piece.2 / 4096 * 4096)
      (2 ^ piece.1) 0 ⟨r.1, v.entry⟩

def allocBitsCalls (fuel pgd : Nat) : Nat → Nat → VMem → Nat → Int → List (KMem × Nat)
  | 0, _, _, _, _ => []
  | k + 1, i, v, vaddr, pages =>
    if pages % 2 ≠ 0 then
      allocPieceCalls fuel pgd v (i, vaddr) ++ (allocPiece fuel pgd v (i, vaddr)).elim [] fun r =>
        allocBitsCalls fuel pgd k (i + 1) r.1 (vaddr + 4096 * 2 ^ i) (pages / 2)
    else allocBitsCalls fuel pgd k (i + 1) v vaddr (pages / 2)

def allocTopCalls (fuel pgd : Nat) : Nat → VMem → Nat → List (KMem × Nat)
  | 0, _, _ => []
  | n + 1, v, vaddr =>
    allocPieceCalls fuel pgd v (9, vaddr) ++ (allocPiece fuel pgd v (9, vaddr)).elim [] fun r =>
      allocTopCalls fuel pgd n r.1 (vaddr + 4096 * 2 ^ 9)

def allocVpagesCalls (fuel : Nat) (v : VMem) (pgd addr : Nat) (pages : Int) : List (KMem × Nat) :=
  allocBitsCalls fuel pgd 9 0 v addr pages ++ (allocBits fuel pgd 9 0 v addr pages).elim [] fun r =>
    allocTopCalls fuel pgd r.2.2.toNat r.1.1 r.2.1

/-- These calls of `alloc_pages` in turn lead from one memory to the other. -/
def Allocs (fuel : Nat) : KMem → List (KMem × Nat) → KMem → Prop
  | s, [], s' => s = s'
  | s, c :: cs, s' => c.1 = s ∧ ∃ r, allocPages fuel s c.2 = some r ∧ Allocs fuel r.1 cs s'

theorem Allocs.append {s t s' : KMem} {cs cs' : List (KMem × Nat)} (h : Allocs fuel s cs t)
    (h' : Allocs fuel t cs' s') : Allocs fuel s (cs ++ cs') s' := by
  induction cs generalizing s with
  | nil =>
    obtain rfl : s = t := h
    exact h'
  | cons c cs ih =>
    obtain ⟨hc, r, hr, h⟩ := h
    exact ⟨hc, r, hr, ih h⟩

theorem enterTable_allocs {table idx : Nat} {rw us : Bool} {r : VMem × Nat}
    (h : enterTable fuel v table idx rw us = some r) :
    Allocs fuel v.kmem (enterTableCalls v table idx) r.1.kmem := by
  unfold enterTable at h
  unfold enterTableCalls
  split
  · rename_i hp
    rw [if_pos hp] at h
    obtain ⟨t, ht, rfl⟩ := Option.map_eq_some_iff.mp h
    exact ⟨rfl, t, ht, rfl⟩
  · rename_i hp
    rw [if_neg hp] at h
    obtain rfl := Option.some.inj h
    rfl

theorem setMapping_allocs {vaddr paddr : Nat} {rw us : Bool} {r : VMem × Bool}
    (h : __setMapping fuel v pgd vaddr paddr rw us = some r) :
    Allocs fuel v.kmem (setMappingCalls fuel v pgd vaddr rw us) r.1.kmem := by
  obtain ⟨r₁, h₁, h⟩ := Option.bind_eq_some_iff.mp h
  unfold setMappingCalls
  rw [h₁]
  refine (enterTable_allocs h₁).append ?_
  dsimp only [Option.elim_some]
  split at h
  · rename_i h0
    obtain rfl := Option.some.inj h
    rw [if_pos h0]
    rfl
  rename_i h0
  rw [if_neg h0]
  obtain ⟨r₂, h₂, h⟩ := Option.bind_eq_some_iff.mp h
  rw [h₂]
  refine (enterTable_allocs h₂).append ?_
  dsimp only [Option.elim_some]
  split at h
  · rename_i h0
    obtain rfl := Option.some.inj h
    rw [if_pos h0]
    rfl
  rename_i h0
  rw [if_neg h0]
  obtain ⟨r₃, h₃, rfl⟩ := Option.map_eq_some_iff.mp h
  have hh := enterTable_allocs h₃
  split <;> exact hh

theorem mapPages_allocs {frame : VMem → Nat → Nat} {rw us : Bool} {vaddr n i : Nat}
    {r : VMem × Bool × List (Nat × Nat)} (h : mapPages fuel pgd frame rw us vaddr n i v = some r) :
    Allocs fuel v.kmem (mapPagesCalls fuel pgd frame rw us vaddr n i v) r.1.kmem := by
  induction n generalizing i v r with
  | zero =>
    obtain rfl := Option.some.inj h
    rfl
  | succ n ih =>
    obtain ⟨r₁, h₁, h⟩ := Option.bind_eq_some_iff.mp h
    rw [mapPagesCalls, h₁]
    refine (setMapping_allocs h₁).append ?_
    dsimp only [Option.elim_some]
    split at h
    · rename_i h0
      obtain rfl := Option.some.inj h
      rw [if_pos h0]
      rfl
    · rename_i h0
      obtain ⟨r₂, h₂, rfl⟩ := Option.map_eq_some_iff.mp h
      rw [if_neg h0]
      have hh := ih h₂
      exact hh

theorem allocPiece_allocs {piece : Nat × Nat} {r : VMem × Bool × List (Nat × Nat)}
    (h : allocPiece fuel pgd v piece = some r) :
    Allocs fuel v.kmem (allocPieceCalls fuel pgd v piece) r.1.kmem := by
  obtain ⟨r₁, h₁, h⟩ := Option.bind_eq_some_iff.mp h
  unfold allocPieceCalls
  rw [h₁]
  exact ⟨rfl, r₁, h₁, mapPages_allocs h⟩

theorem allocBits_allocs {k i vaddr : Nat} {pages : Int} {r : (VMem × List (Nat × Nat)) × Nat × Int}
    (h : allocBits fuel pgd k i v vaddr pages = some r) :
    Allocs fuel v.kmem (allocBitsCalls fuel pgd k i v vaddr pages) r.1.1.kmem := by
  induction k generalizing i v vaddr pages r with
  | zero =>
    obtain rfl := Option.some.inj h
    rfl
  | succ k ih =>
    rw [allocBits] at h
    rw [allocBitsCalls]
    split at h
    · rename_i hp
      obtain ⟨r₁, h₁, h⟩ := Option.bind_eq_some_iff.mp h
      obtain ⟨r₂, h₂, rfl⟩ := Option.map_eq_some_iff.mp h
      have hh := ih h₂
      rw [if_pos hp, h₁]
      exact (allocPiece_allocs h₁).append hh
    · rename_i hp
      rw [if_neg hp]
      exact ih h

theorem allocTop_allocs {n vaddr : Nat} {r : VMem × List (Nat × Nat)}
    (h : allocTop fuel pgd n v vaddr = some r) :
    Allocs fuel v.kmem (allocTopCalls fuel pgd n v vaddr) r.1.kmem := by
  induction n generalizing v vaddr r with
  | zero =>
    obtain rfl := Option.some.inj h
    rfl
  | succ n ih =>
    obtain ⟨r₁, h₁, h⟩ := Option.bind_eq_some_iff.mp h
    obtain ⟨r₂, h₂, rfl⟩ := Option.map_eq_some_iff.mp h
    have hh := ih h₂
    rw [allocTopCalls, h₁]
    exact (allocPiece_allocs h₁).append hh

theorem allocVpages_allocs {addr : Nat} {pages : Int} {r : VMem × List (Nat × Nat)}
    (h : allocVpages fuel v pgd addr pages = some r) :
    Allocs fuel v.kmem (allocVpagesCalls fuel v pgd addr pages) r.1.kmem := by
  obtain ⟨r₁, h₁, h⟩ := Option.bind_eq_some_iff.mp h
  obtain ⟨r₂, h₂, rfl⟩ := Option.map_eq_some_iff.mp h
  have hh := allocTop_allocs h₂
  unfold allocVpagesCalls
  rw [h₁]
  exact (allocBits_allocs h₁).append hh

/-! ### Runs -/

/-- A call of the page allocator, with the fuel that it returns on. -/
inductive PageCall
  | allocPages (fuel order : Nat)
  | allocFreePages (order give : Nat)
  | returnPages (fuel addr : Nat) (pages : Int)
  | allocVpages (fuel pgd addr : Nat) (pages : Int)

def pageStep (v : VMem) : PageCall → VMem → Prop
  | .allocPages fuel order, v' => ∃ r, allocPages fuel v.kmem order = some r ∧ v' = ⟨r.1, v.entry⟩
  | .allocFreePages order give, v' => v' = ⟨(allocFreePages v.kmem order give).1, v.entry⟩
  | .returnPages fuel addr pages, v' =>
    ∃ s, returnPages fuel v.kmem addr pages = some s ∧ v' = ⟨s, v.entry⟩
  | .allocVpages fuel pgd addr pages, v' =>
    ∃ m, allocVpages fuel v pgd addr pages = some (v', m)

/-- The searches of the free lists that a call makes, for how many pages and in which memory. -/
def searches (v : VMem) : PageCall → List (KMem × Nat)
  | .allocPages _ order => [(v.kmem, order)]
  | .allocFreePages order _ => [(v.kmem, order)]
  | .returnPages .. => []
  | .allocVpages fuel pgd addr pages => allocVpagesCalls fuel v pgd addr pages

/-- The heap need not grow for a node: it has room for those of all blocks that go back. -/
def Roomy (v : VMem) : PageCall → Prop
  | .allocPages _ order => NodeRoom v.kmem (surplusBlocks v.kmem order).length
  | .allocFreePages .. => True
  | .returnPages _ addr pages => NodeRoom v.kmem (signedBlocks addr pages).length
  | .allocVpages fuel pgd addr pages =>
    ∀ c ∈ allocVpagesCalls fuel v pgd addr pages, NodeRoom c.1 (surplusBlocks c.1 c.2).length

/-- No search finds a block. -/
def Fruitless (v : VMem) (c : PageCall) : Prop := ∀ x ∈ searches v c, ¬ Finds x.1 x.2

/-- The page count of `init_pmm`. -/
def initPages (memsize limit : Nat) : Nat := (pageCount memsize + 2 ^ 64 - pageCount limit) % 2 ^ 64

/-- `init_pmm` was called on empty lists, with `base` on the heap and room for its nodes. -/
def Initialized (base : Multiset Nat) (v : VMem) : Prop :=
  ∃ s l memsize limit fuel, HeapAt Set.univ s l ∧ usedNodes l = base ∧
    (∀ o ≤ 9, s.listHead o = none) ∧ (initBlocks limit (initPages memsize limit)).length ≤ room l ∧
    initPmm fuel s memsize limit = some v.kmem

variable {base lost : Multiset Nat} {es : List PageCall} {l : List Seg} {L : Nat → List (Nat × Nat)}

theorem Initialized.tallied (h : Initialized base v) : ∃ l L, Tallied base 0 v.kmem l L := by
  obtain ⟨s, l, memsize, limit, fuel, hl, rfl, hlists, hroom, hs⟩ := h
  rw [initPmm_eq fuel s (show _ = initPages memsize limit from rfl)] at hs
  split at hs
  · have h0 : Tallied (usedNodes l) 0 s l fun _ => [] :=
      ⟨hl, listsAt_empty hlists, by simp [NodesIn], by simp [nodesOn]⟩
    exact h0.file _ (initBlocks_order limit _) hroom hs
  · simp at hs

theorem tallied_allocs {s s' : KMem} {cs : List (KMem × Nat)} (h : Tallied base lost s l L)
    (hroom : ∀ c ∈ cs, NodeRoom c.1 (surplusBlocks c.1 c.2).length) (hs : Allocs fuel s cs s') :
    ∃ l' L' gone, Tallied base (lost + gone) s' l' L' ∧ (gone = 0 ↔ ∀ c ∈ cs, ¬ Finds c.1 c.2) := by
  induction cs generalizing s l L lost with
  | nil =>
    obtain rfl : s = s' := hs
    exact ⟨l, L, 0, by rwa [add_zero], by simp⟩
  | cons c cs ih =>
    obtain ⟨rfl, r, hr, hs⟩ := hs
    obtain ⟨l₁, L₁, gone, h₁, hgone⟩ := h.allocPages (hroom c (by simp)) hr
    obtain ⟨l₂, L₂, gone₂, h₂, hgone₂⟩ := ih h₁ (fun x hx => hroom x (by simp [hx])) hs
    refine ⟨l₂, L₂, gone + gone₂, by rwa [← add_assoc], ?_⟩
    rw [add_eq_zero, hgone, hgone₂, List.forall_mem_cons]

/-- What a step loses. -/
theorem tallied_step {c : PageCall} (h : Tallied base lost v.kmem l L) (hroom : Roomy v c)
    (hs : pageStep v c v') : ∃ l' L' gone, Tallied base (lost + gone) v'.kmem l' L' ∧
      (gone = 0 ↔ Fruitless v c) := by
  cases c with
  | allocPages fuel order =>
    obtain ⟨r, hr, rfl⟩ := hs
    obtain ⟨l', L', gone, h', hgone⟩ := h.allocPages hroom hr
    exact ⟨l', L', gone, h', by simpa [Fruitless, searches] using hgone⟩
  | allocFreePages order give =>
    obtain rfl := hs
    obtain ⟨L', gone, h', hgone⟩ := h.search order give
    exact ⟨l, L', gone, h', by simpa [Fruitless, searches] using hgone⟩
  | returnPages fuel addr pages =>
    obtain ⟨s, hr, rfl⟩ := hs
    obtain ⟨l', L', h'⟩ := h.returnPages hroom hr
    exact ⟨l', L', 0, by rwa [add_zero], by simp [Fruitless, searches]⟩
  | allocVpages fuel pgd addr pages =>
    obtain ⟨m, hm⟩ := hs
    exact tallied_allocs h hroom (allocVpages_allocs hm)

/-- Nothing is lost in a run exactly if none of its searches finds a block. -/
theorem run_tallied (h : Run (Initialized base) (Guarded Roomy pageStep) es v) :
    ∃ l L lost, Tallied base lost v.kmem l L ∧
      (lost = 0 → Run (Initialized base) (Guarded Fruitless (Guarded Roomy pageStep)) es v) := by
  induction h with
  | start h =>
    obtain ⟨l, L, ht⟩ := h.tallied
    exact ⟨l, L, 0, ht, fun _ => .start h⟩
  | snoc run h ih =>
    obtain ⟨l, L, lost, ht, hrun⟩ := ih
    obtain ⟨l', L', gone, ht', hgone⟩ := tallied_step ht h.1 h.2
    refine ⟨l', L', lost + gone, ht', fun h0 => ?_⟩
    obtain ⟨h0, h1⟩ := add_eq_zero.mp h0
    exact .snoc (hrun h0) ⟨hgone.mp h1, h⟩

theorem fruitless_tallied
    (h : Run (Initialized base) (Guarded Fruitless (Guarded Roomy pageStep)) es v) :
    ∃ l L, Tallied base 0 v.kmem l L := by
  induction h with
  | start h => exact h.tallied
  | snoc run h ih =>
    obtain ⟨l, L, ht⟩ := ih
    obtain ⟨l', L', gone, ht', hgone⟩ := tallied_step ht h.2.1 h.2.2
    rw [hgone.mpr h.1, add_zero] at ht'
    exact ⟨l', L', ht'⟩

/-- While the heap has room for the nodes, its used segments are the linked nodes exactly if
no search of the lists found a block. -/
theorem nodes_linked_iff (h : Run (Initialized base) (Guarded Roomy pageStep) es v) :
    NodesLinked base v.kmem ↔
      Run (Initialized base) (Guarded Fruitless (Guarded Roomy pageStep)) es v := by
  constructor
  · intro hn
    obtain ⟨l, L, lost, ht, hrun⟩ := run_tallied h
    exact hrun (ht.linked_iff.mp hn)
  · intro hrun
    obtain ⟨l, L, ht⟩ := fruitless_tallied hrun
    exact ht.linked_iff.mpr rfl

/-- One page behind 32 MiB. -/
theorem initialized_page : ∃ v l L, Initialized 0 v ∧ Tallied 0 0 v.kmem l L ∧ 2 ≤ room l ∧
    ∃ p, L 0 = [(p, 0x2000000)] := by
  have hboot := bootMem_heapAt.mono (Set.subset_univ _)
  have hroom : room [⟨0x10000, 0x10000, false⟩] = 1024 := by decide
  obtain ⟨s, l, ns, hset, hl, -, hr, -, hns, hL, -⟩ :=
    addAll_settles [(0, 0x2000000)] hboot (listsAt_empty fun _ _ => rfl) (by simp [NodesIn])
      (by simp) (by rw [hroom]; decide)
  obtain ⟨N, hN⟩ := hset.enough
  have hinit : initPmm N bootMem 0x2001000 0x2000000 = some s := by
    have hpages : (pageCount 0x2001000 + 2 ^ 64 - pageCount 0x2000000) % 2 ^ 64 = 1 := by decide
    rw [initPmm_eq N bootMem hpages, if_pos (by decide)]
    exact hN N le_rfl
  have h : Initialized 0 ⟨s, fun _ _ => .zero⟩ :=
    ⟨bootMem, _, 0x2001000, 0x2000000, N, hboot, rfl, fun _ _ => rfl, by rw [hroom]; decide, hinit⟩
  obtain ⟨l', L', ht⟩ := h.tallied
  obtain rfl := hl.unique ht.heap
  refine ⟨_, l, L', h, ht, ?_, ?_⟩
  · rw [hroom] at hr
    simp only [List.length_singleton] at hr
    omega
  · obtain ⟨n, rfl⟩ : ∃ n, ns = [n] := List.length_eq_one_iff.mp (by
      have hlen := congrArg List.length hns
      rwa [List.length_map] at hlen)
    rw [← hL.unique ht.lists (Nat.zero_le 9)]
    obtain ⟨o, q, a⟩ := n
    obtain ⟨rfl, rfl⟩ : o = 0 ∧ a = 0x2000000 := by simpa using hns
    exact ⟨q, rfl⟩

theorem signedBlocks_one (start : Nat) : signedBlocks start 1 = [(0, start)] := by
  simp [signedBlocks, bitBlocks, topBlocks]

/-- A page that is returned after `init_pmm`. -/
theorem nodes_linked_returned : ∃ es v, es ≠ [] ∧ NodesLinked 0 v.kmem ∧
    Run (Initialized 0) (Guarded Roomy pageStep) es v := by
  obtain ⟨v, l, L, hv, ht, hroom, -⟩ := initialized_page
  obtain ⟨s, -, -, hset, -⟩ := returnPages_settles ht.heap ht.lists ht.nodes 0x2001000 1
    (by rw [show blockCount 1 = 1 by decide]; omega)
  obtain ⟨N, hN⟩ := hset.enough
  have hstep : Guarded Roomy pageStep v (.returnPages N 0x2001000 1) ⟨s, v.entry⟩ := by
    refine ⟨⟨l, ht.heap, ?_⟩, s, hN N le_rfl, rfl⟩
    rw [signedBlocks_one, List.length_singleton]
    omega
  exact ⟨_, _, List.cons_ne_nil _ _, (nodes_linked_iff (.snoc (.start hv) hstep)).mpr
    (.snoc (.start hv) ⟨by simp [Fruitless, searches], hstep⟩), .snoc (.start hv) hstep⟩

/-- A page that is allocated and returned: its first node stays on the heap, on no list. -/
theorem nodes_stranded : ¬ ∀ (base : Multiset Nat) (es : List PageCall) (v : VMem),
    Run (Initialized base) pageStep es v → NodesLinked base v.kmem := by
  intro hall
  obtain ⟨v, l, L, hv, ht, hroom, p, hL⟩ := initialized_page
  have hf : Found L 0 0 := ⟨le_rfl, by decide, by simp [hL], by omega⟩
  obtain ⟨s₁, l₁, L₁, hset₁, hl₁, hL₁, hN₁, hr₁, -⟩ :=
    allocPages_settles ht.heap ht.lists ht.nodes hf hL (by omega)
  obtain ⟨N, hN⟩ := hset₁.enough
  obtain ⟨s₂, -, -, hset₂, -⟩ := returnPages_settles hl₁ hL₁ hN₁ 0x2000000 1
    (by rw [show blockCount 1 = 1 by decide]; omega)
  obtain ⟨M, hM⟩ := hset₂.enough
  have hstep₁ : pageStep v (.allocPages N 0) ⟨s₁, v.entry⟩ := ⟨_, hN N le_rfl, rfl⟩
  have hstep₂ : pageStep ⟨s₁, v.entry⟩ (.returnPages M 0x2000000 1) ⟨s₂, v.entry⟩ :=
    ⟨s₂, hM M le_rfl, rfl⟩
  have hroomy : Roomy v (.allocPages N 0) := by
    refine ⟨l, ht.heap, ?_⟩
    rw [surplusBlocks, allocFreePages_found ht.lists hf hL]
    simp [signedBlocks, bitBlocks, topBlocks]
  obtain ⟨l', L', gone, ht₁, hgone⟩ := tallied_step ht hroomy hstep₁
  obtain rfl := hl₁.unique ht₁.heap
  have hroomy₂ : Roomy ⟨s₁, v.entry⟩ (.returnPages M 0x2000000 1) := by
    refine ⟨l₁, hl₁, ?_⟩
    rw [signedBlocks_one, List.length_singleton]
    omega
  obtain ⟨l₂, L₂, gone₂, ht₂, -⟩ := tallied_step ht₁ hroomy₂ hstep₂
  have h0 := ht₂.linked_iff.mp (hall 0 _ _ (.snoc (.snoc (.start hv) hstep₁) hstep₂))
  obtain ⟨h0, -⟩ := add_eq_zero.mp h0
  rw [zero_add] at h0
  refine hgone.mp h0 (v.kmem, 0) (by simp [searches]) ⟨0, le_rfl, by decide, ?_⟩
  rw [ht.lists.head 0 (by decide), hL]
  simp

end Vm

end TayHuang
