import TayHuang.FullHeap

/-! Returning a block when the heap is full. The head and the tail of the list
that is being extended were read before the heap grew and took a block off the
same lists. -/

namespace TayHuang

open Function (update)
open LinkedCells Fuel

variable {s : KMem} {l : List Seg} {L : Nat → List (Nat × Nat)}
variable {i order address : Nat} {x : Nat × Nat} {rest : List (Nat × Nat)}
variable {ns : List (Nat × Nat × Nat)}

/-- Both allocators in a consistent state. Free blocks are outside the heap. -/
structure PagesAt (s : KMem) (l : List Seg) (L : Nat → List (Nat × Nat)) : Prop where
  heap : HeapAt Set.univ s l
  lists : ListsAt s L
  tails : TailsAt s L
  nodes : NodesIn l L
  blocks : ∀ o ≤ 9, ∀ x ∈ L o, x.2 ≠ 0 ∧ ∀ c ∈ l, Seg.Apart c ⟨x.2, 4096 * 2 ^ o, false⟩

/-- The blocks that the heap took, from its record `g` of growths. -/
def taken (g : List (Nat × Nat)) : Multiset (Nat × Nat) :=
  (g.map fun b => (b.2, b.1) : List (Nat × Nat))

/-- What is left of them behind the first `2 ^ 6` pages of each, in blocks. -/
def surplus (g : List (Nat × Nat)) : Multiset (Nat × Nat) :=
  (g.flatMap fun b => ((List.range b.2).filter (6 ≤ ·)).map fun j => (j, b.1 + 4096 * 2 ^ j) :
    List (Nat × Nat))

/-- The free lists of `s'` are those of `s` with the block filed, less what the
heap took in between, plus the surplus of that. -/
def Refiled (s : KMem) (L : Nat → List (Nat × Nat)) (order address : Nat) (s' : KMem) : Prop :=
  ∃ L' g, ListsAt s' L' ∧ TailsAt s' L' ∧ s'.grown = s.grown ++ g ∧ taken g ≤ recorded L ∧
    recorded L' = recorded L - taken g + surplus g + {(order, address)}

/-- The heap has a free segment, or it can grow without the list of this order
being changed behind the back of `add_free_area`. -/
def Refilable (l : List Seg) (L : Nat → List (Nat × Nat)) (order : Nat) : Prop :=
  (∃ x ∈ l, x.used = false) ∨
    ∃ i, 6 ≤ i ∧ i ≤ 9 ∧ L i ≠ [] ∧ (order < 6 ∨ i < order ∨ i = order ∧ 2 ≤ (L i).length)

theorem ListsAt.unique {L' : Nat → List (Nat × Nat)} (h : ListsAt s L) (h' : ListsAt s L')
    {o : Nat} (ho : o ≤ 9) : L o = L' o := by
  refine (h.chained o ho).unique (h'.chained o ho) ?_ ?_
  · simpa [entry] using (h.head o ho).symm.trans (h'.head o ho)
  · intro x y n n' hxy hc
    obtain ⟨h1, h2⟩ := FreeArea.mk.inj hc
    exact ⟨Prod.ext hxy h1, h2⟩

theorem ListsAt.recorded_eq {L' : Nat → List (Nat × Nat)} (h : ListsAt s L) (h' : ListsAt s L') :
    recorded L = recorded L' := by
  apply Finset.sum_congr rfl
  intro o ho
  rw [h.unique h' (by simpa [Nat.lt_succ_iff] using ho)]

/-! ### What becomes of the lists -/

theorem refile_room (h : PagesAt s l L) (h9 : order ≤ 9) (hroom : 0 < room l) :
    ∃ s', Settles (fun fuel => addFreeArea fuel s order address) s' ∧
      Refiled s L order address s' := by
  obtain ⟨s', p, l', hset, -, -, -, -, hL, -, hg, ht, -⟩ :=
    addFreeArea_settles h.heap h.lists h.nodes h9 _ hroom
  refine ⟨s', hset, _, [], hL, h.tails.link (by simp) hL ht, by simp [hg], by simp [taken], ?_⟩
  rw [recorded_push h9]
  simp [taken, surplus]

/-- The blocks on the lists once the heap has grown by the block `x` of order `i`. -/
theorem recorded_grown (h9 : i ≤ 9) (hL : L i = x :: rest)
    (hns : (ns.map fun n => (n.1, n.2.2)) =
      ((List.range i).filter (6 ≤ ·)).map fun j => (j, x.2 + 4096 * 2 ^ j)) :
    taken [(x.2, i)] ≤ recorded L ∧ recorded (fileAll (update L i rest) ns) =
      recorded L - taken [(x.2, i)] + surplus [(x.2, i)] := by
  have hpop := recorded_pop h9 hL
  have h9' : ∀ n ∈ ns, n.1 ≤ 9 := by
    intro n hn
    have hm : (n.1, n.2.2) ∈ ns.map fun n => (n.1, n.2.2) := List.mem_map_of_mem hn
    rw [hns] at hm
    obtain ⟨j, hj, he⟩ := List.mem_map.mp hm
    have := List.mem_range.mp (List.mem_filter.mp hj).1
    have := congrArg Prod.fst he
    simp only at this
    omega
  have htaken : taken [(x.2, i)] = {(i, x.2)} := rfl
  rw [htaken, recorded_fileAll h9', hns, ← hpop, Multiset.add_sub_cancel_right]
  refine ⟨Multiset.le_add_left _ _, ?_⟩
  simp [surplus]

theorem fileAll_grown {M : Nat → List (Nat × Nat)} {a : Nat}
    (hns : (ns.map fun n => (n.1, n.2.2)) =
      ((List.range i).filter (6 ≤ ·)).map fun j => (j, a + 4096 * 2 ^ j)) :
    fileAll M ns order = M order ↔ ¬ (6 ≤ order ∧ order < i) := by
  have hiff : (∃ n ∈ ns, n.1 = order) ↔ 6 ≤ order ∧ order < i := by
    have hm : order ∈ (ns.map fun n => (n.1, n.2.2)).map Prod.fst ↔ 6 ≤ order ∧ order < i := by
      rw [hns]
      simp [and_comm]
    rw [← hm]
    simp
  have hnil : fileAll M ns order = M order ↔ ∀ n ∈ ns, ¬ n.1 = order := by
    rw [fileAll, List.append_right_eq_self, List.map_eq_nil_iff, List.filter_eq_nil_iff]
    simp only [decide_eq_true_eq]
  rw [← hiff, hnil]
  constructor
  · rintro h ⟨n, hn, he⟩
    exact h n hn he
  · exact fun h n hn he => h ⟨n, hn, he⟩

/-- The heap took the front of a list and gave blocks to empty ones only; a list
that still has a node ends in the node it ended in before. -/
theorem Regrown.last_kept {mem : Set Nat} {s' : KMem} {p : Nat} {l₁ l' : List Seg}
    {pre : List (Nat × Nat)} {t : Nat × Nat} (hr : Regrown mem s l L i x rest s' p l₁ l' ns)
    (hL : L i = x :: rest) (hempty : ∀ o, 6 ≤ o → o < i → L o = []) (hpt : L order = pre ++ [t])
    (hcut : order = i → rest ≠ []) :
    ∃ pre', fileAll (update L i rest) ns order = pre' ++ [t] := by
  have hne : ¬ (6 ≤ order ∧ order < i) := by
    rintro ⟨h1, h2⟩
    simp [hempty order h1 h2] at hpt
  rw [(fileAll_grown hr.pieces).mpr hne]
  by_cases hi : order = i
  · have hrest := hcut hi
    subst hi
    obtain ⟨q, u, rfl⟩ : ∃ q u, rest = q ++ [u] :=
      ⟨_, _, (List.dropLast_append_getLast hrest).symm⟩
    rw [hL, ← List.cons_append] at hpt
    obtain ⟨-, hu⟩ := List.append_inj' hpt rfl
    exact ⟨q, by rw [Function.update_self, hu]⟩
  · exact ⟨pre, by rw [Function.update_of_ne hi, hpt]⟩

theorem PagesAt.grows (h : PagesAt s l L) (hroom : room l = 0) (h6 : 6 ≤ i) (h9 : i ≤ 9)
    (hempty : ∀ o, 6 ≤ o → o < i → L o = []) (hL : L i = x :: rest) :
    ∃ s' p l₁ l' ns, Regrown Set.univ s l L i x rest s' p l₁ l' ns := by
  obtain ⟨h0, hap⟩ := h.blocks i h9 x (by simp [hL])
  have hpow : 2 ^ 6 ≤ 2 ^ i := Nat.pow_le_pow_right (by decide) h6
  refine kmalloc_grows h.heap h.lists h.nodes hroom h6 h9 hempty hL h0 ?_ (Set.subset_univ _)
    (Set.subset_univ _)
  intro c hc
  have := hap c hc
  unfold Seg.Apart at this ⊢
  simp only at this ⊢
  omega

theorem refile_grown (h : PagesAt s l L) (hroom : room l = 0) (h6 : 6 ≤ i) (h9 : i ≤ 9)
    (hempty : ∀ o, 6 ≤ o → o < i → L o = []) (hL : L i = x :: rest) (ho : order ≤ 9)
    (hord : order < 6 ∨ i < order ∨ i = order ∧ rest ≠ []) :
    ∃ s', Settles (fun fuel => addFreeArea fuel s order address) s' ∧
      Refiled s L order address s' := by
  obtain ⟨s₁, p, l₁, l', ns, hr⟩ := h.grows hroom h6 h9 hempty hL
  have hset := hr.settles
  have hf := hr.nodes.fresh hr.served
  have ht₁ := hr.tails h.tails
  obtain ⟨hle, hrec⟩ := recorded_grown h9 hL hr.pieces
  have hsame : fileAll (update L i rest) ns order = update L i rest order :=
    (fileAll_grown hr.pieces).mpr (by omega)
  by_cases he : L order = []
  · have hi : order ≠ i := by
      rintro rfl
      simp [hL] at he
    have hhead : s.listHead order = none := by rw [h.lists.head order ho, he]; rfl
    have hlink := hr.lists.link_empty order address hf
    refine ⟨linkEmpty s₁ order address p, ?_, _, [(x.2, i)], hlink,
      ht₁.link (by simp) hlink (fun o ho => Function.update_of_ne ho _ _), hr.grown, hle, ?_⟩
    · simp only [addFreeArea, addFreeAreaWith, hhead]
      exact hset.map _
    · rw [Function.update_of_ne hi, he] at hsame
      have hpush := recorded_push (L := fileAll (update L i rest) ns) (p := p) (a := address) ho
      rw [hsame, List.nil_append] at hpush
      rw [hpush, hrec]
  · obtain ⟨pre, t, hpt⟩ : ∃ pre t, L order = pre ++ [t] :=
      ⟨_, _, (List.dropLast_append_getLast he).symm⟩
    obtain ⟨y, hhead⟩ : ∃ y, s.listHead order = some y := by
      rw [h.lists.head order ho]
      cases hc : L order with
      | nil => exact absurd hc he
      | cons y ys => exact ⟨y.1, rfl⟩
    have htail : s.listTail order = some t.1 := by
      rw [h.tails order ho, hpt]
      simp
    obtain ⟨pre', hpt'⟩ := hr.last_kept hL hempty hpt (by
      rintro rfl
      rcases hord with hlt | hlt | ⟨-, hne⟩
      · omega
      · omega
      · exact hne)
    have hlink := hr.lists.link_tail address ho hpt' hf
    refine ⟨linkTail s₁ order address t.1 p, ?_, _, [(x.2, i)], hlink,
      ht₁.link (by simp) hlink (fun o ho => Function.update_of_ne ho _ _), hr.grown, hle, ?_⟩
    · simp only [addFreeArea, addFreeAreaWith, hhead, htail, Option.bind_some]
      exact hset.map _
    · rw [recorded_push ho, hrec]

/-- The surplus gave a block to this list in between; it is overwritten. -/
theorem refile_overwritten (h : PagesAt s l L) (hroom : room l = 0) (h9 : i ≤ 9)
    (hempty : ∀ o, 6 ≤ o → o < i → L o = []) (hL : L i = x :: rest) (h6 : 6 ≤ order)
    (hi : order < i) {s' : KMem} (hs : Settles (fun fuel => addFreeArea fuel s order address) s') :
    ¬ Refiled s L order address s' := by
  rintro ⟨L', g, hL', -, hg', -, hrec'⟩
  obtain ⟨s₁, p, l₁, l', ns, hr⟩ := h.grows hroom (by omega) h9 hempty hL
  have hset := hr.settles
  have hf := hr.nodes.fresh hr.served
  obtain ⟨-, hrec⟩ := recorded_grown h9 hL hr.pieces
  have hhead : s.listHead order = none := by
    rw [h.lists.head order (by omega), hempty order h6 hi]
    rfl
  have hlink := hr.lists.link_empty order address hf
  have hs' : s' = linkEmpty s₁ order address p := by
    refine hs.eq ?_
    simp only [addFreeArea, addFreeAreaWith, hhead]
    exact hset.map _
  subst hs'
  obtain rfl : g = [(x.2, i)] := List.append_cancel_left (hg'.symm.trans hr.grown)
  -- one block too few is recorded
  rw [← hlink.recorded_eq hL', ← hrec] at hrec'
  have hup := recorded_update (L := fileAll (update L i rest) ns) (o := order)
    [(p, address)] (by omega)
  have hb : blocksOf order [(p, address)] = {(order, address)} := rfl
  rw [hb, hrec', add_eq_left] at hup
  have hnil : fileAll (update L i rest) ns order = [] := by
    simpa [blocksOf] using hup
  have hold : update L i rest order = [] := by
    rw [Function.update_of_ne (by omega)]
    exact hempty order h6 hi
  exact (fileAll_grown hr.pieces).mp (hnil.trans hold.symm) ⟨h6, hi⟩

/-- The heap took the only block of this list; the new node is linked behind a
node that is on no list any more. -/
theorem refile_cut (h : PagesAt s l L) (hroom : room l = 0) (h6 : 6 ≤ order) (h9 : order ≤ 9)
    (hempty : ∀ o, 6 ≤ o → o < order → L o = []) (hL : L order = [x]) {s' : KMem}
    (hs : Settles (fun fuel => addFreeArea fuel s order address) s') :
    s'.listHead order = none ∧ s'.listTail order ≠ none := by
  obtain ⟨s₁, p, l₁, l', ns, hr⟩ := h.grows hroom h6 h9 hempty hL
  have hset := hr.settles
  have hhead : s.listHead order = some x.1 := by rw [h.lists.head order h9, hL]; rfl
  have htail : s.listTail order = some x.1 := by rw [h.tails order h9, hL]; rfl
  have hs' : s' = linkTail s₁ order address x.1 p := by
    refine hs.eq ?_
    simp only [addFreeArea, addFreeAreaWith, hhead, htail, Option.bind_some]
    exact hset.map _
  have hnil : fileAll (update L order []) ns order = [] := by
    rw [(fileAll_grown hr.pieces).mpr (by omega), Function.update_self]
  subst hs'
  refine ⟨?_, by simp [linkTail]⟩
  have := hr.lists.head order h9
  rw [hnil] at this
  exact this

/-- Returning a block keeps exact account of the free blocks, with list heads and
tails that fit, if and only if the heap has a free segment or can grow without
touching the end of the list that is being extended. -/
theorem addFreeArea_refiled_iff (h : PagesAt s l L) (h9 : order ≤ 9) :
    (∃ s', Settles (fun fuel => addFreeArea fuel s order address) s' ∧
      Refiled s L order address s') ↔ Refilable l L order := by
  by_cases hroom : 0 < room l
  · exact ⟨fun _ => Or.inl ((room_pos_iff h.heap.arena).mp hroom),
      fun _ => refile_room h h9 hroom⟩
  have hfree : ¬ ∃ y ∈ l, y.used = false := fun hy => hroom ((room_pos_iff h.heap.arena).mpr hy)
  have hroom0 : room l = 0 := by omega
  by_cases hany : ∃ i, 6 ≤ i ∧ i ≤ 9 ∧ L i ≠ []
  · obtain ⟨i, h6, hi9, hne, hmin⟩ := exists_least hany
    obtain ⟨x, rest, hL⟩ := List.exists_cons_of_ne_nil hne
    constructor
    · rintro ⟨s', hs, hr⟩
      refine Or.inr ⟨i, h6, hi9, hne, ?_⟩
      by_contra hno
      rw [not_or, not_or, hL] at hno
      obtain ⟨ho6, hio, hcut⟩ := hno
      rcases Nat.lt_or_eq_of_le (Nat.not_lt.mp hio) with hlt | rfl
      · exact refile_overwritten h hroom0 hi9 hmin hL (by omega) hlt hs hr
      · have hrest : rest = [] := by
          by_contra hr
          have := List.length_pos_iff.mpr hr
          exact hcut ⟨rfl, by simp; omega⟩
        subst hrest
        obtain ⟨hh, ht⟩ := refile_cut h hroom0 h6 h9 hmin hL hs
        obtain ⟨L', g, hL', hT', -⟩ := hr
        rw [hL'.head order h9] at hh
        apply ht
        rw [hT' order h9]
        simpa using hh
    · rintro (hf | ⟨j, hj6, hj9, hjne, hord⟩)
      · exact absurd hf hfree
      · refine refile_grown h hroom0 h6 hi9 hmin hL h9 ?_
        have hij : i ≤ j := by
          by_contra hlt
          exact hjne (hmin j hj6 (by omega))
        rcases hord with ho | ho | ⟨rfl, hlen⟩
        · exact Or.inl ho
        · exact Or.inr (Or.inl (by omega))
        · rcases Nat.lt_or_eq_of_le hij with hlt | rfl
          · exact Or.inr (Or.inl hlt)
          · refine Or.inr (Or.inr ⟨rfl, ?_⟩)
            rintro rfl
            simp [hL] at hlen
  · constructor
    · rintro ⟨s', hs, -⟩
      have hk := kmalloc_diverges h.heap hroom0 (h.lists.no_heads hany) 16
      refine absurd ?_ hs.not_diverges
      intro fuel
      have hk' : kmalloc fuel s 16 = none := hk fuel
      unfold addFreeArea addFreeAreaWith
      split <;> simp [hk']
    · rintro (hf | ⟨j, hj6, hj9, hjne, -⟩)
      · exact absurd hf hfree
      · exact absurd ⟨j, hj6, hj9, hjne⟩ hany

/-- A full heap of one segment, which holds the node of the only free block: the
one at 2 MiB, of order `i`. -/
def fullHeap (i : Nat) : KMem where
  startAddr := 0x100000
  seg := update (fun _ => ⟨0, false, none, none⟩) 0x100000 ⟨64, true, none, none⟩
  area := update (fun _ => ⟨0, none⟩) 0x100018 ⟨0x200000, none⟩
  listHead := update (fun _ => none) i (some 0x100018)
  listTail := update (fun _ => none) i (some 0x100018)
  grown := []

theorem fullHeap_pagesAt (i : Nat) : PagesAt (fullHeap i) [⟨0x100000, 64, true⟩]
    (update (fun _ => []) i [(0x100018, 0x200000)]) := by
  have hmem : ∀ o, ∀ x ∈ update (fun _ => []) i [(0x100018, 0x200000)] o,
      o = i ∧ x = ((0x100018, 0x200000) : Nat × Nat) := by
    intro o x hx
    by_cases he : o = i
    · subst he
      rw [Function.update_self] at hx
      exact ⟨rfl, List.mem_singleton.mp hx⟩
    · simp [he] at hx
  refine ⟨⟨rfl, ?_, ?_⟩, ⟨?_, ?_, ?_, ?_, ?_⟩, ?_, ?_, ?_⟩
  · exact ⟨by simp [fullHeap, segCell], trivial⟩
  · exact ⟨by simp, by simp, by simp, by simp, by simp⟩
  · intro o ho
    by_cases he : o = i <;> simp [fullHeap, he]
  · intro o ho
    by_cases he : o = i <;> simp [fullHeap, he, Chained, areaCell]
  · intro o ho
    by_cases he : o = i <;> simp [fullHeap, he]
  · intro o ho
    by_cases he : o = i <;> simp [he]
  · intro o ho o' ho' hne x hx y hy
    exact absurd ((hmem o x hx).1.trans (hmem o' y hy).1.symm) hne
  · intro o ho
    by_cases he : o = i <;> simp [fullHeap, he]
  · intro o ho x hx
    rw [(hmem o x hx).2]
    exact ⟨⟨0x100000, 64, true⟩, by simp, rfl, rfl⟩
  · intro o ho x hx
    rw [(hmem o x hx).2]
    refine ⟨by decide, fun c hc => ?_⟩
    rw [List.mem_singleton.mp hc]
    left
    simp

/-- With a block of order 7 the heap grows and gives a block of order 6 back. -/
theorem addFreeArea_refiled_grown : ∃ s', Settles (fun fuel => addFreeArea fuel (fullHeap 7) 3
    0x300000) s' ∧ Refiled (fullHeap 7) (update (fun _ => []) 7 [(0x100018, 0x200000)]) 3
      0x300000 s' :=
  (addFreeArea_refiled_iff (fullHeap_pagesAt 7) (by decide)).mpr
    (Or.inr ⟨7, by decide, by decide, by simp, by decide⟩)

/-- With a single block of order 6 the heap takes it from under the block of order
6 that is being returned. -/
theorem addFreeArea_loses_block : ¬ ∀ (s : KMem) (l : List Seg) (L : Nat → List (Nat × Nat))
    (order address : Nat), PagesAt s l L → order ≤ 9 →
      ∃ s', Settles (fun fuel => addFreeArea fuel s order address) s' ∧
        Refiled s L order address s' := by
  intro hall
  obtain ⟨s', hs, L', g, hL', hT', -⟩ := hall _ _ _ 6 0x300000 (fullHeap_pagesAt 6) (by decide)
  obtain ⟨hh, ht⟩ := refile_cut (x := (0x100018, 0x200000)) (fullHeap_pagesAt 6) (by simp)
    (by decide) (by decide) (by intro o ho hlt; omega) (by simp) hs
  rw [hL'.head 6 (by decide)] at hh
  rw [hT' 6 (by decide)] at ht
  apply ht
  simpa using hh

end TayHuang
