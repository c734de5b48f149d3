import TayHuang.HeapSearch

/-! `alloc_pages` when no block is left. The surplus that it returns has a negative
page count then, and the shifts of `return_pages` make blocks of it. -/

namespace TayHuang

open Function (update)
open LinkedCells Fuel

variable {s s' : KMem} {l : List Seg} {L : Nat → List (Nat × Nat)} {fuel a order address : Nat}

/-! ### A negative page count -/

theorem addBits_int {km : KMem → Nat → Option (KMem × Nat)} {advance : Nat → Nat}
    (k i start : Nat) (pages : Int) : addBits km advance k i s start pages =
      (addAll km s (bitBlocks advance k i start (pages % 2 ^ k).toNat)).map
        fun s => (s, bitEnd advance k i start (pages % 2 ^ k).toNat, pages / 2 ^ k) := by
  induction k generalizing s i start pages with
  | zero => simp [addBits, bitBlocks, bitEnd, addAll]
  | succ k ih =>
    have hpow : (2 : Int) ^ (k + 1) = 2 * 2 ^ k := by rw [pow_succ, mul_comm]
    have hpos : (0 : Int) < 2 ^ (k + 1) := Int.pow_pos (by decide)
    have hquot : pages / 2 / 2 ^ k = pages / 2 ^ (k + 1) := by
      rw [hpow, Int.ediv_ediv_of_nonneg (by decide)]
    have hbit : (pages % 2 ^ (k + 1)).toNat % 2 = (pages % 2).toNat := by
      have hh := Int.emod_emod_of_dvd pages (Dvd.intro (2 ^ k) hpow.symm)
      have hnn := Int.emod_nonneg pages hpos.ne'
      omega
    have hrest : (pages % 2 ^ (k + 1)).toNat / 2 = (pages / 2 % 2 ^ k).toNat := by
      have hh : pages % 2 ^ (k + 1) / 2 = pages / 2 % 2 ^ k := by
        rw [Int.emod_def, Int.emod_def (pages / 2), hquot, hpow, mul_assoc]
        omega
      have hnn := Int.emod_nonneg pages hpos.ne'
      omega
    by_cases hp : pages % 2 ≠ 0
    · have hp' : (pages % 2 ^ (k + 1)).toNat % 2 ≠ 0 := by omega
      simp only [addBits, bitBlocks, bitEnd, if_pos hp, if_pos hp', addAll, ih, hquot, hrest]
      cases addFreeAreaWith km s i start <;> rfl
    · have hp' : ¬ (pages % 2 ^ (k + 1)).toNat % 2 ≠ 0 := by omega
      simp only [addBits, bitBlocks, bitEnd, if_neg hp, if_neg hp', ih, hquot, hrest]

/-- The blocks that a failed call for `2 ^ order` pages adds. -/
def phantoms (order : Nat) : List (Nat × Nat) :=
  bitBlocks (fun i => 4096 * 2 ^ i) 8 1 (4096 * 2 ^ order + 4096) ((513 - 2 ^ order) / 2)

theorem returnPages_negative (fuel : Nat) (s : KMem) (h1 : 1 ≤ order) (h9 : order ≤ 9) :
    returnPages fuel s (4096 * 2 ^ order) (1 - 2 ^ order) =
      addAll (kmalloc fuel) s ((0, 4096 * 2 ^ order) :: phantoms order) := by
  have hlow : ∀ o ≤ 9, 1 ≤ o → ((1 - 2 ^ o : Int) % 2 ^ 9).toNat = 513 - 2 ^ o ∧
      ((1 - 2 ^ o : Int) / 2 ^ 9).toNat = 0 ∧ (513 - 2 ^ o) % 2 ≠ 0 := by decide
  obtain ⟨hmod, hdiv, hodd⟩ := hlow order h9 h1
  have hblocks : bitBlocks (fun i => 4096 * 2 ^ i) 9 0 (4096 * 2 ^ order) (513 - 2 ^ order) =
      (0, 4096 * 2 ^ order) :: phantoms order := by
    rw [bitBlocks, if_pos hodd]
    rfl
  rw [returnPages, returnPagesWith, addBits_int, hmod, hblocks]
  cases addAll (kmalloc fuel) s ((0, 4096 * 2 ^ order) :: phantoms order) with
  | none => rfl
  | some t => simp only [Option.map_some, Option.bind_some, hdiv, addTop]

theorem phantoms_order (order : Nat) : ∀ b ∈ phantoms order, 1 ≤ b.1 ∧ b.1 ≤ 9 := by
  have hlow : ∀ k i start pages, ∀ b ∈ bitBlocks (fun i => 4096 * 2 ^ i) k i start pages,
      i ≤ b.1 := by
    intro k
    induction k with
    | zero => simp [bitBlocks]
    | succ k ih =>
      intro i start pages b hb
      rw [bitBlocks] at hb
      split at hb
      · rcases List.mem_cons.mp hb with rfl | hb
        · exact le_rfl
        · exact Nat.le_of_succ_le (ih _ _ _ b hb)
      · exact Nat.le_of_succ_le (ih _ _ _ b hb)
  exact fun b hb => ⟨hlow _ _ _ _ b hb, bitBlocks_order (by decide) b hb⟩

theorem phantoms_pos (order : Nat) : ∀ b ∈ phantoms order, b.2 ≠ 0 := by
  intro b hb
  have hstep : ∀ j, 0 < 4096 * 2 ^ j := fun j => Nat.mul_pos (by decide) (Nat.pow_pos (by decide))
  have := ((bitBlocks_sorted (fun i => 4096 * 2 ^ i) hstep).2 b hb).1
  omega

theorem length_phantoms (h9 : order ≤ 9) : (phantoms order).length ≤ 8 := by
  have hlow : ∀ o ≤ 9, onesIn 8 ((513 - 2 ^ o) / 2) ≤ 8 := by decide
  rw [phantoms, length_bitBlocks]
  exact hlow order h9

theorem PagesAt.file_single (h : PagesAt s l L) (ha : address ≠ 0)
    (hs : addFreeAreaWith (kmalloc fuel) s 0 address = some s') : ∃ L' p, ListsAt s' L' ∧
      L' 0 = L 0 ++ [(p, address)] ∧ ((∃ l', Steady s' l' L') ∨ Roomy s' 8) := by
  by_cases hroom : 0 < room l
  · obtain ⟨t, p, l', hset, hl', -, -, -, hL', hN', -⟩ :=
      addFreeArea_settles h.heap h.lists h.nodes (Nat.zero_le 9) address hroom
    obtain rfl := hset.unique fuel s' hs
    refine ⟨_, p, hL', Function.update_self _ _ _, Or.inl ⟨l', hl', hL', hN', ?_⟩⟩
    intro o h9 x hx
    by_cases he : o = 0
    · subst he
      rw [Function.update_self] at hx
      rcases List.mem_append.mp hx with hx | hx
      · exact (h.blocks _ h9 x hx).1
      · rw [List.mem_singleton.mp hx]
        exact ha
    · rw [Function.update_of_ne he] at hx
      exact (h.blocks o h9 x hx).1
  have hroom0 : room l = 0 := by omega
  have hsteady : Steady s l L := ⟨h.heap, h.lists, h.nodes, fun o h9 x hx => (h.blocks o h9 x hx).1⟩
  obtain ⟨r, hr, hseg, hstart, -⟩ := addFreeAreaWith_link hs
  have hroomy : Roomy s' 8 := (hsteady.grows hroom0 hr).1.congr hseg hstart (by omega)
  by_cases hany : ∃ i, 6 ≤ i ∧ i ≤ 9 ∧ L i ≠ []
  · obtain ⟨i, h6, h9, hne, hmin⟩ := exists_least hany
    obtain ⟨x, rest, hx⟩ := List.exists_cons_of_ne_nil hne
    obtain ⟨s₁, p, l₁, l', ns, hg⟩ := h.grows hroom0 h6 h9 hmin hx
    have hf := hg.nodes.fresh hg.served
    have hsame : fileAll (update L i rest) ns 0 = L 0 := by
      rw [(fileAll_grown hg.pieces).mpr (by omega), Function.update_of_ne (by omega)]
    by_cases he : L 0 = []
    · have hhead : s.listHead 0 = none := by rw [h.lists.head 0 (by decide), he]; rfl
      have hset : Settles (fun fuel => addFreeAreaWith (kmalloc fuel) s 0 address)
          (linkEmpty s₁ 0 address p) := by
        simp only [addFreeAreaWith, hhead]
        exact hg.settles.map _
      obtain rfl := hset.unique fuel s' hs
      refine ⟨_, p, hg.lists.link_empty 0 address hf, ?_, Or.inr hroomy⟩
      rw [Function.update_self, he, List.nil_append]
    · obtain ⟨pre, t, hpt⟩ : ∃ pre t, L 0 = pre ++ [t] :=
        ⟨_, _, (List.dropLast_append_getLast he).symm⟩
      obtain ⟨y, hhead⟩ : ∃ y, s.listHead 0 = some y := by
        rw [h.lists.head 0 (by decide)]
        cases hc : L 0 with
        | nil => exact absurd hc he
        | cons y ys => exact ⟨y.1, rfl⟩
      have htail : s.listTail 0 = some t.1 := by
        rw [h.tails 0 (by decide), hpt]
        simp
      have hset : Settles (fun fuel => addFreeAreaWith (kmalloc fuel) s 0 address)
          (linkTail s₁ 0 address t.1 p) := by
        simp only [addFreeAreaWith, hhead, htail, Option.bind_some]
        exact hg.settles.map _
      obtain rfl := hset.unique fuel s' hs
      refine ⟨_, p, hg.lists.link_tail address (by decide) (hsame.trans hpt) hf, ?_, Or.inr hroomy⟩
      rw [Function.update_self, hsame]
  · have hdiv : kmalloc fuel s 16 = none :=
      kmalloc_diverges h.heap hroom0 (h.lists.no_heads hany) 16 fuel
    simp [hdiv] at hr

/-! ### The call -/

/-- A failed call for two pages or more leaves a phantom page on its list. -/
theorem allocPages_phantom (h : PagesAt s l L) (h1 : 1 ≤ order) (h9 : order ≤ 9)
    (hnone : ∀ i, order ≤ i → i ≤ 9 → s.listHead i = none)
    (hs : allocPages fuel s order = some (s', a)) : ¬ ListsAt s' L := by
  intro hL
  have hpos : 0 < 4096 * 2 ^ order := Nat.mul_pos (by decide) (Nat.pow_pos (by decide))
  simp only [allocPages, allocFreePages_empty hnone, Nat.zero_add, pow_zero,
    returnPages_negative fuel s h1 h9, addAll] at hs
  obtain ⟨t, ht, hs⟩ := Option.map_eq_some_iff.mp hs
  obtain ⟨rfl, -⟩ := Prod.mk.inj hs
  obtain ⟨s₁, hs₁, ht⟩ := Option.bind_eq_some_iff.mp ht
  obtain ⟨L', p, hL', hL0, hroom⟩ := h.file_single (by omega) hs₁
  have hsame : SameSingles s₁ t := by
    rcases hroom with ⟨l', hsteady⟩ | hroomy
    · exact hsteady.fileAll (length_phantoms h9) (phantoms_order order) (phantoms_pos order) ht
    · have hlen := length_phantoms h9
      exact (Roomy.fileAll (n := 0) (hroomy.congr rfl rfl (by omega))
        (fun b hb => (phantoms_order order b hb).1) ht).2
  by_cases he : L 0 = []
  · have hhead := hL.head 0 (by decide)
    rw [hsame.1, hL'.head 0 (by decide), hL0, he] at hhead
    simp at hhead
  · have htail := hL.tail 0 (by decide) he
    rw [hsame.2, hL'.tail 0 (by decide) (by simp [hL0]), hL0] at htail
    have hnd := hL'.nodup 0 (by decide)
    rw [hL0, List.map_append, List.nodup_append] at hnd
    obtain ⟨y, hy⟩ : ∃ y, (L 0).getLast? = some y := ⟨_, List.getLast?_eq_getLast_of_ne_nil he⟩
    simp only [List.getLast?_concat, Option.map_some, hy, Option.some.injEq] at htail
    exact hnd.2.2 y.1 (List.mem_map_of_mem (List.mem_of_getLast? hy)) p (by simp) htail.symm

/-- `alloc_pages` fails without a trace only when it was asked for a single page. -/
theorem alloc_exhausted_iff (h : PagesAt s l L) (h9 : order ≤ 9)
    (hnone : ∀ i, order ≤ i → i ≤ 9 → s.listHead i = none) :
    (∃ s', Settles (fun fuel => allocPages fuel s order) (s', 0) ∧ ListsAt s' L) ↔ order = 0 := by
  constructor
  · rintro ⟨s', hset, hL⟩
    by_contra h0
    obtain ⟨N, hN⟩ := hset.enough
    exact allocPages_phantom h (by omega) h9 hnone (hN N le_rfl) hL
  · rintro rfl
    refine ⟨s, ?_, h.lists⟩
    have hzero := allocPages_none fun i hi => hnone i (Nat.zero_le i) hi
    simpa only [hzero] using settles_const (s, 0)

theorem bootMem_pagesAt : PagesAt bootMem [⟨0x10000, 0x10000, false⟩] fun _ => [] :=
  ⟨bootMem_heapAt.mono (Set.subset_univ _), listsAt_empty fun _ _ => rfl, fun _ _ => rfl,
    by simp [NodesIn], by simp⟩

/-- One page out of nothing. -/
theorem alloc_exhausted_single : ∃ s', Settles (fun fuel => allocPages fuel bootMem 0) (s', 0) ∧
    ListsAt s' fun _ => [] :=
  (alloc_exhausted_iff bootMem_pagesAt (by decide) fun _ _ _ => rfl).mpr rfl

/-- Two pages out of nothing. -/
theorem alloc_exhausted_pair : ¬ ∀ (s : KMem) (l : List Seg) (L : Nat → List (Nat × Nat))
    (order : Nat), PagesAt s l L → order ≤ 9 →
      (∀ i, order ≤ i → i ≤ 9 → s.listHead i = none) →
      ∃ s', Settles (fun fuel => allocPages fuel s order) (s', 0) ∧ ListsAt s' L := by
  intro hall
  obtain ⟨s', hset, hL⟩ := hall _ _ _ 1 bootMem_pagesAt (by decide) fun _ _ _ => rfl
  obtain ⟨N, hN⟩ := hset.enough
  exact allocPages_phantom bootMem_pagesAt le_rfl (by decide) (fun _ _ _ => rfl) (hN N le_rfl) hL

end TayHuang
