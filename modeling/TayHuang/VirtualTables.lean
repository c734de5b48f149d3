import TayHuang.VirtualMemory

/-! The tables and the free pages together. `__set_mapping` takes at most three pages off
the free lists for tables, and it fails only when no page is left. -/

namespace TayHuang

namespace Vm

open Function (update)
open Fuel Radix Tilings

variable {v v' : VMem} {l : List Seg} {L : Nat → List (Nat × Nat)} {pgd fuel : Nat}

/-! ### Taking pages -/

theorem nodup_of_accounted {s : KMem} (h : Accounted s l L []) : (bag (recorded L)).Nodup := by
  simpa using h.once

/-- The bytes of the block that was found leave the account; the rest stays, as far as
the heap does not take it. -/
theorem allocPages_account {s s' : KMem} {order i a : Nat} (h : Accounted s l L [])
    (hp : Paged (recorded L)) (hf : Found L order i)
    (hs : allocPages fuel s order = some (s', a)) :
    ∃ l' L', Accounted s' l' L' [] ∧ Paged (recorded L') ∧ 4096 ∣ a ∧
      Multiset.Ico a (a + 4096 * 2 ^ order) + bag (recorded L') ≤ bag (recorded L) := by
  obtain ⟨hoi, h9, hne, -⟩ := id hf
  obtain ⟨x, rest, hx⟩ := List.exists_cons_of_ne_nil hne
  have hpop := recorded_pop h9 hx
  have hret : returnPages fuel (popped s i x.1) (x.2 + 4096 * 2 ^ order) (2 ^ i - 2 ^ order) =
      addAll (kmalloc fuel) (popped s i x.1)
        (returnBlocks (x.2 + 4096 * 2 ^ order) (2 ^ i - 2 ^ order)) := by
    rw [found_surplus hoi]
    exact returnPages_eq fuel _ _ _
  simp only [allocPages, allocFreePages_found h.lists hf hx, hret] at hs
  obtain ⟨t, ht, hs⟩ := Option.map_eq_some_iff.mp hs
  obtain ⟨rfl, rfl⟩ := Prod.mk.inj hs
  have hbag : Multiset.Ico x.2 (x.2 + 4096 * 2 ^ order) + bag (recorded (update L i rest) +
      (returnBlocks (x.2 + 4096 * 2 ^ order) (2 ^ i - 2 ^ order) : Multiset (Nat × Nat))) =
        bag (recorded L) := by
    rw [← hpop, bag_add, bag_add, bag_split x.2 hoi]
    ac_rfl
  have hle : bag (recorded (update L i rest) +
      (returnBlocks (x.2 + 4096 * 2 ^ order) (2 ^ i - 2 ^ order) : Multiset (Nat × Nat))) ≤
        bag (recorded L + ([] : List (Nat × Nat))) := by
    rw [Multiset.coe_nil, add_zero, ← hbag]
    exact Multiset.le_add_left _ _
  have hx4 : 4096 ∣ x.2 := hp (i, x.2) (by rw [← hpop]; simp)
  have hheap : HeapAt {k | k ∉ bag (recorded L + ([] : List (Nat × Nat)))} (popped s i x.1) l :=
    h.heap.congr rfl rfl
  have hacc := h.of_le hheap (h.lists.pop h9 hx) (h.nodes.pop hx) (fun k hk hk' => hk (Multiset.mem_of_le hle hk')) hle
  obtain ⟨l', L', hacc', hle', hpaged, -⟩ := addAll_account hacc (returnBlocks_order _ _) ht
  refine ⟨l', L', hacc', hpaged ?_, hx4, ?_⟩
  · refine Paged.add (hp.mono ?_) ?_
    · rw [← hpop]
      exact Multiset.le_add_right _ _
    · exact paged_contiguous (contiguous_returnBlocks _ _) (Nat.dvd_add hx4 (Nat.dvd_mul_right _ _))
  · rw [← hbag]
    exact Multiset.add_le_add_left hle'

/-! ### The tables -/

/-- The bytes of the free pages are accounted for, the tables of `pgd` are a tree, and the
free pages are no tables. -/
structure VmOk (v : VMem) (l : List Seg) (L : Nat → List (Nat × Nat)) (pgd : Nat) : Prop where
  account : Accounted v.kmem l L []
  paged : Paged (recorded L)
  low : ∀ k ∈ bag (recorded L), k < 2 ^ 39
  tree : IsTree (child v.tables) pgd 3
  unused : ∀ k ∈ bag (recorded L), 4096 ∣ k → Unreached (child v.tables) pgd 3 k
  null : Unreached (child v.tables) pgd 3 0

theorem VmOk.shrink {s' : KMem} {l' : List Seg} {L' : Nat → List (Nat × Nat)} (h : VmOk v l L pgd)
    (hacc : Accounted s' l' L' []) (hp : Paged (recorded L'))
    (hle : bag (recorded L') ≤ bag (recorded L)) : VmOk ⟨s', v.entry⟩ l' L' pgd :=
  ⟨hacc, hp, fun k hk => h.low k (Multiset.mem_of_le hle hk), h.tree,
    fun k hk => h.unused k (Multiset.mem_of_le hle hk), h.null⟩

/-- The translations after the pages `m` were mapped. -/
def Mapped (v v' : VMem) (pgd : Nat) (m : List (Nat × Nat)) : Prop :=
  ∀ a, getPhysicalAddress v'.tables pgd a =
    match lastSet (m.map fun x => ⟨x.1, x.2, true, true⟩) a with
    | some p => p / 2 ^ 12 * 2 ^ 12 + a % 2 ^ 12
    | none => getPhysicalAddress v.tables pgd a

theorem Mapped.refl (v : VMem) (pgd : Nat) : Mapped v v pgd [] := fun _ => rfl

theorem Mapped.trans {v₁ : VMem} {m m' : List (Nat × Nat)} (h : Mapped v v₁ pgd m)
    (h' : Mapped v₁ v' pgd m') : Mapped v v' pgd (m ++ m') := by
  intro a
  rw [h' a, List.map_append, lastSet_append]
  cases lastSet (m'.map fun x => ⟨x.1, x.2, true, true⟩) a with
  | some p => rfl
  | none => exact h a

/-- What is left when no page is free: nothing. -/
def Exhausted (v : VMem) (L : Nat → List (Nat × Nat)) : Prop :=
  ListsAt v.kmem L ∧ ∀ i ≤ 9, L i = []

section Levels

variable {p : List Nat} {t i r va pa : Nat} {rw us ok : Bool}

/-- A level is entered, at the price of one page at most, or no page is left. -/
theorem enterTable_spec (h : VmOk v l L pgd) (hp : walk (child v.tables) pgd p = some t)
    (hd : p.length < 3) (hs : enterTable fuel v t i rw us = some (v', r)) :
    Mapped v v' pgd [] ∧
      (r ≠ 0 ∧ (∃ l' L', VmOk v' l' L' pgd ∧ bag (recorded L') ≤ bag (recorded L)) ∧
        walk (child v'.tables) pgd (p ++ [i]) = some r ∨ r = 0 ∧ Exhausted v' L) := by
  cases hpres : (v.entry t i).p with
  | true =>
    obtain ⟨rfl, rfl⟩ : v = v' ∧ ofField (v.entry t i).address = r := by
      simpa [enterTable, hpres] using hs
    have hwalk := walk_present (s := v.tables) hp hpres
    refine ⟨Mapped.refl v pgd, .inl ⟨fun h0 => ?_, ⟨l, L, h, le_rfl⟩, hwalk⟩⟩
    refine h.null (p ++ [i]) (by rw [List.length_append, List.length_singleton]; omega) ?_
    rw [hwalk]
    exact congrArg some h0
  | false =>
    simp only [enterTable, hpres, if_true] at hs
    obtain ⟨⟨s', f⟩, hx, hs⟩ := Option.map_eq_some_iff.mp hs
    obtain ⟨hv, hr⟩ := Prod.mk.inj hs
    have link := fun hfresh hback => enterTable_link (s := ⟨v.entry, [f]⟩) (f := f) rw us h.tree hp
      hd hpres rfl hfresh hback
    by_cases hany : ∃ i, 0 ≤ i ∧ i ≤ 9 ∧ L i ≠ []
    · obtain ⟨j, hf⟩ := exists_found hany
      obtain ⟨l', L', hacc, hpaged, h4, hle⟩ := allocPages_account h.account h.paged hf hx
      have hfree : ∀ k ∈ Multiset.Ico f (f + 4096 * 2 ^ 0), k ∈ bag (recorded L) := fun k hk =>
        Multiset.mem_of_le hle (Multiset.mem_add.mpr (.inl hk))
      have hf : f ∈ bag (recorded L) := hfree f (by simp)
      have hf0 : f ≠ 0 := fun h0 => h.account.null (by simpa [h0] using hf)
      have honce := Multiset.nodup_of_le hle (nodup_of_accounted h.account)
      obtain ⟨hrf, -, htree, hunused, hwalk, hget⟩ := link (h.unused f hf h4)
        (FrameOk.ofField_toField ⟨hf0, h.low f hf, h4⟩)
      rw [hr] at hrf
      subst hrf
      have hkept := h.shrink hacc hpaged ((Multiset.le_add_left _ _).trans hle)
      rw [← hv]
      refine ⟨hget, .inl ⟨hf0, ⟨l', L', ⟨hacc, hpaged, hkept.low, htree, ?_, ?_⟩,
        (Multiset.le_add_left _ _).trans hle⟩, hwalk⟩⟩
      · intro k hk hk4
        refine hunused k ?_ (hkept.unused k hk hk4)
        rintro rfl
        exact Multiset.disjoint_left.mp (Multiset.nodup_add.mp honce).2.2 (by simp) hk
      · exact hunused 0 hf0.symm h.null
    · have hempty : ∀ i ≤ 9, L i = [] := fun i => empty_of_none hany i (Nat.zero_le i)
      have hnone : ∀ i ≤ 9, v.kmem.listHead i = none :=
        fun i => h.account.lists.no_heads hany i (Nat.zero_le i)
      obtain ⟨rfl, rfl⟩ := Prod.mk.inj (Option.some.inj ((allocPages_none hnone fuel).symm.trans hx))
      obtain ⟨hrf, -, -, -, -, hget⟩ := link h.null (by decide)
      rw [hr] at hrf
      rw [← hv]
      exact ⟨hget, .inr ⟨hrf, h.account.lists, hempty⟩⟩

theorem setPte_spec {pt : Nat} (rw us : Bool) (h : VmOk v l L pgd)
    (hw : walk (child v.tables) pgd (upper va) = some pt) (hpa : pa < 2 ^ 39) :
    VmOk (setPte v pt (pteIdx va) pa rw us) l L pgd ∧
      Mapped v (setPte v pt (pteIdx va) pa rw us) pgd [(va, pa)] := by
  have hok : PTOk v.tables pgd := ⟨h.tree, by simp [VMem.tables], by simp [VMem.tables],
    by simp [VMem.tables]⟩
  obtain ⟨hok', hget⟩ := TayHuang.setPte_spec rw us hok hw hpa
  have hwalk : ∀ q : List Nat, q.length ≤ 3 →
      walk (child (setPte v pt (pteIdx va) pa rw us).tables) pgd q = walk (child v.tables) pgd q :=
    fun q hq => setPte_walk h.tree hw hq
  refine ⟨⟨h.account, h.paged, h.low, hok'.tree, ?_, ?_⟩, ?_⟩
  · intro k hk hk4 q hq
    rw [hwalk q hq]
    exact h.unused k hk hk4 q hq
  · intro q hq
    rw [hwalk q hq]
    exact h.null q hq
  · intro a
    refine (hget a).trans ?_
    rw [List.map_singleton, lastSet_singleton]
    by_cases ha : page a = page va <;> simp [ha]

/-- `__set_mapping` maps the page, or no page is left. -/
theorem setMapping_spec (h : VmOk v l L pgd) (hpa : pa < 2 ^ 39)
    (hs : __setMapping fuel v pgd va pa rw us = some (v', ok)) :
    ok = true ∧ Mapped v v' pgd [(va, pa)] ∧
        (∃ l' L', VmOk v' l' L' pgd ∧ bag (recorded L') ≤ bag (recorded L)) ∨
      ok = false ∧ Mapped v v' pgd [] ∧ ∃ L', Exhausted v' L' := by
  simp only [__setMapping] at hs
  obtain ⟨⟨v₁, r₁⟩, hx₁, hs⟩ := Option.bind_eq_some_iff.mp hs
  obtain ⟨hm₁, ⟨h0₁, ⟨l₁, L₁, ok₁, hle₁⟩, hw₁⟩ | ⟨h0₁, he₁⟩⟩ :=
    enterTable_spec (p := []) h rfl (by decide) hx₁
  swap
  · obtain ⟨rfl, rfl⟩ : v₁ = v' ∧ false = ok := by simpa [h0₁] using hs
    exact .inr ⟨rfl, hm₁, L, he₁⟩
  simp only [if_neg h0₁] at hs
  obtain ⟨⟨v₂, r₂⟩, hx₂, hs⟩ := Option.bind_eq_some_iff.mp hs
  obtain ⟨hm₂, ⟨h0₂, ⟨l₂, L₂, ok₂, hle₂⟩, hw₂⟩ | ⟨h0₂, he₂⟩⟩ :=
    enterTable_spec ok₁ hw₁ (by simp) hx₂
  swap
  · obtain ⟨rfl, rfl⟩ : v₂ = v' ∧ false = ok := by simpa [h0₂] using hs
    exact .inr ⟨rfl, hm₁.trans hm₂, L₁, he₂⟩
  simp only [if_neg h0₂] at hs
  obtain ⟨⟨v₃, r₃⟩, hx₃, hs⟩ := Option.map_eq_some_iff.mp hs
  obtain ⟨hm₃, ⟨h0₃, ⟨l₃, L₃, ok₃, hle₃⟩, hw₃⟩ | ⟨h0₃, he₃⟩⟩ :=
    enterTable_spec ok₂ hw₂ (by simp) hx₃
  swap
  · obtain ⟨rfl, rfl⟩ : v₃ = v' ∧ false = ok := by simpa [h0₃] using hs
    exact .inr ⟨rfl, (hm₁.trans hm₂).trans hm₃, L₂, he₃⟩
  obtain ⟨rfl, rfl⟩ : setPte v₃ r₃ (pteIdx va) pa rw us = v' ∧ true = ok := by
    simpa [h0₃] using hs
  obtain ⟨ok₄, hm₄⟩ := setPte_spec rw us ok₃ hw₃ hpa
  exact .inl ⟨rfl, ((hm₁.trans hm₂).trans hm₃).trans hm₄, l₃, L₃, ok₄, hle₃.trans (hle₂.trans hle₁)⟩

end Levels

end Vm

end TayHuang
