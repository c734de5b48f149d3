import TayHuang.Permissions

/-! A heap whose free blocks are all single pages. Such a page is taken as it is, so no call
has to give anything back. -/

namespace TayHuang

open Function (update)
open LinkedCells

def poolSeg (i : Nat) : Seg := ⟨0x60000 + 64 * i, 64, true⟩

def poolNode (i : Nat) : Nat × Nat := (0x60018 + 64 * i, 0x2000000 + 4096 * i)

def poolSegs (n : Nat) : List Seg := (List.range n).map poolSeg

def poolLists (n : Nat) : Nat → List (Nat × Nat) :=
  update (fun _ => []) 0 ((List.range n).map poolNode)

/-- The pages from 32 MiB on, each a block of its own. -/
def poolHeap (n : Nat) : KMem where
  startAddr := 0x60000
  seg a :=
    let i := (a - 0x60000) / 64
    ⟨64, true, if i + 1 < n then some (0x60000 + 64 * (i + 1)) else none,
      if i = 0 then none else some (0x60000 + 64 * (i - 1))⟩
  area a :=
    let i := (a - 0x60018) / 64
    ⟨0x2000000 + 4096 * i, if i + 1 < n then some (0x60018 + 64 * (i + 1)) else none⟩
  listHead := update (fun _ => none) 0 (if n = 0 then none else some 0x60018)
  listTail := update (fun _ => none) 0 (if n = 0 then none else some (0x60018 + 64 * (n - 1)))
  grown := []

section Pool

variable {n : Nat}

theorem pool_laid (i k : Nat) (hk : i + k = n) : Linked Seg.addr segCell (poolHeap n).seg
    (if i = 0 then none else some (0x60000 + 64 * (i - 1))) ((List.range' i k).map poolSeg) none := by
  induction k generalizing i with
  | zero => trivial
  | succ k ih =>
    rw [List.range'_succ, List.map_cons]
    refine ⟨?_, ?_⟩
    · have hidx : (0x60000 + 64 * i - 0x60000) / 64 = i := by omega
      simp only [poolHeap, poolSeg, segCell, hidx]
      cases k with
      | zero =>
        rw [if_neg (by omega)]
        rfl
      | succ k =>
        rw [if_pos (by omega), List.range'_succ, List.map_cons]
        rfl
    · have hrest := ih (i + 1) (by omega)
      rw [if_neg (by omega)] at hrest
      exact hrest

theorem pool_chained (i k : Nat) (hk : i + k = n) :
    Chained Prod.fst areaCell (poolHeap n).area ((List.range' i k).map poolNode) none := by
  induction k generalizing i with
  | zero => trivial
  | succ k ih =>
    rw [List.range'_succ, List.map_cons]
    refine ⟨?_, ih (i + 1) (by omega)⟩
    have hidx : (0x60018 + 64 * i - 0x60018) / 64 = i := by omega
    simp only [poolHeap, poolNode, areaCell, hidx]
    cases k with
    | zero =>
      rw [if_neg (by omega)]
      rfl
    | succ k =>
      rw [if_pos (by omega), List.range'_succ, List.map_cons]
      rfl

theorem mem_poolLists {o : Nat} {x : Nat × Nat} (hx : x ∈ poolLists n o) :
    o = 0 ∧ ∃ i < n, x = poolNode i := by
  by_cases ho : o = 0
  · subst ho
    rw [poolLists, Function.update_self] at hx
    obtain ⟨i, hi, rfl⟩ := List.mem_map.mp hx
    exact ⟨rfl, i, List.mem_range.mp hi, rfl⟩
  · rw [poolLists, Function.update_of_ne ho] at hx
    simp at hx

theorem recorded_poolLists : recorded (poolLists n) =
    ((List.range' 0 n).map fun j => (0, 0x2000000 + 4096 * j) : List (Nat × Nat)) := by
  have hrec := recorded_update (L := fun _ => []) (o := 0) ((List.range n).map poolNode) (by decide)
  rw [recorded_empty, zero_add] at hrec
  have hblocks : blocksOf 0 ((List.range n).map poolNode) =
      ((List.range' 0 n).map fun j => (0, 0x2000000 + 4096 * j) : List (Nat × Nat)) := by
    rw [blocksOf, List.map_map, List.range_eq_range']
    rfl
  have hnil : blocksOf 0 [] = 0 := rfl
  rwa [hnil, add_zero, hblocks] at hrec

theorem bag_poolLists : bag (recorded (poolLists n)) =
    Multiset.Ico 0x2000000 (0x2000000 + 4096 * n) := by
  rw [recorded_poolLists, Vm.bag_range]

theorem poolLists_paged : Paged (recorded (poolLists n)) := by
  rw [recorded_poolLists]
  intro x hx
  obtain ⟨j, -, rfl⟩ := List.mem_map.mp (Multiset.mem_coe.mp hx)
  simp only
  omega

theorem poolHeap_account (hn : 0 < n) (hsmall : n ≤ 1024) :
    Accounted (poolHeap n) (poolSegs n) (poolLists n) [] := by
  have hnodup : ((List.range n).map poolNode).map Prod.fst |>.Nodup := by
    rw [List.map_map]
    refine List.Nodup.map (fun i j hij => ?_) List.nodup_range
    have he : 0x60018 + 64 * i = 0x60018 + 64 * j := hij
    omega
  obtain ⟨k, rfl⟩ : ∃ k, n = k + 1 := ⟨n - 1, by omega⟩
  refine ⟨⟨?_, ?_, ?_, ?_, ?_, ?_, ?_⟩, ⟨?_, ?_, ?_, ?_, ?_⟩, ?_, ?_, ?_⟩
  · rw [poolSegs, List.range_eq_range', List.range'_succ, List.map_cons]
    rfl
  · have hlaid := pool_laid (n := k + 1) 0 (k + 1) (by omega)
    rwa [← List.range_eq_range'] at hlaid
  · simp [poolSegs]
  · intro x hx
    obtain ⟨i, -, rfl⟩ := List.mem_map.mp hx
    simp only [poolSeg]
    omega
  · rw [poolSegs, List.pairwise_map]
    refine List.pairwise_lt_range.imp fun {i j} hij => ?_
    simp only [Seg.Apart, poolSeg]
    omega
  · intro x hx a ha hmem
    rw [Multiset.coe_nil, add_zero, bag_poolLists, Multiset.mem_Ico] at hmem
    obtain ⟨i, hi, rfl⟩ := List.mem_map.mp hx
    have hin := List.mem_range.mp hi
    have hend : a < 0x60000 + 64 * i + 64 := ha.2
    omega
  · rw [poolSegs, List.isChain_map]
    exact List.isChain_iff_forall_rel_of_append_cons_cons.mpr fun _ => by simp [Seg.Mergeable, poolSeg]
  · intro o _
    by_cases ho : o = 0
    · subst ho
      rw [poolLists, Function.update_self, List.range_eq_range', List.range'_succ, List.map_cons]
      rfl
    · simp [poolHeap, poolLists, ho]
  · intro o _
    by_cases ho : o = 0
    · subst ho
      have hchain := pool_chained (n := k + 1) 0 (k + 1) (by omega)
      rw [poolLists, Function.update_self, List.range_eq_range']
      exact hchain
    · simp [poolLists, ho, Chained]
  · intro o _ hne
    by_cases ho : o = 0
    · subst ho
      simp [poolHeap, poolLists, List.range_succ, poolNode]
    · simp [poolLists, ho] at hne
  · intro o _
    by_cases ho : o = 0
    · subst ho
      rw [poolLists, Function.update_self]
      exact hnodup
    · simp [poolLists, ho]
  · intro o _ o' _ hne x hx y hy
    exact absurd ((mem_poolLists hx).1.trans (mem_poolLists hy).1.symm) hne
  · intro o _ x hx
    obtain ⟨-, i, hi, rfl⟩ := mem_poolLists hx
    refine ⟨poolSeg i, List.mem_map_of_mem (List.mem_range.mpr hi), rfl, ?_⟩
    simp only [poolNode, poolSeg]
    omega
  · rw [Multiset.coe_nil, add_zero, bag_poolLists]
    exact Multiset.nodup_Ico
  · rw [Multiset.coe_nil, add_zero, bag_poolLists, Multiset.mem_Ico]
    omega

end Pool

/-! ### Calls that always return -/

/-- No block is larger than a page. -/
def OnlyPages (s : KMem) : Prop := ∀ i, 1 ≤ i → i ≤ 9 → s.listHead i = none

theorem OnlyPages.allocPages {s : KMem} (h : OnlyPages s) (fuel : Nat) :
    ∃ s' a, allocPages fuel s 0 = some (s', a) ∧ OnlyPages s' := by
  cases h0 : s.listHead 0 with
  | none =>
    refine ⟨s, 0, allocPages_none (fun i hi => ?_) fuel, h⟩
    rcases Nat.eq_zero_or_pos i with rfl | hpos
    · exact h0
    · exact h i hpos hi
  | some x =>
    have hret (t : KMem) (a : Nat) : returnPages fuel t a (0 : Nat) = some t := by
      rw [returnPages_eq]
      rfl
    simp only [TayHuang.allocPages, allocFreePages, allocFreePagesFrom, h0]
    refine ⟨_, _, by
      rw [show ((2 : Int) ^ 0 - 2 ^ 0) = ((0 : Nat) : Int) by decide, hret, Option.map_some], ?_⟩
    intro i hi hi9
    exact (Function.update_of_ne (show i ≠ 0 by omega) _ _).trans (h i hi hi9)

namespace Vm

variable {v : VMem}

theorem enterTable_only (t i : Nat) (rw us : Bool) (h : OnlyPages v.kmem) (fuel : Nat) :
    ∃ v' r, enterTable fuel v t i rw us = some (v', r) ∧ OnlyPages v'.kmem := by
  rw [enterTable]
  by_cases hp : (v.entry t i).p = false
  · obtain ⟨s', a, hx, hs'⟩ := h.allocPages fuel
    rw [if_pos hp, hx, Option.map_some]
    exact ⟨_, _, rfl, hs'⟩
  · rw [if_neg hp]
    exact ⟨_, _, rfl, h⟩

theorem setMapping_only (pgd va pa : Nat) (rw us : Bool) (h : OnlyPages v.kmem) (fuel : Nat) :
    ∃ v' ok, __setMapping fuel v pgd va pa rw us = some (v', ok) ∧ OnlyPages v'.kmem := by
  obtain ⟨v₁, r₁, hx₁, h₁⟩ := enterTable_only pgd (pml4eIdx va) rw us h fuel
  simp only [__setMapping, hx₁, Option.bind_some]
  by_cases h0₁ : r₁ = 0
  · exact ⟨v₁, false, by rw [if_pos h0₁], h₁⟩
  obtain ⟨v₂, r₂, hx₂, h₂⟩ := enterTable_only r₁ (pdpteIdx va) rw us h₁ fuel
  simp only [if_neg h0₁, hx₂, Option.bind_some]
  by_cases h0₂ : r₂ = 0
  · exact ⟨v₂, false, by rw [if_pos h0₂], h₂⟩
  obtain ⟨v₃, r₃, hx₃, h₃⟩ := enterTable_only r₂ (pdeIdx va) rw us h₂ fuel
  simp only [if_neg h0₂, hx₃, Option.map_some]
  by_cases h0₃ : r₃ = 0
  · exact ⟨v₃, false, by rw [if_pos h0₃], h₃⟩
  · exact ⟨setPte v₃ r₃ (pteIdx va) pa rw us, true, by rw [if_neg h0₃], h₃⟩

theorem mapPages_only (pgd : Nat) (frame : VMem → Nat → Nat) (rw us : Bool) (va n i : Nat)
    (h : OnlyPages v.kmem) (fuel : Nat) :
    ∃ v' ok m, mapPages fuel pgd frame rw us va n i v = some (v', ok, m) := by
  induction n generalizing v i with
  | zero => exact ⟨v, true, [], rfl⟩
  | succ n ih =>
    obtain ⟨v₁, ok₁, hx, h₁⟩ := setMapping_only pgd (pageAt va i) (frame v i) rw us h fuel
    rw [mapPages, hx, Option.bind_some]
    cases ok₁ with
    | false => exact ⟨v₁, false, [], rfl⟩
    | true =>
      obtain ⟨v', ok, m, hy⟩ := ih (i + 1) h₁
      rw [if_neg (by simp), hy, Option.map_some]
      exact ⟨_, _, _, rfl⟩

end Vm

end TayHuang
