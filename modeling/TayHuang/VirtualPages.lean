import TayHuang.VirtualTables

/-! `alloc_vpages`. The pages that it maps get frames of their own from the free lists,
as long as there is a block for every piece. -/

namespace TayHuang

namespace Vm

open Function (update)
open Fuel Radix Tilings

variable {v v' : VMem} {l : List Seg} {L : Nat → List (Nat × Nat)} {pgd fuel : Nat}

/-! ### One piece -/

/-- The pages that a piece asks for. -/
def piecePages (b : Nat × Nat) : List Nat :=
  (List.range (2 ^ b.1)).map fun q => (b.2 + 4096 * q) % 2 ^ 64

/-- The frames as blocks of one page. -/
def frames (m : List (Nat × Nat)) : List (Nat × Nat) := m.map fun x => (0, x.2)

section Pieces

variable {i n pa va : Nat} {rw us ok : Bool} {m : List (Nat × Nat)}

theorem mapPages_spec (h : VmOk v l L pgd) (hpa : ∀ j < i + n, pageAt pa j < 2 ^ 39)
    (hs : mapPages fuel pgd (fun _ i => pageAt pa i) rw us va n i v = some (v', ok, m)) :
    Mapped v v' pgd m ∧
      (∃ d ≤ n, m = (List.range' i d).map fun j => (pageAt va j, pageAt pa j)) ∧
      ((∃ l' L', VmOk v' l' L' pgd ∧ bag (recorded L') ≤ bag (recorded L)) ∨
        ∃ L', Exhausted v' L') := by
  replace hs := mapPages_iff.mp hs
  induction hs generalizing l L with
  | done => exact ⟨Mapped.refl _ pgd, ⟨0, le_rfl, rfl⟩, .inl ⟨l, L, h, le_rfl⟩⟩
  | @turn n i _ _ _ _ _ hx hrest ih =>
    rcases setMapping_spec h (hpa i (by omega)) hx with ⟨-, hm₁, l₁, L₁, h₁, hle⟩ | ⟨hno, -⟩
    · obtain ⟨hm₂, ⟨d, hd, rfl⟩, hend⟩ := ih h₁ fun j hj => hpa j (by omega)
      refine ⟨hm₁.trans hm₂, ⟨d + 1, by omega, rfl⟩, hend.imp_left ?_⟩
      rintro ⟨l₂, L₂, h₂, hle₂⟩
      exact ⟨l₂, L₂, h₂, hle₂.trans hle⟩
    · exact nomatch hno
  | @stuck n i _ _ hx =>
    rcases setMapping_spec h (hpa i (by omega)) hx with ⟨hyes, -⟩ | ⟨-, hm₁, L₁, he⟩
    · exact nomatch hyes
    · exact ⟨hm₁, ⟨0, Nat.zero_le _, rfl⟩, .inr ⟨L₁, he⟩⟩

theorem bag_range (a d : Nat) :
    bag ((List.range' 0 d).map fun j => (0, a + 4096 * j) : List (Nat × Nat)) =
      Multiset.Ico a (a + 4096 * d) := by
  induction d with
  | zero => simp
  | succ d ih =>
    rw [List.range'_concat, List.map_append, ← Multiset.coe_add, bag_add, ih, List.map_singleton,
      Multiset.coe_singleton, bag_singleton]
    have hend : a + 4096 * (0 + 1 * d) + 4096 * 2 ^ 0 = a + 4096 * (d + 1) := by omega
    have hmid : a + 4096 * (0 + 1 * d) = a + 4096 * d := by omega
    simp only [hend]
    rw [hmid]
    exact Multiset.Ico_add_Ico_eq_Ico (by omega) (by omega)

/-- There is a block for the piece. -/
def Fed (v : VMem) (order : Nat) : Prop :=
  ∃ i, order ≤ i ∧ i ≤ 9 ∧ v.kmem.listHead i ≠ none

/-- The frames of the mapped pages left the free lists, each of them once. -/
structure Taken (v v' : VMem) (L L' : Nat → List (Nat × Nat)) (pgd : Nat) (m : List (Nat × Nat)) :
    Prop where
  lists : ListsAt v'.kmem L'
  mapped : Mapped v v' pgd m
  paged : Paged (frames m)
  left : bag (frames m) + bag (recorded L') ≤ bag (recorded L)

theorem recorded_exhausted (h : ∀ i ≤ 9, L i = []) : recorded L = 0 := by
  refine Finset.sum_eq_zero fun i hi => ?_
  rw [h i (by simpa [Nat.lt_succ_iff] using hi)]
  rfl

theorem allocPiece_spec {b : Nat × Nat} (h : VmOk v l L pgd) (h9 : b.1 ≤ 9) (h4 : 4096 ∣ b.2)
    (hf : Fed v b.1) (hs : allocPiece fuel pgd v b = some (v', ok, m)) :
    (m.map Prod.fst).Sublist (piecePages b) ∧
      ∃ L', Taken v v' L L' pgd m ∧ ((∃ l', VmOk v' l' L' pgd) ∨ Exhausted v' L') := by
  obtain ⟨i, hoi, hi9, hhead⟩ := hf
  obtain ⟨j, hfound⟩ : ∃ j, Found L b.1 j := by
    refine exists_found ⟨i, hoi, hi9, fun hnil => hhead ?_⟩
    rw [h.account.lists.head i hi9, hnil]
    rfl
  obtain ⟨⟨s', a⟩, hx, hs⟩ := Option.bind_eq_some_iff.mp hs
  obtain ⟨l₁, L₁, hacc, hpaged, ha4, hle⟩ := allocPages_account h.account h.paged hfound hx
  have h₁ := h.shrink hacc hpaged ((Multiset.le_add_left _ _).trans hle)
  have hpow : 2 ^ b.1 ≤ 2 ^ 9 := Nat.pow_le_pow_right (by decide) h9
  have hframe : ∀ k < 2 ^ b.1, pageAt a k = a + 4096 * k := by
    intro k hk
    have hlow : a + 4096 * k < 2 ^ 39 := h.low _ (Multiset.mem_of_le hle
      (Multiset.mem_add.mpr (.inl (Multiset.mem_Ico.mpr ⟨by omega, by omega⟩))))
    rw [pageAt, Nat.mod_eq_of_lt (by omega)]
  have hlow : ∀ k < 0 + 2 ^ b.1, pageAt a k < 2 ^ 39 := by
    intro k hk
    rw [Nat.zero_add] at hk
    rw [hframe k hk]
    exact h.low _ (Multiset.mem_of_le hle
      (Multiset.mem_add.mpr (.inl (Multiset.mem_Ico.mpr ⟨by omega, by omega⟩))))
  obtain ⟨hm, ⟨d, hd, rfl⟩, hend⟩ := mapPages_spec h₁ hlow hs
  have hfr : frames ((List.range' 0 d).map fun j => (pageAt (b.2 / 4096 * 4096) j, pageAt a j)) =
      (List.range' 0 d).map fun j => (0, a + 4096 * j) := by
    rw [frames, List.map_map]
    refine List.map_congr_left fun k hk => ?_
    have hkd := (List.mem_range'_1.mp hk).2
    simp only [Function.comp_apply, hframe k (by omega)]
  have hbag : bag (frames ((List.range' 0 d).map
      fun j => (pageAt (b.2 / 4096 * 4096) j, pageAt a j))) ≤
        Multiset.Ico a (a + 4096 * 2 ^ b.1) := by
    have hsplit := Multiset.Ico_add_Ico_eq_Ico (show a ≤ a + 4096 * d by omega)
      (show a + 4096 * d ≤ a + 4096 * 2 ^ b.1 by omega)
    rw [hfr, bag_range, ← hsplit]
    exact Multiset.le_add_right _ _
  have hpages : Paged (frames ((List.range' 0 d).map
      fun j => (pageAt (b.2 / 4096 * 4096) j, pageAt a j))) := by
    rw [hfr]
    intro x hx
    obtain ⟨k, -, rfl⟩ := List.mem_map.mp (Multiset.mem_coe.mp hx)
    exact Nat.dvd_add ha4 (Nat.dvd_mul_right _ _)
  refine ⟨?_, ?_⟩
  · rw [piecePages, List.map_map, List.range_eq_range']
    have hcongr : ∀ k ∈ List.range' 0 d,
        (Prod.fst ∘ fun j => (pageAt (b.2 / 4096 * 4096) j, pageAt a j)) k =
          (b.2 + 4096 * k) % 2 ^ 64 := by
      intro k hk
      have hkd := (List.mem_range'_1.mp hk).2
      rw [Function.comp_apply, pageAt, Nat.div_mul_cancel h4]
    rw [List.map_congr_left hcongr]
    exact (List.range'_sublist_right.mpr hd).map _
  · rcases hend with ⟨l', L', h', hle'⟩ | ⟨L', hlists, hempty⟩
    · exact ⟨L', ⟨h'.account.lists, hm, hpages, (add_le_add hbag hle').trans hle⟩, .inl ⟨l', h'⟩⟩
    · refine ⟨L', ⟨hlists, hm, hpages, ?_⟩, .inr ⟨hlists, hempty⟩⟩
      rw [recorded_exhausted hempty, bag_zero, add_zero]
      exact hbag.trans ((Multiset.le_add_right _ _).trans hle)

end Pieces

/-! ### The whole call -/

/-- What holds whenever the next piece is allocated and mapped. -/
def EveryPiece (P : VMem → Nat × Nat → List (Nat × Nat) → Prop) (fuel pgd : Nat) :
    VMem → List (Nat × Nat) → Prop
  | _, [] => True
  | v, b :: bs => ∀ r, allocPiece fuel pgd v b = some r → P v b r.2.2 ∧ EveryPiece P fuel pgd r.1 bs

theorem Taken.nil (h : ListsAt v.kmem L) : Taken v v L L pgd [] :=
  ⟨h, Mapped.refl v pgd, by simp [Paged, frames], by simp [frames]⟩

theorem Taken.trans {v₁ : VMem} {L₁ L' : Nat → List (Nat × Nat)} {m m' : List (Nat × Nat)}
    (h : Taken v v₁ L L₁ pgd m) (h' : Taken v₁ v' L₁ L' pgd m') : Taken v v' L L' pgd (m ++ m') := by
  have hframes : (frames (m ++ m') : Multiset (Nat × Nat)) =
      (frames m : Multiset (Nat × Nat)) + (frames m' : Multiset (Nat × Nat)) := by
    rw [frames, List.map_append, ← Multiset.coe_add]
    rfl
  refine ⟨h'.lists, h.mapped.trans h'.mapped, ?_, ?_⟩
  · rw [hframes]
    exact h.paged.add h'.paged
  · rw [hframes, bag_add, add_assoc]
    exact (Multiset.add_le_add_left h'.left).trans h.left

theorem allocAll_taken {ps m : List (Nat × Nat)} (h : VmOk v l L pgd)
    (hps : ∀ b ∈ ps, b.1 ≤ 9 ∧ 4096 ∣ b.2)
    (hf : EveryPiece (fun v b _ => Fed v b.1) fuel pgd v ps)
    (hs : allocAll fuel pgd v ps = some (v', m)) :
    (m.map Prod.fst).Sublist (ps.flatMap piecePages) ∧ ∃ L', Taken v v' L L' pgd m := by
  induction ps generalizing v l L m with
  | nil =>
    obtain ⟨rfl, rfl⟩ : v = v' ∧ [] = m := by simpa [allocAll] using hs
    exact ⟨by simp, L, Taken.nil h.account.lists⟩
  | cons b bs ih =>
    obtain ⟨⟨v₁, ok, m₁⟩, hx, hs⟩ := Option.bind_eq_some_iff.mp hs
    obtain ⟨⟨v₂, m₂⟩, hy, hs⟩ := Option.map_eq_some_iff.mp hs
    obtain ⟨rfl, rfl⟩ : v₂ = v' ∧ m₁ ++ m₂ = m := by simpa using hs
    obtain ⟨hfed, hrest⟩ := hf _ hx
    have hb := hps b (by simp)
    have hbs : ∀ b ∈ bs, b.1 ≤ 9 ∧ 4096 ∣ b.2 := fun b hb => hps b (by simp [hb])
    obtain ⟨hsub₁, L₁, ht₁, hend⟩ := allocPiece_spec h hb.1 hb.2 hfed hx
    rw [List.map_append, List.flatMap_cons]
    rcases hend with ⟨l₁, h₁⟩ | ⟨hlists, hempty⟩
    · obtain ⟨hsub₂, L₂, ht₂⟩ := ih h₁ hbs hrest hy
      exact ⟨hsub₁.append hsub₂, L₂, ht₁.trans ht₂⟩
    · cases bs with
      | nil =>
        obtain ⟨rfl, rfl⟩ : v₁ = v₂ ∧ [] = m₂ := by simpa [allocAll] using hy
        exact ⟨by simpa using hsub₁, L₁, by simpa using ht₁⟩
      | cons c cs =>
        -- a further piece would find nothing
        obtain ⟨⟨v₃, r₃⟩, hz, -⟩ := Option.bind_eq_some_iff.mp hy
        obtain ⟨⟨i, -, hi, hhead⟩, -⟩ := hrest _ hz
        refine absurd ?_ hhead
        rw [hlists.head i hi, hempty i hi]
        rfl

theorem requested_pages {a n : Nat} {bs : List (Nat × Nat)}
    (h : Tilings.Contiguous Prod.snd blockSize a bs) (ht : Tilings.total blockSize bs = 4096 * n) :
    bs.flatMap piecePages = (List.range n).map fun q => (a + 4096 * q) % 2 ^ 64 := by
  induction bs generalizing a n with
  | nil =>
    obtain rfl : n = 0 := by
      rw [Tilings.total_nil] at ht
      omega
    rfl
  | cons b bs ih =>
    obtain ⟨rfl, h⟩ := h
    rw [Tilings.total_cons] at ht
    simp only [blockSize] at ht h
    obtain ⟨k, rfl⟩ : ∃ k, n = 2 ^ b.1 + k := ⟨n - 2 ^ b.1, by omega⟩
    rw [List.flatMap_cons, ih (n := k) h (by omega), List.range_add, List.map_append, List.map_map,
      piecePages]
    congr 1
    refine List.map_congr_left fun q _ => ?_
    simp only [Function.comp_apply]
    congr 1
    omega

/-- The pages that `alloc_vpages` mapped, with their frames: requested pages, each with a
frame of its own that was free before and is not free any more. All other pages keep
their translation. -/
structure Owned (v v' : VMem) (L : Nat → List (Nat × Nat)) (pgd addr pages : Nat)
    (m : List (Nat × Nat)) : Prop where
  requested : (m.map Prod.fst).Sublist ((List.range pages).map fun q => (addr + 4096 * q) % 2 ^ 64)
  translated : ∀ x ∈ m, getPhysicalAddress v'.tables pgd x.1 = x.2
  free : ∀ x ∈ m, Set.Ico x.2 (x.2 + 4096) ⊆ freeSet L
  taken : ∃ L', ListsAt v'.kmem L' ∧ ∀ x ∈ m, Disjoint (Set.Ico x.2 (x.2 + 4096)) (freeSet L')
  once : m.Pairwise fun x y => page x.1 ≠ page y.1 ∧ x.2 ≠ y.2
  others : ∀ a, (∀ x ∈ m, page a ≠ page x.1) →
    getPhysicalAddress v'.tables pgd a = getPhysicalAddress v.tables pgd a

section Whole

variable {addr pages : Nat} {m : List (Nat × Nat)} {L' : Nat → List (Nat × Nat)}

theorem requested_apart (ha : 4096 ∣ addr) (hn : pages < 2 ^ 31) :
    ((List.range pages).map fun q => (addr + 4096 * q) % 2 ^ 64).Pairwise
      fun x y => page x ≠ page y := by
  rw [List.pairwise_map]
  refine List.pairwise_lt_range.imp_of_mem fun {p q} hp hq hlt => ?_
  have hp := List.mem_range.mp hp
  have hq := List.mem_range.mp hq
  unfold page
  omega

theorem lastSet_mem {x : Nat × Nat} (h : m.Pairwise fun x y => page x.1 ≠ page y.1) (hx : x ∈ m) :
    lastSet (m.map fun x => ⟨x.1, x.2, true, true⟩) x.1 = some x.2 := by
  obtain ⟨s, t, rfl⟩ := List.append_of_mem hx
  have hafter := (List.pairwise_cons.mp (List.pairwise_append.mp h).2.1).1
  have htail : lastSet (t.map fun x => ⟨x.1, x.2, true, true⟩) x.1 = none := by
    refine lastSet_none fun c hc => ?_
    obtain ⟨y, hy, rfl⟩ := List.mem_map.mp hc
    exact hafter y hy
  rw [List.map_append, lastSet_append, List.map_cons, ← List.singleton_append, lastSet_append, htail,
    Option.none_or, lastSet_singleton, if_pos rfl]
  rfl

theorem owned_of_taken (h : VmOk v l L pgd) (ha : 4096 ∣ addr) (hn : pages < 2 ^ 31)
    (hsub : (m.map Prod.fst).Sublist ((List.range pages).map fun q => (addr + 4096 * q) % 2 ^ 64))
    (ht : Taken v v' L L' pgd m) : Owned v v' L pgd addr pages m := by
  have honce := Multiset.nodup_of_le ht.left (nodup_of_accounted h.account)
  have hbytes : ∀ x ∈ m, ∀ k ∈ Set.Ico x.2 (x.2 + 4096), k ∈ bag (frames m) := by
    intro x hx k hk
    refine mem_bag.mpr ⟨(0, x.2), ?_, by simpa [Tilings.span] using hk⟩
    exact Multiset.mem_coe.mpr (List.mem_map_of_mem hx)
  have hpages : m.Pairwise fun x y => page x.1 ≠ page y.1 := by
    have hreq := (requested_apart ha hn).sublist hsub
    rwa [List.pairwise_map] at hreq
  have hframes : m.Pairwise fun x y => x.2 ≠ y.2 := by
    have hapart := List.pairwise_map.mp (apart_of_nodup_bag (Multiset.nodup_add.mp honce).1)
    refine hapart.imp fun {x y} hd he => ?_
    have hx : x.2 ∈ Tilings.span Prod.snd blockSize (0, x.2) := by simp [Tilings.span, blockSize]
    exact Set.disjoint_left.mp hd hx (he ▸ hx)
  refine ⟨hsub, ?_, ?_, ⟨L', ht.lists, ?_⟩, ?_, ?_⟩
  · intro x hx
    have hfr : 4096 ∣ x.2 := ht.paged (0, x.2) (Multiset.mem_coe.mpr (List.mem_map_of_mem hx))
    obtain ⟨q, -, hq⟩ := List.mem_map.mp (hsub.subset (List.mem_map_of_mem (f := Prod.fst) hx))
    rw [ht.mapped x.1, lastSet_mem hpages hx]
    simp only
    omega
  · intro x hx k hk
    rw [freeSet_eq]
    exact Multiset.mem_of_le ht.left (Multiset.mem_add.mpr (.inl (hbytes x hx k hk)))
  · intro x hx
    rw [freeSet_eq]
    exact Set.disjoint_left.mpr fun k hk hk' =>
      Multiset.disjoint_left.mp (Multiset.nodup_add.mp honce).2.2 (hbytes x hx k hk) hk'
  · exact hpages.imp₂ (fun _ _ hp hf => ⟨hp, hf⟩) hframes
  · intro a hother
    rw [ht.mapped a, lastSet_none fun c hc => ?_]
    obtain ⟨x, hx, rfl⟩ := List.mem_map.mp hc
    exact hother x hx

theorem allocPiece_unfed {b : Nat × Nat} {ok : Bool} (hf : ¬ Fed v b.1)
    (hs : allocPiece fuel pgd v b = some (v', ok, m)) : m = [] ∨ ∃ a, (a, 0) ∈ m := by
  obtain ⟨⟨s', a⟩, hx, hs⟩ := Option.bind_eq_some_iff.mp hs
  have hnone : ∀ i, b.1 ≤ i → i ≤ 9 → v.kmem.listHead i = none := by
    intro i hoi hi
    by_contra hne
    exact hf ⟨i, hoi, hi, hne⟩
  obtain rfl : 0 = a := by
    simp only [allocPages, allocFreePages_empty hnone] at hx
    obtain ⟨t, -, hx⟩ := Option.map_eq_some_iff.mp hx
    exact (Prod.mk.inj hx).2
  obtain ⟨n, hn⟩ : ∃ n, ((2 ^ b.1 : Nat) : Int).toNat = n + 1 :=
    Nat.exists_eq_succ_of_ne_zero (by rw [Int.toNat_natCast]; exact (Nat.two_pow_pos b.1).ne')
  simp only [setMapping, hn, mapPages] at hs
  obtain ⟨⟨v₁, ok₁⟩, -, hs⟩ := Option.bind_eq_some_iff.mp hs
  cases ok₁ with
  | false =>
    rw [if_pos rfl] at hs
    exact .inl (Prod.mk.inj (Prod.mk.inj (Option.some.inj hs)).2).2.symm
  | true =>
    rw [if_neg (by simp)] at hs
    obtain ⟨r, -, hs⟩ := Option.map_eq_some_iff.mp hs
    rw [← (Prod.mk.inj (Prod.mk.inj hs).2).2]
    exact .inr ⟨_, List.mem_cons_self⟩

theorem allocAll_fed {ps : List (Nat × Nat)} (h0 : ∀ x ∈ m, x.2 ≠ 0)
    (hs : allocAll fuel pgd v ps = some (v', m)) :
    EveryPiece (fun v b m => m = [] ∨ Fed v b.1) fuel pgd v ps := by
  induction ps generalizing v m with
  | nil => trivial
  | cons b bs ih =>
    obtain ⟨⟨v₁, ok, m₁⟩, hx, hs⟩ := Option.bind_eq_some_iff.mp hs
    obtain ⟨⟨v₂, m₂⟩, hy, hs⟩ := Option.map_eq_some_iff.mp hs
    obtain ⟨rfl, rfl⟩ : v₂ = v' ∧ m₁ ++ m₂ = m := by simpa using hs
    intro r hr
    obtain rfl := Option.some.inj (hx.symm.trans hr)
    refine ⟨?_, ih (fun x hx => h0 x (by simp [hx])) hy⟩
    by_cases hf : Fed v b.1
    · exact .inr hf
    · rcases allocPiece_unfed hf hx with hnil | ⟨a, ha⟩
      · exact .inl hnil
      · exact absurd rfl (h0 (a, 0) (by simp [ha]))

/-- When there is a block for every piece, `alloc_vpages` maps frames of its own only.
When it maps such frames only, a piece without a block mapped nothing. -/
theorem alloc_vpages_owned (h : VmOk v l L pgd) (ha : 4096 ∣ addr) (hn : pages < 2 ^ 31)
    (hs : allocVpages fuel v pgd addr pages = some (v', m)) :
    (EveryPiece (fun v b _ => Fed v b.1) fuel pgd v (returnBlocks addr pages) →
      Owned v v' L pgd addr pages m) ∧
    (Owned v v' L pgd addr pages m →
      EveryPiece (fun v b m => m = [] ∨ Fed v b.1) fuel pgd v (returnBlocks addr pages)) := by
  rw [allocVpages_eq] at hs
  have hcontiguous := contiguous_returnBlocks addr pages
  constructor
  · intro hf
    have hpaged := paged_contiguous hcontiguous ha
    obtain ⟨hsub, L', ht⟩ := allocAll_taken h
      (fun b hb => ⟨returnBlocks_order addr pages b hb, hpaged b (Multiset.mem_coe.mpr hb)⟩) hf hs
    rw [requested_pages hcontiguous (total_returnBlocks addr pages)] at hsub
    exact owned_of_taken h ha hn hsub ht
  · intro ho
    refine allocAll_fed (fun x hx h0 => h.account.null ?_) hs
    have hfree : 0 ∈ freeSet L := ho.free x hx (by simp [h0])
    rw [freeSet_eq] at hfree
    simpa using hfree

end Whole

/-- Eight free pages, and a page directory without tables. -/
def eightPages : VMem := ⟨roomyHeap, fun _ _ => .zero⟩

theorem mem_roomyPages {k : Nat} :
    k ∈ bag (recorded roomyLists) ↔ 0x2000000 ≤ k ∧ k < 0x2008000 := by
  rw [recorded_roomyLists, bag_singleton, Multiset.mem_Ico]
  exact Iff.rfl

theorem eightPages_ok : VmOk eightPages [⟨0x60000, 64, true⟩, ⟨0x60040, 0xfc0, false⟩] roomyLists
    0x1000 := by
  have hwalk : ∀ q : List Nat, q ≠ [] → walk (child eightPages.tables) 0x1000 q = none := by
    intro q hq
    obtain ⟨i, q, rfl⟩ := List.exists_cons_of_ne_nil hq
    rfl
  have hreach : ∀ k, k ≠ 0x1000 → Unreached (child eightPages.tables) 0x1000 3 k := by
    intro k hk q _ hq
    by_cases hq0 : q = []
    · subst hq0
      exact hk (Option.some.inj hq).symm
    · rw [hwalk q hq0] at hq
      simp at hq
  have hfresh : FreshPgd eightPages.tables 0x1000 :=
    ⟨fun _ => rfl, by simp [VMem.tables], by simp [VMem.tables], by simp [VMem.tables]⟩
  obtain ⟨hstart, hlaid, harena⟩ := roomyHeap_heapAt
  have hacc : Accounted roomyHeap [⟨0x60000, 64, true⟩, ⟨0x60040, 0xfc0, false⟩] roomyLists [] := by
    refine ⟨⟨hstart, hlaid, ⟨harena.nonempty, harena.pos, harena.apart, ?_, harena.merged⟩⟩,
      roomyHeap_listsAt, ?_, ?_, ?_⟩
    · intro x hx k hk hkb
      rw [Multiset.coe_nil, add_zero, mem_roomyPages] at hkb
      simp only [List.mem_cons, List.not_mem_nil, or_false] at hx
      obtain ⟨h1, h2⟩ : x.addr ≤ k ∧ k < x.addr + x.size := hk
      rcases hx with rfl | rfl <;> simp only at h2 <;> omega
    · intro o ho x hx
      rw [(mem_roomyLists hx).2]
      exact ⟨⟨0x60000, 64, true⟩, by simp, rfl, rfl⟩
    · rw [Multiset.coe_nil, add_zero, recorded_roomyLists, bag_singleton]
      exact Multiset.nodup_Ico
    · rw [Multiset.coe_nil, add_zero, mem_roomyPages]
      omega
  refine ⟨hacc, ?_, ?_, hfresh.ok.tree, ?_, hreach 0 (by decide)⟩
  · rw [recorded_roomyLists]
    intro b hb
    obtain rfl := Multiset.mem_singleton.mp hb
    decide
  · intro k hk
    have := (mem_roomyPages.mp hk).2
    omega
  · intro k hk _
    have := (mem_roomyPages.mp hk).1
    exact hreach k (by omega)

/-- Three pages: the tables and the frames take seven of the eight. -/
theorem alloc_vpages_owned_three : ∃ r, allocVpages 40 eightPages 0x1000 0x400000 3 = some r ∧
    r.2.length = 3 ∧ Owned eightPages r.1 roomyLists 0x1000 0x400000 3 r.2 := by
  obtain ⟨r, hr⟩ := Option.isSome_iff_exists.mp
    (show (allocVpages 40 eightPages 0x1000 0x400000 3).isSome by decide +kernel)
  have hlen : (allocVpages 40 eightPages 0x1000 0x400000 3).map (fun r => r.2.length) = some 3 := by
    decide +kernel
  rw [hr] at hlen
  have hleft : (allocPiece 40 0x1000 eightPages (0, 0x400000)).map
      (fun r => (r.1.kmem.listHead 2).isSome) = some true := by
    decide +kernel
  have hfed : EveryPiece (fun v b _ => Fed v b.1) 40 0x1000 eightPages (returnBlocks 0x400000 3) := by
    intro r hr
    rw [hr] at hleft
    refine ⟨⟨3, by decide, by decide, by decide⟩, fun r' hr' => ⟨⟨2, by decide, by decide, ?_⟩, trivial⟩⟩
    intro hnone
    simp [hnone] at hleft
  exact ⟨r, hr, Option.some.inj hlen,
    (alloc_vpages_owned eightPages_ok (by decide) (by decide) hr).1 hfed⟩

/-- Seven pages: there is no block for the last four, which go to the frames from 0 on. -/
theorem alloc_vpages_null : ∃ v l L pgd addr pages r, VmOk v l L pgd ∧ 4096 ∣ addr ∧
    pages < 2 ^ 31 ∧ allocVpages 40 v pgd addr (pages : Nat) = some r ∧
    ¬ Owned v r.1 L pgd addr pages r.2 := by
  obtain ⟨r, hr⟩ := Option.isSome_iff_exists.mp
    (show (allocVpages 40 eightPages 0x1000 0x400000 (7 : Nat)).isSome by decide +kernel)
  have hnull : (allocVpages 40 eightPages 0x1000 0x400000 (7 : Nat)).map
      (fun r => decide ((0x403000, 0) ∈ r.2)) = some true := by
    decide +kernel
  rw [hr] at hnull
  have hmem : (0x403000, 0) ∈ r.2 := of_decide_eq_true (Option.some.inj hnull)
  refine ⟨eightPages, _, roomyLists, 0x1000, 0x400000, 7, r, eightPages_ok, by decide, by decide, hr,
    fun ho => ?_⟩
  have hfree : 0 ∈ freeSet roomyLists := ho.free _ hmem (by simp)
  rw [freeSet_eq] at hfree
  exact absurd (mem_roomyPages.mp hfree).1 (by decide)

end Vm

end TayHuang
