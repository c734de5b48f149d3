import TayHuang.Permissions

/-! `alloc_vpages` in a directory among others, when it gets a frame for every page. -/

namespace TayHuang

namespace Vm

open Fuel Radix Tilings

variable {v v' : VMem} {l : List Seg} {L : Nat → List (Nat × Nat)} {R : List Nat} {fuel pgd : Nat}
  {ok : Bool} {m m' : List (Nat × Nat)}

theorem Remapped.append {v₁ : VMem} (h : Remapped R v v₁ pgd m) (h' : Remapped R v₁ v' pgd m') :
    Remapped R v v' pgd (m ++ m') := by
  intro root hroot a
  rw [h' root hroot a]
  by_cases hr : root = pgd
  · rw [if_pos hr, if_pos hr, List.map_append, lastSet_append]
    cases lastSet (m'.map fun x => ⟨x.1, x.2, true, true⟩) a with
    | some p => rfl
    | none =>
      have hsame := h root hroot a
      rw [if_pos hr] at hsame
      exact hsame
  · have hsame := h root hroot a
    rw [if_neg hr] at hsame
    rw [if_neg hr, if_neg hr]
    exact hsame

theorem remapped_nil : Remapped R v v pgd [] := by
  intro root _ a
  by_cases hr : root = pgd <;> simp [hr, lastSet]

theorem mapPages_length {frame : VMem → Nat → Nat} {rw us : Bool} {va n i : Nat}
    (hs : mapPages fuel pgd frame rw us va n i v = some (v', ok, m)) : m.length ≤ n := by
  replace hs := mapPages_iff.mp hs
  induction hs with
  | done => exact le_rfl
  | turn hx hrest ih => exact Nat.succ_le_succ ih
  | stuck hx => exact Nat.zero_le _

theorem allocPiece_length {b : Nat × Nat} (hs : allocPiece fuel pgd v b = some (v', ok, m)) :
    m.length ≤ 2 ^ b.1 := by
  obtain ⟨r, -, hs⟩ := Option.bind_eq_some_iff.mp hs
  have := mapPages_length hs
  rwa [Int.toNat_natCast] at this

theorem allocAll_length {ps : List (Nat × Nat)} (hs : allocAll fuel pgd v ps = some (v', m)) :
    m.length ≤ (ps.flatMap piecePages).length := by
  induction ps generalizing v m with
  | nil =>
    obtain ⟨-, rfl⟩ : v = v' ∧ [] = m := by simpa [allocAll] using hs
    simp
  | cons b bs ih =>
    obtain ⟨⟨v₁, ok, m₁⟩, hx, hs⟩ := Option.bind_eq_some_iff.mp hs
    obtain ⟨⟨v₂, m₂⟩, hy, hs⟩ := Option.map_eq_some_iff.mp hs
    obtain ⟨rfl, rfl⟩ : v₂ = v' ∧ m₁ ++ m₂ = m := by simpa using hs
    have hle₁ := allocPiece_length hx
    have hle₂ := ih hy
    have hpiece : (piecePages b).length = 2 ^ b.1 := by simp [piecePages]
    rw [List.flatMap_cons, List.length_append, List.length_append, hpiece]
    omega

/-- What the pages of a directory get: frames off the free lists, each of them once. -/
structure Given (v v' : VMem) (R : List Nat) (L L' : Nat → List (Nat × Nat)) (pgd : Nat)
    (m : List (Nat × Nat)) : Prop where
  mapped : Remapped R v v' pgd m
  paged : Paged (frames m)
  left : bag (frames m) + bag (recorded L') ≤ bag (recorded L)

theorem Given.append {v₁ : VMem} {L₁ L' : Nat → List (Nat × Nat)} (h : Given v v₁ R L L₁ pgd m)
    (h' : Given v₁ v' R L₁ L' pgd m') : Given v v' R L L' pgd (m ++ m') := by
  have hframes : (frames (m ++ m') : Multiset (Nat × Nat)) =
      (frames m : Multiset (Nat × Nat)) + (frames m' : Multiset (Nat × Nat)) := by
    rw [frames, List.map_append, ← Multiset.coe_add]
    rfl
  refine ⟨h.mapped.append h'.mapped, ?_, ?_⟩
  · rw [hframes]
    exact h.paged.add h'.paged
  · rw [hframes, bag_add, add_assoc]
    exact (Multiset.add_le_add_left h'.left).trans h.left

theorem allocPiece_given {b : Nat × Nat} (h : DirsOk v l L R) (hpgd : pgd ∈ R) (h9 : b.1 ≤ 9)
    (h4 : 4096 ∣ b.2) (hlen : m.length = 2 ^ b.1) (h0 : ∀ x ∈ m, x.2 ≠ 0)
    (hs : allocPiece fuel pgd v b = some (v', ok, m)) :
    m.map Prod.fst = piecePages b ∧ ∃ l' L', DirsOk v' l' L' R ∧ Given v v' R L L' pgd m := by
  have hfed : Fed v b.1 := by
    by_contra hf
    rcases allocPiece_unfed hf hs with rfl | ⟨a, ha⟩
    · have := Nat.two_pow_pos b.1
      rw [List.length_nil] at hlen
      omega
    · exact h0 _ ha rfl
  obtain ⟨i, hoi, hi9, hhead⟩ := hfed
  obtain ⟨j, hfound⟩ : ∃ j, Found L b.1 j := by
    refine exists_found ⟨i, hoi, hi9, fun hnil => hhead ?_⟩
    rw [h.account.lists.head i hi9, hnil]
    rfl
  obtain ⟨⟨s', a⟩, hx, hs⟩ := Option.bind_eq_some_iff.mp hs
  obtain ⟨l₁, L₁, hacc, hpaged, ha4, hle⟩ := allocPages_account h.account h.paged hfound hx
  have h₁ := h.shrink hacc hpaged ((Multiset.le_add_left _ _).trans hle)
  have hpow : 2 ^ b.1 ≤ 2 ^ 9 := Nat.pow_le_pow_right (by decide) h9
  obtain ⟨⟨l', L', h', hle'⟩, hm, hfst, -, -⟩ := mapPages_remapped h₁ hpgd hs
  have hframes := mapPages_frames hs
  rw [hlen] at hfst hframes
  have hframe : ∀ k < 2 ^ b.1, pageAt a k = a + 4096 * k := by
    intro k hk
    have hlow : a + 4096 * k < 2 ^ 39 := h.low _ (Multiset.mem_of_le hle
      (Multiset.mem_add.mpr (.inl (Multiset.mem_Ico.mpr ⟨by omega, by omega⟩))))
    rw [pageAt, Nat.mod_eq_of_lt (by omega)]
  have hfr : frames m = (List.range' 0 (2 ^ b.1)).map fun j => (0, a + 4096 * j) := by
    rw [hframes, frames, List.map_map]
    refine List.map_congr_left fun k hk => ?_
    have hkd := (List.mem_range'_1.mp hk).2
    simp only [Function.comp_apply, hframe k (by omega)]
  refine ⟨?_, l', L', h', hm, ?_, ?_⟩
  · rw [hfst, piecePages, List.range_eq_range']
    refine List.map_congr_left fun k hk => ?_
    have hkd := (List.mem_range'_1.mp hk).2
    rw [pageAt, Nat.div_mul_cancel h4]
  · rw [hfr]
    intro x hx
    obtain ⟨k, -, rfl⟩ := List.mem_map.mp (Multiset.mem_coe.mp hx)
    exact Nat.dvd_add ha4 (Nat.dvd_mul_right _ _)
  · rw [hfr, bag_range]
    exact (Multiset.add_le_add_left hle').trans hle

theorem allocAll_given {ps : List (Nat × Nat)} (h : DirsOk v l L R) (hpgd : pgd ∈ R)
    (hps : ∀ b ∈ ps, b.1 ≤ 9 ∧ 4096 ∣ b.2) (hlen : m.length = (ps.flatMap piecePages).length)
    (h0 : ∀ x ∈ m, x.2 ≠ 0) (hs : allocAll fuel pgd v ps = some (v', m)) :
    m.map Prod.fst = ps.flatMap piecePages ∧
      ∃ l' L', DirsOk v' l' L' R ∧ Given v v' R L L' pgd m := by
  induction ps generalizing v l L m with
  | nil =>
    obtain ⟨rfl, rfl⟩ : v = v' ∧ [] = m := by simpa [allocAll] using hs
    exact ⟨rfl, l, L, h, remapped_nil, by simp [Paged, frames], by simp [frames]⟩
  | cons b bs ih =>
    obtain ⟨⟨v₁, ok, m₁⟩, hx, hs⟩ := Option.bind_eq_some_iff.mp hs
    obtain ⟨⟨v₂, m₂⟩, hy, hs⟩ := Option.map_eq_some_iff.mp hs
    obtain ⟨rfl, rfl⟩ : v₂ = v' ∧ m₁ ++ m₂ = m := by simpa using hs
    have hle₁ := allocPiece_length hx
    have hle₂ := allocAll_length hy
    have hpiece : (piecePages b).length = 2 ^ b.1 := by simp [piecePages]
    rw [List.flatMap_cons, List.length_append, List.length_append, hpiece] at hlen
    have hb := hps b (by simp)
    obtain ⟨hfst₁, l₁, L₁, h₁, hg₁⟩ := allocPiece_given h hpgd hb.1 hb.2 (by omega)
      (fun x hx => h0 x (by simp [hx])) hx
    obtain ⟨hfst₂, l₂, L₂, h₂, hg₂⟩ := ih h₁ (fun b hb => hps b (by simp [hb])) (by omega)
      (fun x hx => h0 x (by simp [hx])) hy
    refine ⟨?_, l₂, L₂, h₂, hg₁.append hg₂⟩
    rw [List.map_append, List.flatMap_cons, hfst₁, hfst₂]

/-- `alloc_vpages` has got a frame for every page. -/
def Served (pages : Nat) (m : List (Nat × Nat)) : Prop := m.length = pages ∧ ∀ x ∈ m, x.2 ≠ 0

theorem allocVpages_given {addr pages : Nat} (h : DirsOk v l L R) (hpgd : pgd ∈ R)
    (ha : 4096 ∣ addr) (hm : Served pages m)
    (hs : allocVpages fuel v pgd addr (pages : Nat) = some (v', m)) :
    m.map Prod.fst = (List.range pages).map (fun q => (addr + 4096 * q) % 2 ^ 64) ∧
      ∃ l' L', DirsOk v' l' L' R ∧ Given v v' R L L' pgd m := by
  have hcontiguous := contiguous_returnBlocks addr pages
  have hpages := requested_pages hcontiguous (total_returnBlocks addr pages)
  have hpaged := paged_contiguous hcontiguous ha
  rw [allocVpages_eq] at hs
  rw [← hpages]
  refine allocAll_given h hpgd
    (fun b hb => ⟨returnBlocks_order addr pages b hb, hpaged b (Multiset.mem_coe.mpr hb)⟩) ?_ hm.2 hs
  rw [hpages, hm.1]
  simp

end Vm

end TayHuang
