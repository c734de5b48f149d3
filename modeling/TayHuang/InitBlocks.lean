import TayHuang.BlockFiling
import TayHuang.Tilings

/-! The blocks that `init_pmm` cuts the free memory into. Every block of one of
the low orders moves the next one up by two pages, whatever its own size. -/

namespace TayHuang

open Tilings

abbrev blockSize (b : Nat × Nat) : Nat := 4096 * 2 ^ b.1

/-- The blocks for `pages` pages from `start` on. -/
def initBlocks (start pages : Nat) : List (Nat × Nat) :=
  bitBlocks (fun _ => 4096 * 2 ^ 1) 9 0 start pages ++
    topBlocks (pages / 2 ^ 9) (bitEnd (fun _ => 4096 * 2 ^ 1) 9 0 start pages)

/-- The page counts that `init_pmm` cuts up without gap or overlap: at most one
block of an order other than 1 and 9, and that one last. -/
def Splits (pages : Nat) : Prop :=
  pages % 512 = 0 ∨ pages % 512 = 2 ∨
    pages < 512 ∧ ∃ b < 9, pages = 2 ^ b ∨ b ≠ 0 ∧ pages = 2 + 2 ^ b

instance (pages : Nat) : Decidable (Splits pages) :=
  inferInstanceAs (Decidable (_ ∨ _ ∨ _ ∧ ∃ b < 9, _ ∨ _ ∧ _))

section Shape

variable {advance : Nat → Nat}

theorem bitEnd_eq (advance : Nat → Nat) (k i start pages : Nat) :
    bitEnd advance k i start pages = start + bitEnd advance k i 0 pages := by
  induction k generalizing i start pages with
  | zero => rfl
  | succ k ih =>
    simp only [bitEnd]
    split
    · rw [ih, ih (i + 1) (0 + advance i)]
      omega
    · rw [ih]

theorem bitBlocks_eq (k i start pages : Nat) : bitBlocks advance k i start pages =
    (bitBlocks advance k i 0 pages).map fun b => (b.1, start + b.2) := by
  induction k generalizing i start pages with
  | zero => rfl
  | succ k ih =>
    simp only [bitBlocks]
    split
    · rw [ih, ih (i + 1) (0 + advance i), List.map_cons, List.map_map]
      congr 1
      apply List.map_congr_left
      intro b _
      simp only [Function.comp_apply, Prod.mk.injEq, true_and]
      omega
    · rw [ih]

theorem low_mod_two (pages k : Nat) : pages % 2 ^ (k + 1) % 2 = pages % 2 :=
  Nat.mod_mod_of_dvd _ (Dvd.intro_left _ (Nat.pow_succ 2 k).symm)

theorem low_div_two (pages k : Nat) : pages % 2 ^ (k + 1) / 2 = pages / 2 % 2 ^ k := by
  rw [Nat.pow_succ', Nat.mod_mul_right_div_self]

theorem bitBlocks_mod (k i start pages : Nat) :
    bitBlocks advance k i start pages = bitBlocks advance k i start (pages % 2 ^ k) := by
  induction k generalizing i start pages with
  | zero => rfl
  | succ k ih =>
    simp only [bitBlocks, low_mod_two, low_div_two]
    rw [ih, ← ih (i + 1) start (pages / 2)]

theorem bitEnd_mod (k i start pages : Nat) :
    bitEnd advance k i start pages = bitEnd advance k i start (pages % 2 ^ k) := by
  induction k generalizing i start pages with
  | zero => rfl
  | succ k ih =>
    simp only [bitEnd, low_mod_two, low_div_two]
    rw [ih, ← ih (i + 1) start (pages / 2)]

theorem total_bitBlocks (k i start pages : Nat) :
    total blockSize (bitBlocks advance k i start pages) = 4096 * 2 ^ i * (pages % 2 ^ k) := by
  induction k generalizing i start pages with
  | zero => simp [bitBlocks, Nat.mod_one]
  | succ k ih =>
    have h2 := low_mod_two pages k
    have hd := low_div_two pages k
    have hp : 4096 * 2 ^ (i + 1) * (pages / 2 % 2 ^ k) =
        4096 * 2 ^ i * (2 * (pages / 2 % 2 ^ k)) := by
      rw [Nat.pow_succ, ← Nat.mul_assoc, ← Nat.mul_assoc]
    have hm : pages % 2 ^ (k + 1) = pages % 2 + 2 * (pages / 2 % 2 ^ k) := by omega
    rw [bitBlocks]
    split
    · rename_i ho
      rw [total_cons, ih, hp, hm, Nat.mul_add, show pages % 2 = 1 by omega, Nat.mul_one]
    · rename_i ho
      rw [ih, hp, hm, show pages % 2 = 0 by omega, Nat.zero_add]

theorem total_topBlocks (n start : Nat) :
    total blockSize (topBlocks n start) = n * (4096 * 2 ^ 9) := by
  induction n generalizing start with
  | zero => rw [topBlocks, total_nil, Nat.zero_mul]
  | succ n ih =>
    simp only [topBlocks, total_cons, ih, blockSize]
    omega

theorem bitBlocks_sorted (advance : Nat → Nat) {k i start pages : Nat} (hadv : ∀ j, 0 < advance j) :
    (bitBlocks advance k i start pages).Pairwise (fun x y => x.2 < y.2) ∧
      ∀ b ∈ bitBlocks advance k i start pages,
        start ≤ b.2 ∧ b.2 < bitEnd advance k i start pages := by
  induction k generalizing i start pages with
  | zero => simp [bitBlocks]
  | succ k ih =>
    rw [bitBlocks, bitEnd]
    split
    · obtain ⟨h1, h2⟩ := ih (i := i + 1)
      have ha := hadv i
      have he := bitEnd_eq advance k (i + 1) (start + advance i) (pages / 2)
      refine ⟨List.pairwise_cons.mpr ⟨?_, h1⟩, ?_⟩
      · intro b hb
        have := (h2 b hb).1
        simp only
        omega
      · intro b hb
        rcases List.mem_cons.mp hb with rfl | hb
        · simp only
          omega
        · have := h2 b hb
          omega
    · exact ih

theorem topBlocks_sorted (n start : Nat) :
    (topBlocks n start).Pairwise (fun x y => x.2 < y.2) ∧
      ∀ b ∈ topBlocks n start, start ≤ b.2 := by
  induction n generalizing start with
  | zero => simp [topBlocks]
  | succ n ih =>
    obtain ⟨h1, h2⟩ := ih (start + 4096 * 2 ^ 9)
    refine ⟨List.pairwise_cons.mpr ⟨?_, h1⟩, ?_⟩
    · intro b hb
      have := h2 b hb
      simp only
      omega
    · intro b hb
      rcases List.mem_cons.mp hb with rfl | hb
      · exact le_rfl
      · have := h2 b hb
        omega

theorem contiguous_topBlocks (n a start : Nat) :
    Contiguous Prod.snd blockSize a (topBlocks n start) ↔ n = 0 ∨ start = a := by
  induction n generalizing a start with
  | zero => simp [topBlocks, Contiguous]
  | succ n ih =>
    have hpos : 0 < 4096 * 2 ^ 9 := by decide
    simp only [topBlocks, Contiguous, ih, blockSize]
    omega

theorem contiguous_shift {c a : Nat} {l : List (Nat × Nat)} :
    Contiguous Prod.snd blockSize (c + a) (l.map fun b => (b.1, c + b.2)) ↔
      Contiguous Prod.snd blockSize a l := by
  induction l generalizing a with
  | nil => simp [Contiguous]
  | cons b l ih =>
    rw [List.map_cons, Contiguous, Contiguous, Nat.add_assoc, ih]
    have h1 : c + b.2 = c + a ↔ b.2 = a := by omega
    rw [h1]

end Shape

theorem initBlocks_order (start pages : Nat) : ∀ b ∈ initBlocks start pages, b.1 ≤ 9 := by
  intro b hb
  rcases List.mem_append.mp hb with hb | hb
  · exact bitBlocks_order (by decide) b hb
  · exact topBlocks_order _ _ b hb

theorem initBlocks_le (start pages : Nat) : ∀ b ∈ initBlocks start pages, start ≤ b.2 := by
  intro b hb
  rcases List.mem_append.mp hb with hb | hb
  · exact ((bitBlocks_sorted _ (by simp)).2 b hb).1
  · have hend := bitEnd_eq (fun _ => 4096 * 2 ^ 1) 9 0 start pages
    have := (topBlocks_sorted _ _).2 b hb
    omega

theorem initBlocks_sorted (start pages : Nat) :
    (initBlocks start pages).Pairwise fun x y => x.2 < y.2 := by
  obtain ⟨h1, h2⟩ := bitBlocks_sorted (fun _ => 4096 * 2 ^ 1) (by simp)
  obtain ⟨h3, h4⟩ := topBlocks_sorted (pages / 2 ^ 9)
    (bitEnd (fun _ => 4096 * 2 ^ 1) 9 0 start pages)
  refine List.pairwise_append.mpr ⟨h1, h3, ?_⟩
  intro x hx y hy
  have := (h2 x hx).2
  have := h4 y hy
  omega

theorem total_initBlocks (start pages : Nat) :
    total blockSize (initBlocks start pages) = 4096 * pages := by
  have happ : ∀ l r : List (Nat × Nat),
      total blockSize (l ++ r) = total blockSize l + total blockSize r := by
    intro l r
    simp [total]
  rw [initBlocks, happ, total_bitBlocks, total_topBlocks]
  omega

/-- The cases are the 512 patterns of the low bits. -/
theorem contiguous_lowBits : ∀ r < 512,
    (Contiguous Prod.snd blockSize 0 (bitBlocks (fun _ => 4096 * 2 ^ 1) 9 0 0 r) ↔
      r = 0 ∨ ∃ b < 9, r = 2 ^ b ∨ b ≠ 0 ∧ r = 2 + 2 ^ b) ∧
    (Contiguous Prod.snd blockSize 0 (bitBlocks (fun _ => 4096 * 2 ^ 1) 9 0 0 r) ∧
      bitEnd (fun _ => 4096 * 2 ^ 1) 9 0 0 r = 4096 * r ↔ r = 0 ∨ r = 2) := by
  decide +kernel

theorem initBlocks_contiguous_iff (start pages : Nat) :
    Contiguous Prod.snd blockSize start (initBlocks start pages) ↔ Splits pages := by
  obtain ⟨h1, h2⟩ := contiguous_lowBits (pages % 512) (Nat.mod_lt _ (by decide))
  have hshift := contiguous_shift (c := start) (a := 0)
    (l := bitBlocks (fun _ => 4096 * 2 ^ 1) 9 0 0 (pages % 512))
  rw [Nat.add_zero, ← bitBlocks_eq] at hshift
  have hend : start + bitEnd (fun _ => 4096 * 2 ^ 1) 9 0 0 (pages % 512) =
      start + 4096 * 2 ^ 0 * (pages % 512) ↔
      bitEnd (fun _ => 4096 * 2 ^ 1) 9 0 0 (pages % 512) = 4096 * (pages % 512) := by omega
  rw [initBlocks, contiguous_append, contiguous_topBlocks, total_bitBlocks, bitBlocks_mod, bitEnd_mod,
    bitEnd_eq, show (2 : Nat) ^ 9 = 512 by decide, hshift, hend, Splits]
  by_cases hp : pages < 512
  · have hm : pages % 512 = pages := Nat.mod_eq_of_lt hp
    have h0 : pages / 512 = 0 := by omega
    rw [hm] at h1 h2 ⊢
    constructor
    · rintro ⟨hc, -⟩
      rcases h1.mp hc with rfl | hb
      · exact Or.inl rfl
      · exact Or.inr (Or.inr ⟨hp, hb⟩)
    · intro hs
      refine ⟨?_, Or.inl h0⟩
      rcases hs with h | h | ⟨-, hb⟩
      · exact h1.mpr (Or.inl h)
      · exact (h2.mpr (Or.inr h)).1
      · exact h1.mpr (Or.inr hb)
  · have h0 : ¬ pages / 512 = 0 := by omega
    constructor
    · rintro ⟨hc, h | h⟩
      · exact absurd h h0
      · rcases h2.mp ⟨hc, h⟩ with h | h
        · exact Or.inl h
        · exact Or.inr (Or.inl h)
    · intro hs
      have hr : pages % 512 = 0 ∨ pages % 512 = 2 := by
        rcases hs with h | h | ⟨h, -⟩
        · exact Or.inl h
        · exact Or.inr h
        · exact absurd h hp
      obtain ⟨h3, h4⟩ := h2.mpr hr
      exact ⟨h3, Or.inr h4⟩

theorem initBlocks_tiles_iff (start pages : Nat) :
    Tiles Prod.snd blockSize (initBlocks start pages : Multiset (Nat × Nat)) start
      (4096 * pages) ↔ Splits pages := by
  rw [← total_initBlocks start pages, tiles_iff_contiguous, initBlocks_contiguous_iff]
  · exact fun b _ => Nat.mul_pos (by decide) (Nat.pow_pos (by decide))
  · exact initBlocks_sorted start pages

end TayHuang
