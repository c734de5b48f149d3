import Mathlib.Data.Multiset.ZeroCons
import Mathlib.Order.Interval.Set.Basic
import Mathlib.Order.Interval.Set.Disjoint
import Mathlib.Algebra.BigOperators.Group.List.Basic
import Mathlib.Algebra.Ring.Nat
import Mathlib.Data.Set.Lattice
import Mathlib.Order.CompletePartialOrder

/-! Tilings of an interval of numbers. A sorted list of pieces tiles an interval
exactly when every piece starts where the one before it ends. -/

namespace Tilings

variable {γ : Type*} {lo size : γ → Nat}

def span (lo size : γ → Nat) (x : γ) : Set Nat := Set.Ico (lo x) (lo x + size x)

/-- The pieces cover the `n` numbers from `a` on, each of them once. -/
structure Tiles (lo size : γ → Nat) (m : Multiset γ) (a n : Nat) : Prop where
  disjoint : m.Pairwise fun x y => Disjoint (span lo size x) (span lo size y)
  union : {k | ∃ x ∈ m, k ∈ span lo size x} = Set.Ico a (a + n)

def total (size : γ → Nat) (l : List γ) : Nat := (l.map size).sum

@[simp] theorem total_nil : total size [] = 0 := rfl

@[simp] theorem total_cons (x : γ) (l : List γ) :
    total size (x :: l) = size x + total size l := by simp [total]

/-- Each piece starts where the one before it ends. -/
def Contiguous (lo size : γ → Nat) : Nat → List γ → Prop
  | _, [] => True
  | a, x :: l => lo x = a ∧ Contiguous lo size (a + size x) l

instance decidableContiguous (lo size : γ → Nat) :
    (a : Nat) → (l : List γ) → Decidable (Contiguous lo size a l)
  | _, [] => isTrue trivial
  | a, x :: l =>
    have := decidableContiguous lo size (a + size x) l
    inferInstanceAs (Decidable (lo x = a ∧ Contiguous lo size (a + size x) l))

theorem contiguous_append {a : Nat} {l r : List γ} : Contiguous lo size a (l ++ r) ↔
    Contiguous lo size a l ∧ Contiguous lo size (a + total size l) r := by
  induction l generalizing a with
  | nil => simp [Contiguous]
  | cons x l ih => simp [Contiguous, ih, and_assoc, Nat.add_assoc]

theorem tiles_coe {l : List γ} {a n : Nat} : Tiles lo size (l : Multiset γ) a n ↔
    l.Pairwise (fun x y => Disjoint (span lo size x) (span lo size y)) ∧
      {k | ∃ x ∈ l, k ∈ span lo size x} = Set.Ico a (a + n) := by
  have : Std.Symm fun x y => Disjoint (span lo size x) (span lo size y) := ⟨fun x y h => h.symm⟩
  constructor
  · intro h
    exact ⟨Multiset.pairwise_coe_iff_pairwise.mp h.disjoint, by simpa using h.union⟩
  · rintro ⟨h1, h2⟩
    exact ⟨Multiset.pairwise_coe_iff_pairwise.mpr h1, by simpa using h2⟩

theorem Contiguous.le_lo {a : Nat} {l : List γ} (h : Contiguous lo size a l) :
    ∀ x ∈ l, a ≤ lo x := by
  induction l generalizing a with
  | nil => simp
  | cons x l ih =>
    intro y hy
    rcases List.mem_cons.mp hy with rfl | hy
    · exact h.1.ge
    · have := ih h.2 y hy
      omega

theorem Contiguous.tiles {a : Nat} {l : List γ} (h : Contiguous lo size a l) :
    Tiles lo size (l : Multiset γ) a (total size l) := by
  rw [tiles_coe]
  induction l generalizing a with
  | nil => simp
  | cons x l ih =>
    obtain ⟨hd, hu⟩ := ih h.2
    refine ⟨List.pairwise_cons.mpr ⟨?_, hd⟩, ?_⟩
    · intro y hy
      have := h.2.le_lo y hy
      apply Set.disjoint_left.mpr
      rintro k ⟨-, hk⟩ ⟨hk', -⟩
      have := h.1
      omega
    · have hmem : ∀ k, (∃ y ∈ l, k ∈ span lo size y) ↔
          a + size x ≤ k ∧ k < a + size x + total size l := by
        intro k
        rw [← Set.mem_Ico, ← hu]
        rfl
      have hx : ∀ k, k ∈ span lo size x ↔ a ≤ k ∧ k < a + size x := by
        intro k
        rw [span, h.1, Set.mem_Ico]
      ext k
      rw [Set.mem_ofPred_eq, List.exists_mem_cons_iff, hx, hmem, Set.mem_Ico, total_cons]
      omega

theorem contiguous_of_tiles {a : Nat} {l : List γ} (hpos : ∀ x ∈ l, 0 < size x)
    (hsort : l.Pairwise fun x y => lo x < lo y)
    (h : Tiles lo size (l : Multiset γ) a (total size l)) : Contiguous lo size a l := by
  rw [tiles_coe] at h
  induction l generalizing a with
  | nil => trivial
  | cons x l ih =>
    obtain ⟨hd, hu⟩ := h
    rw [List.pairwise_cons] at hd hsort
    have hx := hpos x (by simp)
    have hmem : ∀ k, (∃ y ∈ x :: l, k ∈ span lo size y) ↔ a ≤ k ∧ k < a + total size (x :: l) := by
      intro k
      rw [← Set.mem_Ico, ← hu]
      rfl
    rw [total_cons] at hmem
    -- the first number is covered, and no other piece starts early enough
    have hxa : lo x = a := by
      obtain ⟨y, hy, hya, -⟩ := (hmem a).mpr (by omega)
      have hxlo := ((hmem (lo x)).mp ⟨x, by simp, by simp [span, hx]⟩).1
      rcases List.mem_cons.mp hy with rfl | hy
      · omega
      · have := hsort.1 y hy
        omega
    refine ⟨hxa, ih (fun y hy => hpos y (by simp [hy])) hsort.2 ⟨hd.2, ?_⟩⟩
    ext k
    constructor
    · rintro ⟨y, hy, hk⟩
      have h1 := (hmem k).mp ⟨y, by simp [hy], hk⟩
      have h2 : k ∉ span lo size x := fun hkx => Set.disjoint_left.mp (hd.1 y hy) hkx hk
      simp only [span, Set.mem_Ico] at h2 ⊢
      omega
    · rintro ⟨h1, h2⟩
      obtain ⟨y, hy, hk⟩ := (hmem k).mpr (by omega)
      rcases List.mem_cons.mp hy with rfl | hy
      · have := hk.2
        omega
      · exact ⟨y, hy, hk⟩

theorem tiles_iff_contiguous {a : Nat} {l : List γ} (hpos : ∀ x ∈ l, 0 < size x)
    (hsort : l.Pairwise fun x y => lo x < lo y) :
    Tiles lo size (l : Multiset γ) a (total size l) ↔ Contiguous lo size a l :=
  ⟨contiguous_of_tiles hpos hsort, Contiguous.tiles⟩

end Tilings
