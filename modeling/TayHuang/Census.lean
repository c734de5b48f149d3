import Mathlib.Algebra.BigOperators.Group.Finset.Basic
import Mathlib.Data.Fintype.Basic
import Mathlib.Data.Finset.Card

/-! How many members of a finite population are in a state of some kind. -/

namespace Census

open Function (update)

variable {ι α : Type*} [Fintype ι] (p : α → Bool) (f : ι → α)

def census : Nat := (Finset.univ.filter fun t => p (f t) = true).card

variable {p f} {t u : ι} {l : List ι}

theorem census_eq_zero (h : ∀ t, p (f t) = false) : census p f = 0 := by
  simp [census, h]

theorem census_update [DecidableEq ι] (v : α) :
    census p (update f t v) + (p (f t)).toNat = census p f + (p v).toNat := by
  have hsplit : ∀ g : ι → α, census p g =
      ((Finset.univ.erase t).filter fun u => p (g u) = true).card + (p (g t)).toNat := by
    intro g
    rw [census, ← Finset.insert_erase (Finset.mem_univ t), Finset.filter_insert,
      Finset.erase_insert_eq_erase, Finset.erase_idem]
    cases hp : p (g t)
    · simp
    · rw [if_pos rfl, Finset.card_insert_of_notMem (by simp)]
      rfl
  have hrest : ((Finset.univ.erase t).filter fun u => p (update f t v u) = true) =
      (Finset.univ.erase t).filter fun u => p (f u) = true :=
    Finset.filter_congr fun u hu => by rw [Function.update_of_ne (Finset.ne_of_mem_erase hu)]
  rw [hsplit (update f t v), hsplit f, hrest, Function.update_self]
  omega

theorem length_le_census (hl : l.Nodup) (h : ∀ t ∈ l, p (f t) = true) : l.length ≤ census p f := by
  classical
  rw [← List.toFinset_card_of_nodup hl]
  refine Finset.card_le_card fun t ht => ?_
  simpa using h t (List.mem_toFinset.mp ht)

theorem census_pos (h : p (f t) = true) : 1 ≤ census p f :=
  length_le_census (l := [t]) (List.nodup_singleton t) fun u hu => by
    rw [List.mem_singleton.mp hu, h]

end Census
