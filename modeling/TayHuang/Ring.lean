import Mathlib.Algebra.Order.Ring.Nat
import Mathlib.Data.Nat.ModEq
import Mathlib.Logic.Function.Basic

/-! A ring of cells. The window of length `k` at `r` holds the cells `r`, `r + 1`
and so on, past the end from the start again. -/

namespace Ring

open Function (update)

variable {β : Type*} {c c' : Nat → β} {n r j k : Nat}

/-- The next cell of a ring of `n`. -/
def advance (n r : Nat) : Nat := if r + 1 = n then 0 else r + 1

def window (c : Nat → β) (n r k : Nat) : List β := (List.range k).map fun i => c ((r + i) % n)

theorem advance_eq (h : r < n) : advance n r = (r + 1) % n := by
  unfold advance
  split
  · next hr => rw [hr, Nat.mod_self]
  · rw [Nat.mod_eq_of_lt (by omega)]

theorem advance_lt (h : r < n) : advance n r < n := by
  rw [advance_eq h]
  exact Nat.mod_lt _ (by omega)

theorem advance_add_mod (h : r < n) (i : Nat) : (advance n r + i) % n = (r + (i + 1)) % n := by
  rw [advance_eq h, Nat.mod_add_mod, Nat.add_assoc, Nat.add_comm 1 i]

theorem advance_mod (hn : 0 < n) (a : Nat) : advance n (a % n) = (a + 1) % n := by
  rw [advance_eq (Nat.mod_lt a hn), Nat.mod_add_mod]

@[simp] theorem length_window : (window c n r k).length = k := by
  simp [window]

@[simp] theorem window_zero : window c n r 0 = [] := rfl

theorem window_succ (h : r < n) : window c n r (k + 1) = c r :: window c n (advance n r) k := by
  simp only [window, List.range_succ_eq_map, List.map_cons, List.map_map, Nat.add_zero,
    Nat.mod_eq_of_lt h]
  congr 1
  exact List.map_congr_left fun i _ => by rw [Function.comp_apply, advance_add_mod h]

theorem window_append : window c n r (j + k) = window c n r j ++ window c n ((r + j) % n) k := by
  simp only [window, List.range_add, List.map_append, List.map_map]
  congr 1
  exact List.map_congr_left fun i _ => by
    rw [Function.comp_apply, Nat.mod_add_mod, Nat.add_assoc]

theorem window_snoc : window c n r (k + 1) = window c n r k ++ [c ((r + k) % n)] := by
  simp [window, List.range_succ]

theorem window_congr (h : ∀ i, i < k → c ((r + i) % n) = c' ((r + i) % n)) :
    window c n r k = window c' n r k :=
  List.map_congr_left fun i hi => h i (List.mem_range.mp hi)

theorem slot_injective {i : Nat} (hi : i < n) (hj : j < n) (h : (r + i) % n = (r + j) % n) :
    i = j := by
  have hh : i % n = j % n := Nat.ModEq.add_left_cancel' r h
  rwa [Nat.mod_eq_of_lt hi, Nat.mod_eq_of_lt hj] at hh

/-- A window that does not fill the ring does not see the cell behind it. -/
theorem window_update (hk : k < n) (x : β) :
    window (update c ((r + k) % n) x) n r k = window c n r k := by
  refine window_congr fun i hi => Function.update_of_ne ?_ _ _
  intro he
  have hh := slot_injective (by omega) hk he
  omega

theorem window_push (hk : k < n) (x : β) :
    window (update c ((r + k) % n) x) n r (k + 1) = window c n r k ++ [x] := by
  rw [window_snoc, window_update hk, Function.update_self]

end Ring
