import Mathlib.Logic.Basic

/-! Loops that run on fuel. A computation settles at the one result that it has
whenever its fuel suffices; it diverges when no fuel does. -/

namespace Fuel

variable {α β : Type*}

/-- `f` returns `r` from some fuel on, and nothing else at any fuel. -/
structure Settles (f : Nat → Option α) (r : α) : Prop where
  enough : ∃ N, ∀ n, N ≤ n → f n = some r
  unique : ∀ n x, f n = some x → x = r

def Diverges (f : Nat → Option α) : Prop := ∀ n, f n = none

theorem settles_const (r : α) : Settles (fun _ => some r) r :=
  ⟨⟨0, fun _ _ => rfl⟩, fun _ _ h => (Option.some.inj h).symm⟩

theorem Settles.bind {f : Nat → Option α} {g : Nat → α → Option β} {r : α} {t : β}
    (h : Settles f r) (h' : Settles (fun n => g n r) t) :
    Settles (fun n => (f n).bind (g n)) t := by
  obtain ⟨N, hN⟩ := h.enough
  obtain ⟨M, hM⟩ := h'.enough
  refine ⟨⟨max N M, fun n hn => ?_⟩, fun n x hx => ?_⟩
  · have hN' := hN n (by omega)
    have hM' := hM n (by omega)
    simpa [hN'] using hM'
  · obtain ⟨y, hy, hx⟩ := Option.bind_eq_some_iff.mp hx
    rw [h.unique n y hy] at hx
    exact h'.unique n x hx

theorem Settles.map {f : Nat → Option α} {r : α} (h : Settles f r) (g : α → β) :
    Settles (fun n => (f n).map g) (g r) := by
  have hh : (fun n => (f n).map g) = fun n => (f n).bind fun x => some (g x) := by
    funext n
    cases f n <;> rfl
  rw [hh]
  exact h.bind (settles_const (g r))

theorem Diverges.bind {f : Nat → Option α} (h : Diverges f) (g : Nat → α → Option β) :
    Diverges (fun n => (f n).bind (g n)) := fun n => by simp [h n]

theorem settles_succ {f : Nat → Option α} {r : α} (h0 : f 0 = none)
    (h : Settles (fun n => f (n + 1)) r) : Settles f r := by
  obtain ⟨N, hN⟩ := h.enough
  refine ⟨⟨N + 1, fun n hn => ?_⟩, fun n x hx => ?_⟩
  · obtain ⟨m, rfl⟩ : ∃ m, n = m + 1 := ⟨n - 1, by omega⟩
    exact hN m (by omega)
  · cases n with
    | zero => simp [h0] at hx
    | succ m => exact h.unique m x hx

theorem Settles.eq {f : Nat → Option α} {r t : α} (h : Settles f r) (h' : Settles f t) : r = t := by
  obtain ⟨N, hN⟩ := h.enough
  exact h'.unique N r (hN N (Nat.le_refl N))

theorem Settles.not_diverges {f : Nat → Option α} {r : α} (h : Settles f r) : ¬ Diverges f := by
  obtain ⟨N, hN⟩ := h.enough
  intro hd
  have hh := hN N (Nat.le_refl N)
  rw [hd N] at hh
  simp at hh

end Fuel
