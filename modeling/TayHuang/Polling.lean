import TayHuang.Fuel

/-! Loops that look at a device until it is ready. A look may change the device. -/

namespace Polling

open Fuel

variable {σ α β : Type*} {ready : σ → Bool} {look : σ → σ} {s : σ}

/-- The loop leaves with the look that finds the device ready. -/
def poll (ready : σ → Bool) (look : σ → σ) : Nat → σ → Option σ
  | 0, _ => none
  | fuel + 1, s => if ready s then some (look s) else poll ready look fuel (look s)

/-- A device that comes closer to being ready with every look. -/
theorem poll_settles (ready : σ → Bool) (look : σ → σ) {I : σ → Prop} (away : σ → Nat) (h : I s)
    (hwait : ∀ s, I s → ready s = false → I (look s) ∧ away (look s) < away s) :
    ∃ s', I s' ∧ ready s' = true ∧ Settles (fun fuel => poll ready look fuel s) (look s') := by
  induction hn : away s using Nat.strongRecOn generalizing s with
  | _ n ih =>
    cases hr : ready s with
    | true =>
      refine ⟨s, h, hr, settles_succ rfl ?_⟩
      simp only [poll, hr, if_true]
      exact settles_const _
    | false =>
      obtain ⟨hI, hlt⟩ := hwait s h hr
      obtain ⟨s', hs', hr', hset⟩ := ih (away (look s)) (hn ▸ hlt) hI rfl
      refine ⟨s', hs', hr', settles_succ rfl ?_⟩
      simp only [poll, hr, Bool.false_eq_true, if_false]
      exact hset

/-- A device that never gets ready. -/
theorem poll_diverges {I : σ → Prop} (h : I s)
    (hwait : ∀ s, I s → ready s = false ∧ I (look s)) :
    Diverges (fun fuel => poll ready look fuel s) := by
  intro fuel
  induction fuel generalizing s with
  | zero => rfl
  | succ fuel ih =>
    obtain ⟨hr, hI⟩ := hwait s h
    simp only [poll, hr, Bool.false_eq_true, if_false]
    exact ih hI

/-- The rest of a program never comes to an end. -/
theorem settles_bind_diverges {f : Nat → Option α} {g : Nat → α → Option β} {r : α}
    (h : Settles f r) (h' : Diverges fun n => g n r) : Diverges (fun n => (f n).bind (g n)) := by
  intro n
  cases hf : f n with
  | none => simp only [hf, Option.bind_none]
  | some x =>
    obtain rfl := h.unique n x hf
    simp only [hf, Option.bind_some]
    exact h' n

end Polling
