import Mathlib.Data.List.Induction

/-! Runs of a system of labelled steps: what every step keeps holds in every
state that a run reaches. -/

namespace Runs

variable {σ ε : Type*}

/-- From a start state, with the labels of the steps in order. -/
inductive Run (start : σ → Prop) (step : σ → ε → σ → Prop) : List ε → σ → Prop
  | start {s : σ} (h : start s) : Run start step [] s
  | snoc {es : List ε} {s s' : σ} {e : ε} (run : Run start step es s) (h : step s e s') :
    Run start step (es ++ [e]) s'

variable {start : σ → Prop} {step : σ → ε → σ → Prop} {es : List ε} {s : σ}

/-- The rule for invariants that may speak of the labels so far. -/
theorem Run.invariant {I : List ε → σ → Prop} (h : Run start step es s)
    (h0 : ∀ s, start s → I [] s)
    (hstep : ∀ es s e s', I es s → step s e s' → I (es ++ [e]) s') : I es s := by
  induction h with
  | start h => exact h0 _ h
  | snoc run h ih => exact hstep _ _ _ _ ih h

theorem Run.ofFold {f : σ → ε → Option σ} {s s' : σ} (es : List ε) (h0 : start s)
    (h : es.foldlM f s = some s') : Run start (fun s e s' => f s e = some s') es s' := by
  induction es using List.reverseRecOn generalizing s' with
  | nil =>
    obtain rfl := Option.some.inj h
    exact .start h0
  | append_singleton es e ih =>
    rw [List.foldlM_append] at h
    obtain ⟨s1, h1, h2⟩ := Option.bind_eq_some_iff.mp h
    rw [List.foldlM_cons] at h2
    obtain ⟨s2, h3, h4⟩ := Option.bind_eq_some_iff.mp h2
    obtain rfl := Option.some.inj h4
    exact .snoc (ih h1) h3

theorem Run.mono {step' : σ → ε → σ → Prop} (h : Run start step es s)
    (hstep : ∀ s e s', step s e s' → step' s e s') : Run start step' es s := by
  induction h with
  | start h => exact .start h
  | snoc run h ih => exact .snoc ih (hstep _ _ _ h)

/-- Steps that meet a condition on the state before them and the label. -/
def Guarded (fits : σ → ε → Prop) (step : σ → ε → σ → Prop) : σ → ε → σ → Prop :=
  fun s e s' => fits s e ∧ step s e s'

theorem Run.unguarded {fits : σ → ε → Prop} (h : Run start (Guarded fits step) es s) :
    Run start step es s :=
  h.mono fun _ _ _ h => h.2

/-- Two conditions that say the same of every state of a run. -/
theorem Run.guarded_congr {fits fits' : σ → ε → Prop} {I : σ → Prop} (h0 : ∀ s, start s → I s)
    (hstep : ∀ s e s', I s → step s e s' → I s')
    (hiff : ∀ s e s', I s → step s e s' → (fits s e ↔ fits' s e)) :
    Run start (Guarded fits step) es s ↔ Run start (Guarded fits' step) es s := by
  have hinv : ∀ {fits : σ → ε → Prop} {es s}, Run start (Guarded fits step) es s → I s := fun h =>
    h.invariant (fun s => h0 s) fun _ s e s' hI h => hstep s e s' hI h.2
  constructor
  · intro h
    induction h with
    | start h => exact .start h
    | snoc run h ih => exact .snoc ih ⟨(hiff _ _ _ (hinv run) h.2).mp h.1, h.2⟩
  · intro h
    induction h with
    | start h => exact .start h
    | snoc run h ih => exact .snoc ih ⟨(hiff _ _ _ (hinv run) h.2).mpr h.1, h.2⟩

theorem Run.ofGuardedFold {f : σ → ε → Option σ} {fits : σ → ε → Prop}
    [∀ s e, Decidable (fits s e)] {s s' : σ} (es : List ε) (h0 : start s)
    (h : es.foldlM (fun s e => if fits s e then f s e else none) s = some s') :
    Run start (Guarded fits fun s e s' => f s e = some s') es s' := by
  refine (Run.ofFold es h0 h).mono fun s e s' hs => ?_
  by_cases hf : fits s e
  · rw [if_pos hf] at hs
    exact ⟨hf, hs⟩
  · rw [if_neg hf] at hs
    simp at hs

end Runs
