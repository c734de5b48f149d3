import Mathlib.Data.List.Nodup

/-! The kernel's semaphores, signal.c. A negative count is the number of threads
that wait; `up_signal` hands the permit to the first of them. -/

namespace TayHuang

/-- `signal_t`, with its queue from `wthead` to `wttail`. -/
structure Signal (ι : Type) where
  signals : Int
  maxSignals : Int
  soft : Bool
  waiting : List ι
  deriving DecidableEq, Repr

variable {ι : Type}

def createSignal (maxSignals value : Int) (soft : Bool) : Signal ι := ⟨value, maxSignals, soft, []⟩

/-- `__up_signal`, and the thread that it makes ready. `none` where `dequeue_wt`
answers `NULL`. -/
def upSignal (s : Signal ι) : Option (Signal ι × Option ι) :=
  let s := if s.signals < s.maxSignals then { s with signals := s.signals + 1 } else s
  if s.soft = false ∧ s.signals ≤ 0 then
    match s.waiting with
    | [] => none
    | t :: rest => some ({ s with waiting := rest }, some t)
  else some (s, none)

/-- `__down_signal` by `t`, and whether `t` has to wait. -/
def downSignal (s : Signal ι) (t : ι) : Signal ι × Bool :=
  let s := { s with signals := s.signals - 1 }
  if s.soft = false ∧ s.signals < 0 then ({ s with waiting := s.waiting ++ [t] }, true)
  else (s, false)

theorem upSignal_cases {s s' : Signal ι} {woken : Option ι} (h : upSignal s = some (s', woken)) :
    woken = none ∧ s'.waiting = s.waiting ∨
      ∃ t, woken = some t ∧ s.waiting = t :: s'.waiting := by
  simp only [upSignal] at h
  generalize hr : (if s.signals < s.maxSignals then { s with signals := s.signals + 1 } else s) = r
    at h
  have hwaiting : r.waiting = s.waiting := by
    rw [← hr]
    split <;> rfl
  split at h
  · cases hw : r.waiting with
    | nil => simp [hw] at h
    | cons t rest =>
      simp only [hw, Option.some.injEq, Prod.mk.injEq] at h
      obtain ⟨rfl, rfl⟩ := h
      exact .inr ⟨t, rfl, by rw [← hwaiting, hw]⟩
  · simp only [Option.some.injEq, Prod.mk.injEq] at h
    obtain ⟨rfl, rfl⟩ := h
    exact .inl ⟨rfl, hwaiting⟩

theorem downSignal_cases (s : Signal ι) (t : ι) :
    (downSignal s t).2 = false ∧ (downSignal s t).1.waiting = s.waiting ∨
      (downSignal s t).2 = true ∧ (downSignal s t).1.waiting = s.waiting ++ [t] := by
  simp only [downSignal]
  split
  · exact .inr ⟨rfl, rfl⟩
  · exact .inl ⟨rfl, rfl⟩

/-- The queue has the threads that the count says, each once. -/
structure SignalOk (s : Signal ι) : Prop where
  hard : s.soft = false
  nodup : s.waiting.Nodup
  length : (s.waiting.length : Int) = max 0 (-s.signals)

variable {s : Signal ι} {t : ι}

theorem SignalOk.create {maxSignals value : Int} (h : 0 ≤ value) :
    SignalOk (createSignal (ι := ι) maxSignals value false) := by
  refine ⟨rfl, List.nodup_nil, ?_⟩
  simp only [createSignal, List.length_nil]
  omega

theorem SignalOk.granted (h : SignalOk s) : 0 ≤ s.signals + s.waiting.length := by
  have hlen := h.length
  omega

theorem SignalOk.down (h : SignalOk s) (ht : t ∉ s.waiting) :
    SignalOk (downSignal s t).1 ∧ (downSignal s t).1.signals = s.signals - 1 ∧
      (downSignal s t).1.maxSignals = s.maxSignals ∧
      (downSignal s t).1.waiting =
        if (downSignal s t).2 = true then s.waiting ++ [t] else s.waiting := by
  have hlen := h.length
  by_cases hneg : s.signals - 1 < 0
  · have hdown : downSignal s t =
        ({ s with signals := s.signals - 1, waiting := s.waiting ++ [t] }, true) := by
      simp only [downSignal]
      rw [if_pos ⟨h.hard, hneg⟩]
    rw [hdown]
    refine ⟨⟨h.hard, ?_, ?_⟩, rfl, rfl, rfl⟩
    · rw [List.nodup_append]
      refine ⟨h.nodup, by simp, ?_⟩
      intro a ha b hb he
      rw [he, List.mem_singleton.mp hb] at ha
      exact ht ha
    · have happ : (s.waiting ++ [t]).length = s.waiting.length + 1 := by simp
      simp only [happ]
      omega
  · have hdown : downSignal s t = ({ s with signals := s.signals - 1 }, false) := by
      simp only [downSignal]
      rw [if_neg fun hn => hneg hn.2]
    rw [hdown]
    refine ⟨⟨h.hard, h.nodup, ?_⟩, rfl, rfl, rfl⟩
    simp only
    omega

/-- Below the maximum the first waiting thread is handed the permit. -/
theorem SignalOk.up (h : SignalOk s) (hmax : s.signals < s.maxSignals) :
    upSignal s = some ({ s with signals := s.signals + 1, waiting := s.waiting.tail },
        s.waiting.head?) ∧
      SignalOk { s with signals := s.signals + 1, waiting := s.waiting.tail } := by
  have hlen := h.length
  cases hw : s.waiting with
  | nil =>
    rw [hw, List.length_nil] at hlen
    have hpos : ¬ s.signals + 1 ≤ 0 := by omega
    refine ⟨?_, h.hard, List.nodup_nil, ?_⟩
    · simp only [upSignal, if_pos hmax, hw, h.hard, hpos, and_false, if_false]
      rfl
    · simp only [List.tail_nil, List.length_nil]
      omega
  | cons t rest =>
    have hnodup := h.nodup
    rw [hw, List.nodup_cons] at hnodup
    rw [hw, List.length_cons] at hlen
    have hneg : s.signals + 1 ≤ 0 := by omega
    refine ⟨?_, h.hard, hnodup.2, ?_⟩
    · simp only [upSignal, if_pos hmax, hw, h.hard, hneg, and_self, if_true]
      rfl
    · simp only [List.tail_cons]
      omega

theorem SignalOk.up_full (h : SignalOk s) (hmax : ¬ s.signals < s.maxSignals)
    (hpos : 1 ≤ s.maxSignals) : upSignal s = some (s, none) ∧ s.waiting = [] := by
  have hlen := h.length
  have hnot : ¬ s.signals ≤ 0 := by omega
  refine ⟨?_, List.length_eq_zero_iff.mp (by omega)⟩
  simp only [upSignal, if_neg hmax, hnot, and_false, if_false]

end TayHuang
