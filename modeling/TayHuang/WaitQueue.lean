import TayHuang.Kernel

/-! The wait queue of a semaphore in memory, signal.c: nodes from `kmalloc` with
pointers, which refine the list of waiting threads. -/

namespace TayHuang

open Function (update)
open LinkedCells

structure WtNode (ι : Type) where
  thread : ι
  next : Option Nat
  deriving DecidableEq, Repr

/-- A `signal_t`, the nodes that are allocated, the states of the threads, and the
threads that were given to `enqueue_thread`. -/
structure WaitQueue (ι : Type) where
  signals : Int
  maxSignals : Int
  soft : Bool
  wthead : Option Nat
  wttail : Option Nat
  node : Nat → WtNode ι
  live : Nat → Bool
  state : ι → ThreadState
  readied : List ι

namespace WaitQueue

section Model

variable {ι : Type} (s : WaitQueue ι)

def withSignals (n : Int) : WaitQueue ι := { s with signals := n }

/-- `enqueue_wt`; `p` is where `kmalloc` puts the node. -/
def enqueueWt (t : ι) (p : Nat) : WaitQueue ι :=
  let s := { s with node := update s.node p ⟨t, none⟩, live := update s.live p true }
  match s.wttail with
  | none => { s with wthead := some p, wttail := some p }
  | some q => { s with node := update s.node q { s.node q with next := some p }, wttail := some p }

def dequeueWt : Option (WaitQueue ι × ι) :=
  s.wthead.map fun p =>
    let next := (s.node p).next
    ({ s with
        wthead := next
        wttail := if next = none then none else s.wttail
        live := update s.live p false },
      (s.node p).thread)

variable [DecidableEq ι]

def setState (t : ι) (st : ThreadState) : WaitQueue ι := { s with state := update s.state t st }

/-- `__up_signal`. `none` where it would write to `NULL`. -/
def up : Option (WaitQueue ι) :=
  let s := if s.signals < s.maxSignals then s.withSignals (s.signals + 1) else s
  if s.soft = false ∧ s.signals ≤ 0 then
    s.dequeueWt.map fun r => { r.1.setState r.2 .ready with readied := r.1.readied ++ [r.2] }
  else some s

/-- `__down_signal` by the thread `t`. -/
def down (t : ι) (p : Nat) : WaitQueue ι :=
  let s := s.withSignals (s.signals - 1)
  if s.soft = false ∧ s.signals < 0 then (s.enqueueWt t p).setState t .waiting else s

end Model

variable {ι : Type} {s : WaitQueue ι} {ns : List Nat}

/-- The nodes `ns` are linked up from `wthead` to `wttail`, and the only ones. -/
structure Holds (s : WaitQueue ι) (ns : List Nat) : Prop where
  queue : IsQueue (fun p => (s.node p).next) s.wthead s.wttail ns
  live : ∀ p, s.live p = true ↔ p ∈ ns

def threads (s : WaitQueue ι) (ns : List Nat) : List ι := ns.map fun p => (s.node p).thread

/-- What the rest of the kernel sees of it. -/
def toSignal (s : WaitQueue ι) (ns : List Nat) : Signal ι :=
  ⟨s.signals, s.maxSignals, s.soft, s.threads ns⟩

theorem enqueueWt_frame (s : WaitQueue ι) (t : ι) (p : Nat) :
    (s.enqueueWt t p).signals = s.signals ∧ (s.enqueueWt t p).maxSignals = s.maxSignals ∧
      (s.enqueueWt t p).soft = s.soft ∧ (s.enqueueWt t p).state = s.state ∧
      (s.enqueueWt t p).readied = s.readied := by
  unfold WaitQueue.enqueueWt
  cases s.wttail with
  | none => exact ⟨rfl, rfl, rfl, rfl, rfl⟩
  | some q => exact ⟨rfl, rfl, rfl, rfl, rfl⟩

theorem Holds.enqueueWt (h : Holds s ns) (t : ι) {p : Nat} (hp : s.live p = false) :
    Holds (s.enqueueWt t p) (ns ++ [p]) ∧
      (s.enqueueWt t p).threads (ns ++ [p]) = s.threads ns ++ [t] := by
  have hnot : p ∉ ns := by
    intro hm
    rw [← h.live, hp] at hm
    exact Bool.false_ne_true hm
  have hlive : ∀ q, update s.live p true q = true ↔ q ∈ ns ++ [p] := by
    intro q
    by_cases hq : q = p
    · simp [hq]
    · simp [hq, h.live]
  cases htail : s.wttail with
  | none =>
    obtain rfl : ns = [] := h.queue.tail_none_iff.mp htail
    have he : s.enqueueWt t p = { s with
        node := update s.node p ⟨t, none⟩
        live := update s.live p true
        wthead := some p
        wttail := some p } := by
      simp only [WaitQueue.enqueueWt, htail]
    rw [he]
    refine ⟨⟨?_, hlive⟩, by simp [threads]⟩
    have hh := isQueue_singleton (fun q => (s.node q).next) p
    refine hh.congr fun q hq => ?_
    rw [List.mem_singleton.mp hq]
    simp
  | some q =>
    have he : s.enqueueWt t p = { s with
        node := update (update s.node p ⟨t, none⟩) q
          { update s.node p ⟨t, none⟩ q with next := some p }
        live := update s.live p true
        wttail := some p } := by
      simp only [WaitQueue.enqueueWt, htail]
    have hq : q ∈ ns := by
      have hh := h.queue.tail_eq
      rw [htail] at hh
      exact List.mem_of_getLast? hh.symm
    have hqp : q ≠ p := fun he => hnot (he ▸ hq)
    have hqueue := h.queue
    rw [htail] at hqueue
    have hpush := hqueue.push hnot
    have hnext : (fun r => (update (update s.node p ⟨t, none⟩) q
          { update s.node p ⟨t, none⟩ q with next := some p } r).next) =
        update (update (fun r => (s.node r).next) p none) q (some p) := by
      funext r
      by_cases hrq : r = q
      · simp [hrq]
      · by_cases hrp : r = p
        · simp [hrp, Ne.symm hqp]
        · simp [hrq, hrp]
    rw [he]
    refine ⟨⟨?_, hlive⟩, ?_⟩
    · rw [← hnext] at hpush
      exact hpush
    · have hold : ∀ r ∈ ns, (update (update s.node p ⟨t, none⟩) q
          { update s.node p ⟨t, none⟩ q with next := some p } r).thread = (s.node r).thread := by
        intro r hr
        have hrp : r ≠ p := fun he => hnot (he ▸ hr)
        by_cases hrq : r = q
        · simp [hrq, hqp]
        · simp [hrq, hrp]
      simp only [threads, List.map_append, List.map_cons, List.map_nil]
      rw [List.map_congr_left hold]
      simp [Ne.symm hqp]

theorem Holds.dequeueWt {p : Nat} {rest : List Nat} (h : Holds s (p :: rest)) :
    ∃ s', s.dequeueWt = some (s', (s.node p).thread) ∧ Holds s' rest ∧ s'.node = s.node ∧
      s'.signals = s.signals ∧ s'.maxSignals = s.maxSignals ∧ s'.soft = s.soft ∧
      s'.state = s.state ∧ s'.readied = s.readied := by
  have hhead : s.wthead = some p := h.queue.head_eq
  obtain ⟨hnext, hpop⟩ := h.queue.pop
  have hnotin := (List.nodup_cons.mp h.queue.nodup).1
  refine ⟨{ s with
    wthead := (s.node p).next
    wttail := if (s.node p).next = none then none else s.wttail
    live := update s.live p false }, by rw [WaitQueue.dequeueWt, hhead]; rfl, ⟨?_, ?_⟩, rfl, rfl, rfl,
    rfl, rfl, rfl⟩
  · refine hpop.congr fun q hq => ?_
    have hqp : q ≠ p := fun he => hnotin (he ▸ hq)
    exact (Function.update_of_ne hqp none fun r => (s.node r).next).symm
  · intro q
    by_cases hq : q = p
    · simp [hq, hnotin]
    · simp [hq, h.live]

variable [DecidableEq ι]

/-- `__up_signal` does to the list of threads what `upSignal` does. -/
theorem Holds.up (h : Holds s ns) {r : Signal ι} {woken : Option ι}
    (hr : upSignal (s.toSignal ns) = some (r, woken)) :
    ∃ s' ns', s.up = some s' ∧ Holds s' ns' ∧ s'.toSignal ns' = r ∧
      s'.readied = s.readied ++ woken.toList ∧
      s'.state = woken.elim s.state fun t => update s.state t .ready := by
  obtain ⟨s1, hs1⟩ : ∃ s1, s1 =
    if s.signals < s.maxSignals then s.withSignals (s.signals + 1) else s := ⟨_, rfl⟩
  have hkept : Holds s1 ns ∧ s1.state = s.state ∧ s1.readied = s.readied := by
    rw [hs1]
    split
    · exact ⟨⟨h.queue, h.live⟩, rfl, rfl⟩
    · exact ⟨h, rfl, rfl⟩
  have hsig : (if (s.toSignal ns).signals < (s.toSignal ns).maxSignals then
      { s.toSignal ns with signals := (s.toSignal ns).signals + 1 } else s.toSignal ns) =
      s1.toSignal ns := by
    rw [hs1]
    by_cases hlt : s.signals < s.maxSignals
    · rw [if_pos (show (s.toSignal ns).signals < (s.toSignal ns).maxSignals from hlt), if_pos hlt]
      rfl
    · rw [if_neg (show ¬ (s.toSignal ns).signals < (s.toSignal ns).maxSignals from hlt), if_neg hlt]
  obtain ⟨h1, hstate, hreadied⟩ := hkept
  simp only [upSignal] at hr
  rw [hsig] at hr
  simp only [WaitQueue.up, ← hs1]
  rw [← hstate, ← hreadied]
  by_cases hwake : s1.soft = false ∧ s1.signals ≤ 0
  · rw [if_pos hwake]
    rw [if_pos (show (s1.toSignal ns).soft = false ∧ (s1.toSignal ns).signals ≤ 0 from hwake)] at hr
    cases ns with
    | nil => exact absurd hr (by simp [toSignal, threads])
    | cons p rest =>
      obtain ⟨s2, hs2, h2, hnode, hsignals, hmax, hsoft, hst, hrd⟩ := h1.dequeueWt
      have he : some (⟨s1.signals, s1.maxSignals, s1.soft, s1.threads rest⟩, some (s1.node p).thread) =
          some (r, woken) := hr
      obtain ⟨rfl, rfl⟩ := Prod.mk.inj (Option.some.inj he)
      rw [hs2]
      refine ⟨_, rest, rfl, ⟨h2.queue, h2.live⟩, ?_, ?_, ?_⟩
      · change (⟨s2.signals, s2.maxSignals, s2.soft, s2.threads rest⟩ : Signal ι) = _
        rw [hsignals, hmax, hsoft, threads, hnode]
        rfl
      · change s2.readied ++ [(s1.node p).thread] = _
        rw [hrd]
        rfl
      · change update s2.state (s1.node p).thread .ready = _
        rw [hst]
        rfl
  · rw [if_neg hwake]
    rw [if_neg (show ¬ ((s1.toSignal ns).soft = false ∧ (s1.toSignal ns).signals ≤ 0) from hwake)] at hr
    obtain ⟨rfl, rfl⟩ := Prod.mk.inj (Option.some.inj hr)
    exact ⟨s1, ns, rfl, h1, rfl, by simp, rfl⟩

/-- `__down_signal` does to the list of threads what `downSignal` does. -/
theorem Holds.down (h : Holds s ns) (t : ι) {p : Nat} (hp : s.live p = false) :
    ∃ ns', Holds (s.down t p) ns' ∧ (s.down t p).toSignal ns' = (downSignal (s.toSignal ns) t).1 ∧
      (s.down t p).readied = s.readied ∧
      (s.down t p).state =
        if (downSignal (s.toSignal ns) t).2 then update s.state t .waiting else s.state := by
  by_cases hwait : s.soft = false ∧ s.signals - 1 < 0
  · have h0 : Holds (s.withSignals (s.signals - 1)) ns := ⟨h.queue, h.live⟩
    obtain ⟨h1, hthreads⟩ := h0.enqueueWt t hp
    obtain ⟨hsignals, hmax, hsoft, hst, hrd⟩ := enqueueWt_frame (s.withSignals (s.signals - 1)) t p
    have hdown : s.down t p =
        ((s.withSignals (s.signals - 1)).enqueueWt t p).setState t .waiting := if_pos hwait
    have hsig : TayHuang.downSignal (s.toSignal ns) t =
        (⟨s.signals - 1, s.maxSignals, s.soft, s.threads ns ++ [t]⟩, true) := if_pos hwait
    generalize (s.withSignals (s.signals - 1)).enqueueWt t p = s1 at *
    rw [hdown, hsig]
    refine ⟨ns ++ [p], ⟨h1.queue, h1.live⟩, ?_, hrd, ?_⟩
    · change (⟨s1.signals, s1.maxSignals, s1.soft, s1.threads (ns ++ [p])⟩ : Signal ι) = _
      rw [hthreads, hsignals, hmax, hsoft]
      rfl
    · change update s1.state t .waiting = _
      rw [hst]
      rfl
  · have hdown : s.down t p = s.withSignals (s.signals - 1) := if_neg hwait
    have hsig : downSignal (s.toSignal ns) t =
        ({ s.toSignal ns with signals := s.signals - 1 }, false) := if_neg hwait
    rw [hdown, hsig]
    exact ⟨ns, ⟨h.queue, h.live⟩, rfl, rfl, rfl⟩

end WaitQueue

end TayHuang
