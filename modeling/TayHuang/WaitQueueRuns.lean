import TayHuang.Runs
import TayHuang.WaitQueue

/-! Any order of `__down_signal` and `__up_signal` on one semaphore. -/

namespace TayHuang

open Function (update)
open LinkedCells
open Runs

/-- What threads do with a semaphore; `move` is what happens to a thread elsewhere. -/
inductive WaitEvent (ι : Type)
  | up (t : ι)
  | down (t : ι) (p : Nat)
  | move (t : ι) (st : ThreadState)

namespace WaitQueue

variable {ι : Type} [DecidableEq ι]

/-- The thread has a node in the queue. -/
def Blocked (s : WaitQueue ι) (t : ι) : Prop := ∃ p, s.live p = true ∧ (s.node p).thread = t

def step (s : WaitQueue ι) : WaitEvent ι → Option (WaitQueue ι)
  | .up _ => s.up
  | .down t p => some (s.down t p)
  | .move t st => some (s.setState t st)

def Step (s : WaitQueue ι) (e : WaitEvent ι) (s' : WaitQueue ι) : Prop := s.step e = some s'

/-- A blocked thread does nothing, and nobody else moves it. -/
def Fits (s : WaitQueue ι) : WaitEvent ι → Prop
  | .up t => ¬ s.Blocked t
  | .down t p => ¬ s.Blocked t ∧ s.live p = false
  | .move t _ => ¬ s.Blocked t

/-- What `__create_signal` makes of a hard semaphore. -/
def Created (s : WaitQueue ι) : Prop :=
  s.soft = false ∧ 1 ≤ s.maxSignals ∧ 0 ≤ s.signals ∧ s.signals ≤ s.maxSignals ∧ s.wthead = none ∧
    s.wttail = none ∧ (∀ p, s.live p = false) ∧ s.readied = []

def downs (t : ι) : WaitEvent ι → Bool
  | .down u _ => u = t
  | _ => false

/-- How many events ago the thread executed `__down_signal`. -/
def waited (t : ι) (es : List (WaitEvent ι)) : Nat :=
  (es.reverse.takeWhile fun e => !downs t e).length

theorem waited_snoc (t : ι) (es : List (WaitEvent ι)) (e : WaitEvent ι) :
    waited t (es ++ [e]) = if downs t e = true then 0 else waited t es + 1 := by
  cases h : downs t e with
  | true => simp [waited, h]
  | false => simp [waited, h]

/-- The nodes `ns` hold the threads that wait, those that wait longer in front. -/
structure QueueOk (es : List (WaitEvent ι)) (s : WaitQueue ι) (ns : List Nat) : Prop where
  holds : Holds s ns
  signal : SignalOk (s.toSignal ns)
  positive : 1 ≤ s.maxSignals
  capped : s.signals ≤ s.maxSignals
  waits : ∀ t ∈ s.threads ns, s.state t = .waiting
  order : (s.threads ns).Pairwise fun a b => waited b es < waited a es

variable {s s' : WaitQueue ι} {es : List (WaitEvent ι)} {e : WaitEvent ι} {ns : List Nat} {t : ι}

omit [DecidableEq ι] in
theorem Holds.blocked_iff (h : Holds s ns) : s.Blocked t ↔ t ∈ s.threads ns := by
  simp only [Blocked, threads, List.mem_map, h.live]

theorem order_snoc {l : List ι} (h : l.Pairwise fun a b => waited b es < waited a es)
    (he : ∀ t ∈ l, downs t e = false) :
    l.Pairwise fun a b => waited b (es ++ [e]) < waited a (es ++ [e]) := by
  refine h.imp_of_mem fun {a b} ha hb hab => ?_
  rw [waited_snoc, waited_snoc, he a ha, he b hb]
  simpa using hab

/-- What `__up_signal` does. -/
theorem QueueOk.up (h : QueueOk es s ns) : ∃ s' ns', s.up = some s' ∧ Holds s' ns' ∧
    SignalOk (s'.toSignal ns') ∧ s'.maxSignals = s.maxSignals ∧ s'.signals ≤ s.maxSignals ∧
    s'.threads ns' = (s.threads ns).tail ∧
    s'.readied = s.readied ++ (s.threads ns).head?.toList ∧
    s'.state = (s.threads ns).head?.elim s.state fun t => update s.state t .ready := by
  by_cases hmax : s.signals < s.maxSignals
  · obtain ⟨heq, hok⟩ := h.signal.up hmax
    obtain ⟨s', ns', hup, hholds, hsig, hready, hstate⟩ := h.holds.up heq
    have hsignals : s'.signals = s.signals + 1 := congrArg Signal.signals hsig
    exact ⟨s', ns', hup, hholds, hsig ▸ hok, congrArg Signal.maxSignals hsig, by omega,
      congrArg Signal.waiting hsig, hready, hstate⟩
  · obtain ⟨heq, hnone⟩ := h.signal.up_full hmax h.positive
    obtain ⟨s', ns', hup, hholds, hsig, hready, hstate⟩ := h.holds.up heq
    have hnil : s.threads ns = [] := hnone
    have hsignals : s'.signals = s.signals := congrArg Signal.signals hsig
    have hthreads : s'.threads ns' = s.threads ns := congrArg Signal.waiting hsig
    refine ⟨s', ns', hup, hholds, hsig ▸ h.signal, congrArg Signal.maxSignals hsig, ?_, ?_, ?_, ?_⟩
    · rw [hsignals]
      exact h.capped
    · rw [hthreads, hnil, List.tail_nil]
    · rw [hready, hnil]
      rfl
    · rw [hstate, hnil]
      rfl

theorem QueueOk.step (h : QueueOk es s ns) (hfits : s.Fits e) (hs : s.step e = some s') :
    ∃ ns', QueueOk (es ++ [e]) s' ns' := by
  cases e with
  | up t =>
    obtain ⟨s1, ns', hup, hholds, hok, hmax, hle, hthreads, -, hstate⟩ := h.up
    obtain rfl : s1 = s' := Option.some.inj (hup.symm.trans hs)
    refine ⟨ns', hholds, hok, hmax ▸ h.positive, hmax ▸ hle, ?_, ?_⟩
    · intro u hu
      rw [hthreads] at hu
      have hnodup : (s.threads ns).Nodup := h.signal.nodup
      cases hl : s.threads ns with
      | nil =>
        rw [hl] at hu
        simp at hu
      | cons a rest =>
        rw [hl] at hu hnodup hstate
        have hua : u ≠ a := fun he => (List.nodup_cons.mp hnodup).1 (he ▸ hu)
        rw [hstate]
        refine (Function.update_of_ne hua ..).trans (h.waits u ?_)
        rw [hl]
        exact List.mem_cons_of_mem a hu
    · rw [hthreads]
      exact order_snoc (h.order.sublist (List.tail_sublist _)) fun _ _ => rfl
  | down t p =>
    obtain ⟨hblocked, hp⟩ := hfits
    obtain rfl := Option.some.inj hs
    have ht : t ∉ s.threads ns := fun hm => hblocked (h.holds.blocked_iff.mpr hm)
    obtain ⟨hok, hsignals, hmax, hwaiting⟩ := h.signal.down ht
    obtain ⟨ns', hholds, hsig, -, hstate⟩ := h.holds.down t hp
    have hold : ∀ u ∈ s.threads ns, downs u (.down t p) = false := by
      intro u hu
      exact decide_eq_false fun he => ht (he ▸ hu)
    have hlonger := order_snoc h.order hold
    have hthreads : (s.down t p).threads ns' =
        if (downSignal (s.toSignal ns) t).2 = true then s.threads ns ++ [t] else s.threads ns :=
      (congrArg Signal.waiting hsig).trans hwaiting
    have hmax' : (s.down t p).maxSignals = s.maxSignals := (congrArg Signal.maxSignals hsig).trans hmax
    have hsignals' : (s.down t p).signals = s.signals - 1 :=
      (congrArg Signal.signals hsig).trans hsignals
    have hcapped := h.capped
    refine ⟨ns', hholds, hsig ▸ hok, hmax' ▸ h.positive, by omega, ?_, ?_⟩
    · intro u hu
      rw [hthreads] at hu
      rw [hstate]
      by_cases hwait : (downSignal (s.toSignal ns) t).2 = true
      · rw [if_pos hwait] at hu ⊢
        rcases List.mem_append.mp hu with hu | hu
        · have hut : u ≠ t := fun he => ht (he ▸ hu)
          exact (Function.update_of_ne hut ..).trans (h.waits u hu)
        · rw [List.mem_singleton.mp hu, Function.update_self]
      · rw [if_neg hwait] at hu ⊢
        exact h.waits u hu
    · rw [hthreads]
      split
      · refine List.pairwise_append.mpr ⟨hlonger, List.pairwise_singleton .., ?_⟩
        intro a ha b hb
        rw [List.mem_singleton.mp hb, waited_snoc, waited_snoc, hold a ha]
        simp [downs]
      · exact hlonger
  | move t st =>
    obtain rfl := Option.some.inj hs
    have ht : t ∉ s.threads ns := fun hm => hfits (h.holds.blocked_iff.mpr hm)
    refine ⟨ns, ⟨h.holds.queue, h.holds.live⟩, h.signal, h.positive, h.capped, fun u hu => ?_,
      order_snoc h.order fun _ _ => rfl⟩
    have hut : u ≠ t := fun he => ht (he ▸ hu)
    exact (Function.update_of_ne hut ..).trans (h.waits u hu)

theorem QueueOk.start (h : Created s) : QueueOk [] s [] := by
  obtain ⟨hsoft, hpos, hvalue, hmax, hhead, htail, hlive, -⟩ := h
  refine ⟨⟨?_, fun p => ?_⟩, ⟨hsoft, List.nodup_nil, ?_⟩, hpos, hmax, by simp [threads],
    List.Pairwise.nil⟩
  · rw [hhead, htail]
    exact isQueue_nil
  · simp [hlive]
  · change (0 : Int) = max 0 (-s.signals)
    omega

/-- Whatever the threads do, the queue holds the threads that the count says, linked
up from head to tail, all of them asleep, and an `up` wakes the one that waits longest. -/
theorem hard_semaphore (h : Run Created (Guarded Fits Step) es s) :
    ∃ ns : List Nat, IsQueue (fun p => (s.node p).next) s.wthead s.wttail ns ∧
      (s.threads ns).Nodup ∧ ((s.threads ns).length : Int) = max 0 (-s.signals) ∧
      s.signals ≤ s.maxSignals ∧ (s.wthead = none ↔ s.wttail = none) ∧ s.wttail = ns.getLast? ∧
      (∀ t ∈ s.threads ns, s.state t = .waiting) ∧
      ∃ s' ns', s.up = some s' ∧ Holds s' ns' ∧ s'.threads ns' = (s.threads ns).tail ∧
        (ns ≠ [] → ∃ t ∈ s.threads ns,
          (∀ u ∈ s.threads ns, u ≠ t → waited u es < waited t es) ∧
          s'.state = update s.state t .ready ∧ s'.readied = s.readied ++ [t]) := by
  obtain ⟨ns, hok⟩ : ∃ ns, QueueOk es s ns := by
    refine h.invariant (I := fun es s => ∃ ns, QueueOk es s ns) (fun s h0 => ⟨[], .start h0⟩) ?_
    rintro es s e s' ⟨ns, hok⟩ ⟨hfits, hs⟩
    exact hok.step hfits hs
  obtain ⟨s', ns', hup, hholds, -, -, -, hthreads, hready, hstate⟩ := hok.up
  refine ⟨ns, hok.holds.queue, hok.signal.nodup, hok.signal.length, hok.capped, ?_,
    hok.holds.queue.tail_eq, hok.waits, s', ns', hup, hholds, hthreads, fun hne => ?_⟩
  · rw [hok.holds.queue.head_none_iff, hok.holds.queue.tail_none_iff]
  · obtain ⟨p, rest, rfl⟩ := List.exists_cons_of_ne_nil hne
    have horder := List.pairwise_cons.mp hok.order
    refine ⟨(s.node p).thread, List.mem_cons_self .., fun u hu hut => ?_, hstate, hready⟩
    rcases List.mem_cons.mp hu with rfl | hu
    · exact absurd rfl hut
    · exact horder.1 u hu

/-- Thread 1 has the only permit, and threads 2 and 3 wait for it. -/
theorem hard_semaphore_three : ∃ (s s' : WaitQueue Nat) (ns : List Nat), s.signals = -2 ∧
    IsQueue (fun p => (s.node p).next) s.wthead s.wttail ns ∧ (s.threads ns).length = 2 ∧
    s.up = some s' ∧ s'.readied.length = 1 := by
  let s0 : WaitQueue Nat :=
    ⟨1, 1, false, none, none, fun _ => ⟨0, none⟩, fun _ => false, fun _ => .running, []⟩
  let s1 := s0.down 1 40
  let s2 := s1.down 2 50
  let s3 := s2.down 3 60
  have hcreated : Created s0 :=
    ⟨rfl, by decide, by decide, by decide, rfl, rfl, fun _ => rfl, rfl⟩
  have hnone : ∀ s : WaitQueue Nat, s.live = (fun _ => false) → ∀ t, ¬ s.Blocked t := by
    rintro s hs t ⟨p, hp, -⟩
    rw [hs] at hp
    exact Bool.false_ne_true hp
  have hthird : ¬ s2.Blocked 3 := by
    rintro ⟨p, hp, ht⟩
    by_cases h50 : p = 50
    · subst h50
      exact absurd ht (by decide)
    · have hlive : s2.live = update (fun _ => false) 50 true := rfl
      rw [hlive, Function.update_of_ne h50] at hp
      exact Bool.false_ne_true hp
  have h1 : Run Created (Guarded Fits Step) [.down 1 40] s1 :=
    .snoc (.start hcreated) ⟨⟨hnone s0 rfl 1, rfl⟩, rfl⟩
  have h2 : Run Created (Guarded Fits Step) [.down 1 40, .down 2 50] s2 :=
    .snoc h1 ⟨⟨hnone s1 rfl 2, rfl⟩, rfl⟩
  have h3 : Run Created (Guarded Fits Step) [.down 1 40, .down 2 50, .down 3 60] s3 :=
    .snoc h2 ⟨⟨hthird, rfl⟩, rfl⟩
  obtain ⟨ns, hqueue, -, hlen, -, -, -, -, s', ns', hup, -, -, hwake⟩ := hard_semaphore h3
  have hcount : (s3.threads ns).length = 2 := by
    have hneg : s3.signals = -2 := rfl
    omega
  obtain ⟨t, -, -, -, hready⟩ := hwake (by rintro rfl; simp [threads] at hcount)
  exact ⟨s3, s', ns, rfl, hqueue, hcount, hup, by rw [hready]; rfl⟩

end WaitQueue

end TayHuang
