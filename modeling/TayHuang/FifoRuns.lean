import TayHuang.Fifo

/-! Runs of the byte queue. -/

namespace TayHuang

open Function (update)
open Ring Census Runs

variable {ι : Type} [Fintype ι] [DecidableEq ι] {P n : Nat} {s s' : Fifo ι} {t u : ι}
  {k : FifoSignal} {a pc : FifoPc}

/-- The change of the counts by an operation on `k`. -/
def atSignal (k : FifoSignal) (x : Int) : FifoSignal → Int := fun j => if j = k then x else 0

theorem FifoOk.down (h : FifoOk P s n) (ht : s.waiting t = false) (ha : s.pc t = a)
    (hpc : parkedAt pc = some k) (hbal : Balance a pc (atSignal k (-1)) 0) :
    FifoOk P (s.down k t pc) n := by
  obtain ⟨-, hsignals, hmax, -⟩ := (h.parked.signals k).down (h.parked.not_mem_of_awake ht)
  refine ⟨h.parked.down ht hpc, h.counts.move rfl ha (δ := atSignal k (-1)) (fun j => ?_) (by simpa),
    h.capacity, fun j => ?_, h.read, h.write, h.stream⟩
  · by_cases hj : j = k
    · subst hj
      simp only [Fifo.down, Function.update_self, hsignals, atSignal, if_true]
      rfl
    · simp [Fifo.down, hj, atSignal]
  · by_cases hj : j = k
    · subst hj
      simp only [Fifo.down, Function.update_self, hmax, h.maxSignals]
    · simpa [Fifo.down, hj] using h.maxSignals j

theorem FifoOk.up (pc : FifoPc) (h : FifoOk P s n) (ht : s.waiting t = false) (ha : s.pc t = a)
    (hmax : (s.signal k).signals < (s.signal k).maxSignals)
    (hbal : Balance a pc (atSignal k 1) 0) : ∃ s', s.up k t pc = some s' ∧ FifoOk P s' n := by
  obtain ⟨s', hs', hparked, heq⟩ := h.parked.up ht hmax
  refine ⟨s', hs', hparked, ?_, ?_, ?_, ?_, ?_, ?_⟩
  · refine h.counts.move (δ := atSignal k 1) (by rw [heq]) ha (fun j => ?_) (by simpa)
    rw [heq]
    by_cases hj : j = k
    · subst hj
      simp [atSignal]
    · simp [hj, atSignal]
  · rw [heq]
    exact h.capacity
  · intro j
    rw [heq]
    by_cases hj : j = k
    · subst hj
      simpa using h.maxSignals j
    · simpa [hj] using h.maxSignals j
  · rw [heq]
    exact h.read
  · rw [heq]
    exact h.write
  · rw [heq]
    exact h.stream

theorem FifoOk.put {data : UInt8} (h : FifoOk P s n) (ht : s.waiting t = false)
    (ha : s.pc t = .writeByte data) : FifoOk P (s.put t data) (n + 1) := by
  have hroom := h.room ha
  have hcap := h.capacity
  refine ⟨h.parked.move ht rfl rfl rfl, ?_, h.capacity, h.maxSignals, h.read, ?_, ?_⟩
  · refine h.counts.move (δ := fun _ => 0) rfl ha (fun j => (Int.add_zero _).symm) ?_
    refine ⟨rfl, ?_, ?_⟩
    · change (0 : Int) + 0 + ((n + 1 : Nat) - n) + 0 = 1 + 0
      omega
    · change (0 : Int) + 0 + 1 = 0 + 0 + ((n + 1 : Nat) - n)
      omega
  · simp only [Fifo.put, h.write]
    rw [advance_mod (by omega), Nat.add_assoc]
  · simp only [Fifo.put, h.write]
    rw [window_push (by omega), h.stream, List.append_assoc]

theorem FifoOk.take (h : FifoOk P s n) (ht : s.waiting t = false) (ha : s.pc t = .readByte) :
    FifoOk P (s.take t) (n - 1) := by
  have hbyte := h.byte ha
  obtain ⟨m, rfl⟩ : ∃ m, n = m + 1 := ⟨n - 1, by omega⟩
  refine ⟨h.parked.move ht rfl rfl rfl, ?_, h.capacity, h.maxSignals, advance_lt h.read, ?_, ?_⟩
  · refine h.counts.move (δ := fun _ => 0) rfl ha (fun j => (Int.add_zero _).symm) ?_
    refine ⟨rfl, ?_, ?_⟩
    · change (0 : Int) + 0 + ((m + 1 - 1 : Nat) - (m + 1 : Nat)) + 1 = 0 + 0
      omega
    · change (0 : Int) + 0 + 0 = 1 + 0 + ((m + 1 - 1 : Nat) - (m + 1 : Nat))
      omega
  · simp only [Fifo.take, Nat.add_sub_cancel]
    rw [advance_add_mod h.read, h.write]
  · simp only [Fifo.take, Nat.add_sub_cancel]
    rw [h.stream, window_succ h.read, List.append_assoc, List.singleton_append]

/-- A thread that does not wait can go on, and keeps the invariant. -/
theorem FifoOk.run (h : FifoOk P s n) (ht : s.waiting t = false) (hpc : s.pc t ≠ .idle) :
    ∃ s' n', fifoStep s (.run t) = some s' ∧ FifoOk P s' n' := by
  have hle := h.le
  have hmutex : inside (s.pc t) = true →
      (s.signal .mutex).signals < (s.signal .mutex).maxSignals := by
    intro hin
    have hpos := census_pos (f := s.pc) hin
    have hm := h.counts.mutex
    have hmax : (s.signal .mutex).maxSignals = 1 := h.maxSignals .mutex
    omega
  simp only [fifoStep, ht, Bool.false_eq_true, if_false]
  cases ha : s.pc t with
  | idle => exact absurd ha hpc
  | writeMutex data => exact ⟨_, n, rfl, h.down ht ha rfl ⟨rfl, rfl, rfl⟩⟩
  | writeByte data => exact ⟨_, n + 1, rfl, h.put ht ha⟩
  | writeLeave =>
    obtain ⟨s', hs', hok⟩ := h.up .writeFull ht ha (hmutex (by rw [ha]; rfl))
      ⟨rfl, rfl, rfl⟩
    exact ⟨s', n, hs', hok⟩
  | writeFull =>
    have hmax : (s.signal .full).signals < (s.signal .full).maxSignals := by
      have hpos := census_pos (p := fillsByte) (f := s.pc) (t := t) (by rw [ha]; rfl)
      have hf := h.counts.full
      have hmax : (s.signal .full).maxSignals = P := h.maxSignals .full
      omega
    obtain ⟨s', hs', hok⟩ := h.up .idle ht ha hmax ⟨rfl, rfl, rfl⟩
    exact ⟨s', n, hs', hok⟩
  | readMutex => exact ⟨_, n, rfl, h.down ht ha rfl ⟨rfl, rfl, rfl⟩⟩
  | readByte => exact ⟨_, n - 1, rfl, h.take ht ha⟩
  | readLeave data =>
    obtain ⟨s', hs', hok⟩ := h.up (.readEmpty data) ht ha (hmutex (by rw [ha]; rfl))
      ⟨rfl, rfl, rfl⟩
    exact ⟨s', n, hs', hok⟩
  | readEmpty data =>
    have hmax : (s.signal .empty).signals < (s.signal .empty).maxSignals := by
      have hpos := census_pos (p := freesSpace) (f := s.pc) (t := t) (by rw [ha]; rfl)
      have he := h.counts.empty
      have hmax : (s.signal .empty).maxSignals = P := h.maxSignals .empty
      omega
    obtain ⟨s', hs', hok⟩ := h.up .idle ht ha hmax ⟨rfl, rfl, rfl⟩
    exact ⟨s', n, hs', hok⟩

theorem FifoOk.step {e : FifoEvent ι} (h : FifoOk P s n) (hstep : FifoStep s e s') :
    ∃ n', FifoOk P s' n' := by
  have hidle : ∀ t, s.pc t = .idle → s.waiting t = false :=
    fun t ht => h.parked.awake t (by rw [ht]; rfl)
  cases e with
  | write t data =>
    simp only [FifoStep, fifoStep] at hstep
    split at hstep
    · next ha =>
      obtain rfl := Option.some.inj hstep
      exact ⟨n, h.down (hidle t ha) ha rfl ⟨rfl, rfl, rfl⟩⟩
    · simp at hstep
  | read t =>
    simp only [FifoStep, fifoStep] at hstep
    split at hstep
    · next ha =>
      obtain rfl := Option.some.inj hstep
      exact ⟨n, h.down (hidle t ha) ha rfl ⟨rfl, rfl, rfl⟩⟩
    · simp at hstep
  | run t =>
    cases ht : s.waiting t with
    | true => simp [FifoStep, fifoStep, ht] at hstep
    | false =>
      by_cases ha : s.pc t = .idle
      · simp [FifoStep, fifoStep, ht, ha] at hstep
      · obtain ⟨s'', n', hs, hok⟩ := h.run ht ha
        obtain rfl := Option.some.inj (hs.symm.trans hstep)
        exact ⟨n', hok⟩

omit [DecidableEq ι] in
theorem fifoOk_of_boot (h : fifoBoot P s) : FifoOk P s 0 := by
  obtain ⟨hP, hcap, hsignal, hwrite, hread, hpc, hwaiting, hwritten, hgot⟩ := h
  have hcount : ∀ p : FifoPc → Bool, p .idle = false → census p s.pc = 0 :=
    fun p hp => census_eq_zero fun t => by rw [hpc, hp]
  refine ⟨⟨fun j => ?_, fun j t => ?_, fun t _ => hwaiting t⟩, ⟨?_, ?_, ?_⟩, hcap, fun j => ?_, ?_,
    ?_, ?_⟩
  · rw [hsignal]
    cases j
    · exact SignalOk.create (by omega)
    · exact SignalOk.create (by omega)
    · exact SignalOk.create (by omega)
  · rw [hsignal, hwaiting]
    cases j <;> simp [fifoSignals, createSignal]
  · rw [hsignal, hcount inside rfl]
    simp [fifoSignals, createSignal]
  · rw [hsignal, hcount wantsSpace rfl, hcount freesSpace rfl]
    simp [fifoSignals, createSignal]
  · rw [hsignal, hcount wantsByte rfl, hcount fillsByte rfl]
    simp [fifoSignals, createSignal]
  · rw [hsignal]
  · omega
  · rw [hwrite, hread, Nat.zero_mod]
  · rw [hwritten, hgot]
    rfl

/-- Past `down_signal` of the mutex and not yet past its `up_signal`. -/
def between (s : Fifo ι) (t : ι) : Prop := inside (s.pc t) = true ∧ t ∉ (s.signal .mutex).waiting

omit [DecidableEq ι] in
theorem FifoOk.exclusive (h : FifoOk P s n) (ht : between s t) (hu : between s u) : t = u := by
  by_contra hne
  have hp := h.parked.permits (k := .mutex) (p := inside) (l := [t, u])
    (fun _ => inside_of_parked) (by simp [hne])
    (by simp [ht.1, ht.2, hu.1, hu.2])
  have hm := h.counts.mutex
  simp only [List.length_cons, List.length_nil] at hp
  omega

/-- In every run the bytes read are the first of the bytes written, the others stand
in the buffer from the read offset on, a writer is about to write behind them, and
one thread at most is inside. -/
theorem fifo_stream {es : List (FifoEvent ι)} (h : Run (fifoBoot P) FifoStep es s) :
    s.got <+: s.written ∧
    (∃ n, n ≤ P ∧ s.written = s.got ++ window s.buffer s.fifoSize s.readOffset n ∧
      ∀ t data, s.pc t = .writeByte data →
        ∀ i, i < n → (s.readOffset + i) % s.fifoSize ≠ s.writeOffset) ∧
    (∀ t u, between s t → between s u → t = u) ∧
    ∀ t, s.waiting t = false → s.pc t ≠ .idle → ∃ s', fifoStep s (.run t) = some s' := by
  obtain ⟨n, hok⟩ : ∃ n, FifoOk P s n := by
    refine h.invariant (I := fun _ s => ∃ n, FifoOk P s n) (fun s hs => ⟨0, fifoOk_of_boot hs⟩) ?_
    rintro es s e s' ⟨n, hok⟩ hstep
    exact hok.step hstep
  refine ⟨⟨_, hok.stream.symm⟩, ⟨n, hok.le, hok.stream, ?_⟩, fun t u => hok.exclusive, ?_⟩
  · intro t data hpc i hi he
    have hroom := hok.room hpc
    have hcap := hok.capacity
    have hh := slot_injective (by omega) (by omega) (he.trans hok.write)
    omega
  · intro t ht hpc
    obtain ⟨s', -, hs', -⟩ := hok.run ht hpc
    exact ⟨s', hs'⟩

/-- Two threads: the reader waits for the byte, and is handed the permit. -/
theorem fifo_stream_two : ∃ s : Fifo Bool,
    Run (fifoBoot 1) FifoStep
      [.read true, .write false 7, .run false, .run false, .run false, .run false, .run true,
        .run true] s ∧ s.got = [7] ∧ s.got <+: s.written := by
  have h0 : Run (fifoBoot 1) FifoStep [] (⟨fifoSignals 1, 0, 0, 2, fun _ => 0, fun _ => .idle,
      fun _ => false, [], []⟩ : Fifo Bool) :=
    .start ⟨by decide, by decide, rfl, rfl, rfl, fun _ => rfl, fun _ => rfl, rfl, rfl⟩
  have h1 := h0.snoc (e := FifoEvent.read true) rfl
  have h2 := h1.snoc (e := FifoEvent.write false 7) rfl
  have h3 := h2.snoc (e := FifoEvent.run false) rfl
  have h4 := h3.snoc (e := FifoEvent.run false) rfl
  have h5 := h4.snoc (e := FifoEvent.run false) rfl
  have h6 := h5.snoc (e := FifoEvent.run false) rfl
  have h7 := h6.snoc (e := FifoEvent.run true) rfl
  have h8 := h7.snoc (e := FifoEvent.run true) rfl
  exact ⟨_, h8, rfl, (fifo_stream h8).1⟩

end TayHuang
