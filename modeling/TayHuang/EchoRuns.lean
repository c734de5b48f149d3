import TayHuang.Terminal

/-! The echo of the keys typed. The message loop leaves the key in one variable for
the echo thread, under a semaphore that counts to one. -/

namespace TayHuang

namespace Tty

open Function (update)
open Runs

variable {ι : Type} {s s' : Terminal ι}

/-- How many keys the echo thread is behind: the permits it can still get, the one it
has asked for and the one the message loop is about to give. -/
def lag (s : Terminal ι) : Int :=
  s.signal.signals + (if s.echo = .read then 1 else 0) + if s.loop = .signalling then 1 else 0

structure EchoOk (s : Terminal ι) : Prop where
  waits : Waits s.signal s.echoWaits
  max : s.signal.maxSignals = 1
  parked : s.echoWaits () = true → s.echo = .read
  keys : lag s = 0 ∧ s.received = s.echoed ∨ lag s = 1 ∧ s.received = s.echoed ++ [s.key]

/-- The message loop takes the next key when the one before has been passed to
`echo_key`. -/
def Unhurried (s : Terminal ι) : TerminalEvent ι → Prop
  | .loop => s.loop = .receiving → s.received = s.echoed
  | _ => True

theorem EchoOk.boot (h : TerminalBoot s) : EchoOk s := by
  have hsig := h.signal
  refine ⟨?_, by rw [hsig]; rfl, fun hw => ?_, Or.inl ⟨?_, by rw [h.received, h.echoed]⟩⟩
  · rw [hsig]
    exact Waits.create fun _ => h.echoWaits
  · rw [h.echoWaits] at hw
    simp at hw
  · simp [lag, hsig, h.echo, h.loop, createSignal]

theorem EchoOk.congr (h : EchoOk s) (hsig : s'.signal = s.signal)
    (hwaits : s'.echoWaits = s.echoWaits) (hecho : s'.echo = s.echo)
    (hloop : s'.loop = .signalling ↔ s.loop = .signalling) (hkey : s'.key = s.key)
    (hreceived : s'.received = s.received) (hechoed : s'.echoed = s.echoed) : EchoOk s' := by
  obtain ⟨h1, h2, h3, h4⟩ := h
  refine ⟨by rwa [hsig, hwaits], by rwa [hsig], by rwa [hwaits, hecho], ?_⟩
  have hlag : lag s' = lag s := by simp only [lag, hsig, hecho, hloop]
  rwa [hlag, hreceived, hechoed, hkey]

theorem EchoOk.loopStep [DecidableEq ι] (h : EchoOk s)
    (hfits : s.loop = .receiving → s.received = s.echoed) (hs : loopStep s = some s') :
    EchoOk s' := by
  obtain ⟨hwaits, hmax, hparked, hkeys⟩ := h
  unfold Tty.loopStep at hs
  cases hl : s.loop with
  | receiving =>
    rw [hl] at hs
    cases hm : s.mailbox with
    | nil => simp [hm] at hs
    | cons k rest =>
      simp only [hm, Option.some.injEq] at hs
      subst hs
      have heq := hfits hl
      refine ⟨hwaits, hmax, hparked, Or.inr ⟨?_, by simp [heq]⟩⟩
      rcases hkeys with ⟨hlag, -⟩ | ⟨-, hbehind⟩
      · simp only [lag, hl, if_true] at hlag ⊢
        simpa using hlag
      · rw [heq] at hbehind
        simp at hbehind
  | signalling =>
    simp only [hl] at hs
    obtain ⟨r, hr, rfl⟩ := Option.map_eq_some_iff.mp hs
    -- nobody can have taken a permit that was not given
    have hlow : s.signal.signals < s.signal.maxSignals := by
      rw [hmax]
      have hlag : lag s ≤ 1 := by
        rcases hkeys with ⟨hlag, -⟩ | ⟨hlag, -⟩ <;> omega
      simp only [lag, hl, if_true] at hlag
      split at hlag <;> omega
    obtain ⟨r', hr', hw, hsignals, hm⟩ := hwaits.up hlow
    obtain rfl := Option.some.inj (hr.symm.trans hr')
    refine ⟨hw, hm.trans hmax, fun hp => hparked (ready_eq_true.mp hp).1, ?_⟩
    have hlag : lag { s with
        signal := r.1, echoWaits := ready s.echoWaits r.2, loop := LoopPc.checking } = lag s := by
      simp only [lag, hl, hsignals, if_true, reduceCtorEq, if_false]
      omega
    rw [hlag]
    exact hkeys
  | checking =>
    simp only [hl] at hs
    have hok : EchoOk s := ⟨hwaits, hmax, hparked, hkeys⟩
    split at hs
    · obtain ⟨r, -, rfl⟩ := Option.map_eq_some_iff.mp hs
      exact hok.congr rfl rfl rfl (by simp [hl]) rfl rfl rfl
    · obtain rfl := Option.some.inj hs
      exact hok.congr rfl rfl rfl (by simp [hl]) rfl rfl rfl

theorem EchoOk.echoStep (h : EchoOk s) (hs : echoStep s = some s') : EchoOk s' := by
  obtain ⟨hwaits, hmax, hparked, hkeys⟩ := h
  unfold Tty.echoStep at hs
  split at hs
  · simp at hs
  rename_i hawake
  rw [Bool.not_eq_true] at hawake
  cases he : s.echo with
  | down =>
    simp only [he, Option.some.injEq] at hs
    subst hs
    obtain ⟨hw, hsignals, hm⟩ := hwaits.down hawake
    refine ⟨hw, hm.trans hmax, fun _ => rfl, ?_⟩
    have hlag : lag { s with
        signal := (downSignal s.signal ()).1
        echoWaits := update s.echoWaits () (downSignal s.signal ()).2
        echo := EchoPc.read } = lag s := by
      simp only [lag, he, hsignals, if_true, reduceCtorEq, if_false]
      omega
    rw [hlag]
    exact hkeys
  | read =>
    simp only [he, Option.some.injEq] at hs
    subst hs
    have hsignals := hwaits.nonneg hawake
    refine ⟨hwaits, hmax, fun hp => absurd hp (by simp [hawake]), ?_⟩
    rcases hkeys with ⟨hlag, -⟩ | ⟨hlag, hbehind⟩
    · simp only [lag, he, if_true] at hlag
      split at hlag <;> omega
    · refine Or.inl ⟨?_, hbehind⟩
      simp only [lag, he, if_true, reduceCtorEq, if_false] at hlag ⊢
      omega
  | flush =>
    simp only [he, Option.some.injEq] at hs
    subst hs
    refine ⟨hwaits, hmax, fun hp => absurd hp (by simp [hawake]), ?_⟩
    simpa only [lag, he, reduceCtorEq, if_false] using hkeys

variable [DecidableEq ι]

/-- The driver and the callers of `__getchar` do not touch what the echo uses. -/
theorem EchoOk.step {e : TerminalEvent ι} (h : EchoOk s) (hfits : Unhurried s e)
    (hs : TerminalStep s e s') : EchoOk s' := by
  unfold TerminalStep terminalStep at hs
  cases e with
  | loop => exact h.loopStep hfits hs
  | echo => exact h.echoStep hs
  | typed k =>
    simp only at hs
    split at hs
    · obtain rfl := Option.some.inj hs
      exact h.congr rfl rfl rfl Iff.rfl rfl rfl rfl
    · simp at hs
  | send ok =>
    simp only at hs
    split at hs
    · obtain rfl := Option.some.inj hs
      exact h.congr rfl rfl rfl Iff.rfl rfl rfl rfl
    · simp at hs
  | write =>
    obtain ⟨k, f, ⟨-, -, rfl⟩ | ⟨-, -, rfl⟩⟩ := driverStep_cases hs
    · exact h.congr rfl rfl rfl Iff.rfl rfl rfl rfl
    · exact h.congr rfl rfl rfl Iff.rfl rfl rfl rfl
  | call t =>
    simp only at hs
    split at hs
    · obtain rfl := Option.some.inj hs
      exact h.congr rfl rfl rfl Iff.rfl rfl rfl rfl
    · simp at hs
  | get t =>
    obtain ⟨-, ⟨b, l, -, -, rfl⟩ | ⟨b, c, l, -, -, rfl⟩ | ⟨k, -, ⟨-, rfl⟩ | ⟨-, r, -, rfl⟩⟩⟩ :=
      getStep_cases hs
    · exact h.congr rfl rfl rfl Iff.rfl rfl rfl rfl
    · exact h.congr rfl rfl rfl Iff.rfl rfl rfl rfl
    · exact h.congr rfl rfl rfl Iff.rfl rfl rfl rfl
    · exact h.congr rfl rfl rfl Iff.rfl rfl rfl rfl

/-- While the message loop takes no key before the last one was passed to `echo_key`,
the keys echoed are a prefix of the keys received. -/
theorem echo_prefix {es : List (TerminalEvent ι)}
    (h : Run TerminalBoot (Guarded Unhurried TerminalStep) es s) : s.echoed <+: s.received := by
  have hok : EchoOk s := h.invariant (I := fun _ s => EchoOk s) (fun _ => EchoOk.boot)
    fun _ _ _ _ hok hstep => hok.step hstep.1 hstep.2
  rcases hok.keys with ⟨-, heq⟩ | ⟨-, heq⟩
  · exact ⟨[], by rw [heq, List.append_nil]⟩
  · exact ⟨[s.key], heq.symm⟩

/-- The terminal at boot, with one caller. -/
def idleTerminal : Terminal Unit where
  driver := .reading
  localFifo := newFifo localFifoSize fun _ => 0
  mailbox := []
  loop := .receiving
  key := 0
  signal := createSignal 1 0 false
  waitEnter := createSignal 25 0 false
  echo := .down
  echoWaits := fun _ => false
  call := fun _ => .idle
  callWaits := fun _ => false
  screen := blank
  active := 0
  wrote := []
  received := []
  echoed := []
  taken := []
  returned := []

theorem idleTerminal_boot : TerminalBoot idleTerminal :=
  ⟨rfl, ⟨_, rfl⟩, rfl, rfl, rfl, rfl, rfl, rfl, fun _ => rfl, fun _ => rfl, blank_initial, rfl, rfl, rfl,
    rfl, rfl⟩

/-- Two keys, each echoed before the next one is taken. -/
theorem echo_prefix_two : ∃ s : Terminal Unit, Run TerminalBoot (Guarded Unhurried TerminalStep)
    [.echo, .typed 97, .send true, .loop, .loop, .echo, .loop, .echo, .write, .write, .echo,
      .typed 98, .send true, .loop, .loop, .echo] s ∧ s.echoed = [97, 98] ∧
      s.echoed <+: s.received := by
  have h0 : Run TerminalBoot (Guarded Unhurried TerminalStep) [] idleTerminal :=
    .start idleTerminal_boot
  have h1 := h0.snoc (e := TerminalEvent.echo) ⟨trivial, rfl⟩
  have h2 := h1.snoc (e := TerminalEvent.typed 97) ⟨trivial, rfl⟩
  have h3 := h2.snoc (e := TerminalEvent.send true) ⟨trivial, rfl⟩
  have h4 := h3.snoc (e := TerminalEvent.loop) ⟨fun _ => rfl, rfl⟩
  have h5 := h4.snoc (e := TerminalEvent.loop) ⟨fun h => (nomatch h), rfl⟩
  have h6 := h5.snoc (e := TerminalEvent.echo) ⟨trivial, rfl⟩
  have h7 := h6.snoc (e := TerminalEvent.loop) ⟨fun h => (nomatch h), rfl⟩
  have h8 := h7.snoc (e := TerminalEvent.echo) ⟨trivial, rfl⟩
  have h9 := h8.snoc (e := TerminalEvent.write) ⟨trivial, rfl⟩
  have h10 := h9.snoc (e := TerminalEvent.write) ⟨trivial, rfl⟩
  have h11 := h10.snoc (e := TerminalEvent.echo) ⟨trivial, rfl⟩
  have h12 := h11.snoc (e := TerminalEvent.typed 98) ⟨trivial, rfl⟩
  have h13 := h12.snoc (e := TerminalEvent.send true) ⟨trivial, rfl⟩
  have h14 := h13.snoc (e := TerminalEvent.loop) ⟨fun _ => rfl, rfl⟩
  have h15 := h14.snoc (e := TerminalEvent.loop) ⟨fun h => (nomatch h), rfl⟩
  have h16 := h15.snoc (e := TerminalEvent.echo) ⟨trivial, rfl⟩
  exact ⟨_, h16, rfl, echo_prefix h16⟩

/-- Two keys before the echo thread runs: the first one is never echoed. -/
theorem echo_skips_key : ¬ ∀ (es : List (TerminalEvent Unit)) (s : Terminal Unit),
    Run TerminalBoot TerminalStep es s → s.echoed <+: s.received := by
  intro hall
  have h0 : Run TerminalBoot TerminalStep [] idleTerminal := .start idleTerminal_boot
  have h1 := h0.snoc (e := TerminalEvent.typed 97) rfl
  have h2 := h1.snoc (e := TerminalEvent.send true) rfl
  have h3 := h2.snoc (e := TerminalEvent.write) rfl
  have h4 := h3.snoc (e := TerminalEvent.write) rfl
  have h5 := h4.snoc (e := TerminalEvent.typed 98) rfl
  have h6 := h5.snoc (e := TerminalEvent.send true) rfl
  have h7 := h6.snoc (e := TerminalEvent.loop) rfl
  have h8 := h7.snoc (e := TerminalEvent.loop) rfl
  have h9 := h8.snoc (e := TerminalEvent.loop) rfl
  have h10 := h9.snoc (e := TerminalEvent.loop) rfl
  have h11 := h10.snoc (e := TerminalEvent.echo) rfl
  have h12 := h11.snoc (e := TerminalEvent.loop) rfl
  have h13 := h12.snoc (e := TerminalEvent.echo) rfl
  have hp : [98] <+: [(97 : Key), 98] := hall _ _ h13
  exact absurd hp (by decide)

end Tty

end TayHuang
