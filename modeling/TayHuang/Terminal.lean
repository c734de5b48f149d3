import TayHuang.Console
import TayHuang.Fifo
import TayHuang.FifoStruct
import TayHuang.LittleEndian

/-! From the keyboard to the terminal. The keyboard driver sends every key to the
terminal and queues it for `getkey`; the terminal's message loop hands the key to
the thread that echoes it and counts the lines for the threads that wait for one.
The threads are interleaved between their calls of the kernel and their accesses to
what they share; a byte goes into the local queue, or out of it, at once. -/

namespace TayHuang

namespace Tty

open Function (update)
open Runs LittleEndian

abbrev Key := UInt16

def enter : Key := UInt16.ofNat (256 + KeyName.ENTER.ctorIdx)

def bytesOf (ks : List Key) : List UInt8 := ks.flatMap fun k => toBytes 2 k.toNat

def keyOf (low high : UInt8) : Key := UInt16.ofNat (ofBytes [low, high])

/-- `LOCAL_FIFO_SIZE`. -/
def localFifoSize : Nat := 8192

/-- The loop of the keyboard driver's `kmod_main`. -/
inductive DriverPc
  | reading
  | sending (key : Key)
  | writing (key : Key)
  | writingHigh (key : Key)
  deriving DecidableEq

/-- The terminal's message loop in `normal_ipc_handler`. -/
inductive LoopPc
  | receiving
  | signalling
  | checking
  deriving DecidableEq

/-- `echo_input`. -/
inductive EchoPc
  | down
  | read
  | flush
  deriving DecidableEq

/-- `__getchar`, with `__getkey` of the driver. -/
inductive CallPc
  | idle
  | getkey
  | second (low : UInt8)
  | got (key : Key)
  deriving DecidableEq

/-- The driver's local queue, the messages on their way to the terminal, what the
threads of the terminal share, and where each thread is. The last fields record the
keys that went through, in order: into the local queue, to the terminal, to
`echo_key`, out of the local queue and out of `__getchar`. -/
structure Terminal (ι : Type) where
  driver : DriverPc
  localFifo : FifoStruct
  mailbox : List Key
  loop : LoopPc
  key : Key
  signal : Signal Unit
  waitEnter : Signal ι
  echo : EchoPc
  echoWaits : Unit → Bool
  call : ι → CallPc
  callWaits : ι → Bool
  screen : Consoles
  active : Fin 4
  wrote : List Key
  received : List Key
  echoed : List Key
  taken : List Key
  returned : List Key

inductive TerminalEvent (ι : Type)
  /-- The driver reads a key. -/
  | typed (key : Key)
  /-- `send_msg`, which may fail. -/
  | send (ok : Bool)
  | write
  | loop
  | echo
  /-- A call of `__getchar`. -/
  | call (t : ι)
  | get (t : ι)

section Model

variable {ι : Type} [DecidableEq ι]

/-- One turn of the driver, which waits while the local queue has no permit for a byte. -/
def driverStep (s : Terminal ι) : Option (Terminal ι) :=
  match s.driver with
  | .writing k =>
    (fifoWriteBytes s.localFifo ((toBytes 2 k.toNat).take 1)).map fun f =>
      { s with driver := .writingHigh k, localFifo := f }
  | .writingHigh k =>
    (fifoWriteBytes s.localFifo ((toBytes 2 k.toNat).drop 1)).map fun f =>
      { s with driver := .reading, localFifo := f, wrote := s.wrote ++ [k] }
  | _ => none

/-- One turn of the message loop. -/
def loopStep (s : Terminal ι) : Option (Terminal ι) :=
  match s.loop with
  | .receiving =>
    match s.mailbox with
    | [] => none
    | k :: rest =>
      some { s with mailbox := rest, key := k, received := s.received ++ [k], loop := .signalling }
  | .signalling =>
    (upSignal s.signal).map fun r =>
      { s with signal := r.1, echoWaits := ready s.echoWaits r.2, loop := .checking }
  | .checking =>
    if s.key = enter then
      (upSignal s.waitEnter).map fun r =>
        { s with waitEnter := r.1, callWaits := ready s.callWaits r.2, loop := .receiving }
    else some { s with loop := .receiving }

/-- One turn of the echo thread. -/
def echoStep (s : Terminal ι) : Option (Terminal ι) :=
  if s.echoWaits () then none
  else
    match s.echo with
    | .down =>
      some { s with
        signal := (downSignal s.signal ()).1
        echoWaits := update s.echoWaits () (downSignal s.signal ()).2
        echo := .read }
    | .read =>
      some { s with
        screen := putchar s.screen s.active (escapeKey s.key.toNat)
        echoed := s.echoed ++ [s.key]
        echo := .flush }
    | .flush => some { s with echo := .down }

/-- One turn of a thread in `__getchar`. -/
def getStep (s : Terminal ι) (t : ι) : Option (Terminal ι) :=
  if s.callWaits t then none
  else
    match s.call t with
    | .idle => none
    | .getkey =>
      (fifoReadByte s.localFifo).map fun r =>
        { s with localFifo := r.2, call := update s.call t (.second r.1) }
    | .second b =>
      (fifoReadByte s.localFifo).map fun r =>
        { s with
          localFifo := r.2
          call := update s.call t (.got (keyOf b r.1))
          taken := s.taken ++ [keyOf b r.1] }
    | .got k =>
      if k = enter then
        some { s with call := update s.call t .idle, returned := s.returned ++ [k] }
      else
        (upSignal s.waitEnter).map fun r =>
          { s with
            waitEnter := r.1
            callWaits := ready s.callWaits r.2
            call := update s.call t .idle
            returned := s.returned ++ [k] }

def terminalStep (s : Terminal ι) : TerminalEvent ι → Option (Terminal ι)
  | .typed k =>
    match s.driver with
    | .reading => some { s with driver := .sending k }
    | _ => none
  | .send ok =>
    match s.driver with
    | .sending k =>
      some { s with driver := .writing k, mailbox := if ok then s.mailbox ++ [k] else s.mailbox }
    | _ => none
  | .write => driverStep s
  | .loop => loopStep s
  | .echo => echoStep s
  | .call t =>
    match s.call t with
    | .idle =>
      some { s with
        waitEnter := (downSignal s.waitEnter t).1
        callWaits := update s.callWaits t (downSignal s.waitEnter t).2
        call := update s.call t .getkey }
    | _ => none
  | .get t => getStep s t

end Model

variable {ι : Type}

/-- After `kmod_init` and `init_consoles` of the terminal, with nothing typed. -/
structure TerminalBoot (s : Terminal ι) : Prop where
  driver : s.driver = .reading
  localFifo : ∃ buffer, s.localFifo = newFifo localFifoSize buffer
  mailbox : s.mailbox = []
  loop : s.loop = .receiving
  signal : s.signal = createSignal 1 0 false
  waitEnter : s.waitEnter = createSignal 25 0 false
  echo : s.echo = .down
  echoWaits : s.echoWaits () = false
  call : ∀ t, s.call t = .idle
  callWaits : ∀ t, s.callWaits t = false
  screen : Initial s.screen
  wrote : s.wrote = []
  received : s.received = []
  echoed : s.echoed = []
  taken : s.taken = []
  returned : s.returned = []

def TerminalStep [DecidableEq ι] (s : Terminal ι) (e : TerminalEvent ι) (s' : Terminal ι) : Prop :=
  terminalStep s e = some s'

theorem driverStep_cases {s s' : Terminal ι} (hs : driverStep s = some s') :
    ∃ k f, s.driver = .writing k ∧ fifoWriteBytes s.localFifo ((toBytes 2 k.toNat).take 1) = some f ∧
        s' = { s with driver := .writingHigh k, localFifo := f } ∨
      s.driver = .writingHigh k ∧ fifoWriteBytes s.localFifo ((toBytes 2 k.toNat).drop 1) = some f ∧
        s' = { s with driver := .reading, localFifo := f, wrote := s.wrote ++ [k] } := by
  unfold driverStep at hs
  split at hs
  · next k hd =>
    obtain ⟨f, hf, rfl⟩ := Option.map_eq_some_iff.mp hs
    exact ⟨k, f, .inl ⟨hd, hf, rfl⟩⟩
  · next k hd =>
    obtain ⟨f, hf, rfl⟩ := Option.map_eq_some_iff.mp hs
    exact ⟨k, f, .inr ⟨hd, hf, rfl⟩⟩
  · simp at hs

/-- The first byte of a key is taken, the second one, or the key is returned. -/
theorem getStep_cases [DecidableEq ι] {s s' : Terminal ι} {t : ι} (hs : getStep s t = some s') :
    s.callWaits t = false ∧
      ((∃ b f, s.call t = .getkey ∧ fifoReadByte s.localFifo = some (b, f) ∧
          s' = { s with localFifo := f, call := update s.call t (.second b) }) ∨
        (∃ b c f, s.call t = .second b ∧ fifoReadByte s.localFifo = some (c, f) ∧ s' = { s with
          localFifo := f
          call := update s.call t (.got (keyOf b c))
          taken := s.taken ++ [keyOf b c] }) ∨
        ∃ k, s.call t = .got k ∧
          (k = enter ∧ s' = { s with call := update s.call t .idle, returned := s.returned ++ [k] } ∨
            k ≠ enter ∧ ∃ r, upSignal s.waitEnter = some r ∧ s' = { s with
              waitEnter := r.1
              callWaits := ready s.callWaits r.2
              call := update s.call t .idle
              returned := s.returned ++ [k] })) := by
  unfold getStep at hs
  by_cases hw : s.callWaits t = true
  · rw [if_pos hw] at hs
    cases hs
  rw [if_neg hw] at hs
  refine ⟨Bool.not_eq_true _ ▸ hw, ?_⟩
  cases hc : s.call t with
  | idle =>
    rw [hc] at hs
    cases hs
  | getkey =>
    rw [hc] at hs
    obtain ⟨⟨b, f⟩, hr, rfl⟩ := Option.map_eq_some_iff.mp hs
    exact .inl ⟨b, f, rfl, hr, rfl⟩
  | second b =>
    rw [hc] at hs
    obtain ⟨⟨c, f⟩, hr, rfl⟩ := Option.map_eq_some_iff.mp hs
    exact .inr (.inl ⟨b, c, f, rfl, hr, rfl⟩)
  | got k =>
    rw [hc] at hs
    refine .inr (.inr ⟨k, rfl, ?_⟩)
    change (if k = enter then _ else _) = _ at hs
    by_cases hk : k = enter
    · rw [if_pos hk] at hs
      exact .inl ⟨hk, (Option.some.inj hs).symm⟩
    · rw [if_neg hk] at hs
      obtain ⟨r, hr, he⟩ := Option.map_eq_some_iff.mp hs
      exact .inr ⟨hk, r, hr, he.symm⟩

/-! ### A semaphore and the threads that wait for it -/

structure Waits (sig : Signal ι) (waiting : ι → Bool) : Prop where
  ok : SignalOk sig
  queue : ∀ t, t ∈ sig.waiting ↔ waiting t = true

variable {sig : Signal ι} {waiting : ι → Bool} {t : ι}

theorem Waits.create {maxSignals : Int} (h : ∀ t, waiting t = false) :
    Waits (createSignal (ι := ι) maxSignals 0 false) waiting := by
  refine ⟨SignalOk.create le_rfl, fun t => ?_⟩
  simp [createSignal, h t]

/-- Whoever is past `down_signal` was granted a permit. -/
theorem Waits.nonneg [Subsingleton ι] (h : Waits sig waiting) (ht : waiting t = false) :
    0 ≤ sig.signals := by
  have hnil : sig.waiting = [] := by
    rw [List.eq_nil_iff_forall_not_mem]
    intro u hu
    rw [Subsingleton.elim u t, h.queue, ht] at hu
    simp at hu
  have hlen := h.ok.length
  rw [hnil, List.length_nil] at hlen
  omega

variable [DecidableEq ι]

theorem Waits.down (h : Waits sig waiting) (ht : waiting t = false) :
    Waits (downSignal sig t).1 (update waiting t (downSignal sig t).2) ∧
      (downSignal sig t).1.signals = sig.signals - 1 ∧
      (downSignal sig t).1.maxSignals = sig.maxSignals := by
  have hnot : t ∉ sig.waiting := by
    rw [h.queue, ht]
    simp
  obtain ⟨hok, hs, hm, hw⟩ := h.ok.down hnot
  refine ⟨⟨hok, fun u => ?_⟩, hs, hm⟩
  rw [hw]
  by_cases hu : u = t
  · subst hu
    rw [Function.update_self]
    cases (downSignal sig u).2 <;> simp [hnot]
  · rw [Function.update_of_ne hu, ← h.queue u]
    cases (downSignal sig t).2 <;> simp [hu]

theorem Waits.up (h : Waits sig waiting) (hmax : sig.signals < sig.maxSignals) :
    ∃ r, upSignal sig = some r ∧ Waits r.1 (ready waiting r.2) ∧ r.1.signals = sig.signals + 1 ∧
      r.1.maxSignals = sig.maxSignals := by
  obtain ⟨hup, hok⟩ := h.ok.up hmax
  refine ⟨_, hup, ⟨hok, fun u => ?_⟩, rfl, rfl⟩
  rw [ready_eq_true, ← h.queue u]
  exact mem_tail_iff h.ok.nodup

end Tty

end TayHuang
