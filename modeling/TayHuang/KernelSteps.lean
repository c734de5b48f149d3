import TayHuang.Kernel

/-! What the kernel's operations do, one lemma each. -/

namespace TayHuang.Kernel

open Function (update)

variable {k k' : Kernel} {t p src size : Nat} {pack : Msgpack} {paSrc : Nat → Nat} {wakes b : Bool}

@[simp] theorem setState_state_self (k : Kernel) (t : Nat) (st : ThreadState) :
    (k.setState t st).state t = st := Function.update_self ..

theorem setState_state_of_ne {u : Nat} (h : u ≠ t) (st : ThreadState) :
    (k.setState t st).state u = k.state u := Function.update_of_ne h ..

@[simp] theorem setSignal_self (k : Kernel) (id : Nat) (s : Signal Nat) :
    (k.setSignal id s).signal id = some s := Function.update_self ..

theorem setSignal_of_ne {i id : Nat} (h : i ≠ id) (s : Signal Nat) :
    (k.setSignal id s).signal i = k.signal i := Function.update_of_ne h ..

/-- A thread that is made ready: only the queue of level 0 and its links change. -/
theorem enqueueThread_eq (k : Kernel) (t : Nat) :
    ∃ freeNext level0, k.enqueueThread t = { k with freeNext := freeNext, level0 := level0 } := by
  unfold enqueueThread
  split
  · exact ⟨_, _, rfl⟩
  · split
    · exact ⟨_, _, rfl⟩
    · exact ⟨_, _, rfl⟩

@[simp] theorem enqueueThread_current (k : Kernel) (t : Nat) :
    (k.enqueueThread t).current = k.current := by
  obtain ⟨freeNext, level0, he⟩ := enqueueThread_eq k t
  rw [he]

@[simp] theorem enqueueThread_live (k : Kernel) (t : Nat) :
    (k.enqueueThread t).live = k.live := by
  obtain ⟨freeNext, level0, he⟩ := enqueueThread_eq k t
  rw [he]

@[simp] theorem enqueueThread_registers (k : Kernel) (t : Nat) :
    (k.enqueueThread t).registers = k.registers := by
  obtain ⟨freeNext, level0, he⟩ := enqueueThread_eq k t
  rw [he]

@[simp] theorem enqueueThread_task (k : Kernel) (t : Nat) :
    (k.enqueueThread t).task = k.task := by
  obtain ⟨freeNext, level0, he⟩ := enqueueThread_eq k t
  rw [he]

@[simp] theorem enqueueThread_state (k : Kernel) (t : Nat) :
    (k.enqueueThread t).state = k.state := by
  obtain ⟨freeNext, level0, he⟩ := enqueueThread_eq k t
  rw [he]

theorem getTaskByPid_mem {pid : Int} (h : k.getTaskByPid pid = some p) : p ∈ k.taskList :=
  List.mem_of_find?_eq_some h

theorem handler_update {ipc : Nat → IpcInfo} {x : IpcInfo}
    (h : x.msgHandlerThread = (ipc p).msgHandlerThread) (q : Nat) :
    (update ipc p x q).msgHandlerThread = (ipc q).msgHandlerThread := by
  by_cases hq : q = p
  · rw [hq, Function.update_self, h]
  · rw [Function.update_of_ne hq]

theorem running_of_not_shouldSwitch (hs : k.doSchedule = true) (h : k.shouldSwitch = false) :
    k.state k.current = .running := by
  simp only [shouldSwitch, hs] at h
  by_contra hne
  simp [hne] at h

/-- The memory and the mailbox after a message has been accepted. -/
def delivered (k : Kernel) (p : Nat) (pack : Msgpack) (paSrc : Nat → Nat) (src size : Nat) :
    Kernel :=
  let r := writeToBuffer (k.pa p) paSrc (k.ipc p) pack src k.mem
  { k with
    mem := r.1
    ipc := update k.ipc p
      { k.ipc p with usedSize := ((k.ipc p).usedSize + (8 + size)) % 2 ^ 64, writePtr := r.2 } }

theorem deliver_eq (k : Kernel) (p : Nat) (pack : Msgpack) (paSrc : Nat → Nat) (src size : Nat)
    (wakes : Bool) : k.deliver p pack paSrc src size wakes = (k.ipc p).msgHandlerThread.map fun t =>
      if k.state t = .waitingIpc ∧ wakes = true then
        ((k.delivered p pack paSrc src size).setState t .ready).enqueueThread t
      else k.delivered p pack paSrc src size := rfl

theorem delivered_handler (q : Nat) :
    ((k.delivered p pack paSrc src size).ipc q).msgHandlerThread = (k.ipc q).msgHandlerThread := by
  simp only [delivered]
  exact handler_update (by rfl) q

/-- Apart from the mailbox a delivery changes a thread's state and the ready queue. -/
theorem deliver_frame (h : k.deliver p pack paSrc src size wakes = some k') :
    ∃ state freeNext level0, k' = { k.delivered p pack paSrc src size with
      state := state, freeNext := freeNext, level0 := level0 } := by
  rw [deliver_eq] at h
  obtain ⟨t, -, rfl⟩ := Option.map_eq_some_iff.mp h
  split
  · obtain ⟨freeNext, level0, he⟩ :=
      enqueueThread_eq ((k.delivered p pack paSrc src size).setState t .ready) t
    exact ⟨_, freeNext, level0, he⟩
  · exact ⟨_, _, _, rfl⟩

theorem deliver_isSome (h : (k.ipc p).msgHandlerThread ≠ none) :
    ∃ k', k.deliver p pack paSrc src size wakes = some k' := by
  obtain ⟨t, ht⟩ := Option.ne_none_iff_exists'.mp h
  rw [deliver_eq, ht]
  exact ⟨_, rfl⟩

/-- The header that `__send_msg` and `dummy_send_msg` build. -/
def header (msgno : MsgnoId) (reserved : UInt8) (size : Nat) (pid : Int) : Msgpack :=
  ⟨reserved, msgno.messageNo, msgno.msgId, UInt16.ofNat size, source16 pid⟩

/-- Room for a message, as the code computes it. -/
def HasRoom (ipc : IpcInfo) (size : Nat) : Prop := (ipc.usedSize + size + 8) % 2 ^ 64 ≤ ipc.mailSize

instance (ipc : IpcInfo) (size : Nat) : Decidable (HasRoom ipc size) :=
  inferInstanceAs (Decidable (_ ≤ _))

/-- A message is refused, or delivered to the task it is for. -/
theorem send_cases {dst : Int} {refused : Nat → Prop} [DecidablePred refused]
    {deliver : Nat → Option Kernel}
    (h : (match k.getTaskByPid dst with
      | none => some (k, false)
      | some p => if refused p then some (k, false) else (deliver p).map fun k => (k, true)) =
        some (k', b)) :
    b = false ∧ k' = k ∨
      b = true ∧ ∃ p, k.getTaskByPid dst = some p ∧ ¬ refused p ∧ deliver p = some k' := by
  cases hp : k.getTaskByPid dst with
  | none =>
    simp only [hp, Option.some.injEq, Prod.mk.injEq] at h
    exact .inl ⟨h.2.symm, h.1.symm⟩
  | some p =>
    simp only [hp] at h
    split at h
    · simp only [Option.some.injEq, Prod.mk.injEq] at h
      exact .inl ⟨h.2.symm, h.1.symm⟩
    · next hn =>
      obtain ⟨k1, hk1, he⟩ := Option.map_eq_some_iff.mp h
      simp only [Prod.mk.injEq] at he
      obtain ⟨rfl, rfl⟩ := he
      exact .inr ⟨rfl, p, rfl, hn, hk1⟩

theorem sendMsg_cases {msgno : MsgnoId} {reserved : UInt8} {dst : Int}
    (h : k.__sendMsg msgno reserved src size dst = some (k', b)) :
    b = false ∧ k' = k ∨ b = true ∧ ∃ p, k.getTaskByPid dst = some p ∧ HasRoom (k.ipc p) size ∧
      ((k.ipc p).allowPid = (k.task k.currentTask).pid ∨ (k.ipc p).allowPid = -1) ∧
      k.deliver p (header msgno reserved size (k.task k.currentTask).pid) (k.pa k.currentTask) src
        size ((k.ipc p).allowPid ≠ -2) = some k' := by
  refine (send_cases h).imp_right fun ⟨hb, p, hp, hn, hd⟩ => ?_
  rw [not_or, not_and_or, not_not, not_not] at hn
  exact ⟨hb, p, hp, Nat.not_lt.mp hn.1, hn.2, hd⟩

theorem dummySendMsg_cases {msgno : MsgnoId} {reserved : UInt8} {dst : Int}
    (h : k.dummySendMsg msgno reserved src size dst = some (k', b)) :
    b = false ∧ k' = k ∨ b = true ∧ ∃ p, k.getTaskByPid dst = some p ∧ HasRoom (k.ipc p) size ∧
      ((k.ipc p).allowPid = -2 ∨ (k.ipc p).allowPid < 0) ∧
      k.deliver p (header msgno reserved size (-2)) (getPhysicalAddress k.pt k.kernelPml4) src size
        true = some k' := by
  refine (send_cases h).imp_right fun ⟨hb, p, hp, hn, hd⟩ => ?_
  rw [not_or, not_and_or, not_not, Int.not_le] at hn
  exact ⟨hb, p, hp, Nat.not_lt.mp hn.1, hn.2, hd⟩

def withMsgid (k : Kernel) (n : Nat) : Kernel := { k with msgidCounter := n }

theorem irq_effect {irq : Nat} {reserved : UInt8} (h : k.normalIrqHandler irq reserved src = some k') :
    k' = k ∨ ∃ n, k' = k.withMsgid n ∨ k.irqHandleTasks irq ≠ 0 ∧ ∃ p pack,
      k.getTaskByPid (k.irqHandleTasks irq) = some p ∧ HasRoom (k.ipc p) 4 ∧
      ((k.ipc p).allowPid = -2 ∨ (k.ipc p).allowPid < 0) ∧
      (k.withMsgid n).deliver p pack (getPhysicalAddress k.pt k.kernelPml4) src 4 true = some k' := by
  simp only [normalIrqHandler] at h
  split at h
  · exact .inl (Option.some.inj h).symm
  · next hirq =>
    obtain ⟨⟨k1, b⟩, hk, rfl⟩ := Option.map_eq_some_iff.mp h
    refine .inr ⟨(getMsgid k.msgidCounter).2, ?_⟩
    rcases dummySendMsg_cases hk with ⟨-, hk⟩ | ⟨-, p, hp, hroom, hallow, hd⟩
    · exact .inl hk
    · exact .inr ⟨hirq, p, _, hp, hroom, hallow, hd⟩

theorem irq_cases {irq : Nat} {reserved : UInt8} (h : k.normalIrqHandler irq reserved src = some k') :
    k' = k ∨ ∃ n, k' = k.withMsgid n ∨ ∃ p pack, p ∈ k.taskList ∧
      ((k.ipc p).allowPid = -2 ∨ (k.ipc p).allowPid < 0) ∧
      (k.withMsgid n).deliver p pack (getPhysicalAddress k.pt k.kernelPml4) src 4 true = some k' := by
  rcases irq_effect h with hk | ⟨n, hk | ⟨-, p, pack, hp, -, hallow, hd⟩⟩
  · exact .inl hk
  · exact .inr ⟨n, .inl hk⟩
  · exact .inr ⟨n, .inr ⟨p, pack, getTaskByPid_mem hp, hallow, hd⟩⟩

theorem removeThread_eq (k : Kernel) (t : Nat) :
    ∃ next last, k.removeThread t = { k with
      next := next
      last := last
      live := update k.live t false } := by
  simp only [removeThread]
  split <;> split <;> exact ⟨_, _, rfl⟩

/-- The registers that `down_thread` keeps. -/
def saved (k : Kernel) (regs : Frame) : Kernel :=
  { k with registers := update k.registers k.current (saveRegisters (k.registers k.current) regs) }

theorem downThread_cases (k : Kernel) (regs : Frame) :
    k.state k.current = .running ∧
        k.downThread regs = ((k.saved regs).setState k.current .ready).enqueueThread k.current ∨
      (k.state k.current = .terminated ∨ k.state k.current = .exception) ∧
        k.downThread regs = (k.saved regs).removeThread k.current ∨
      k.state k.current ≠ .running ∧ k.downThread regs = k.saved regs := by
  simp only [downThread]
  split
  · next h => exact .inl ⟨h, rfl⟩
  · next h =>
    split
    · next hd => exact .inr (.inl ⟨hd, rfl⟩)
    · exact .inr (.inr ⟨h, rfl⟩)

/-- The kernel when `u` is the thread to run. -/
def resumed (k : Kernel) (u : Nat) : Kernel := (k.withCurrent u).setState u .running

theorem doSwitch_eq (k : Kernel) (regs : Frame) : ∃ count,
    (k.doSwitch regs).1 = { (k.downThread regs).getNextRunThread.1.resumed
      (k.downThread regs).getNextRunThread.2 with count := count } := by
  simp only [doSwitch]
  split
  · exact ⟨_, rfl⟩
  · exact ⟨_, rfl⟩

/-- The memory and the mailbox after a message of `size` bytes was taken out. -/
def taken (k : Kernel) (mem : Nat → UInt8) (readPtr size : Nat) : Kernel :=
  { k with
    mem := mem
    ipc := update k.ipc k.currentTask { k.ipc k.currentTask with
      readPtr := readPtr
      usedSize := (k.ipc k.currentTask).usedSize - size } }

theorem recvMsg_empty {dst : Nat} (h : (k.ipc k.currentTask).usedSize = 0) :
    k.__recvMsg dst = some (k, noMessage) := by
  unfold __recvMsg
  exact if_pos h

theorem recvMsg_frame {dst : Nat} (h : k.__recvMsg dst = some (k', pack)) :
    k' = k ∨ ∃ mem readPtr size, k' = k.taken mem readPtr size := by
  simp only [__recvMsg] at h
  split at h
  · exact .inl (Prod.mk.inj (Option.some.inj h)).1.symm
  · split at h
    · exact .inr ⟨_, _, _, (Prod.mk.inj (Option.some.inj h)).1.symm⟩
    · simp at h

theorem recvMsg_taken {dst readPtr : Nat} {mem : Nat → UInt8}
    (hne : (k.ipc k.currentTask).usedSize ≠ 0)
    (hread : readFromBuffer (k.pa k.currentTask) (k.ipc k.currentTask) dst k.mem =
      (pack, mem, readPtr))
    (hle : pack.length.toNat + 8 ≤ (k.ipc k.currentTask).usedSize) :
    k.__recvMsg dst = some (k.taken mem readPtr (pack.length.toNat + 8), pack) := by
  simp only [__recvMsg, if_neg hne, hread, if_pos hle, taken]

/-! ### What a call can do -/

theorem checkIpc_cases (k : Kernel) : k.__checkIpc = k ∨
    (k.ipc k.currentTask).usedSize = 0 ∧ k.__checkIpc = k.setState k.current .waitingIpc := by
  unfold __checkIpc
  split
  · exact .inl rfl
  · split
    · exact .inl rfl
    · next hused => exact .inr ⟨Nat.eq_zero_of_not_pos hused, rfl⟩

/-- The memory after a lock was taken. -/
def locked (k : Kernel) (val : Nat) : Kernel :=
  { k with mem := update k.mem (k.pa k.currentTask val) 1 }

theorem testAndLock_cases (k : Kernel) (val : Nat) :
    k.__testAndLock val = (k, false) ∨ k.__testAndLock val = (k.locked val, true) := by
  unfold __testAndLock
  by_cases hz : k.mem (k.pa k.currentTask val) ≠ 0
  · exact .inl (if_pos hz)
  · exact .inr (if_neg hz)

theorem upSignal_effect {id : Nat} (h : k.__upSignal id = some k') :
    ∃ s s', k.signal id = some s ∧ (TayHuang.upSignal s = some (s', none) ∧ k' = k.setSignal id s' ∨
      ∃ t, TayHuang.upSignal s = some (s', some t) ∧
        k' = ((k.setSignal id s').setState t .ready).enqueueThread t) := by
  obtain ⟨s, hs, h⟩ := Option.bind_eq_some_iff.mp h
  obtain ⟨⟨s', woken⟩, hr, rfl⟩ := Option.map_eq_some_iff.mp h
  cases woken with
  | none => exact ⟨s, s', hs, .inl ⟨hr, rfl⟩⟩
  | some t => exact ⟨s, s', hs, .inr ⟨t, hr, rfl⟩⟩

theorem downSignal_effect {id : Nat} (h : k.__downSignal id = some k') :
    ∃ s s', k.signal id = some s ∧ (TayHuang.downSignal s k.current = (s', false) ∧ k' = k.setSignal id s' ∨
      TayHuang.downSignal s k.current = (s', true) ∧
        k' = (k.setSignal id s').setState k.current .waiting) := by
  obtain ⟨s, hs, rfl⟩ := Option.map_eq_some_iff.mp h
  refine ⟨s, (TayHuang.downSignal s k.current).1, hs, ?_⟩
  cases hb : (TayHuang.downSignal s k.current).2 with
  | false => exact .inl ⟨Prod.ext rfl hb, by simp only [hb]; rfl⟩
  | true => exact .inr ⟨Prod.ext rfl hb, by simp only [hb]; rfl⟩

/-- The registers after the creator of `t` has put the argument into `rdi`. -/
def passing (k : Kernel) (t : Nat) (args : UInt64) : Kernel :=
  { k with
    registers := update k.registers t
      { k.registers t with basic := update (k.registers t).basic BasicReg.rdi.word args } }

/-- What a call leaves behind. -/
inductive Effect (fuel : Nat) (k : Kernel) : Syscall → Kernel → Prop
  | idle {call : Syscall} (hcall : ∀ t entry args, call ≠ .createThread t entry args) :
    Effect fuel k call k
  | sent {msgno : MsgnoId} {reserved : UInt8} {src size : Nat} {dst : Int} {p : Nat} {k' : Kernel}
      (hp : k.getTaskByPid dst = some p) (hroom : HasRoom (k.ipc p) size)
      (hallow : (k.ipc p).allowPid = (k.task k.currentTask).pid ∨ (k.ipc p).allowPid = -1)
      (hd : k.deliver p (header msgno reserved size (k.task k.currentTask).pid) (k.pa k.currentTask)
        src size ((k.ipc p).allowPid ≠ -2) = some k') :
    Effect fuel k (.sendMsg msgno reserved src size dst) k'
  | received {dst : Nat} {pack : Msgpack} {k' : Kernel} (hk : k.__recvMsg dst = some (k', pack)) :
    Effect fuel k (.recvMsg dst) k'
  | waits (hused : (k.ipc k.currentTask).usedSize = 0) :
    Effect fuel k .checkIpc (k.setState k.current .waitingIpc)
  | locks (val : Nat) : Effect fuel k (.testAndLock val) (k.locked val)
  | allows (pid : Int) : Effect fuel k (.setAllow pid) (k.__setAllow pid)
  | mails (buffer size : Nat) : Effect fuel k (.setMailbuffer buffer size) (k.__setMailbuffer buffer size)
  | creates (maxSignals value : Int) (soft : Bool) :
    Effect fuel k (.createSignal maxSignals value soft) (k.__createSignal maxSignals value soft).1
  | ups {id : Nat} {k' : Kernel} (hk : k.__upSignal id = some k') : Effect fuel k (.upSignal id) k'
  | downs {id : Nat} {k' : Kernel} (hk : k.__downSignal id = some k') : Effect fuel k (.downSignal id) k'
  | registers (irq : Nat) : Effect fuel k (.regIrq irq) (k.__regIrq irq)
  | spawns {t : Nat} {entry args : UInt64} {k' : Kernel}
      (hk : k.__createThread__ fuel t entry k.currentTask = some k') :
    Effect fuel k (.createThread t entry args) (k'.passing t args)
  | exits : Effect fuel k .exitThread k.__exitThread

theorem syscall_effect {fuel : Nat} {call : Syscall} {r : UInt64}
    (h : k.syscall fuel call = some (k', r)) : Effect fuel k call k' := by
  cases call with
  | sendMsg msgno reserved src size dst =>
    obtain ⟨⟨k1, b⟩, hk, he⟩ := Option.map_eq_some_iff.mp h
    obtain rfl := (Prod.mk.inj he).1
    rcases sendMsg_cases hk with ⟨-, rfl⟩ | ⟨-, p, hp, hroom, hallow, hd⟩
    · exact .idle nofun
    · exact .sent hp hroom hallow hd
  | recvMsg dst =>
    obtain ⟨⟨k1, pack⟩, hk, he⟩ := Option.map_eq_some_iff.mp h
    obtain rfl := (Prod.mk.inj he).1
    exact .received hk
  | checkIpc =>
    obtain rfl := (Prod.mk.inj (Option.some.inj h)).1
    rcases checkIpc_cases k with he | ⟨hused, he⟩
    · rw [he]
      exact .idle nofun
    · rw [he]
      exact .waits hused
  | testAndLock val =>
    obtain rfl := (Prod.mk.inj (Option.some.inj h)).1
    rcases testAndLock_cases k val with he | he
    · rw [he]
      exact .idle nofun
    · rw [he]
      exact .locks val
  | upSignal id =>
    obtain ⟨k1, hk, he⟩ := Option.map_eq_some_iff.mp h
    obtain rfl := (Prod.mk.inj he).1
    exact .ups hk
  | downSignal id =>
    obtain ⟨k1, hk, he⟩ := Option.map_eq_some_iff.mp h
    obtain rfl := (Prod.mk.inj he).1
    exact .downs hk
  | createThread t entry args =>
    obtain ⟨k1, hk, he⟩ := Option.map_eq_some_iff.mp h
    obtain rfl := (Prod.mk.inj he).1
    obtain ⟨k2, hk2, rfl⟩ := Option.map_eq_some_iff.mp hk
    exact .spawns hk2
  | getSignals id | isSoftSignal id =>
    obtain ⟨s, -, he⟩ := Option.map_eq_some_iff.mp h
    obtain rfl := (Prod.mk.inj he).1
    exact .idle nofun
  | setAllow pid =>
    obtain rfl := (Prod.mk.inj (Option.some.inj h)).1
    exact .allows pid
  | setMailbuffer buffer size =>
    obtain rfl := (Prod.mk.inj (Option.some.inj h)).1
    exact .mails buffer size
  | createSignal maxSignals value soft =>
    obtain rfl := (Prod.mk.inj (Option.some.inj h)).1
    exact .creates maxSignals value soft
  | regIrq irq =>
    obtain rfl := (Prod.mk.inj (Option.some.inj h)).1
    exact .registers irq
  | exitThread =>
    obtain rfl := (Prod.mk.inj (Option.some.inj h)).1
    exact .exits
  | moo =>
    obtain rfl := (Prod.mk.inj (Option.some.inj h)).1
    exact .idle nofun

end TayHuang.Kernel
