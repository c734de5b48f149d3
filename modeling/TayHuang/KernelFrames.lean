import TayHuang.KernelRuns

/-! What the events of the kernel leave alone. -/

namespace TayHuang.Kernel

open Function (update)

variable {k k' k'' : Kernel} {t p src size : Nat} {pack : Msgpack} {paSrc : Nat → Nat} {wakes : Bool}

/-- Only messages, states, the queue of level 0, semaphores and counters differ. The
running thread may have registered for the mailbox of its task. -/
def Light (k k' : Kernel) : Prop :=
  ∃ mem state freeNext ipc level0 signal curId irqs msgid,
    k' = { k with
      mem := mem
      state := state
      freeNext := freeNext
      ipc := ipc
      level0 := level0
      signal := signal
      curId := curId
      irqHandleTasks := irqs
      msgidCounter := msgid } ∧
    ∀ p, (ipc p).msgHandlerThread = (k.ipc p).msgHandlerThread ∨
      p = k.currentTask ∧ (ipc p).msgHandlerThread = some k.current

theorem Light.refl (k : Kernel) : Light k k :=
  ⟨_, _, _, _, _, _, _, _, _, rfl, fun _ => .inl rfl⟩

theorem Light.trans (h : Light k k') (h' : Light k' k'') : Light k k'' := by
  obtain ⟨_, _, _, _, _, _, _, _, _, rfl, hipc⟩ := h
  obtain ⟨_, _, _, _, _, _, _, _, _, rfl, hipc'⟩ := h'
  refine ⟨_, _, _, _, _, _, _, _, _, rfl, fun p => ?_⟩
  rcases hipc' p with he | he
  · exact (hipc p).imp he.trans fun hh => ⟨hh.1, he.trans hh.2⟩
  · exact .inr he

theorem Light.setState (k : Kernel) (t : Nat) (st : ThreadState) : Light k (k.setState t st) :=
  ⟨_, _, _, _, _, _, _, _, _, rfl, fun _ => .inl rfl⟩

theorem Light.setSignal (k : Kernel) (id : Nat) (s : Signal Nat) : Light k (k.setSignal id s) :=
  ⟨_, _, _, _, _, _, _, _, _, rfl, fun _ => .inl rfl⟩

theorem Light.enqueueThread (k : Kernel) (t : Nat) : Light k (k.enqueueThread t) := by
  obtain ⟨freeNext, level0, he⟩ := enqueueThread_eq k t
  rw [he]
  exact ⟨_, _, _, _, _, _, _, _, _, rfl, fun _ => .inl rfl⟩

theorem Light.deliver (h : k.deliver p pack paSrc src size wakes = some k') : Light k k' := by
  obtain ⟨state, freeNext, level0, rfl⟩ := deliver_frame h
  exact ⟨_, _, _, _, _, _, _, _, _, rfl, fun q => .inl (delivered_handler q)⟩

theorem Light.irq {irq : Nat} {reserved : UInt8} (h : k.normalIrqHandler irq reserved src = some k') :
    Light k k' := by
  rcases irq_cases h with rfl | ⟨n, rfl | ⟨p, pack, -, -, hd⟩⟩
  · exact .refl _
  · exact ⟨_, _, _, _, _, _, _, _, _, rfl, fun _ => .inl rfl⟩
  · have h0 : Light k (k.withMsgid n) := ⟨_, _, _, _, _, _, _, _, _, rfl, fun _ => .inl rfl⟩
    exact h0.trans (.deliver hd)

theorem Light.upSignal {id : Nat} (h : k.__upSignal id = some k') : Light k k' := by
  obtain ⟨s, s', -, ⟨-, rfl⟩ | ⟨t, -, rfl⟩⟩ := upSignal_effect h
  · exact .setSignal ..
  · exact ((Light.setSignal k id s').trans (.setState _ t .ready)).trans (.enqueueThread _ t)

theorem Light.downSignal {id : Nat} (h : k.__downSignal id = some k') : Light k k' := by
  obtain ⟨s, s', -, ⟨-, rfl⟩ | ⟨-, rfl⟩⟩ := downSignal_effect h
  · exact .setSignal ..
  · exact (Light.setSignal ..).trans (.setState ..)

/-- Apart from `create_thread` a call changes nothing else. -/
theorem Light.syscall {fuel : Nat} {call : Syscall} {r : UInt64}
    (h : k.syscall fuel call = some (k', r)) :
    (∀ t entry args, call ≠ .createThread t entry args) ∧ Light k k' ∨
      ∃ t entry args k1, call = .createThread t entry args ∧
        k.__createThread__ fuel t entry k.currentTask = some k1 ∧ k' = k1.passing t args := by
  cases syscall_effect h with
  | idle hcall => exact .inl ⟨hcall, .refl _⟩
  | sent hp hroom hallow hd => exact .inl ⟨nofun, .deliver hd⟩
  | received hk =>
    refine .inl ⟨nofun, ?_⟩
    rcases recvMsg_frame hk with rfl | ⟨mem, readPtr, size, rfl⟩
    · exact .refl _
    · exact ⟨_, _, _, _, _, _, _, _, _, rfl, fun q => .inl (handler_update (by rfl) q)⟩
  | waits | exits => exact .inl ⟨nofun, .setState ..⟩
  | ups hk => exact .inl ⟨nofun, .upSignal hk⟩
  | downs hk => exact .inl ⟨nofun, .downSignal hk⟩
  | allows pid =>
    exact .inl ⟨nofun, _, _, _, _, _, _, _, _, _, rfl, fun q => .inl (handler_update (by rfl) q)⟩
  | mails buffer size =>
    refine .inl ⟨nofun, _, _, _, _, _, _, _, _, _, rfl, fun q => ?_⟩
    by_cases hq : q = k.currentTask
    · subst hq
      exact .inr ⟨rfl, by rw [Function.update_self]⟩
    · exact .inl (by rw [Function.update_of_ne hq])
  | locks | creates | registers =>
    exact .inl ⟨nofun, _, _, _, _, _, _, _, _, _, rfl, fun _ => .inl rfl⟩
  | spawns hk => exact .inr ⟨_, _, _, _, rfl, hk, rfl⟩

/-! ### Threads that end -/

def Dead (st : ThreadState) : Prop := st = .terminated ∨ st = .exception

/-- No thread ends. -/
def Calm (k k' : Kernel) : Prop := ∀ u, k'.state u = k.state u ∨ ¬ Dead (k'.state u)

theorem Calm.of_eq (h : k'.state = k.state) : Calm k k' := fun u => .inl (congrFun h u)

theorem Calm.setState {st : ThreadState} (hst : ¬ Dead st) : Calm k (k.setState t st) := by
  intro u
  by_cases hu : u = t
  · rw [hu, setState_state_self]
    exact .inr hst
  · exact .inl (setState_state_of_ne hu st)

theorem Calm.wake : Calm k ((k.setState t .ready).enqueueThread t) := by
  intro u
  rw [enqueueThread_state]
  exact Calm.setState (by simp [Dead]) u

theorem Calm.deliver (h : k.deliver p pack paSrc src size wakes = some k') : Calm k k' := by
  rw [deliver_eq] at h
  obtain ⟨t, -, rfl⟩ := Option.map_eq_some_iff.mp h
  split
  · exact Calm.wake (k := k.delivered p pack paSrc src size)
  · exact .of_eq rfl

def ends : Syscall → Bool
  | .exitThread => true
  | _ => false

theorem Calm.syscall {fuel : Nat} {call : Syscall} {r : UInt64} (hcall : ends call = false)
    (h : k.syscall fuel call = some (k', r)) : Calm k k' := by
  cases syscall_effect h with
  | sent hp hroom hallow hd => exact .deliver hd
  | received hk =>
    rcases recvMsg_frame hk with rfl | ⟨mem, readPtr, size, rfl⟩
    · exact .of_eq rfl
    · exact .of_eq rfl
  | waits => exact .setState (by simp [Dead])
  | @ups id _ hk =>
    obtain ⟨s, s', -, ⟨-, rfl⟩ | ⟨t, -, rfl⟩⟩ := upSignal_effect hk
    · exact .of_eq rfl
    · exact Calm.wake (k := k.setSignal id s')
  | @downs id _ hk =>
    obtain ⟨s, s', -, ⟨-, rfl⟩ | ⟨-, rfl⟩⟩ := downSignal_effect hk
    · exact .of_eq rfl
    · exact Calm.setState (k := k.setSignal id s') (by simp [Dead])
  | @spawns t _ _ _ hk =>
    obtain ⟨parent, -, rfl⟩ := Option.map_eq_some_iff.mp hk
    intro u
    change (Kernel.enqueueThread _ t).state u = k.state u ∨
      ¬ Dead ((Kernel.enqueueThread _ t).state u)
    rw [enqueueThread_state]
    exact Calm.setState (k := k) (t := t) (by simp [Dead]) u
  | exits => simp [ends] at hcall
  | idle | locks | allows | mails | creates | registers => exact .of_eq rfl

/-! ### New threads -/

theorem spawnThread_task (k : Kernel) (t : Nat) (entry : UInt64) (p q : Nat) :
    ∃ curTid stackBottom, (k.spawnThread t entry p).task q =
      { k.task q with
        curTid := curTid
        stackBottom := stackBottom } := by
  by_cases hq : q = p
  · simp [spawnThread, createThreadInfo, takeStack, hq]
  · refine ⟨(k.task q).curTid, (k.task q).stackBottom, ?_⟩
    simp [spawnThread, createThreadInfo, takeStack, hq]

/-- A new thread is linked behind the last one of its task and queued. -/
theorem createThread_eq {fuel : Nat} {entry : UInt64} (h : k.__createThread__ fuel t entry p = some k') :
    ∃ parent, lastThread (k.spawnThread t entry p).next fuel (k.task p).threads = some parent ∧
      k' = ((k.spawnThread t entry p).linkThread parent t).enqueueThread t := by
  obtain ⟨parent, hp, rfl⟩ := Option.map_eq_some_iff.mp h
  obtain ⟨curTid, stackBottom, he⟩ := spawnThread_task k t entry p p
  rw [he] at hp
  exact ⟨parent, hp, rfl⟩

/-! ### The switch -/

/-- The tasks and which thread belongs to which. -/
def Kept (k k' : Kernel) : Prop :=
  k'.task = k.task ∧ k'.taskList = k.taskList ∧ k'.owner = k.owner ∧ k'.emptyTask = k.emptyTask ∧
    k'.ipc = k.ipc ∧ k'.tid = k.tid

theorem getNextRunThread_frame (k : Kernel) : ∃ freeNext level0 level1,
    k.getNextRunThread.1 = { k with
      freeNext := freeNext
      level0 := level0
      level1 := level1 } := by
  simp only [getNextRunThread]
  split
  · exact ⟨_, _, _, rfl⟩
  · split
    · exact ⟨_, _, _, rfl⟩
    · exact ⟨_, _, _, rfl⟩

theorem downThread_kept (k : Kernel) (regs : Frame) : Kept k (k.downThread regs) := by
  rcases downThread_cases k regs with ⟨-, he⟩ | ⟨-, he⟩ | ⟨-, he⟩
  · obtain ⟨freeNext, level0, he'⟩ :=
      enqueueThread_eq ((k.saved regs).setState k.current .ready) k.current
    rw [he, he']
    exact ⟨rfl, rfl, rfl, rfl, rfl, rfl⟩
  · obtain ⟨next, last, he'⟩ := removeThread_eq (k.saved regs) k.current
    rw [he, he']
    exact ⟨rfl, rfl, rfl, rfl, rfl, rfl⟩
  · rw [he]
    exact ⟨rfl, rfl, rfl, rfl, rfl, rfl⟩

theorem doSwitch_kept (k : Kernel) (regs : Frame) : Kept k (k.doSwitch regs).1 := by
  obtain ⟨count, he⟩ := doSwitch_eq k regs
  obtain ⟨freeNext, level0, level1, hg⟩ := getNextRunThread_frame (k.downThread regs)
  rw [he, hg]
  exact downThread_kept k regs

/-- A switch makes threads ready or running, else it leaves their states. -/
def StatesMoved (k k' : Kernel) : Prop :=
  ∀ u, k'.state u = k.state u ∨ k'.state u = .ready ∨ k'.state u = .running

theorem StatesMoved.trans (h : StatesMoved k k') (h' : StatesMoved k' k'') : StatesMoved k k'' := by
  intro u
  rcases h' u with he | he
  · rw [he]
    exact h u
  · exact .inr he

theorem StatesMoved.setState {st : ThreadState} (hst : st = .ready ∨ st = .running) :
    StatesMoved k (k.setState t st) := by
  intro u
  by_cases hu : u = t
  · rw [hu, setState_state_self]
    exact .inr hst
  · exact .inl (setState_state_of_ne hu st)

theorem downThread_states (k : Kernel) (regs : Frame) : StatesMoved k (k.downThread regs) := by
  rcases downThread_cases k regs with ⟨-, he⟩ | ⟨-, he⟩ | ⟨-, he⟩
  · rw [he]
    intro u
    rw [enqueueThread_state]
    exact StatesMoved.setState (k := k.saved regs) (t := k.current) (.inl rfl) u
  · obtain ⟨next, last, he'⟩ := removeThread_eq (k.saved regs) k.current
    rw [he, he']
    exact fun u => .inl rfl
  · rw [he]
    exact fun u => .inl rfl

theorem downThread_live (k : Kernel) (regs : Frame) (h : ¬ Dead (k.state k.current)) :
    (k.downThread regs).live = k.live := by
  rcases downThread_cases k regs with ⟨-, he⟩ | ⟨hd, he⟩ | ⟨-, he⟩
  · rw [he, enqueueThread_live]
    rfl
  · exact absurd hd h
  · rw [he]
    rfl

theorem doSwitch_states (k : Kernel) (regs : Frame) : StatesMoved k (k.doSwitch regs).1 := by
  obtain ⟨count, he⟩ := doSwitch_eq k regs
  obtain ⟨freeNext, level0, level1, hg⟩ := getNextRunThread_frame (k.downThread regs)
  rw [he, hg]
  exact (downThread_states k regs).trans (.setState (.inr rfl))

theorem doSwitch_live (k : Kernel) (regs : Frame) (h : ¬ Dead (k.state k.current)) :
    (k.doSwitch regs).1.live = k.live := by
  obtain ⟨count, he⟩ := doSwitch_eq k regs
  obtain ⟨freeNext, level0, level1, hg⟩ := getNextRunThread_frame (k.downThread regs)
  rw [he, hg]
  exact downThread_live k regs h

theorem afterSyscall_kept (k : Kernel) (regs : Frame) : Kept k (k.afterSyscall regs).1 := by
  unfold afterSyscall
  split
  · exact doSwitch_kept k regs
  · exact ⟨rfl, rfl, rfl, rfl, rfl, rfl⟩

theorem clock_kept (k : Kernel) (regs : Frame) : Kept k (k.clockIntHandler regs).1 := by
  simp only [clockIntHandler]
  split
  · split
    · exact afterSyscall_kept k regs
    · exact afterSyscall_kept k regs
  · exact ⟨rfl, rfl, rfl, rfl, rfl, rfl⟩

end TayHuang.Kernel
