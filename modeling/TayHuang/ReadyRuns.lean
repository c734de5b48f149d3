import TayHuang.ThreadSwitch

/-! Every thread that can run is in the ready queue, once, over all runs of the
kernel. -/

namespace TayHuang

open LinkedCells Runs

namespace Kernel

variable {k k' : Kernel} {l : List Nat} {t : Nat}

/-! ### The records that an event finds -/

/-- The record whose state is read when a message is accepted. -/
def handlerOf (k : Kernel) (dst : Int) (size : Nat) (allows : Int → Prop) [DecidablePred allows] :
    Option Nat :=
  (k.getTaskByPid dst).bind fun p =>
    if HasRoom (k.ipc p) size ∧ allows (k.ipc p).allowPid then (k.ipc p).msgHandlerThread else none

/-- The record that the message of an event may wake. -/
def woken (k : Kernel) : KernelEvent → Option Nat
  | .syscall _ (.sendMsg _ _ _ size dst) =>
    k.handlerOf dst size fun pid => pid = (k.task k.currentTask).pid ∨ pid = -1
  | .irq irq _ _ =>
    if k.irqHandleTasks irq = 0 then none
    else k.handlerOf (k.irqHandleTasks irq) 4 fun pid => pid = -2 ∨ pid < 0
  | _ => none

/-- The record at which `create_thread` begins to look for the last thread. -/
def listed (k : Kernel) : KernelEvent → Option Nat
  | .syscall _ (.createThread ..) => some (k.task k.currentTask).threads
  | _ => none

theorem woken_sendMsg {fuel p src size : Nat} {msgno : MsgnoId} {reserved : UInt8} {dst : Int}
    (hp : k.getTaskByPid dst = some p) (hroom : HasRoom (k.ipc p) size)
    (hallow : (k.ipc p).allowPid = (k.task k.currentTask).pid ∨ (k.ipc p).allowPid = -1) :
    k.woken (.syscall fuel (.sendMsg msgno reserved src size dst)) = (k.ipc p).msgHandlerThread := by
  simp only [woken, handlerOf, hp, Option.bind_some]
  exact if_pos ⟨hroom, hallow⟩

theorem woken_irq {irq p src : Nat} {reserved : UInt8} (hirq : k.irqHandleTasks irq ≠ 0)
    (hp : k.getTaskByPid (k.irqHandleTasks irq) = some p) (hroom : HasRoom (k.ipc p) 4)
    (hallow : (k.ipc p).allowPid = -2 ∨ (k.ipc p).allowPid < 0) :
    k.woken (.irq irq reserved src) = (k.ipc p).msgHandlerThread := by
  simp only [woken, if_neg hirq, handlerOf, hp, Option.bind_some]
  exact if_pos ⟨hroom, hallow⟩

/-- Only threads are woken. -/
def WakesThread (k : Kernel) (e : KernelEvent) : Prop :=
  ∀ t, k.woken e = some t → k.state t = .waitingIpc → k.live t = true

theorem Recorded.live (h : Recorded k t) (hwait : k.state t = .waitingIpc) : k.live t = true := by
  rcases h with hl | hl | hl
  · exact hl
  · rw [hl] at hwait
    simp at hwait
  · rw [hl] at hwait
    simp at hwait

theorem HandlersOk.handlerOf (h : HandlersOk k) {dst : Int} {size : Nat} {allows : Int → Prop}
    [DecidablePred allows] (ht : k.handlerOf dst size allows = some t) : Recorded k t := by
  obtain ⟨p, hp, hh⟩ := Option.bind_eq_some_iff.mp ht
  split at hh
  · exact h p (getTaskByPid_mem hp) t hh
  · simp at hh

theorem HandlersOk.wakes (h : HandlersOk k) (e : KernelEvent) : WakesThread k e := by
  intro t ht hwait
  refine Recorded.live (k := k) ?_ hwait
  unfold woken at ht
  split at ht
  · exact h.handlerOf ht
  · split at ht
    · simp at ht
    · exact h.handlerOf ht
  · simp at ht

/-! ### The calls -/

theorem QueuesOk.deliver (h : QueuesOk k l) {p src size : Nat} {pack : Msgpack} {paSrc : Nat → Nat}
    {wakes : Bool} (hd : k.deliver p pack paSrc src size wakes = some k')
    (hwakes : ∀ t, (k.ipc p).msgHandlerThread = some t → k.state t = .waitingIpc → k.live t = true) :
    (∃ l', QueuesOk k' l') ∧ k'.current = k.current ∧ k'.live = k.live ∧
      ∀ u, k.state u ≠ .waitingIpc → k'.state u = k.state u := by
  have h1 : QueuesOk (k.delivered p pack paSrc src size) l := by
    exact h.quiet ..
  rw [deliver_eq] at hd
  obtain ⟨t, ht, rfl⟩ := Option.map_eq_some_iff.mp hd
  split
  · next hw =>
    refine ⟨h1.wake (hwakes t ht hw.1) ?_ ?_, enqueueThread_current .., enqueueThread_live .., ?_⟩
    · change ¬ Runnable (k.state t)
      rw [hw.1]
      simp [Runnable]
    · intro id s hs hm
      have hstate := ((h.waits id s hs).2 t hm).2
      rw [hw.1] at hstate
      simp at hstate
    · intro u hu
      rw [enqueueThread_state]
      refine setState_state_of_ne (fun he => ?_) _
      rw [he] at hu
      exact hu hw.1
  · exact ⟨⟨l, h1⟩, rfl, rfl, fun _ _ => rfl⟩

theorem HandlersOk.deliver (h : HandlersOk k) {p src size : Nat} {pack : Msgpack}
    {paSrc : Nat → Nat} {wakes : Bool} (hp : p ∈ k.taskList)
    (hd : k.deliver p pack paSrc src size wakes = some k') : HandlersOk k' := by
  have h1 : HandlersOk (k.delivered p pack paSrc src size) :=
    h.mono (fun q hq _ ht => ⟨hq, (delivered_handler q).symm.trans ht⟩) fun _ hk => hk
  rw [deliver_eq] at hd
  obtain ⟨t, ht, rfl⟩ := Option.map_eq_some_iff.mp hd
  split
  · next hw =>
    obtain ⟨freeNext, level0, he⟩ :=
      enqueueThread_eq ((k.delivered p pack paSrc src size).setState t .ready) t
    rw [he]
    exact h1.mono (fun _ hp _ ht => ⟨hp, ht⟩) fun _ hu =>
      Recorded.setState (k := k.delivered p pack paSrc src size) hu ((h p hp t ht).live hw.1) .ready
  · exact h1

theorem SchedOk.deliver (h : SchedOk k l) {p src size : Nat} {pack : Msgpack} {paSrc : Nat → Nat}
    {wakes : Bool} (hp : p ∈ k.taskList) (hd : k.deliver p pack paSrc src size wakes = some k') :
    (∃ l', SchedOk k' l') ∧ k'.current = k.current ∧ k'.live = k.live ∧
      ∀ u, k.state u ≠ .waitingIpc → k'.state u = k.state u := by
  obtain ⟨⟨l', h1⟩, hrest⟩ := h.toQueuesOk.deliver hd fun t ht => (h.handlers p hp t ht).live
  exact ⟨⟨l', h1, h.handlers.deliver hp hd⟩, hrest⟩

theorem QueuesOk.createSignal (h : QueuesOk k l) (maxSignals value : Int) (soft : Bool) :
    QueuesOk (k.__createSignal maxSignals value soft).1 l :=
  (h.setSignal k.curId (s := TayHuang.createSignal maxSignals value soft) List.nodup_nil
    (fun _ ht => absurd ht List.not_mem_nil) fun _ _ _ _ => List.disjoint_nil_left _).quiet ..

theorem QueuesOk.syscall (h : QueuesOk k l) {fuel : Nat} {call : Syscall} {r : UInt64}
    (hlive : k.live k.current = true) (hrun : k.state k.current = .running)
    (hlegal : Legal k (.syscall fuel call)) (hwakes : WakesThread k (.syscall fuel call))
    (hs : k.syscall fuel call = some (k', r)) :
    (∃ l', QueuesOk k' l') ∧ k'.current = k.current ∧ k'.live k.current = true := by
  obtain ⟨hbusy, hfresh⟩ := hlegal
  have hempty : k.current ≠ k.emptyThread := by
    intro he
    exact hbusy (by rw [currentTask, he, h.emptyOwner])
  cases syscall_effect hs with
  | idle => exact ⟨⟨l, h⟩, rfl, hlive⟩
  | sent hp hroom hallow hd =>
    have hwakes' := hwakes
    rw [WakesThread, woken_sendMsg hp hroom hallow] at hwakes'
    obtain ⟨h1, hcur, hl, -⟩ := h.deliver hd hwakes'
    exact ⟨h1, hcur, hl ▸ hlive⟩
  | received hk =>
    rcases recvMsg_frame hk with rfl | ⟨mem, readPtr, size, rfl⟩
    · exact ⟨⟨l, h⟩, rfl, hlive⟩
    · exact ⟨⟨l, h.quiet ..⟩, rfl, hlive⟩
  | waits | exits => exact ⟨⟨l, h.stop _ hrun (by simp [Runnable]) hempty⟩, rfl, hlive⟩
  | locks | registers => exact ⟨⟨l, h.quiet ..⟩, rfl, hlive⟩
  | allows pid => exact ⟨⟨l, h.quiet ..⟩, rfl, hlive⟩
  | mails buffer size => exact ⟨⟨l, h.quiet ..⟩, rfl, hlive⟩
  | creates maxSignals value soft => exact ⟨⟨l, h.createSignal maxSignals value soft⟩, rfl, hlive⟩
  | ups hk =>
    obtain ⟨h1, hcur, hl⟩ := h.upSignal hk
    exact ⟨h1, hcur, hl ▸ hlive⟩
  | downs hk =>
    obtain ⟨h1, hcur, hl⟩ := h.downSignal hlive hrun hempty hk
    exact ⟨⟨l, h1⟩, hcur, hl ▸ hlive⟩
  | @spawns t _ _ _ hk =>
    obtain ⟨parent, hspawn, rfl⟩ := createThread_spawned (hfresh t rfl) (h.owners k.current hlive) hk
    obtain ⟨l', h1⟩ := h.spawn hspawn
    refine ⟨⟨l', h1.quiet ..⟩, enqueueThread_current .., ?_⟩
    change (Kernel.enqueueThread _ t).live k.current = true
    rw [enqueueThread_live]
    exact (hspawn.live_of hlive).1

theorem HandlersOk.syscall (h : HandlersOk k) {fuel : Nat} {call : Syscall} {r : UInt64}
    (hlive : k.live k.current = true) (howner : k.owner k.current ∈ k.taskList ∨
      k.owner k.current = k.emptyTask)
    (hwaits : ∀ id s, k.signal id = some s → ∀ t ∈ s.waiting, k.live t = true)
    (hlegal : Legal k (.syscall fuel call)) (hs : k.syscall fuel call = some (k', r)) :
    HandlersOk k' := by
  have hset : ∀ {t} (st : ThreadState), k.live t = true → HandlersOk (k.setState t st) :=
    fun st hl => h.mono (fun _ hp _ ht => ⟨hp, ht⟩) fun _ hu => hu.setState hl st
  cases syscall_effect hs with
  | idle | locks | registers | creates => exact h
  | sent hp hroom hallow hd => exact h.deliver (getTaskByPid_mem hp) hd
  | received hk =>
    rcases recvMsg_frame hk with rfl | ⟨mem, readPtr, size, rfl⟩
    · exact h
    · exact h.mono (fun p hp _ ht => ⟨hp, (handler_update (by rfl) p).symm.trans ht⟩) fun _ hu => hu
  | waits | exits => exact hset _ hlive
  | allows pid =>
    exact h.mono (fun p hp _ ht => ⟨hp, (handler_update (by rfl) p).symm.trans ht⟩) fun _ hu => hu
  | mails buffer size =>
    intro p hp t ht
    by_cases hpc : p = k.currentTask
    · subst hpc
      simp only [__setMailbuffer, Function.update_self, Option.some.injEq] at ht
      exact .inl (ht ▸ hlive)
    · simp only [__setMailbuffer, Function.update_of_ne hpc] at ht
      exact h p hp t ht
  | @ups id _ hk =>
    obtain ⟨s, s', hid, ⟨-, rfl⟩ | ⟨t, hr, rfl⟩⟩ := upSignal_effect hk
    · exact h
    · have hwaiting : t ∈ s.waiting := by
        rcases upSignal_cases hr with ⟨hn, -⟩ | ⟨u, hu, hl⟩
        · simp at hn
        · obtain rfl := Option.some.inj hu
          rw [hl]
          exact List.mem_cons_self ..
      obtain ⟨freeNext, level0, he⟩ := enqueueThread_eq ((k.setSignal id s').setState t .ready) t
      rw [he]
      exact hset .ready (hwaits id s hid t hwaiting)
  | downs hk =>
    obtain ⟨s, s', -, ⟨-, rfl⟩ | ⟨-, rfl⟩⟩ := downSignal_effect hk
    · exact h
    · exact hset .waiting hlive
  | @spawns t _ _ _ hk =>
    obtain ⟨parent, hspawn, rfl⟩ := createThread_spawned (hlegal.2 t rfl) howner hk
    exact h.spawn hspawn

theorem SchedOk.syscall (h : SchedOk k l) {fuel : Nat} {call : Syscall} {r : UInt64}
    (hlive : k.live k.current = true) (hrun : k.state k.current = .running)
    (hlegal : Legal k (.syscall fuel call)) (hs : k.syscall fuel call = some (k', r)) :
    (∃ l', SchedOk k' l') ∧ k'.current = k.current ∧ k'.live k.current = true := by
  obtain ⟨⟨l', h1⟩, hrest⟩ := h.toQueuesOk.syscall hlive hrun hlegal (h.handlers.wakes _) hs
  exact ⟨⟨l', h1, h.handlers.syscall hlive (h.owners _ hlive)
    (fun id s hid t ht => ((h.waits id s hid).2 t ht).1) hlegal hs⟩, hrest⟩

/-! ### The events -/

/-- Between two events. -/
def Turning (k : Kernel) : Prop :=
  ∃ l, QueuesOk k l ∧ k.live k.current = true ∧ k.state k.current = .running

/-- Between two events, where freed records keep their fields. -/
def Settled (k : Kernel) : Prop :=
  ∃ l, SchedOk k l ∧ k.live k.current = true ∧ k.state k.current = .running

theorem Settled.turning (h : Settled k) : Turning k :=
  let ⟨l, hsched, hrest⟩ := h
  ⟨l, hsched.toQueuesOk, hrest⟩

theorem Settled.wakes (h : Settled k) (e : KernelEvent) : WakesThread k e :=
  let ⟨_, hsched, _⟩ := h
  hsched.handlers.wakes e

theorem Settled.of (h : Turning k) (hh : HandlersOk k) : Settled k :=
  let ⟨l, hqueues, hrest⟩ := h
  ⟨l, ⟨hqueues, hh⟩, hrest⟩

theorem QueuesOk.afterSyscall (h : QueuesOk k l) (regs : Frame) (hlive : k.live k.current = true) :
    Turning (k.afterSyscall regs).1 := by
  unfold Kernel.afterSyscall
  cases hsw : k.shouldSwitch with
  | true =>
    simp only [if_true]
    exact h.doSwitch regs hlive
  | false => exact ⟨l, h, hlive, running_of_not_shouldSwitch h.schedules hsw⟩

theorem HandlersOk.afterSyscall (h : HandlersOk k) (hqueues : QueuesOk k l) (regs : Frame)
    (hlive : k.live k.current = true) : HandlersOk (k.afterSyscall regs).1 := by
  unfold Kernel.afterSyscall
  split
  · exact h.doSwitch hqueues regs hlive
  · exact h

theorem SchedOk.afterSyscall (h : SchedOk k l) (regs : Frame) (hlive : k.live k.current = true) :
    Settled (k.afterSyscall regs).1 :=
  .of (h.toQueuesOk.afterSyscall regs hlive) (h.handlers.afterSyscall h.toQueuesOk regs hlive)

theorem QueuesOk.busy (h : QueuesOk k l) (hbusy : k.currentTask ≠ k.emptyTask) :
    k.current ≠ k.emptyThread := by
  intro he
  exact hbusy (by rw [currentTask, he, h.emptyOwner])

theorem Turning.createTask (h : Turning k) {p : Nat} {a : TaskParams}
    (hlegal : Legal k (.createTask p t a false)) : Turning (k.createTask p t a) := by
  obtain ⟨l, h, hlive, hrun⟩ := h
  obtain ⟨hfresh, hp, hpe⟩ := hlegal
  obtain ⟨hspawn, he⟩ := createTask_spawned (a := a) h hfresh hp hpe
  obtain ⟨hl, -, hst⟩ := hspawn.live_of hlive
  obtain ⟨l', h1⟩ := h.spawn hspawn
  rw [he]
  refine ⟨l', h1, ?_, ?_⟩
  · rw [enqueueThread_live, enqueueThread_current]
    exact hl
  · rw [enqueueThread_state, enqueueThread_current]
    exact hst.trans hrun

theorem Turning.step {e : Frame × KernelEvent} (h : Turning k) (hlegal : Legal k e.2)
    (hwakes : WakesThread k e.2) (hs : Step k e k') : Turning k' := by
  have h0 := h
  obtain ⟨l, h, hlive, hrun⟩ := h
  obtain ⟨regs, ev⟩ := e
  cases ev with
  | syscall fuel call =>
    obtain ⟨k1, r, hk, rfl⟩ := hs.syscall
    obtain ⟨⟨l', h1⟩, hcur, hl⟩ := h.syscall hlive hrun hlegal hwakes hk
    exact h1.afterSyscall (regs.set .rax r) (hcur ▸ hl)
  | clock =>
    obtain rfl := hs.clock
    simp only [clockIntHandler, h.schedules, if_true]
    obtain ⟨l', h1, hl, hr⟩ := h.afterSyscall regs hlive
    split
    · exact ⟨l', h1.quiet .., hl, hr⟩
    · exact ⟨l', h1, hl, hr⟩
  | switch =>
    obtain rfl := hs.switch
    exact h.doSwitch regs hlive
  | irq irq reserved src =>
    rcases irq_effect hs.irq with rfl | ⟨n, rfl | ⟨hirq, p, pack, hp, hroom, hallow, hd⟩⟩
    · exact ⟨l, h, hlive, hrun⟩
    · exact ⟨l, h.quiet .., hlive, hrun⟩
    · have h0 : QueuesOk (k.withMsgid n) l := h.quiet ..
      rw [WakesThread, woken_irq hirq hp hroom hallow] at hwakes
      obtain ⟨⟨l', h1⟩, hcur, hl, hst⟩ := h0.deliver hd hwakes
      have hne : k.state k.current ≠ .waitingIpc := by
        rw [hrun]
        simp
      refine ⟨l', h1, ?_, ?_⟩
      · rw [hcur, hl]
        exact hlive
      · rw [hcur]
        exact (hst _ hne).trans hrun
  | exception =>
    obtain rfl := hs.exception
    exact (h.stop _ hrun (by simp [Runnable]) (h.busy hlegal)).afterSyscall regs hlive
  | createTask p t a kmod =>
    obtain ⟨l2, h2, hl2, hr2⟩ := h0.createTask (a := a) hlegal
    obtain rfl := hs.createTask
    split
    · exact ⟨l2, h2.quiet .., hl2, hr2⟩
    · exact ⟨l2, h2, hl2, hr2⟩

theorem HandlersOk.step {e : Frame × KernelEvent} (h : HandlersOk k) (hset : Turning k)
    (hlegal : Legal k e.2) (hs : Step k e k') : HandlersOk k' := by
  obtain ⟨l, hqueues, hlive, hrun⟩ := hset
  obtain ⟨regs, ev⟩ := e
  cases ev with
  | syscall fuel call =>
    obtain ⟨k1, r, hk, rfl⟩ := hs.syscall
    obtain ⟨⟨l', h1⟩, hcur, hl⟩ := hqueues.syscall hlive hrun hlegal (h.wakes _) hk
    have hh := h.syscall hlive (hqueues.owners _ hlive)
      (fun id s hid t ht => ((hqueues.waits id s hid).2 t ht).1) hlegal hk
    exact hh.afterSyscall h1 (regs.set .rax r) (hcur ▸ hl)
  | clock =>
    obtain rfl := hs.clock
    simp only [clockIntHandler, hqueues.schedules, if_true]
    split
    · exact h.afterSyscall hqueues regs hlive
    · exact h.afterSyscall hqueues regs hlive
  | switch =>
    obtain rfl := hs.switch
    exact h.doSwitch hqueues regs hlive
  | irq irq reserved src =>
    rcases irq_cases hs.irq with rfl | ⟨n, rfl | ⟨p, pack, hp, -, hd⟩⟩
    · exact h
    · exact h
    · exact HandlersOk.deliver (k := k.withMsgid n) h hp hd
  | exception =>
    obtain rfl := hs.exception
    have hstop : HandlersOk (k.setState k.current .exception) :=
      h.mono (fun _ hp _ ht => ⟨hp, ht⟩) fun _ hu => hu.setState hlive .exception
    exact hstop.afterSyscall
      (hqueues.stop _ hrun (by simp [Runnable]) (hqueues.busy hlegal)) regs hlive
  | createTask p t a kmod =>
    obtain ⟨hfresh, hp, hpe⟩ := hlegal
    obtain ⟨hspawn, he⟩ := createTask_spawned (a := a) hqueues hfresh hp hpe
    have hh := h.spawn hspawn
    rw [← he] at hh
    obtain rfl := hs.createTask
    split
    · exact hh
    · exact hh

theorem Settled.step {e : Frame × KernelEvent} (h : Settled k) (hlegal : Legal k e.2)
    (hs : Step k e k') : Settled k' := by
  obtain ⟨l, hsched, hrest⟩ := h
  have hturning : Turning k := ⟨l, hsched.toQueuesOk, hrest⟩
  exact .of (hturning.step hlegal (hsched.handlers.wakes _) hs)
    (hsched.handlers.step hturning hlegal hs)

theorem Settled.start (h : Started k) : Settled k := by
  obtain ⟨k0, b, hz, htask, hthread, rfl⟩ := h
  refine ⟨[], ⟨⟨rfl, ?_, ?_, ?_, ?_, ?_, ?_, ?_, ?_, ?_, ?_⟩, ?_⟩, ?_, ?_⟩
  all_goals simp only [boot, createEmptyTask, __createTask, createThreadInfo, addTask, withCurrent,
    setState, __setMailbuffer, emptyThread, kernelTaskParams, level]
  · rw [hz.level0]
    exact isQueue_nil
  · exact hz.level1
  · intro t
    simp only [List.not_mem_nil, false_iff]
    rintro ⟨hl, hlev, hrun⟩
    by_cases hti : t = b.initThread
    · subst hti
      simp [Runnable] at hrun
    · by_cases hte : t = b.emptyThread
      · subst hte
        simp [hthread, htask, Scheduled] at hlev
      · simp [hti, hte, hz.live] at hl
  · simp [htask, hthread]
  · simp [htask, hthread]
  · simp [htask]
  · simp [htask, hthread, Runnable]
  · intro t ht
    by_cases hti : t = b.initThread
    · simp [hti]
    · by_cases hte : t = b.emptyThread
      · simp [hte, hthread]
      · simp [hti, hte, hz.live] at ht
  · intro id s hs
    simp [hz.signal] at hs
  · intro i j r s hr
    simp [hz.signal] at hr
  · intro p hp t ht
    rw [hz.taskList, List.mem_singleton] at hp
    subst hp
    simp [currentTask] at ht
    refine .inl ?_
    simp [← ht]
  · simp
  · simp

theorem Settled.run {es : List (Frame × KernelEvent)}
    (h : Run Started (Guarded (fun k e => Legal k e.2) Step) es k) : Settled k :=
  h.invariant (I := fun _ k => Settled k) (fun _ h0 => .start h0)
    fun _ _ _ _ hk hstep => hk.step hstep.1 hstep.2

end Kernel

end TayHuang
