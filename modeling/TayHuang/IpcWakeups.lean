import TayHuang.ReadyRuns

/-! No message waits for a sleeping receiver: the thread that a task registered for
its mailbox sleeps in `check_ipc` only while the mailbox is empty. -/

namespace TayHuang

open Function (update)
open Runs

namespace Kernel

variable {k k' : Kernel} {l : List Nat} {t : Nat}

/-- The calls that end threads are left out, and no task has the pid `DUMMY_TASK`. -/
def Lasting : KernelEvent → Prop
  | .syscall _ call => ends call = false
  | .exception => False
  | .createTask _ _ a _ => a.pid ≠ -2
  | _ => True

/-- The registered threads belong to their tasks, and sleep only without messages. -/
structure IpcOk (k : Kernel) : Prop where
  alive : ∀ t, k.live t = true → ¬ Dead (k.state t)
  pids : ∀ p ∈ k.taskList, (k.task p).pid ≠ -2
  handlers : ∀ p ∈ k.taskList, ∀ t, (k.ipc p).msgHandlerThread = some t →
    k.live t = true ∧ k.owner t = p ∧ (k.state t = .waitingIpc → (k.ipc p).usedSize = 0)

/-- States that change, but to none in which a thread sleeps for a message or ends. -/
theorem IpcOk.move (h : IpcOk k) (hlist : k'.taskList = k.taskList) (htask : k'.task = k.task)
    (howner : k'.owner = k.owner) (hlive : k'.live = k.live)
    (hipc : ∀ p, (k'.ipc p).msgHandlerThread = (k.ipc p).msgHandlerThread ∧
      (k'.ipc p).usedSize = (k.ipc p).usedSize)
    (hstate : ∀ u, k'.state u = k.state u ∨ k'.state u = .ready ∨ k'.state u = .running ∨
      k'.state u = .waiting) : IpcOk k' := by
  refine ⟨?_, ?_, ?_⟩
  · intro u hu
    rw [hlive] at hu
    rcases hstate u with he | he | he | he
    · rw [he]
      exact h.alive u hu
    all_goals rw [he]; simp [Dead]
  · intro p hp
    rw [htask]
    exact h.pids p (hlist ▸ hp)
  · intro p hp u hu
    rw [(hipc p).1] at hu
    obtain ⟨h1, h2, h3⟩ := h.handlers p (hlist ▸ hp) u hu
    rw [hlive, howner, (hipc p).2]
    refine ⟨h1, h2, fun hw => ?_⟩
    rcases hstate u with he | he | he | he
    · exact h3 (he ▸ hw)
    all_goals rw [he] at hw; simp at hw

theorem IpcOk.moved (h : IpcOk k) (hk : Kept k k') (hlive : k'.live = k.live)
    (hstate : StatesMoved k k') : IpcOk k' := by
  refine h.move hk.2.1 hk.1 hk.2.2.1 hlive (fun p => ?_) fun u => ?_
  · rw [hk.2.2.2.2.1]
    exact ⟨rfl, rfl⟩
  · rcases hstate u with he | he | he
    · exact .inl he
    · exact .inr (.inl he)
    · exact .inr (.inr (.inl he))

theorem IpcOk.deliver (h : IpcOk k) {p src size : Nat} {pack : Msgpack} {paSrc : Nat → Nat}
    (hd : k.deliver p pack paSrc src size true = some k') : IpcOk k' := by
  rw [deliver_eq] at hd
  obtain ⟨t, ht, rfl⟩ := Option.map_eq_some_iff.mp hd
  have hother : ∀ q, q ≠ p → (k.delivered p pack paSrc src size).ipc q = k.ipc q := fun q hq =>
    Function.update_of_ne hq ..
  by_cases hw : k.state t = .waitingIpc
  · have hstate : ∀ u, u ≠ t → ((k.delivered p pack paSrc src size).setState t .ready).state u =
        k.state u := fun u hu => setState_state_of_ne hu _
    obtain ⟨freeNext, level0, he⟩ :=
      enqueueThread_eq ((k.delivered p pack paSrc src size).setState t .ready) t
    rw [if_pos ⟨hw, rfl⟩, he]
    refine ⟨fun u hu => ?_, h.pids, fun q hq u hu => ?_⟩
    · change ¬ Dead (((k.delivered p pack paSrc src size).setState t .ready).state u)
      by_cases hut : u = t
      · rw [hut, setState_state_self]
        simp [Dead]
      · rw [hstate u hut]
        exact h.alive u hu
    · obtain ⟨h1, h2, h3⟩ := h.handlers q hq u ((delivered_handler q).symm.trans hu)
      refine ⟨h1, h2, fun hs => ?_⟩
      change ((k.delivered p pack paSrc src size).setState t .ready).state u = _ at hs
      change ((k.delivered p pack paSrc src size).ipc q).usedSize = 0
      have hut : u ≠ t := by
        rintro rfl
        simp at hs
      have hqp : q ≠ p := by
        rintro rfl
        have hu' := (delivered_handler q).symm.trans hu
        exact hut (Option.some.inj (hu'.symm.trans ht))
      rw [hother q hqp]
      exact h3 ((hstate u hut).symm.trans hs)
  · rw [if_neg fun hh => hw hh.1]
    refine ⟨h.alive, h.pids, fun q hq u hu => ?_⟩
    have hu' := (delivered_handler q).symm.trans hu
    obtain ⟨h1, h2, h3⟩ := h.handlers q hq u hu'
    refine ⟨h1, h2, fun hs => ?_⟩
    have hqp : q ≠ p := by
      rintro rfl
      obtain rfl := Option.some.inj (hu'.symm.trans ht)
      exact hw hs
    rw [hother q hqp]
    exact h3 hs

theorem IpcOk.checkIpc (h : IpcOk k) (hempty : (k.ipc k.currentTask).usedSize = 0) :
    IpcOk (k.setState k.current .waitingIpc) := by
  refine ⟨fun u hu => ?_, h.pids, fun p hp u hu => ?_⟩
  · by_cases huc : u = k.current
    · rw [huc, setState_state_self]
      simp [Dead]
    · rw [setState_state_of_ne huc]
      exact h.alive u hu
  · obtain ⟨h1, h2, h3⟩ := h.handlers p hp u hu
    refine ⟨h1, h2, fun hs => ?_⟩
    by_cases huc : u = k.current
    · subst huc
      rw [← h2]
      exact hempty
    · rw [setState_state_of_ne huc] at hs
      exact h3 hs

theorem IpcOk.recvMsg (h : IpcOk k) {dst : Nat} {pack : Msgpack}
    (hk : k.__recvMsg dst = some (k', pack)) : IpcOk k' := by
  rcases recvMsg_frame hk with rfl | ⟨mem, readPtr, size, rfl⟩
  · exact h
  · refine ⟨h.alive, h.pids, fun p hp u hu => ?_⟩
    have hu' : (k.ipc p).msgHandlerThread = some u := by
      rw [← hu]
      simp only [taken]
      exact (handler_update (by rfl) p).symm
    obtain ⟨h1, h2, h3⟩ := h.handlers p hp u hu'
    refine ⟨h1, h2, fun hs => ?_⟩
    have hused := h3 hs
    by_cases hpc : p = k.currentTask
    · subst hpc
      simp only [taken, Function.update_self, hused, Nat.zero_sub]
    · simp only [taken, Function.update_of_ne hpc, hused]

theorem IpcOk.setMailbuffer (h : IpcOk k) (hlive : k.live k.current = true) (buffer size : Nat) :
    IpcOk (k.__setMailbuffer buffer size) := by
  refine ⟨h.alive, h.pids, fun p hp u hu => ?_⟩
  by_cases hpc : p = k.currentTask
  · subst hpc
    simp only [__setMailbuffer, Function.update_self, Option.some.injEq] at hu
    subst hu
    refine ⟨hlive, rfl, fun _ => ?_⟩
    simp only [__setMailbuffer, Function.update_self]
  · simp only [__setMailbuffer, Function.update_of_ne hpc] at hu ⊢
    exact h.handlers p hp u hu

theorem IpcOk.upSignal (h : IpcOk k) {id : Nat} (hup : k.__upSignal id = some k') : IpcOk k' := by
  obtain ⟨s, s', -, ⟨-, rfl⟩ | ⟨t, -, rfl⟩⟩ := upSignal_effect hup
  · exact ⟨h.alive, h.pids, h.handlers⟩
  · obtain ⟨freeNext, level0, he⟩ := enqueueThread_eq ((k.setSignal id s').setState t .ready) t
    rw [he]
    refine h.move rfl rfl rfl rfl (fun p => ⟨rfl, rfl⟩) fun u => ?_
    rcases StatesMoved.setState (k := k) (t := t) (.inl rfl) u with hh | hh | hh
    · exact .inl hh
    · exact .inr (.inl hh)
    · exact .inr (.inr (.inl hh))

theorem IpcOk.downSignal (h : IpcOk k) {id : Nat} (hdown : k.__downSignal id = some k') :
    IpcOk k' := by
  obtain ⟨s, s', -, ⟨-, rfl⟩ | ⟨-, rfl⟩⟩ := downSignal_effect hdown
  · exact ⟨h.alive, h.pids, h.handlers⟩
  · refine h.move rfl rfl rfl rfl (fun p => ⟨rfl, rfl⟩) fun u => ?_
    by_cases hu : u = k.current
    · refine .inr (.inr (.inr ?_))
      rw [hu]
      exact setState_state_self (k.setSignal id s') k.current _
    · exact .inl (setState_state_of_ne (k := k) hu _)

theorem IpcOk.spawn (h : IpcOk k) (hs : Spawned k k' t)
    (hpid : ∀ p ∈ k'.taskList, (k'.task p).pid ≠ -2)
    (hipc : ∀ p ∈ k.taskList, k'.ipc p = k.ipc p) : IpcOk (k'.enqueueThread t) := by
  obtain ⟨freeNext, level0, he⟩ := enqueueThread_eq k' t
  rw [he]
  refine ⟨fun u hu => ?_, hpid, fun p hp u hu => ?_⟩
  · change k'.live u = true at hu
    change ¬ Dead (k'.state u)
    by_cases hut : u = t
    · rw [hut, hs.state, Function.update_self]
      simp [Dead]
    · rw [hs.live, Function.update_of_ne hut] at hu
      rw [(hs.live_of hu).2.2]
      exact h.alive u hu
  · obtain ⟨hp', hu'⟩ := hs.handlers p hp u hu
    obtain ⟨h1, h2, h3⟩ := h.handlers p hp' u hu'
    obtain ⟨hlive, hne, hstate⟩ := hs.live_of h1
    refine ⟨hlive, (hs.owner u hne).trans h2, fun hw => ?_⟩
    change (k'.ipc p).usedSize = 0
    rw [hipc p hp']
    exact h3 (hstate.symm.trans hw)

theorem IpcOk.createThread (h : IpcOk k) {fuel p : Nat} {entry : UInt64} (hfresh : k.live t = false)
    (hp : p ∈ k.taskList ∨ p = k.emptyTask) (hk : k.__createThread__ fuel t entry p = some k') :
    IpcOk k' := by
  obtain ⟨parent, hspawn, rfl⟩ := createThread_spawned hfresh hp hk
  refine h.spawn hspawn (fun q hq => ?_) fun q _ => rfl
  obtain ⟨curTid, stackBottom, he⟩ := spawnThread_task k t entry p q
  change ((k.spawnThread t entry p).task q).pid ≠ -2
  rw [he]
  exact h.pids q hq

theorem IpcOk.syscall (h : IpcOk k) {fuel : Nat} {call : Syscall} {r : UInt64}
    (hlive : k.live k.current = true) (howner : k.currentTask ∈ k.taskList)
    (hfresh : ∀ t ∈ newThread call, k.live t = false) (hcall : ends call = false)
    (hs : k.syscall fuel call = some (k', r)) : IpcOk k' := by
  cases syscall_effect hs with
  | idle => exact h
  | @sent _ _ _ _ _ p _ _ _ hallow hd =>
    have hpid := h.pids _ howner
    have hwakes : decide ((k.ipc p).allowPid ≠ -2) = true := by
      rw [decide_eq_true_eq]
      omega
    rw [hwakes] at hd
    exact h.deliver hd
  | received hk => exact h.recvMsg hk
  | waits hused => exact h.checkIpc hused
  | allows pid =>
    refine h.move rfl rfl rfl rfl (fun p => ⟨handler_update (by rfl) p, ?_⟩) fun u => .inl rfl
    by_cases hp : p = k.currentTask
    · subst hp
      simp only [__setAllow, Function.update_self]
    · simp only [__setAllow, Function.update_of_ne hp]
  | mails buffer size => exact h.setMailbuffer hlive buffer size
  | locks | creates | registers => exact ⟨h.alive, h.pids, h.handlers⟩
  | ups hk => exact h.upSignal hk
  | downs hk => exact h.downSignal hk
  | @spawns t _ _ _ hk =>
    have h1 := h.createThread (hfresh t rfl) (.inl howner) hk
    exact ⟨h1.alive, h1.pids, h1.handlers⟩
  | exits => simp [ends] at hcall

theorem IpcOk.doSwitch (h : IpcOk k) (hlive : k.live k.current = true) (regs : Frame) :
    IpcOk (k.doSwitch regs).1 :=
  h.moved (doSwitch_kept k regs) (doSwitch_live k regs (h.alive _ hlive)) (doSwitch_states k regs)

theorem IpcOk.afterSyscall (h : IpcOk k) (hlive : k.live k.current = true) (regs : Frame) :
    IpcOk (k.afterSyscall regs).1 := by
  unfold Kernel.afterSyscall
  split
  · exact h.doSwitch hlive regs
  · exact h

theorem IpcOk.step {e : Frame × KernelEvent} (hset : Settled k) (h : IpcOk k)
    (hlegal : Legal k e.2) (hlast : Lasting e.2) (hs : Step k e k') : IpcOk k' := by
  obtain ⟨l, hsched, hlive, hrun⟩ := hset
  obtain ⟨regs, ev⟩ := e
  cases ev with
  | syscall fuel call =>
    obtain ⟨k1, r, hk, rfl⟩ := hs.syscall
    obtain ⟨-, hcur, hl⟩ := hsched.syscall hlive hrun hlegal hk
    have howner : k.currentTask ∈ k.taskList :=
      (hsched.owners k.current hlive).resolve_right hlegal.1
    exact (h.syscall hlive howner hlegal.2 hlast hk).afterSyscall (hcur ▸ hl) _
  | clock =>
    obtain rfl := hs.clock
    have h1 := h.afterSyscall hlive regs
    simp only [clockIntHandler, hsched.schedules, if_true]
    split
    · exact ⟨h1.alive, h1.pids, h1.handlers⟩
    · exact h1
  | switch =>
    obtain rfl := hs.switch
    exact h.doSwitch hlive regs
  | irq irq reserved src =>
    rcases irq_cases hs.irq with rfl | ⟨n, rfl | ⟨p, pack, -, -, hd⟩⟩
    · exact h
    · exact ⟨h.alive, h.pids, h.handlers⟩
    · have h0 : IpcOk (k.withMsgid n) := ⟨h.alive, h.pids, h.handlers⟩
      exact h0.deliver hd
  | exception => exact absurd hlast (by simp [Lasting])
  | createTask p t a kmod =>
    obtain ⟨hfresh, hp, hpe⟩ := hlegal
    obtain ⟨hspawn, he⟩ := createTask_spawned (a := a) hsched.toQueuesOk hfresh hp hpe
    have hpid : a.pid ≠ -2 := hlast
    have h1 : IpcOk (k.createTask p t a) := by
      rw [he]
      refine h.spawn hspawn (fun q hq => ?_) fun q hq => ?_
      · by_cases hqp : q = p
        · subst hqp
          simpa [__createTask, addTask] using hpid
        · have hmem : q ∈ k.taskList := List.mem_of_ne_of_mem hqp hq
          simpa [__createTask, createThreadInfo, addTask, hqp] using h.pids q hmem
      · have hqp : q ≠ p := fun he => hp (he ▸ hq)
        simp [__createTask, createThreadInfo, addTask, hqp]
    obtain rfl := hs.createTask
    split
    · exact ⟨h1.alive, h1.pids, h1.handlers⟩
    · exact h1

theorem IpcOk.start (h : Started k) : IpcOk k := by
  obtain ⟨k0, b, hz, htask, hthread, rfl⟩ := h
  refine ⟨?_, ?_, ?_⟩
  all_goals simp only [boot, createEmptyTask, __createTask, createThreadInfo, addTask, withCurrent,
    setState, __setMailbuffer, kernelTaskParams]
  · intro u hu
    by_cases hui : u = b.initThread
    · simp [hui, Dead]
    · by_cases hue : u = b.emptyThread
      · simp [hue, hthread, Dead]
      · simp [hui, hue, hz.live] at hu
  · intro p hp
    rw [hz.taskList, List.mem_singleton] at hp
    simp [hp]
  · intro p hp u hu
    rw [hz.taskList, List.mem_singleton] at hp
    subst hp
    simp [currentTask] at hu
    simp [← hu]

/-- A registered thread never sleeps while a message waits. -/
theorem no_lost_wakeup {es : List (Frame × KernelEvent)}
    (h : Run Started (Guarded (fun k e => Legal k e.2 ∧ Lasting e.2) Step) es k) :
    ∀ p ∈ k.taskList, ∀ t, (k.ipc p).msgHandlerThread = some t → k.state t = .waitingIpc →
      (k.ipc p).usedSize = 0 := by
  have hk : Settled k ∧ IpcOk k :=
    h.invariant (I := fun _ k => Settled k ∧ IpcOk k) (fun _ h0 => ⟨.start h0, .start h0⟩)
      fun _ _ _ _ hk hstep =>
        ⟨hk.1.step hstep.1.1 hstep.2, hk.2.step hk.1 hstep.1.1 hstep.1.2 hstep.2⟩
  exact fun p hp t ht => (hk.2.handlers p hp t ht).2.2

instance : DecidablePred Lasting
  | .syscall _ call => inferInstanceAs (Decidable (ends call = false))
  | .exception => inferInstanceAs (Decidable False)
  | .createTask _ _ a _ => inferInstanceAs (Decidable (a.pid ≠ -2))
  | .clock | .switch | .irq .. => inferInstanceAs (Decidable True)

/-- `init` sleeps, and a new task runs. -/
theorem no_lost_wakeup_init : ∃ k : Kernel, k.state 210 = .waitingIpc ∧ k.current = 510 ∧
    ∀ p ∈ k.taskList, ∀ t, (k.ipc p).msgHandlerThread = some t → k.state t = .waitingIpc →
      (k.ipc p).usedSize = 0 := by
  let es : List (Frame × KernelEvent) :=
    [(fun _ => 0, .createTask 500 510 (moduleParams 8 0) true),
      (fun _ => 0, .syscall 5 .checkIpc), (fun _ => 0, .clock)]
  let k := (es.foldlM (fun k e => if Legal k e.2 ∧ Lasting e.2 then k.step e else none)
    blankBoot).get (by decide +kernel)
  have hk : es.foldlM (fun k e => if Legal k e.2 ∧ Lasting e.2 then k.step e else none)
      blankBoot = some k := (Option.some_get _).symm
  exact ⟨k, by decide +kernel, by decide +kernel,
    no_lost_wakeup (.ofGuardedFold es started_blankBoot hk)⟩

end Kernel

end TayHuang
