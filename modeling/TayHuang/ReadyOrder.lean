import TayHuang.FreedRecords
import TayHuang.Switching

/-! The order in which threads get the processor. Whatever makes a thread ready puts it
at the end of the queue, and every switch takes the first one. -/

namespace TayHuang

open Function (update)
open LinkedCells Runs

namespace Kernel

variable {k k' : Kernel} {l : List Nat} {t : Nat}

/-- The threads in the queue of level 0, the first one in front. -/
def Queued (k : Kernel) (l : List Nat) : Prop := IsQueue k.freeNext k.level0.head k.level0.tail l

/-- Threads may have come to the end of the queue. -/
def Grown (k : Kernel) (l : List Nat) : Prop := ∃ added, Queued k (l ++ added)

theorem Queued.unique {l' : List Nat} (h : Queued k l) (h' : Queued k l') : l = l' :=
  h.chained.unique h'.chained (by simpa [entry] using h.head_eq.symm.trans h'.head_eq)
    fun _ _ _ _ hx hn => ⟨hx, hn⟩

theorem enqueueThread_grown (h : Queued k l) (ht : t ∉ l) : Grown (k.enqueueThread t) l := by
  unfold enqueueThread
  split
  · exact ⟨[t], enqueueReady_isQueue h ht⟩
  · split
    · exact ⟨[t], enqueueReady_isQueue h ht⟩
    · refine ⟨[], ?_⟩
      rw [List.append_nil]
      exact h

theorem Queued.grown (h : Queued k l) : Grown k l := ⟨[], by rwa [List.append_nil]⟩

theorem QueuesOk.not_queued (h : QueuesOk k l) (hnot : ¬ Runnable (k.state t)) : t ∉ l := fun hm =>
  hnot ((h.ready t).mp hm).2.2

/-! ### What an event does to the queue -/

theorem QueuesOk.deliver_grown (h : QueuesOk k l) {p src size : Nat} {pack : Msgpack}
    {paSrc : Nat → Nat} {wakes : Bool} (hd : k.deliver p pack paSrc src size wakes = some k') :
    Grown k' l := by
  rw [deliver_eq] at hd
  obtain ⟨t, -, rfl⟩ := Option.map_eq_some_iff.mp hd
  split
  · next hw =>
    refine enqueueThread_grown h.queue (h.not_queued ?_)
    rw [hw.1]
    simp [Runnable]
  · exact Queued.grown h.queue

theorem QueuesOk.spawn_grown (h : QueuesOk k l) (hs : Spawned k k' t) :
    Grown (k'.enqueueThread t) l := by
  have ht : t ∉ l := fun hm => by
    have hlive := ((h.ready t).mp hm).1
    simp [hs.fresh] at hlive
  have hqueue : Queued k' l := by
    rw [Queued, hs.level0]
    exact h.queue.congr fun u hu => hs.freeNext u fun he => ht (he ▸ hu)
  exact enqueueThread_grown hqueue ht

theorem QueuesOk.upSignal_grown (h : QueuesOk k l) {id : Nat} (hup : k.__upSignal id = some k') :
    Grown k' l := by
  obtain ⟨s, s', hs, ⟨-, rfl⟩ | ⟨t, hr, rfl⟩⟩ := upSignal_effect hup
  · exact Queued.grown h.queue
  · have hwaiting : t ∈ s.waiting := by
      rcases upSignal_cases hr with ⟨hn, -⟩ | ⟨u, hu, hl⟩
      · simp at hn
      · obtain rfl := Option.some.inj hu
        rw [hl]
        exact List.mem_cons_self ..
    have hstate := ((h.waits id s hs).2 t hwaiting).2
    refine enqueueThread_grown h.queue (h.not_queued ?_)
    rw [hstate]
    simp [Runnable]

theorem QueuesOk.syscall_grown (h : QueuesOk k l) {fuel : Nat} {call : Syscall} {r : UInt64}
    (hlive : k.live k.current = true) (hlegal : Legal k (.syscall fuel call))
    (hs : k.syscall fuel call = some (k', r)) : Grown k' l := by
  cases syscall_effect hs with
  | sent hp hroom hallow hd => exact h.deliver_grown hd
  | received hk =>
    rcases recvMsg_frame hk with rfl | ⟨mem, readPtr, size, rfl⟩
    · exact Queued.grown h.queue
    · exact Queued.grown h.queue
  | ups hk => exact h.upSignal_grown hk
  | downs hk =>
    obtain ⟨s, s', -, ⟨-, rfl⟩ | ⟨-, rfl⟩⟩ := downSignal_effect hk
    · exact Queued.grown h.queue
    · exact Queued.grown h.queue
  | @spawns t _ _ _ hk =>
    obtain ⟨parent, hspawn, rfl⟩ := createThread_spawned (hlegal.2 t rfl) (h.owners _ hlive) hk
    exact h.spawn_grown hspawn
  | idle | waits | locks | allows | mails | creates | registers | exits =>
    exact Queued.grown h.queue

theorem QueuesOk.down_grown (h : QueuesOk k l) (regs : Frame) : Grown (k.downThread regs) l := by
  rcases downThread_cases k regs with ⟨hrun, he⟩ | ⟨-, he⟩ | ⟨-, he⟩
  · rw [he]
    refine enqueueThread_grown (h.saved regs).queue (h.not_queued ?_)
    rw [hrun]
    simp [Runnable]
  · obtain ⟨next, last, hr⟩ := removeThread_eq (k.saved regs) k.current
    rw [he, hr]
    exact Queued.grown h.queue
  · rw [he]
    exact Queued.grown h.queue

theorem syscall_emptyThread {fuel : Nat} {call : Syscall} {r : UInt64}
    (hs : k.syscall fuel call = some (k', r)) : k'.emptyThread = k.emptyThread := by
  rcases Light.syscall hs with ⟨-, _, _, _, _, _, _, _, _, _, rfl, -⟩ | ⟨t, entry, args, k1, rfl, hk, rfl⟩
  · rfl
  · obtain ⟨parent, -, rfl⟩ := createThread_eq hk
    obtain ⟨curTid, stackBottom, he⟩ := spawnThread_task k t entry k.currentTask k.emptyTask
    obtain ⟨freeNext, level0, hq⟩ :=
      enqueueThread_eq ((k.spawnThread t entry k.currentTask).linkThread parent t) t
    rw [hq]
    change ((k.spawnThread t entry k.currentTask).task k.emptyTask).threads = k.emptyThread
    rw [he, emptyThread]

/-- A switch to `t`, before which the queue was `l` and after which it is `l'`. -/
def Serves (idle t : Nat) (l l' : List Nat) : Prop :=
  (∃ added, l ++ added = t :: l') ∨ l = [] ∧ l' = [] ∧ t = idle

theorem QueuesOk.doSwitch_serves (h : QueuesOk k l) (regs : Frame) (hlive : k.live k.current = true) :
    ∃ l', Queued (k.doSwitch regs).1 l' ∧ Serves k.emptyThread (k.doSwitch regs).1.current l l' := by
  obtain ⟨l1, h1⟩ := h.down regs hlive
  obtain ⟨added, hadded⟩ := h.down_grown regs
  obtain rfl := Queued.unique h1.queue hadded
  obtain ⟨count, he⟩ := doSwitch_eq k regs
  have hempty : (k.downThread regs).emptyThread = k.emptyThread := by
    have hk := downThread_kept k regs
    rw [emptyThread, hk.1, hk.2.2.2.1, emptyThread]
  rw [he]
  rcases getNextRunThread_queue h1.queue h1.level1 with ⟨hl, hg⟩ | ⟨t, l2, freeNext, level0, hl, hg, hq⟩
  · rw [hg]
    obtain ⟨rfl, rfl⟩ := List.append_eq_nil_iff.mp hl
    exact ⟨[], h1.queue, .inr ⟨rfl, rfl, hempty⟩⟩
  · rw [hg]
    exact ⟨l2, hq, .inl ⟨added, hl⟩⟩

/-- One event: threads come to the end of the queue, and leave it at its front. -/
theorem QueuesOk.step_serves (h : QueuesOk k l) (hlive : k.live k.current = true)
    (hrun : k.state k.current = .running) {e : Frame × KernelEvent} (hlegal : Legal k e.2)
    (hwakes : WakesThread k e.2) (hs : Step k e k') : ∃ l', Queued k' l' ∧
      if k.switches e.2 then Serves k.emptyThread k'.current l l' else l <+: l' := by
  obtain ⟨regs, ev⟩ := e
  have hafter : ∀ {k1 : Kernel} {l1 : List Nat} (regs : Frame), QueuesOk k1 l1 → l <+: l1 →
      k1.live k1.current = true → k1.emptyThread = k.emptyThread →
      ∃ l', Queued (k1.afterSyscall regs).1 l' ∧ if k1.shouldSwitch then
        Serves k.emptyThread (k1.afterSyscall regs).1.current l l' else l <+: l' := by
    intro k1 l1 regs h1 hpre hl1 hempty
    unfold Kernel.afterSyscall
    cases hsw : k1.shouldSwitch with
    | false => exact ⟨l1, h1.queue, hpre⟩
    | true =>
      obtain ⟨l', hq, hserves⟩ := h1.doSwitch_serves regs hl1
      refine ⟨l', hq, ?_⟩
      obtain ⟨added, rfl⟩ := hpre
      rw [hempty] at hserves
      rcases hserves with ⟨added', he⟩ | ⟨hnil, hnil', he⟩
      · exact .inl ⟨added ++ added', by rw [← List.append_assoc]; exact he⟩
      · exact .inr ⟨(List.append_eq_nil_iff.mp hnil).1, hnil', he⟩
  cases ev with
  | syscall fuel call =>
    obtain ⟨k1, r, hk, rfl⟩ := hs.syscall
    obtain ⟨⟨l1, h1⟩, hcur, hl⟩ := h.syscall hlive hrun hlegal hwakes hk
    obtain ⟨added, hadded⟩ := h.syscall_grown hlive hlegal hk
    obtain rfl := Queued.unique h1.queue hadded
    simp only [switches, hk]
    exact hafter _ h1 ⟨added, rfl⟩ (hcur ▸ hl) (syscall_emptyThread hk)
  | clock =>
    obtain rfl := hs.clock
    have hh := hafter regs h (List.prefix_refl l) hlive rfl
    simp only [switches, clockIntHandler, h.schedules, if_true, Bool.true_and]
    split
    · exact hh
    · exact hh
  | switch =>
    obtain rfl := hs.switch
    exact h.doSwitch_serves regs hlive
  | irq irq reserved src =>
    have hgrown : Grown k' l := by
      rcases irq_cases hs.irq with rfl | ⟨n, rfl | ⟨p, pack, hp, -, hd⟩⟩
      · exact Queued.grown h.queue
      · exact Queued.grown h.queue
      · have h0 : QueuesOk (k.withMsgid n) l := h.quiet ..
        exact h0.deliver_grown hd
    obtain ⟨added, hq⟩ := hgrown
    exact ⟨l ++ added, hq, ⟨added, rfl⟩⟩
  | exception =>
    obtain rfl := hs.exception
    exact hafter regs (h.stop .exception hrun (by simp [Runnable]) (h.busy hlegal))
      (List.prefix_refl l) hlive rfl
  | createTask p t a kmod =>
    obtain ⟨hfresh, hp, hpe⟩ := hlegal
    obtain ⟨hspawn, he⟩ := createTask_spawned (a := a) h hfresh hp hpe
    obtain ⟨added, hq⟩ := h.spawn_grown hspawn
    rw [← he] at hq
    refine ⟨l ++ added, ?_, ⟨added, rfl⟩⟩
    obtain rfl := hs.createTask
    split
    · exact hq
    · exact hq

/-! ### Runs -/

/-- The kernel, and the threads it switched to so far. -/
structure ServeLog where
  kernel : Kernel
  picked : List Nat

def ServeStep (s : ServeLog) (e : Frame × KernelEvent) (s' : ServeLog) : Prop :=
  ReusedStep s.kernel e s'.kernel ∧ s'.picked =
    if s.kernel.switches e.2 then s.picked ++ [s'.kernel.current] else s.picked

/-- The queue was `l` when the log was empty. -/
def Following (l : List Nat) (s : ServeLog) : Prop :=
  ∃ l', Queued s.kernel l' ∧ ((∃ added, l ++ added = s.picked ++ l') ∨ l <+: s.picked)

theorem Turning.queued_overwritten {junk : Kernel} (h : Turning k) (hq : Queued k l) :
    Queued (k.overwritten junk) l := by
  obtain ⟨l', hqueues, -⟩ := h
  obtain rfl := Queued.unique hqueues.queue hq
  exact hqueues.overwritten.queue

theorem Following.step {s s' : ServeLog} {e : Frame × KernelEvent} (hset : Turning s.kernel)
    (h : Following l s) (hlegal : Legal s.kernel e.2) (hoff : KeepsOff s.kernel e.2)
    (hs : ServeStep s e s') : Following l s' := by
  obtain ⟨⟨k1, junk, hstep, hk'⟩, hpicked⟩ := hs
  have hset1 : Turning k1 := hset.step hlegal hoff.wakes hstep
  obtain ⟨l0, hsched, hlive, hrun⟩ := hset
  obtain ⟨l1, hq, h⟩ := h
  obtain rfl := Queued.unique hsched.queue hq
  obtain ⟨l2, hq2, hserves⟩ := hsched.step_serves hlive hrun hlegal hoff.wakes hstep
  refine ⟨l2, hk' ▸ hset1.queued_overwritten hq2, ?_⟩
  have hcurrent : s'.kernel.current = k1.current := by rw [hk']; rfl
  rw [hpicked, hcurrent]
  cases hsw : s.kernel.switches e.2 with
  | false =>
    rw [hsw, if_neg Bool.false_ne_true] at hserves
    rw [if_neg Bool.false_ne_true]
    obtain ⟨added', rfl⟩ := hserves
    exact h.imp_left fun ⟨added, he⟩ => ⟨added ++ added', by rw [← List.append_assoc, he, List.append_assoc]⟩
  | true =>
    rw [hsw, if_pos rfl] at hserves
    rw [if_pos rfl]
    rcases h with ⟨added, he⟩ | hpre
    · rcases hserves with ⟨added', he'⟩ | ⟨rfl, rfl, -⟩
      · refine .inl ⟨added ++ added', ?_⟩
        rw [← List.append_assoc, he, List.append_assoc, he', List.append_assoc, List.singleton_append]
      · -- The queue was empty, so everything in `l` has been picked.
        refine .inr (List.IsPrefix.trans ⟨added, he⟩ ?_)
        rw [List.append_nil]
        exact List.prefix_append _ _
    · exact .inr (hpre.trans (List.prefix_append _ _))

theorem take_length_comm {a b : List Nat} (h : a <+: b) : b.take a.length = a.take b.length := by
  obtain ⟨rest, rfl⟩ := h
  rw [List.take_left, List.take_of_length_le (by simp)]

/-- The threads of the queue are switched to in its order, before any other, and those
whose turn has not come are still in it, in front. -/
theorem served_in_order {es es' : List (Frame × KernelEvent)} {s : ServeLog}
    (h : Run Started SafeStep es k) (hl : Queued k l)
    (h' : Run (fun s => s = ⟨k, []⟩)
      (Guarded (fun s e => Legal s.kernel e.2 ∧ KeepsOff s.kernel e.2) ServeStep) es' s) :
    s.picked.take l.length = l.take s.picked.length ∧
      ∃ added, Queued s.kernel (l.drop s.picked.length ++ added) := by
  have hk : Turning s.kernel ∧ Following l s := by
    refine h'.invariant (I := fun _ s => Turning s.kernel ∧ Following l s) ?_ ?_
    · rintro s rfl
      exact ⟨.run h, l, hl, .inl ⟨[], by simp⟩⟩
    · rintro es s e s' ⟨hset, hf⟩ ⟨⟨hlegal, hoff⟩, hs⟩
      exact ⟨hset.reused hlegal hoff hs.1, hf.step hset hlegal hoff hs⟩
  obtain ⟨-, l', hq, ⟨added, he⟩ | hpre⟩ := hk
  · have hpicked : s.picked <+: l ++ added := ⟨l', he.symm⟩
    rcases Nat.le_total s.picked.length l.length with hle | hle
    · have hpre : s.picked <+: l := List.prefix_of_prefix_length_le hpicked ⟨added, rfl⟩ hle
      refine ⟨(take_length_comm hpre).symm, added, ?_⟩
      obtain ⟨rest, rfl⟩ := hpre
      have hl' : l' = rest ++ added := by simpa using he.symm
      rw [List.drop_left, ← hl']
      exact hq
    · have hpre : l <+: s.picked := List.prefix_of_prefix_length_le ⟨added, rfl⟩ hpicked hle
      refine ⟨take_length_comm hpre, l', ?_⟩
      rw [List.drop_eq_nil_of_le hle]
      exact hq
  · refine ⟨take_length_comm hpre, l', ?_⟩
    rw [List.drop_eq_nil_of_le hpre.length_le]
    exact hq

/-- Two tasks were made, and `init` runs. -/
theorem two_queued : ∃ es k, safeRun es = some k ∧ Queued k [410, 510] ∧
    (k.doSwitch fun _ => 0).1.current = 410 := by
  let es : List (Frame × KernelEvent) :=
    [(fun _ => 0, .createTask 400 410 (moduleParams 7 0) true),
      (fun _ => 0, .createTask 500 510 (moduleParams 8 0) true)]
  let k := (safeRun es).get (by decide +kernel)
  have hk : safeRun es = some k := (Option.some_get _).symm
  have hq : k.level0.head = some 410 ∧ k.level0.tail = some 510 ∧ k.freeNext 410 = some 510 ∧
      k.freeNext 510 = none := by decide +kernel
  have hpicked : (k.doSwitch fun _ => 0).1.current = 410 := by decide +kernel
  clear_value k
  exact ⟨es, k, hk, ⟨hq.1, hq.2.1, by decide, hq.2.2.1, hq.2.2.2, trivial⟩, hpicked⟩

/-- `init` is switched out, and the task that it made first runs. -/
theorem served_in_order_two : ∃ k : Kernel, (k.doSwitch fun _ => 0).1.current = 410 ∧
    ∃ added, Queued (k.doSwitch fun _ => 0).1 (510 :: added) := by
  obtain ⟨es, k, hk, hl, hpicked⟩ := two_queued
  have hstep : ServeStep ⟨k, []⟩ (fun _ => 0, .switch) ⟨(k.doSwitch fun _ => 0).1, [410]⟩ :=
    ⟨Step.reused rfl, by rw [hpicked]; rfl⟩
  have hsafe : Legal k .switch ∧ KeepsOff k .switch := ⟨trivial, by simp [KeepsOff, woken, listed]⟩
  exact ⟨k, hpicked,
    (served_in_order (run_of_safeRun hk) hl (.snoc (.start rfl) ⟨hsafe, hstep⟩)).2⟩

/-! ### Giving the processor up -/

/-- The calls after which the thread that made them does not go on at once. -/
def Stops (k : Kernel) : Syscall → Prop
  | .checkIpc => (k.ipc k.currentTask).mail ≠ 0 ∧ (k.ipc k.currentTask).usedSize = 0
  | .downSignal id => ∃ s, k.signal id = some s ∧ s.soft = false ∧ s.signals ≤ 0
  | .exitThread => True
  | _ => False

/-- The events in which a thread of level 0 loses the processor. -/
def Yields (k : Kernel) : KernelEvent → Prop
  | .syscall _ call => Stops k call
  | .exception | .switch => True
  | .clock | .irq .. | .createTask .. => False

theorem shouldSwitch_iff (hs : k.doSchedule = true) (hpid : (k.task k.currentTask).pid ≠ -1)
    (hlevel : k.level k.current = 0) : k.shouldSwitch = true ↔ k.state k.current ≠ .running := by
  by_cases hrun : k.state k.current = .running
  · simp [shouldSwitch, hs, hpid, hlevel, hrun]
  · simp [shouldSwitch, hs, hpid, hlevel, hrun]

/-- A call leaves the level and the pid of the running thread. -/
theorem syscall_task {fuel : Nat} {call : Syscall} {r : UInt64} (hlive : k.live k.current = true)
    (hlegal : Legal k (.syscall fuel call)) (hs : k.syscall fuel call = some (k', r)) :
    k'.current = k.current ∧ k'.doSchedule = k.doSchedule ∧ k'.currentTask = k.currentTask ∧
      ∃ curTid stackBottom, k'.task k.currentTask =
        { k.task k.currentTask with curTid := curTid, stackBottom := stackBottom } := by
  rcases Light.syscall hs with ⟨-, _, _, _, _, _, _, _, _, _, rfl, -⟩ | ⟨t, entry, args, k1, rfl, hk, rfl⟩
  · exact ⟨rfl, rfl, rfl, _, _, rfl⟩
  · have hne : k.current ≠ t := by
      rintro rfl
      simp [hlegal.2 k.current rfl] at hlive
    obtain ⟨parent, -, rfl⟩ := createThread_eq hk
    obtain ⟨freeNext, level0, hq⟩ :=
      enqueueThread_eq ((k.spawnThread t entry k.currentTask).linkThread parent t) t
    rw [hq]
    exact ⟨rfl, rfl, Function.update_of_ne hne .., spawnThread_task k t entry _ _⟩

/-- After a call the thread still runs, unless the call stopped it. -/
theorem syscall_running_iff (h : QueuesOk k l) {fuel : Nat} {call : Syscall} {r : UInt64}
    (hlive : k.live k.current = true) (hrun : k.state k.current = .running)
    (hlegal : Legal k (.syscall fuel call)) (hwakes : WakesThread k (.syscall fuel call))
    (hs : k.syscall fuel call = some (k', r)) : k'.state k.current ≠ .running ↔ Stops k call := by
  have hsame : k'.state k.current = .running → ¬ Stops k call →
      (k'.state k.current ≠ .running ↔ Stops k call) := fun h1 h2 => by simp [h1, h2]
  cases call with
  | checkIpc =>
    obtain rfl := (Prod.mk.inj (Option.some.inj hs)).1
    unfold __checkIpc Stops
    by_cases hmail : (k.ipc k.currentTask).mail = 0
    · simp [hmail, hrun]
    · by_cases hused : 0 < (k.ipc k.currentTask).usedSize
      · simp [hmail, hused, hrun, Nat.ne_of_gt hused]
      · simp [hmail, Nat.eq_zero_of_not_pos hused]
  | downSignal id =>
    obtain ⟨k1, hk, he⟩ := Option.map_eq_some_iff.mp hs
    obtain rfl := (Prod.mk.inj he).1
    obtain ⟨s, s', hid, hcase⟩ := downSignal_effect hk
    have hstops : Stops k (.downSignal id) ↔ (TayHuang.downSignal s k.current).2 = true := by
      simp only [Stops, hid, Option.some.injEq, exists_eq_left']
      by_cases hw : s.soft = false ∧ s.signals - 1 < 0
      · simp only [TayHuang.downSignal, if_pos hw, iff_true]
        exact ⟨hw.1, by omega⟩
      · simp only [TayHuang.downSignal, if_neg hw, Bool.false_eq_true, iff_false]
        exact fun hh => hw ⟨hh.1, by omega⟩
    rcases hcase with ⟨hr, rfl⟩ | ⟨hr, rfl⟩
    · rw [hstops, hr]
      simpa [setSignal] using hrun
    · rw [hstops, hr]
      simp [setState, setSignal]
  | exitThread =>
    obtain rfl := (Prod.mk.inj (Option.some.inj hs)).1
    simp [Stops, __exitThread]
  | sendMsg msgno reserved src size dst =>
    refine hsame ?_ id
    cases syscall_effect hs with
    | idle => exact hrun
    | sent hp hroom hallow hd =>
      rw [WakesThread, woken_sendMsg hp hroom hallow] at hwakes
      rw [(h.deliver hd hwakes).2.2.2 _ (by simp [hrun])]
      exact hrun
  | upSignal id =>
    refine hsame ?_ fun hh => hh
    obtain ⟨k1, hk, he⟩ := Option.map_eq_some_iff.mp hs
    obtain rfl := (Prod.mk.inj he).1
    obtain ⟨s, s', hid, ⟨-, rfl⟩ | ⟨t, hr, rfl⟩⟩ := upSignal_effect hk
    · exact hrun
    · have hwaiting : t ∈ s.waiting := by
        rcases upSignal_cases hr with ⟨hn, -⟩ | ⟨u, hu, hl⟩
        · simp at hn
        · obtain rfl := Option.some.inj hu
          rw [hl]
          exact List.mem_cons_self ..
      have hne : k.current ≠ t := by
        rintro rfl
        have hstate := ((h.waits id s hid).2 _ hwaiting).2
        simp [hrun] at hstate
      rw [enqueueThread_state, setState_state_of_ne hne]
      exact hrun
  | recvMsg dst =>
    refine hsame ?_ id
    cases syscall_effect hs with
    | idle => exact hrun
    | received hk =>
      rcases recvMsg_frame hk with rfl | ⟨mem, readPtr, size, rfl⟩
      · exact hrun
      · exact hrun
  | testAndLock val =>
    refine hsame ?_ id
    cases syscall_effect hs with
    | idle => exact hrun
    | locks => exact hrun
  | createThread t entry args =>
    refine hsame ?_ id
    cases syscall_effect hs with
    | idle hcall => exact absurd rfl (hcall t entry args)
    | spawns hk =>
      obtain ⟨parent, hspawn, rfl⟩ := createThread_spawned (hlegal.2 t rfl) (h.owners _ hlive) hk
      change (Kernel.enqueueThread _ t).state k.current = .running
      rw [enqueueThread_state]
      exact (hspawn.live_of hlive).2.2.trans hrun
  | getSignals id | isSoftSignal id =>
    obtain ⟨s, -, he⟩ := Option.map_eq_some_iff.mp hs
    obtain rfl := (Prod.mk.inj he).1
    exact hsame hrun fun hh => hh
  | setAllow | setMailbuffer | createSignal | regIrq | moo =>
    obtain rfl := (Prod.mk.inj (Option.some.inj hs)).1
    exact hsame hrun fun hh => hh

/-- A thread of level 0 keeps the processor until it gives it up. -/
theorem level0_yields_iff {es : List (Frame × KernelEvent)} {regs : Frame} {e : KernelEvent}
    (h : Run Started SafeStep es k) (hlevel : k.level k.current = 0)
    (hpid : (k.task k.currentTask).pid ≠ -1) (hlegal : Legal k e) (hoff : KeepsOff k e)
    (hs : Step k (regs, e) k') : k.switches e = true ↔ Yields k e := by
  obtain ⟨l, hsched, hlive, hrun⟩ := Turning.run h
  cases e with
  | syscall fuel call =>
    obtain ⟨k1, r, hk, -⟩ := hs.syscall
    obtain ⟨hcur, hdo, hown, curTid, stackBottom, htask⟩ := syscall_task hlive hlegal hk
    have hpid1 : (k1.task k1.currentTask).pid ≠ -1 := by
      rw [hown, htask]
      exact hpid
    have hlevel1 : (k1.task k1.currentTask).level = 0 := by
      rw [hown, htask]
      exact hlevel
    simp only [switches, hk, Yields]
    rw [shouldSwitch_iff (hdo.trans hsched.schedules) hpid1 hlevel1, hcur]
    exact syscall_running_iff hsched hlive hrun hlegal hoff.wakes hk
  | clock =>
    have hno : ¬ k.shouldSwitch = true := by
      rw [shouldSwitch_iff hsched.schedules hpid hlevel, hrun]
      simp
    simp [switches, Yields, hno]
  | exception =>
    have hyes : (k.setState k.current .exception).shouldSwitch = true :=
      (shouldSwitch_iff (k := k.setState k.current .exception) hsched.schedules hpid hlevel).mpr
        (by simp [setState])
    simp [switches, Yields, hyes]
  | switch | irq | createTask => simp [switches, Yields]

/-- `init` sleeps when its mailbox is empty. -/
theorem level0_yields_init : blankBoot.switches (.syscall 5 .checkIpc) = true ∧
    (blankBoot.switches (.syscall 5 .checkIpc) = true ↔ Yields blankBoot (.syscall 5 .checkIpc)) := by
  have hs : ∃ k', Step blankBoot (fun _ => 0, .syscall 5 .checkIpc) k' :=
    ⟨_, (Option.some_get (by decide +kernel)).symm⟩
  obtain ⟨k', hs⟩ := hs
  exact ⟨by decide +kernel,
    level0_yields_iff (.start started_blankBoot) (by decide +kernel) (by decide +kernel)
      (by decide +kernel) (by decide +kernel) hs⟩

end Kernel

end TayHuang
