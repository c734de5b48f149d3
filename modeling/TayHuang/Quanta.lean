import TayHuang.Switching

/-! The quantum of a thread of level 1: `do_switch` gives it three ticks for each unit
of its priority, the clock takes them away one by one, and `should_switch` looks at the
ready queue before it looks at what is left. -/

namespace TayHuang

open Function (update)
open LinkedCells Runs

namespace Kernel

variable {k k' : Kernel} {l : List Nat} {t : Nat}

/-- What the callers of `create_task` pass: no task has the pid of the empty task, and
those of level 1 have a positive priority. `do_switch` is left to the scheduler. -/
def Called : KernelEvent → Prop
  | .switch => False
  | .createTask _ _ a _ => a.pid ≠ -1 ∧ (a.level = 1 → 1 ≤ a.priority)
  | _ => True

/-- The kernel in which an event asks `should_switch`. -/
def checked (k : Kernel) : KernelEvent → Option Kernel
  | .syscall fuel call => (k.syscall fuel call).map Prod.fst
  | .clock => if k.doSchedule then some k else none
  | .switch | .irq .. | .createTask .. => none
  | .exception => some (k.setState k.current .exception)

/-- Some thread of a task of level 0 is in a ready queue. -/
def Level0Ready (k : Kernel) : Prop :=
  ∃ l u, (IsQueue k.freeNext k.level0.head k.level0.tail l ∨
    IsQueue k.freeNext k.level1.head k.level1.tail l) ∧ u ∈ l ∧ k.level u = 0

/-- The kernel, and how often the clock has charged the running thread since it was
dispatched. -/
structure QuantumLog where
  kernel : Kernel
  charged : Nat

/-- Whether the clock charges the thread that runs after it. -/
def charges (k k' : Kernel) : KernelEvent → Bool
  | .clock => k.doSchedule && k'.level k'.current = 1
  | _ => false

def chargedAfter (k k' : Kernel) (e : KernelEvent) (charged : Nat) : Nat :=
  (if k.switches e then 0 else charged) + if k.charges k' e then 1 else 0

def QuantumStep (s : QuantumLog) (e : Frame × KernelEvent) (s' : QuantumLog) : Prop :=
  Legal s.kernel e.2 ∧ Called e.2 ∧ Step s.kernel e s'.kernel ∧
    s'.charged = s.kernel.chargedAfter s'.kernel e.2 s.charged

def QuantumStarted (s : QuantumLog) : Prop := Started s.kernel ∧ s.charged = 0

/-- A running thread of level 1 is switched out only for a thread of level 0, or when
it was charged three times its priority. -/
def TurnOk (s : QuantumLog) (e : Frame × KernelEvent) : Prop :=
  ∀ k, s.kernel.checked e.2 = some k → k.shouldSwitch = true → k.level k.current = 1 →
    k.state k.current = .running → Level0Ready k ∨ (s.charged : Int) = 3 * k.priority k.current

/-- While a running thread of level 1 has time left, the queue of level 0 is empty or
holds a thread of level 0. -/
def Undisturbed (s : QuantumLog) (e : Frame × KernelEvent) : Prop :=
  ∀ k, s.kernel.checked e.2 = some k → k.level k.current = 1 → k.state k.current = .running →
    0 < k.count k.current → k.hasLevel0Thread = true → Level0Ready k

/-! ### Priorities -/

structure PrioritiesOk (k : Kernel) : Prop where
  thread : ∀ t, k.live t = true → k.level t = 1 → 1 ≤ k.priority t
  task : ∀ p ∈ k.taskList, (k.task p).pid ≠ -1 ∧ ((k.task p).level = 1 → 1 ≤ (k.task p).priority)

theorem PrioritiesOk.light (h : PrioritiesOk k) (hk : Light k k') : PrioritiesOk k' := by
  obtain ⟨_, _, _, _, _, _, _, _, _, rfl, -⟩ := hk
  exact ⟨h.thread, h.task⟩

theorem PrioritiesOk.fewer (h : PrioritiesOk k) (hk : Kept k k') (hpriority : k'.priority = k.priority)
    (hlive : ∀ t, k'.live t = true → k.live t = true) : PrioritiesOk k' := by
  obtain ⟨htask, hlist, howner, -⟩ := hk
  refine ⟨fun t ht hl => ?_, fun p hp => ?_⟩
  · rw [level, htask, howner] at hl
    rw [hpriority]
    exact h.thread t (hlive t ht) hl
  · rw [htask]
    exact h.task p (hlist ▸ hp)

theorem downThread_priority (k : Kernel) (regs : Frame) : (k.downThread regs).priority = k.priority := by
  rcases downThread_cases k regs with ⟨-, he⟩ | ⟨-, he⟩ | ⟨-, he⟩
  · obtain ⟨freeNext, level0, he'⟩ :=
      enqueueThread_eq ((k.saved regs).setState k.current .ready) k.current
    rw [he, he']
    rfl
  · obtain ⟨next, last, he'⟩ := removeThread_eq (k.saved regs) k.current
    rw [he, he']
    rfl
  · rw [he]
    rfl

theorem doSwitch_priority (k : Kernel) (regs : Frame) : (k.doSwitch regs).1.priority = k.priority := by
  obtain ⟨count, he⟩ := doSwitch_eq k regs
  obtain ⟨freeNext, level0, level1, hg⟩ := getNextRunThread_frame (k.downThread regs)
  rw [he, hg]
  exact downThread_priority k regs

theorem PrioritiesOk.doSwitch (h : PrioritiesOk k) (regs : Frame) : PrioritiesOk (k.doSwitch regs).1 :=
  h.fewer (doSwitch_kept k regs) (doSwitch_priority k regs) fun _ => doSwitch_live_of k regs

theorem PrioritiesOk.afterSyscall (h : PrioritiesOk k) (regs : Frame) :
    PrioritiesOk (k.afterSyscall regs).1 := by
  unfold Kernel.afterSyscall
  split
  · exact h.doSwitch regs
  · exact h

theorem PrioritiesOk.clock (h : PrioritiesOk k) (regs : Frame) : PrioritiesOk (k.clockIntHandler regs).1 := by
  simp only [clockIntHandler]
  split
  · have h1 := h.afterSyscall regs
    split
    · exact ⟨h1.thread, h1.task⟩
    · exact h1
  · exact h

/-- A new thread has the priority of its task. -/
theorem PrioritiesOk.spawn (h : PrioritiesOk k) (hs : Spawned k k' t)
    (hthread : ∀ u, u ≠ t → k'.priority u = k.priority u) (hnew : k'.level t = 1 → 1 ≤ k'.priority t)
    (htask : ∀ p ∈ k'.taskList, (k'.task p).pid ≠ -1 ∧ ((k'.task p).level = 1 → 1 ≤ (k'.task p).priority)) :
    PrioritiesOk k' := by
  refine ⟨fun u hu hl => ?_, htask⟩
  by_cases hut : u = t
  · rw [hut] at hl ⊢
    exact hnew hl
  · rw [hs.live, Function.update_of_ne hut] at hu
    rw [hs.level u hu] at hl
    rw [hthread u hut]
    exact h.thread u hu hl

theorem PrioritiesOk.createThread (h : PrioritiesOk k) {fuel p : Nat} {entry : UInt64} (hfresh : k.live t = false)
    (hp : p ∈ k.taskList) (hk : k.__createThread__ fuel t entry p = some k') : PrioritiesOk k' := by
  obtain ⟨parent, hs, rfl⟩ := createThread_spawned hfresh (.inl hp) hk
  have htask : ∀ q, ∃ curTid stackBottom, ((k.spawnThread t entry p).linkThread parent t).task q =
      { k.task q with
        curTid := curTid
        stackBottom := stackBottom } := spawnThread_task k t entry p
  have howner : ((k.spawnThread t entry p).linkThread parent t).owner t = p := Function.update_self ..
  have hpriority : ((k.spawnThread t entry p).linkThread parent t).priority =
      update k.priority t (k.task p).priority := rfl
  have h1 : PrioritiesOk ((k.spawnThread t entry p).linkThread parent t) := by
    refine h.spawn hs (fun u hu => ?_) (fun hl => ?_) fun q hq => ?_
    · rw [hpriority, Function.update_of_ne hu]
    · obtain ⟨curTid, stackBottom, he⟩ := htask p
      rw [level, howner, he] at hl
      rw [hpriority, Function.update_self]
      exact (h.task p hp).2 hl
    · obtain ⟨curTid, stackBottom, he⟩ := htask q
      rw [he]
      exact h.task q hq
  exact h1.light (.enqueueThread _ t)

theorem PrioritiesOk.createTask (h : PrioritiesOk k) (hsched : SchedOk k l) {p : Nat} {a : TaskParams}
    (hfresh : k.live t = false) (hp : p ∉ k.taskList) (hempty : p ≠ k.emptyTask)
    (ha : a.pid ≠ -1 ∧ (a.level = 1 → 1 ≤ a.priority)) : PrioritiesOk (k.createTask p t a) := by
  obtain ⟨hs, he⟩ := createTask_spawned (a := a) hsched.toQueuesOk hfresh hp hempty
  have howner : ((k.__createTask p t a).addTask p).owner t = p := Function.update_self ..
  have hpriority : ((k.__createTask p t a).addTask p).priority = update k.priority t a.priority := rfl
  have hself : ((k.__createTask p t a).addTask p).task p = _ := Function.update_self ..
  rw [he]
  refine PrioritiesOk.light (h.spawn hs (fun u hu => ?_) (fun hl => ?_) fun q hq => ?_) (.enqueueThread _ t)
  · rw [hpriority, Function.update_of_ne hu]
  · rw [level, howner, hself] at hl
    rw [hpriority, Function.update_self]
    exact ha.2 hl
  · by_cases hqp : q = p
    · rw [hqp, hself]
      exact ha
    · have hmem : q ∈ k.taskList := List.mem_of_ne_of_mem hqp hq
      simpa [__createTask, createThreadInfo, addTask, hqp] using h.task q hmem

theorem PrioritiesOk.syscall (h : PrioritiesOk k) (hset : Settled k) {fuel : Nat} {call : Syscall} {r : UInt64}
    (hlegal : Legal k (.syscall fuel call)) (hs : k.syscall fuel call = some (k', r)) : PrioritiesOk k' := by
  obtain ⟨l, hsched, hlive, -⟩ := hset
  rcases Light.syscall hs with ⟨-, hlight⟩ | ⟨t, entry, args, k1, rfl, hk, rfl⟩
  · exact h.light hlight
  · have hmem : k.currentTask ∈ k.taskList := (hsched.owners _ hlive).resolve_right hlegal.1
    have h1 := h.createThread (hlegal.2 t rfl) hmem hk
    exact ⟨h1.thread, h1.task⟩

theorem PrioritiesOk.start (h : Started k) : PrioritiesOk k := by
  obtain ⟨k0, b, hz, htask, hthread, rfl⟩ := h
  refine ⟨fun t ht hl => ?_, fun p hp => ?_⟩
  all_goals simp only [boot, createEmptyTask, __createTask, createThreadInfo, addTask, withCurrent, setState,
    __setMailbuffer, kernelTaskParams, level] at *
  · by_cases hti : t = b.initThread
    · subst hti
      simp at hl
    · by_cases hte : t = b.emptyThread
      · subst hte
        simp [hthread, htask] at hl
      · simp [hti, hte, hz.live] at ht
  · rw [hz.taskList, List.mem_singleton] at hp
    subst hp
    simp

theorem PrioritiesOk.step {e : Frame × KernelEvent} (h : PrioritiesOk k) (hset : Settled k)
    (hlegal : Legal k e.2) (hcalled : Called e.2) (hs : Step k e k') : PrioritiesOk k' := by
  obtain ⟨regs, ev⟩ := e
  cases ev with
  | syscall fuel call =>
    obtain ⟨k1, r, hk, rfl⟩ := hs.syscall
    exact (h.syscall hset hlegal hk).afterSyscall _
  | clock =>
    obtain rfl := hs.clock
    exact h.clock regs
  | switch => exact absurd hcalled id
  | irq irq reserved src => exact h.light (.irq hs.irq)
  | exception =>
    obtain rfl := hs.exception
    exact (h.light (.setState k k.current .exception)).afterSyscall regs
  | createTask p t a kmod =>
    obtain ⟨l, hsched, -⟩ := hset
    obtain ⟨hfresh, hp, hpe⟩ := hlegal
    have h1 := h.createTask hsched hfresh hp hpe hcalled
    obtain rfl := hs.createTask
    split
    · exact ⟨h1.thread, h1.task⟩
    · exact h1

/-! ### What is left -/

/-- The same thread runs, with as much time left. -/
structure SameTurn (k k' : Kernel) : Prop where
  current : k'.current = k.current
  level : k'.level k.current = k.level k.current
  count : k'.count k.current = k.count k.current
  priority : k'.priority k.current = k.priority k.current

theorem SameTurn.light (hk : Light k k') : SameTurn k k' := by
  obtain ⟨_, _, _, _, _, _, _, _, _, rfl, -⟩ := hk
  exact ⟨rfl, rfl, rfl, rfl⟩

theorem SameTurn.syscall (hset : Settled k) {fuel : Nat} {call : Syscall} {r : UInt64}
    (hlegal : Legal k (.syscall fuel call)) (hs : k.syscall fuel call = some (k', r)) : SameTurn k k' := by
  obtain ⟨l, hsched, hlive, -⟩ := hset
  rcases Light.syscall hs with ⟨-, hlight⟩ | ⟨t, entry, args, k1, rfl, hk, rfl⟩
  · exact .light hlight
  · have hfresh := hlegal.2 t rfl
    obtain ⟨parent, hspawn, rfl⟩ := createThread_spawned hfresh (hsched.owners _ hlive) hk
    obtain ⟨-, hne, -⟩ := hspawn.live_of hlive
    obtain ⟨freeNext, level0, he⟩ :=
      enqueueThread_eq ((k.spawnThread t entry (k.owner k.current)).linkThread parent t) t
    rw [he]
    exact ⟨rfl, hspawn.level _ hlive, Function.update_of_ne hne .., Function.update_of_ne hne ..⟩

theorem SameTurn.createTask (hset : Settled k) {p : Nat} {a : TaskParams} (hfresh : k.live t = false)
    (hp : p ∉ k.taskList) (hempty : p ≠ k.emptyTask) : SameTurn k (k.createTask p t a) := by
  obtain ⟨l, hsched, hlive, -⟩ := hset
  obtain ⟨hspawn, he⟩ := createTask_spawned (a := a) hsched.toQueuesOk hfresh hp hempty
  obtain ⟨-, hne, -⟩ := hspawn.live_of hlive
  obtain ⟨freeNext, level0, he'⟩ := enqueueThread_eq ((k.__createTask p t a).addTask p) t
  rw [he, he']
  exact ⟨rfl, hspawn.level _ hlive, Function.update_of_ne hne .., Function.update_of_ne hne ..⟩

/-- The count of a running thread of level 1 and what the clock took make its quantum. -/
def CountOk (k : Kernel) (charged : Nat) : Prop :=
  k.level k.current = 1 → k.count k.current + charged = 3 * k.priority k.current ∧ 0 ≤ k.count k.current

theorem CountOk.same {charged : Nat} (h : CountOk k charged) (hk : SameTurn k k') : CountOk k' charged := by
  intro hl
  rw [hk.current] at hl ⊢
  rw [hk.count, hk.priority]
  exact h (hk.level ▸ hl)

/-- The end of `do_switch`. -/
def granted (k : Kernel) : Kernel :=
  if k.level k.current = 1 then { k with count := update k.count k.current (k.priority k.current * 3) } else k

theorem granted_count (hl : k.granted.level k.granted.current = 1) :
    k.granted.count k.granted.current = 3 * k.granted.priority k.granted.current := by
  by_cases h : k.level k.current = 1
  · have he : k.granted = { k with count := update k.count k.current (k.priority k.current * 3) } := if_pos h
    rw [he, Int.mul_comm]
    exact Function.update_self ..
  · have he : k.granted = k := if_neg h
    rw [he] at hl
    exact absurd hl h

theorem doSwitch_count (k : Kernel) (regs : Frame)
    (hl : (k.doSwitch regs).1.level (k.doSwitch regs).1.current = 1) :
    (k.doSwitch regs).1.count (k.doSwitch regs).1.current =
      3 * (k.doSwitch regs).1.priority (k.doSwitch regs).1.current :=
  granted_count hl

theorem shouldSwitch_level1 (hs : SchedOk k l) (hp : PrioritiesOk k) (hlive : k.live k.current = true)
    (hl : k.level k.current = 1) : k.shouldSwitch =
      (k.hasLevel0Thread || decide (k.state k.current ≠ .running) || decide (k.count k.current ≤ 0)) := by
  have hmem : k.currentTask ∈ k.taskList := by
    refine (hs.owners _ hlive).resolve_right fun he => ?_
    rw [level, he, hs.emptyLevel] at hl
    simp at hl
  have hpid := (hp.task _ hmem).1
  simp only [shouldSwitch, hs.schedules, Bool.true_eq_false, if_false, hpid, hl]
  cases k.hasLevel0Thread <;> simp

/-- After the check a thread of level 1 has time left. -/
theorem afterSyscall_count {charged : Nat} (hs : SchedOk k l) (hp : PrioritiesOk k)
    (hlive : k.live k.current = true) (h : CountOk k charged) (regs : Frame)
    (hl : (k.afterSyscall regs).1.level (k.afterSyscall regs).1.current = 1) :
    (k.afterSyscall regs).1.count (k.afterSyscall regs).1.current +
        (if k.shouldSwitch then 0 else charged : Nat) =
      3 * (k.afterSyscall regs).1.priority (k.afterSyscall regs).1.current ∧
    0 < (k.afterSyscall regs).1.count (k.afterSyscall regs).1.current := by
  unfold Kernel.afterSyscall at hl ⊢
  cases hsw : k.shouldSwitch with
  | true =>
    simp only [hsw, if_true] at hl ⊢
    obtain ⟨l', -, hlive', -⟩ := hs.doSwitch regs hlive
    have hcount := doSwitch_count k regs hl
    have hpos := (hp.doSwitch regs).thread _ hlive' hl
    omega
  | false =>
    simp only [hsw, Bool.false_eq_true, if_false] at hl ⊢
    rw [shouldSwitch_level1 hs hp hlive hl] at hsw
    simp only [Bool.or_eq_false_iff, decide_eq_false_iff_not] at hsw
    exact ⟨(h hl).1, by omega⟩

theorem CountOk.start (h : Started k) : CountOk k 0 := by
  obtain ⟨k0, b, hz, htask, hthread, rfl⟩ := h
  intro hl
  simp [boot, __createTask, createThreadInfo, addTask, withCurrent, setState, __setMailbuffer, kernelTaskParams,
    level] at hl

theorem chargedAfter_unchecked {e : KernelEvent} (k k' : Kernel) (charged : Nat) (hs : k.switches e = false)
    (hc : k.charges k' e = false) : k.chargedAfter k' e charged = charged := by
  simp [chargedAfter, hs, hc]

theorem CountOk.step {e : Frame × KernelEvent} {charged : Nat} (h : CountOk k charged) (hset : Settled k)
    (hp : PrioritiesOk k) (hlegal : Legal k e.2) (hcalled : Called e.2) (hs : Step k e k') :
    CountOk k' (k.chargedAfter k' e.2 charged) := by
  obtain ⟨l, hsched, hlive, hrun⟩ := id hset
  obtain ⟨regs, ev⟩ := e
  cases ev with
  | syscall fuel call =>
    obtain ⟨k1, r, hk, rfl⟩ := hs.syscall
    obtain ⟨⟨l1, hsched1⟩, hcur, hl1⟩ := hsched.syscall hlive hrun hlegal hk
    intro hl
    obtain ⟨hcount, hpos⟩ := afterSyscall_count hsched1 (hp.syscall hset hlegal hk) (hcur ▸ hl1)
      (h.same (.syscall hset hlegal hk)) _ hl
    simp only [chargedAfter, switches, hk, charges, Bool.false_eq_true, if_false, Nat.add_zero]
    exact ⟨hcount, Int.le_of_lt hpos⟩
  | clock =>
    obtain rfl := hs.clock
    have hcheck := afterSyscall_count hsched hp hlive h regs
    simp only [CountOk, chargedAfter, switches, charges, clockIntHandler, hsched.schedules, if_true, Bool.true_and]
    split
    · rename_i hl
      obtain ⟨hcount, hpos⟩ := hcheck hl
      intro hl'
      have hl2 : ({ (k.afterSyscall regs).1 with
          count := update (k.afterSyscall regs).1.count (k.afterSyscall regs).1.current
            ((k.afterSyscall regs).1.count (k.afterSyscall regs).1.current - 1) } : Kernel).level
          (k.afterSyscall regs).1.current = 1 := hl
      simp only [hl2, decide_true, if_true, Function.update_self]
      omega
    · rename_i hl
      exact fun hl' => absurd hl' hl
  | switch => exact absurd hcalled id
  | irq irq reserved src =>
    rw [chargedAfter_unchecked k k' charged rfl rfl]
    exact h.same (.light (.irq hs.irq))
  | exception =>
    obtain rfl := hs.exception
    have hempty : k.current ≠ k.emptyThread := by
      intro he
      exact hlegal (by rw [currentTask, he, hsched.emptyOwner])
    have hstop := hsched.stop .exception hlive hrun (by simp [Runnable]) hempty
    intro hl
    obtain ⟨hcount, hpos⟩ := afterSyscall_count hstop (hp.light (.setState k k.current .exception)) hlive
      (h.same (.light (.setState k k.current .exception))) regs hl
    simp only [chargedAfter, switches, charges, Bool.false_eq_true, if_false, Nat.add_zero]
    exact ⟨hcount, Int.le_of_lt hpos⟩
  | createTask p t a kmod =>
    obtain ⟨hfresh, hpm, hpe⟩ := hlegal
    have hsame : SameTurn k (k.createTask p t a) := .createTask hset hfresh hpm hpe
    rw [chargedAfter_unchecked k k' charged rfl rfl]
    obtain rfl := hs.createTask
    split
    · exact h.same ⟨hsame.current, hsame.level, hsame.count, hsame.priority⟩
    · exact h.same hsame

/-! ### The runs -/

structure QuantumOk (s : QuantumLog) : Prop where
  settled : Settled s.kernel
  priorities : PrioritiesOk s.kernel
  count : CountOk s.kernel s.charged

theorem QuantumOk.step {s s' : QuantumLog} {e : Frame × KernelEvent} (h : QuantumOk s) (hs : QuantumStep s e s') :
    QuantumOk s' := by
  obtain ⟨hlegal, hcalled, hstep, hcharged⟩ := hs
  refine ⟨h.settled.step hlegal hstep, h.priorities.step h.settled hlegal hcalled hstep, ?_⟩
  rw [hcharged]
  exact h.count.step h.settled h.priorities hlegal hcalled hstep

theorem QuantumOk.start {s : QuantumLog} (h : QuantumStarted s) : QuantumOk s :=
  ⟨.start h.1, .start h.1, by rw [h.2]; exact .start h.1⟩

/-- What holds where the scheduler is asked. -/
theorem QuantumOk.checked {s : QuantumLog} {e : Frame × KernelEvent} (h : QuantumOk s) (hlegal : Legal s.kernel e.2)
    (hk : s.kernel.checked e.2 = some k) :
    (∃ l, SchedOk k l) ∧ k.live k.current = true ∧ PrioritiesOk k ∧ CountOk k s.charged := by
  obtain ⟨l, hsched, hlive, hrun⟩ := h.settled
  obtain ⟨regs, ev⟩ := e
  cases ev with
  | syscall fuel call =>
    obtain ⟨⟨k1, r⟩, hcall, rfl⟩ := Option.map_eq_some_iff.mp hk
    obtain ⟨hsched1, hcur, hl1⟩ := hsched.syscall hlive hrun hlegal hcall
    exact ⟨hsched1, hcur ▸ hl1, h.priorities.syscall h.settled hlegal hcall,
      h.count.same (.syscall h.settled hlegal hcall)⟩
  | clock =>
    simp only [Kernel.checked, hsched.schedules, if_true, Option.some.injEq] at hk
    obtain rfl := hk
    exact ⟨⟨l, hsched⟩, hlive, h.priorities, h.count⟩
  | exception =>
    obtain rfl := Option.some.inj hk
    have hempty : s.kernel.current ≠ s.kernel.emptyThread := by
      intro he
      exact hlegal (by rw [currentTask, he, hsched.emptyOwner])
    exact ⟨⟨l, hsched.stop .exception hlive hrun (by simp [Runnable]) hempty⟩, hlive,
      h.priorities.light (.setState _ _ .exception), h.count.same (.light (.setState _ _ .exception))⟩
  | switch | irq irq reserved src | createTask p t a kmod => simp [Kernel.checked] at hk

/-- A thread of level 1 keeps its quantum just when no other one of its level is seen
in the queue of level 0. -/
theorem QuantumOk.turnOk_iff {s : QuantumLog} {e : Frame × KernelEvent} (h : QuantumOk s)
    (hlegal : Legal s.kernel e.2) : TurnOk s e ↔ Undisturbed s e := by
  refine forall₂_congr fun k hk => ?_
  obtain ⟨⟨l, hsched⟩, hlive, hp, hcount⟩ := h.checked hlegal hk
  constructor
  · intro hturn hl hrun hleft hready
    have hsw : k.shouldSwitch = true := by
      rw [shouldSwitch_level1 hsched hp hlive hl, hready]
      rfl
    refine (hturn hsw hl hrun).resolve_right fun heq => ?_
    have := (hcount hl).1
    omega
  · intro hun hsw hl hrun
    rw [shouldSwitch_level1 hsched hp hlive hl] at hsw
    simp only [hrun, ne_eq, not_true_eq_false, decide_false, Bool.or_false, Bool.or_eq_true,
      decide_eq_true_eq] at hsw
    obtain ⟨hsum, hle⟩ := hcount hl
    by_cases hleft : 0 < k.count k.current
    · exact .inl (hun hl hrun hleft (hsw.resolve_right (by omega)))
    · exact .inr (by omega)

/-- All turns of a run are as long as they should be exactly when every check of it
finds the queue of level 0 without another thread of level 1 alone. -/
theorem quanta_kept (es : List (Frame × KernelEvent)) (s : QuantumLog) :
    Run QuantumStarted (Guarded TurnOk QuantumStep) es s ↔
      Run QuantumStarted (Guarded Undisturbed QuantumStep) es s :=
  Run.guarded_congr (fun _ h => QuantumOk.start h) (fun _ _ _ h hs => h.step hs)
    fun _ _ _ h hs => h.turnOk_iff hs.1

def quantumNext (s : QuantumLog) (e : Frame × KernelEvent) : Option QuantumLog :=
  (s.kernel.step e).map fun k => ⟨k, s.kernel.chargedAfter k e.2 s.charged⟩

theorem quantumStep_of_next {s s' : QuantumLog} {e : Frame × KernelEvent} (hlegal : Legal s.kernel e.2)
    (hcalled : Called e.2) (h : quantumNext s e = some s') : QuantumStep s e s' := by
  obtain ⟨k, hk, rfl⟩ := Option.map_eq_some_iff.mp h
  exact ⟨hlegal, hcalled, hk, rfl⟩

/-- Two modules of level 1 are made, and `init` waits. -/
theorem two_of_level1 : ∃ es s, Run QuantumStarted QuantumStep es s ∧ s.kernel.current = 410 ∧
    s.kernel.state 410 = .running ∧ s.kernel.level 410 = 1 ∧ s.kernel.priority 410 = 1 ∧ s.charged = 0 ∧
    s.kernel.level0 = ⟨some 510, some 510⟩ ∧ s.kernel.level1 = ⟨none, none⟩ ∧
    s.kernel.freeNext 510 = none ∧ s.kernel.level 510 = 1 ∧ s.kernel.doSchedule = true ∧
    s.kernel.shouldSwitch = true := by
  let x : Frame := fun _ => 0
  let s0 : QuantumLog := ⟨blankBoot, 0⟩
  let e1 : Frame × KernelEvent := (x, .createTask 400 410 (moduleParams 7 1) true)
  let e2 : Frame × KernelEvent := (x, .createTask 500 510 (moduleParams 8 1) true)
  let e3 : Frame × KernelEvent := (x, .syscall 5 .checkIpc)
  let s1 := (quantumNext s0 e1).get (by decide +kernel)
  let s2 := (quantumNext s1 e2).get (by decide +kernel)
  let s3 := (quantumNext s2 e3).get (by decide +kernel)
  have h1 : QuantumStep s0 e1 s1 :=
    quantumStep_of_next (by decide +kernel) ⟨by decide, fun _ => by decide⟩ (Option.some_get _).symm
  have h2 : QuantumStep s1 e2 s2 :=
    quantumStep_of_next (by decide +kernel) ⟨by decide, fun _ => by decide⟩ (Option.some_get _).symm
  have h3 : QuantumStep s2 e3 s3 :=
    quantumStep_of_next (by decide +kernel) trivial (Option.some_get _).symm
  have hrun : Run QuantumStarted QuantumStep ([] ++ [e1] ++ [e2] ++ [e3]) s3 :=
    .snoc (.snoc (.snoc (.start ⟨started_blankBoot, rfl⟩) h1) h2) h3
  exact ⟨_, s3, hrun, by decide +kernel⟩

/-- The first of two ready threads of level 1 is switched out at its first tick, before
the clock has charged it. -/
theorem quantum_cut : ∃ es s, Run QuantumStarted QuantumStep es s ∧ s.kernel.current = 410 ∧
    s.kernel.level 410 = 1 ∧ s.kernel.priority 410 = 1 ∧ s.charged = 0 ∧ ¬ TurnOk s (fun _ => 0, .clock) := by
  obtain ⟨es, s, hrun, hcur, hstate, hlevel, hpriority, hcharged, hqueue, hqueue1, hnext, hother, hsched, hsw⟩ :=
    two_of_level1
  refine ⟨es, s, hrun, hcur, hlevel, hpriority, hcharged, fun hturn => ?_⟩
  have hh := hturn s.kernel (if_pos hsched) hsw (hcur ▸ hlevel) (hcur ▸ hstate)
  rcases hh with ⟨l, u, hq | hq, hu, hzero⟩ | hfull
  · rw [hqueue] at hq
    obtain ⟨rest, rfl⟩ := List.head?_eq_some_iff.mp hq.head_eq.symm
    have hrest : s.kernel.freeNext 510 = entry id rest none := hq.chained.1
    rw [hnext] at hrest
    obtain rfl : rest = [] := by
      cases rest with
      | nil => rfl
      | cons x rest => simp at hrest
    rw [List.mem_singleton.mp hu, hother] at hzero
    simp at hzero
  · rw [hqueue1] at hq
    obtain rfl := hq.head_none_iff.mp rfl
    simp at hu
  · rw [hcur, hpriority, hcharged] at hfull
    simp at hfull

end Kernel

end TayHuang
