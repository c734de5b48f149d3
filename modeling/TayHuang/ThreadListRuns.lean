import TayHuang.ThreadLists

/-! The lists of threads over runs of the kernel. They keep in step with the threads
that exist as long as neither the first thread of a task nor the one registered for
its mailbox ends. -/

namespace TayHuang

open Function (update)
open LinkedCells Runs

namespace Kernel

variable {k k' : Kernel} {l : List Nat} {p : Nat}

/-- A thread that ends is neither the first of its task nor registered. -/
def Orderly (k : Kernel) : Prop :=
  k.current ≠ (k.task k.currentTask).threads ∧
    (k.ipc k.currentTask).msgHandlerThread ≠ some k.current

/-- The threads that end are orderly. -/
def EndsOrderly (k : Kernel) : KernelEvent → Prop
  | .syscall _ call => ends call = true → Orderly k
  | .exception => Orderly k
  | _ => True

/-- Whether the running thread may be switched out. -/
def MaySwitch (k : Kernel) : Prop := Dead (k.state k.current) → Orderly k

theorem ThreadsOk.doSwitch (h : ThreadsOk k) (hlive : k.live k.current = true)
    (howner : k.currentTask ∈ k.taskList ∨ k.currentTask = k.emptyTask) (hmay : MaySwitch k)
    (regs : Frame) : ThreadsOk (k.doSwitch regs).1 := by
  have h1 : ThreadsOk (k.downThread regs) := by
    have h0 : ThreadsOk (k.saved regs) := fun p hp => (h p hp).imp fun l hl =>
      ⟨hl.list, hl.mem, hl.tids, hl.below, hl.handler⟩
    rcases downThread_cases k regs with ⟨-, he⟩ | ⟨hd, he⟩ | ⟨-, he⟩
    · rw [he]
      exact h0.light hlive ((Light.setState ..).trans (.enqueueThread ..))
    · rw [he]
      exact h0.remove hlive howner (hmay hd).1 (hmay hd).2
    · rw [he]
      exact h0
  obtain ⟨count, he⟩ := doSwitch_eq k regs
  obtain ⟨freeNext, level0, level1, hg⟩ := getNextRunThread_frame (k.downThread regs)
  rw [he, hg]
  exact fun p hp => (h1 p hp).imp fun l hl => ⟨hl.list, hl.mem, hl.tids, hl.below, hl.handler⟩

theorem ThreadsOk.afterSyscall (h : ThreadsOk k) (hlive : k.live k.current = true)
    (howner : k.currentTask ∈ k.taskList ∨ k.currentTask = k.emptyTask) (hmay : MaySwitch k)
    (regs : Frame) : ThreadsOk (k.afterSyscall regs).1 := by
  unfold Kernel.afterSyscall
  split
  · exact h.doSwitch hlive howner hmay regs
  · exact h

theorem not_dead_of_running (h : k.state k.current = .running) : ¬ Dead (k.state k.current) := by
  rw [h]
  simp [Dead]

theorem ThreadsOk.syscall (h : ThreadsOk k) {fuel : Nat} {call : Syscall} {r : UInt64}
    (hlive : k.live k.current = true)
    (howner : k.currentTask ∈ k.taskList ∨ k.currentTask = k.emptyTask)
    (hfresh : ∀ t ∈ newThread call, k.live t = false)
    (hs : k.syscall fuel call = some (k', r)) : ThreadsOk k' := by
  rcases Light.syscall hs with ⟨-, hlight⟩ | ⟨t, entry, args, k1, rfl, hk, rfl⟩
  · exact h.light hlive hlight
  · have h1 := h.createThread hlive (hfresh t rfl) howner hk
    exact fun p hp => (h1 p hp).imp fun l hl => ⟨hl.list, hl.mem, hl.tids, hl.below, hl.handler⟩

theorem maySwitch_syscall {fuel : Nat} {call : Syscall} {r : UInt64}
    (hrun : k.state k.current = .running) (hends : ends call = true → Orderly k)
    (hcur : k'.current = k.current) (hs : k.syscall fuel call = some (k', r)) : MaySwitch k' := by
  intro hdead
  by_cases hcall : ends call = true
  · cases call <;> simp [ends] at hcall
    obtain rfl := (Prod.mk.inj (Option.some.inj hs)).1
    exact hends rfl
  · rw [Bool.not_eq_true] at hcall
    rw [hcur] at hdead
    rcases Calm.syscall hcall hs k.current with he | he
    · rw [he] at hdead
      exact absurd hdead (not_dead_of_running hrun)
    · exact absurd hdead he

theorem ThreadsOk.step {e : Frame × KernelEvent} (hset : Settled k) (h : ThreadsOk k)
    (hlegal : Legal k e.2) (hends : EndsOrderly k e.2) (hs : Step k e k') : ThreadsOk k' := by
  obtain ⟨l, hsched, hlive, hrun⟩ := hset
  have howner := hsched.owners k.current hlive
  have hmay : MaySwitch k := fun hd => absurd hd (not_dead_of_running hrun)
  obtain ⟨regs, ev⟩ := e
  cases ev with
  | syscall fuel call =>
    obtain ⟨k1, r, hk, rfl⟩ := hs.syscall
    obtain ⟨⟨l1, hsched1⟩, hcur, hl⟩ := hsched.syscall hlive hrun hlegal hk
    have hlive1 : k1.live k1.current = true := hcur ▸ hl
    exact (h.syscall hlive howner hlegal.2 hk).afterSyscall hlive1 (hsched1.owners _ hlive1)
      (maySwitch_syscall hrun hends hcur hk) _
  | clock =>
    obtain rfl := hs.clock
    have h1 := h.afterSyscall hlive howner hmay regs
    simp only [clockIntHandler, hsched.schedules, if_true]
    split
    · exact fun p hp => (h1 p hp).imp fun l hl => ⟨hl.list, hl.mem, hl.tids, hl.below, hl.handler⟩
    · exact h1
  | switch =>
    obtain rfl := hs.switch
    exact h.doSwitch hlive howner hmay regs
  | irq irq reserved src => exact h.light hlive (.irq hs.irq)
  | exception =>
    obtain rfl := hs.exception
    exact (h.light hlive (.setState k k.current .exception)).afterSyscall hlive howner
      (fun _ => hends) regs
  | createTask p t a kmod =>
    obtain ⟨hfresh, hp, hpe⟩ := hlegal
    have h1 := h.createTask (a := a) hlive hsched.owners hfresh hp hpe
    obtain rfl := hs.createTask
    split
    · exact fun p hp => (h1 p hp).imp fun l hl => ⟨hl.list, hl.mem, hl.tids, hl.below, hl.handler⟩
    · exact h1

theorem ThreadsOk.start (h : Started k) : ThreadsOk k := by
  obtain ⟨k0, b, hz, htask, hthread, rfl⟩ := h
  have hp : ∀ p, p ∈ (k0.boot b).taskList ∨ p = (k0.boot b).emptyTask →
      p = b.initTask ∨ p = b.emptyTask := by
    intro p hp
    simpa [boot, createEmptyTask, __createTask, createThreadInfo, addTask, withCurrent, setState,
      __setMailbuffer, hz.taskList] using hp
  intro p hpb
  rcases hp p hpb with rfl | rfl
  · refine ⟨[b.initThread], ?_, fun u => ?_, by simp, ?_, fun u hu => ?_⟩
    · have hthreads : ((k0.boot b).task b.initTask).threads = b.initThread := by
        simp [boot, __createTask, addTask, withCurrent, setState, __setMailbuffer]
      rw [hthreads]
      exact isDList_singleton (Function.update_self ..) (Function.update_self ..)
    · simp only [boot, createEmptyTask, __createTask, createThreadInfo, addTask, withCurrent,
        setState, __setMailbuffer]
      by_cases hui : u = b.initThread
      · simp [hui]
      · by_cases hue : u = b.emptyThread
        · simp [hue, hthread, htask]
        · simp [hui, hue, hz.live]
    · simp [boot, createEmptyTask, __createTask, createThreadInfo, addTask, withCurrent, setState,
        __setMailbuffer]
    · simp [boot, __createTask, createThreadInfo, addTask, withCurrent, setState, __setMailbuffer,
        currentTask] at hu
      simp [hu]
  · refine ⟨[b.emptyThread], ?_, fun u => ?_, by simp, ?_, fun u hu => ?_⟩
    · have hthreads : ((k0.boot b).task b.emptyTask).threads = b.emptyThread := by
        simp [boot, createEmptyTask, __createTask, createThreadInfo, addTask, withCurrent, setState,
          __setMailbuffer, htask]
      have hnext : (k0.boot b).next b.emptyThread = none ∧ (k0.boot b).last b.emptyThread = none := by
        simp [boot, createEmptyTask, __createTask, createThreadInfo, addTask, withCurrent, setState,
          __setMailbuffer, hthread]
      rw [hthreads]
      exact isDList_singleton hnext.1 hnext.2
    · simp only [boot, createEmptyTask, __createTask, createThreadInfo, addTask, withCurrent,
        setState, __setMailbuffer]
      by_cases hui : u = b.initThread
      · simp [hui, Ne.symm hthread, Ne.symm htask]
      · by_cases hue : u = b.emptyThread
        · simp [hue, hthread]
        · simp [hui, hue, hz.live]
    · simp [boot, createEmptyTask, __createTask, createThreadInfo, addTask, withCurrent, setState,
        __setMailbuffer, htask, hthread]
    · simp [boot, createEmptyTask, __createTask, createThreadInfo, addTask, withCurrent, setState,
        __setMailbuffer, currentTask, htask, initIpcInfo] at hu

/-- `l` are the threads of the task `p`: linked up, the registered thread among them,
and each found under its tid. -/
def Listed (k : Kernel) (p : Nat) (l : List Nat) : Prop :=
  IsDList k.next k.last (some (k.task p).threads) l ∧
    (∀ t, t ∈ l ↔ k.live t = true ∧ k.owner t = p) ∧
    (∀ t, (k.ipc p).msgHandlerThread = some t → t ∈ l) ∧
    ∀ t ∈ l, ∀ fuel, l.length < fuel → k.getThreadByTid fuel (k.tid t) p = some (some t)

theorem find?_of_nodup_map {tids : Nat → Int} {t : Nat} (hn : (l.map tids).Nodup) (ht : t ∈ l) :
    (l.find? fun u => tids u = tids t) = some t := by
  induction l with
  | nil => simp at ht
  | cons x l ih =>
    rw [List.map_cons, List.nodup_cons] at hn
    rcases List.mem_cons.mp ht with rfl | ht
    · simp
    · have hne : tids x ≠ tids t := fun he => hn.1 (he ▸ List.mem_map_of_mem ht)
      rw [List.find?_cons_of_neg (by simpa using hne)]
      exact ih hn.2 ht

theorem TaskOk.listed (h : TaskOk k p l) : Listed k p l := by
  refine ⟨h.list, h.mem, h.handler, fun t ht fuel hfuel => ?_⟩
  rw [getThreadByTid, h.list.head_eq, findThread_eq h.list.linked.chained hfuel,
    find?_of_nodup_map h.tids ht]

/-- No reference to a thread that is gone is left, when threads end in order. -/
theorem threads_listed {es : List (Frame × KernelEvent)}
    (h : Run Started (Guarded (fun k e => Legal k e.2 ∧ EndsOrderly k e.2) Step) es k) :
    ∀ p, p ∈ k.taskList ∨ p = k.emptyTask → ∃ l, Listed k p l := by
  have hk : Settled k ∧ ThreadsOk k :=
    h.invariant (I := fun _ k => Settled k ∧ ThreadsOk k) (fun _ h0 => ⟨.start h0, .start h0⟩)
      fun _ _ _ _ hk hstep =>
        ⟨hk.1.step hstep.1.1 hstep.2, hk.2.step hk.1 hstep.1.1 hstep.1.2 hstep.2⟩
  intro p hp
  obtain ⟨l, hl⟩ := hk.2 p hp
  exact ⟨l, hl.listed⟩

instance (k : Kernel) : Decidable (Orderly k) := inferInstanceAs (Decidable (_ ∧ _))

instance (k : Kernel) : DecidablePred (EndsOrderly k)
  | .syscall _ call => inferInstanceAs (Decidable (ends call = true → Orderly k))
  | .exception => inferInstanceAs (Decidable (Orderly k))
  | .createTask .. | .clock | .switch | .irq .. => inferInstanceAs (Decidable True)

/-- A module makes two threads and waits; the first of them ends. -/
theorem threads_listed_middle : ∃ k : Kernel, k.live 520 = false ∧ k.live 530 = true ∧
    ∃ l, Listed k 500 l := by
  let es : List (Frame × KernelEvent) :=
    [(fun _ => 0, .createTask 500 510 (moduleParams 8 0) true),
      (fun _ => 0, .syscall 5 .checkIpc), (fun _ => 0, .syscall 5 (.createThread 520 0 0)),
      (fun _ => 0, .syscall 5 (.createThread 530 0 0)),
      (fun _ => 0, .syscall 5 (.createSignal 1 0 false)), (fun _ => 0, .syscall 5 (.downSignal 0)),
      (fun _ => 0, .syscall 5 .exitThread)]
  let k := (es.foldlM (fun k e => if Legal k e.2 ∧ EndsOrderly k e.2 then k.step e else none)
    blankBoot).get (by decide +kernel)
  have hk : es.foldlM (fun k e => if Legal k e.2 ∧ EndsOrderly k e.2 then k.step e else none)
      blankBoot = some k := (Option.some_get _).symm
  exact ⟨k, by decide +kernel, by decide +kernel,
    threads_listed (.ofGuardedFold es started_blankBoot hk) 500 (.inl (by decide +kernel))⟩

/-- The first thread of a module, registered for its mailbox, ends before another. -/
theorem threads_not_listed : ∃ es k, Run Started (Guarded (fun k e => Legal k e.2) Step) es k ∧
    k.live 510 = false ∧ k.live 520 = true ∧ (k.task 500).threads = 510 ∧
    (k.ipc 500).msgHandlerThread = some 510 ∧ k.getThreadByTid 5 0 500 = some (some 510) ∧
    ∀ l, ¬ Listed k 500 l := by
  let es : List (Frame × KernelEvent) :=
    [(fun _ => 0, .createTask 500 510 (moduleParams 8 0) true),
      (fun _ => 0, .syscall 5 .checkIpc), (fun _ => 0, .syscall 5 (.setMailbuffer 4096 64)),
      (fun _ => 0, .syscall 5 (.createThread 520 0 0)), (fun _ => 0, .syscall 5 .exitThread)]
  let k := (blankRun es).get (by decide +kernel)
  have hk : blankRun es = some k := (Option.some_get _).symm
  have hgone : k.live 510 = false := by decide +kernel
  have hreg : (k.ipc 500).msgHandlerThread = some 510 := by decide +kernel
  refine ⟨es, k, run_of_blankRun hk, hgone, by decide +kernel, by decide +kernel, hreg,
    by decide +kernel, ?_⟩
  rintro l ⟨-, hmem, hhandler, -⟩
  have hlive := ((hmem 510).mp (hhandler 510 hreg)).1
  rw [hgone] at hlive
  simp at hlive

end Kernel

end TayHuang
