import TayHuang.ReadyRuns

/-! The two levels of scheduling. Threads of both levels go to the queue of level 0,
so the levels are kept apart as long as no task has level 1. -/

namespace TayHuang

open LinkedCells Runs

namespace Kernel

variable {k k' : Kernel} {l : List Nat} {t : Nat}

/-- Each queue has the threads of its level, and no thread of level 1 is picked
before a thread of level 0. -/
def LevelsApart (k : Kernel) : Prop :=
  ∃ l0 l1, IsQueue k.freeNext k.level0.head k.level0.tail l0 ∧
    IsQueue k.freeNext k.level1.head k.level1.tail l1 ∧
    (∀ t ∈ l0, k.level t = 0) ∧ (∀ t ∈ l1, k.level t = 1) ∧
    ∀ u ∈ l0 ++ l1, k.level u = 0 → k.level k.getNextRunThread.2 ≠ 1

def NoLevel1 (k : Kernel) : Prop := ∀ p ∈ k.taskList, (k.task p).level ≠ 1

def MakesLevel1 : KernelEvent → Prop
  | .createTask _ _ a _ => a.level = 1
  | _ => False

theorem NoLevel1.congr (h : NoLevel1 k) (hlist : k'.taskList = k.taskList)
    (htask : ∀ p, (k'.task p).level = (k.task p).level) : NoLevel1 k' := by
  intro p hp
  rw [htask]
  exact h p (hlist ▸ hp)

theorem NoLevel1.kept (h : NoLevel1 k) (hk : Kept k k') : NoLevel1 k' :=
  h.congr hk.2.1 fun p => by rw [hk.1]

theorem NoLevel1.light (h : NoLevel1 k) (hk : Light k k') : NoLevel1 k' := by
  obtain ⟨_, _, _, _, _, _, _, _, _, rfl, -⟩ := hk
  exact h

theorem NoLevel1.createThread (h : NoLevel1 k) {fuel p : Nat} {entry : UInt64}
    (hk : k.__createThread__ fuel t entry p = some k') : NoLevel1 k' := by
  obtain ⟨parent, -, rfl⟩ := createThread_eq hk
  have hlink : NoLevel1 ((k.spawnThread t entry p).linkThread parent t) := by
    refine h.congr rfl fun q => ?_
    obtain ⟨curTid, stackBottom, he⟩ := spawnThread_task k t entry p q
    change ((k.spawnThread t entry p).task q).level = (k.task q).level
    rw [he]
  exact hlink.light (.enqueueThread _ t)

theorem NoLevel1.syscall (h : NoLevel1 k) {fuel : Nat} {call : Syscall} {r : UInt64}
    (hs : k.syscall fuel call = some (k', r)) : NoLevel1 k' := by
  rcases Light.syscall hs with ⟨-, hlight⟩ | ⟨t, entry, args, k1, rfl, hk, rfl⟩
  · exact h.light hlight
  · have h1 := h.createThread hk
    exact h1

theorem NoLevel1.step {e : Frame × KernelEvent} (h : NoLevel1 k) (he : ¬ MakesLevel1 e.2)
    (hs : Step k e k') : NoLevel1 k' := by
  obtain ⟨regs, ev⟩ := e
  cases ev with
  | syscall fuel call =>
    obtain ⟨k1, r, hk, rfl⟩ := hs.syscall
    exact (h.syscall hk).kept (afterSyscall_kept _ _)
  | clock =>
    obtain rfl := hs.clock
    exact h.kept (clock_kept k regs)
  | switch =>
    obtain rfl := hs.switch
    exact h.kept (doSwitch_kept k regs)
  | irq irq reserved src => exact h.light (.irq hs.irq)
  | exception =>
    obtain rfl := hs.exception
    exact (h.light (.setState k k.current .exception)).kept (afterSyscall_kept _ _)
  | createTask p t a kmod =>
    have hlevel : a.level ≠ 1 := he
    have h1 : NoLevel1 ((k.__createTask p t a).addTask p) := by
      intro q hq
      by_cases hqp : q = p
      · subst hqp
        simpa [__createTask, addTask] using hlevel
      · have hmem : q ∈ k.taskList := List.mem_of_ne_of_mem hqp hq
        simpa [__createTask, createThreadInfo, addTask, hqp] using h q hmem
    have h2 : NoLevel1 (k.createTask p t a) := h1.light (.enqueueThread _ _)
    obtain rfl := hs.createTask
    split
    · exact h2
    · exact h2

theorem NoLevel1.start (h : Started k) : NoLevel1 k := by
  obtain ⟨k0, b, hz, -, -, rfl⟩ := h
  intro p hp
  have hp' : p = b.initTask := by
    simpa [boot, createEmptyTask, __createTask, createThreadInfo, addTask, withCurrent, setState,
      __setMailbuffer, hz.taskList] using hp
  subst hp'
  simp [boot, __createTask, addTask, withCurrent, setState, __setMailbuffer, kernelTaskParams]

theorem levelsApart_of (h : Settled k) (h1 : NoLevel1 k) : LevelsApart k := by
  obtain ⟨l, h, -, -⟩ := h
  have hlevel : ∀ t ∈ l, k.level t = 0 := by
    intro t ht
    obtain ⟨hlive, hl | hl, -⟩ := (h.ready t).mp ht
    · exact hl
    · rcases h.owners t hlive with hm | hm
      · exact absurd hl (h1 _ hm)
      · rw [level, hm, h.emptyLevel] at hl
        simp at hl
  refine ⟨l, [], h.queue, ?_, hlevel, fun t ht => absurd ht List.not_mem_nil, fun u hu _ => ?_⟩
  · rw [h.level1]
    exact isQueue_nil
  · rw [List.append_nil] at hu
    rcases getNextRunThread_queue h.queue h.level1 with ⟨rfl, -⟩ | ⟨t, l', freeNext, level0, rfl, hg, -⟩
    · simp at hu
    · rw [hg, hlevel t (List.mem_cons_self ..)]
      simp

/-- Without a task of level 1 the levels are apart. -/
theorem levels_apart {es : List (Frame × KernelEvent)}
    (h : Run Started (Guarded (fun k e => Legal k e.2 ∧ ¬ MakesLevel1 e.2) Step) es k) :
    LevelsApart k := by
  have hk : Settled k ∧ NoLevel1 k :=
    h.invariant (I := fun _ k => Settled k ∧ NoLevel1 k) (fun _ h0 => ⟨.start h0, .start h0⟩)
      fun _ _ _ _ hk hstep => ⟨hk.1.step hstep.1.1 hstep.2, hk.2.step hstep.1.2 hstep.2⟩
  exact levelsApart_of hk.1 hk.2

instance : DecidablePred MakesLevel1
  | .createTask _ _ a _ => inferInstanceAs (Decidable (a.level = 1))
  | .syscall .. | .clock | .switch | .irq .. | .exception => inferInstanceAs (Decidable False)

/-- A new task of level 0 waits behind `init`. -/
theorem levels_apart_one : ∃ k : Kernel, k.getNextRunThread.2 = 510 ∧ LevelsApart k := by
  let es : List (Frame × KernelEvent) :=
    [(fun _ => 0, .createTask 500 510 (moduleParams 8 0) true), (fun _ => 0, .clock)]
  let k := (es.foldlM (fun k e => if Legal k e.2 ∧ ¬ MakesLevel1 e.2 then k.step e else none)
    blankBoot).get (by decide +kernel)
  have hk : es.foldlM (fun k e => if Legal k e.2 ∧ ¬ MakesLevel1 e.2 then k.step e else none)
      blankBoot = some k := (Option.some_get _).symm
  exact ⟨k, by decide +kernel, levels_apart (.ofGuardedFold es started_blankBoot hk)⟩

/-- A task of level 1 and one of level 0: the thread of level 1 is picked first. -/
theorem levels_not_apart : ∃ es k, Run Started (Guarded (fun k e => Legal k e.2) Step) es k ∧
    k.level0.head = some 410 ∧ k.freeNext 410 = some 510 ∧ k.getNextRunThread.2 = 410 ∧
    k.level 410 = 1 ∧ k.level 510 = 0 ∧ ¬ LevelsApart k := by
  let es : List (Frame × KernelEvent) :=
    [(fun _ => 0, .createTask 400 410 (moduleParams 7 1) true),
      (fun _ => 0, .createTask 500 510 (moduleParams 8 0) true)]
  let k := (blankRun es).get (by decide +kernel)
  have hk : blankRun es = some k := (Option.some_get _).symm
  have hhead : k.level0.head = some 410 := by decide +kernel
  have hlevel : k.level 410 = 1 := by decide +kernel
  refine ⟨es, k, run_of_blankRun hk, hhead, by decide +kernel, by decide +kernel, hlevel,
    by decide +kernel, ?_⟩
  rintro ⟨l0, l1, hq, -, h0, -⟩
  have hmem : 410 ∈ l0 := List.mem_of_mem_head? (hq.head_eq.symm.trans hhead)
  have hzero := h0 410 hmem
  rw [hlevel] at hzero
  simp at hzero

end Kernel

end TayHuang
