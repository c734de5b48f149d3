import TayHuang.ReadyRuns
import TayHuang.KernelFrames

/-! The stacks of the threads of a module. The area of a task only grows downwards:
no stack is given back. -/

namespace TayHuang

open Function (update)
open Runs

namespace Kernel

/-! ### Loading a module -/

/-- `Elf64_Phdr`. -/
structure Phdr where
  load : Bool
  vaddr : Nat
  memsz : Nat

structure ProgramInfo where
  start : Nat
  «end» : Nat
  stackTop : Nat
  stackBottom : Nat
  heapBottom : Nat
  heapTop : Nat
  deriving DecidableEq, Repr

def kmodStackTop : Nat := 0x40000000

/-- `load_program`: what it sets `start` and `end` to. -/
def loadProgram (header : Phdr) : Nat × Nat :=
  if header.load then (header.vaddr, (header.vaddr + header.memsz) % 2 ^ 64) else (2 ^ 64 - 1, 0)

/-- The address of a page, from its start up. -/
def pageUp (a : Nat) : Nat := (a + 4095) % 2 ^ 64 / 4096 * 4096

def loadKmodFromMemory (headers : List Phdr) : ProgramInfo :=
  let start := headers.foldl (fun a h => min a (loadProgram h).1) (2 ^ 64 - 1)
  let «end» := headers.foldl (fun a h => max a (loadProgram h).2) 0
  let heapBottom := pageUp («end» + 8192)
  ⟨start, «end», kmodStackTop, kmodStackTop - threadStackSize, heapBottom,
    (heapBottom + 0x10000) % 2 ^ 64⟩

/-- The arguments of `create_task` are those of a program that is linked at or above
`0x2000000`. -/
def IsModule (a : TaskParams) : Prop :=
  ∃ headers, (∀ h ∈ headers, h.load = true → 0x2000000 ≤ h.vaddr) ∧
    ⟨a.codeStart, a.codeEnd, a.stackTop, a.stackBottom, a.heapStart, a.heapEnd⟩ =
      loadKmodFromMemory headers

/-! ### Stacks -/

/-- The kernel, and the bottom and the top of each thread's stack. -/
structure StackLog where
  kernel : Kernel
  stack : Nat → Nat × Nat

/-- The stacks after an event: `__create_thread__` and `create_task` give one. -/
def givenStacks (s : StackLog) : KernelEvent → Nat → Nat × Nat
  | .syscall _ (.createThread t _ _) =>
    let task := s.kernel.task s.kernel.currentTask
    update s.stack t (nextStackBottom task, task.stackBottom)
  | .createTask _ t a _ => update s.stack t (a.stackBottom, a.stackTop)
  | _ => s.stack

def StackLog.step (s : StackLog) (e : Frame × KernelEvent) : Option StackLog :=
  (s.kernel.step e).map fun k => ⟨k, givenStacks s e.2⟩

def StackStep (s : StackLog) (e : Frame × KernelEvent) (s' : StackLog) : Prop := s.step e = some s'

def Apart (a b : Nat × Nat) : Prop := a.2 ≤ b.1 ∨ b.2 ≤ a.1

instance (a b : Nat × Nat) : Decidable (Apart a b) := inferInstanceAs (Decidable (_ ∨ _))

/-- The module tasks are those of `load_kmod_from_memory`. -/
def Loaded : KernelEvent → Prop
  | .createTask _ _ a _ => a.kernelTask = false → IsModule a
  | _ => True

/-- The stack that a thread is about to get lies above the kernel, and not on the program or
the heap of its task. -/
def StackFits (k : Kernel) : KernelEvent → Prop
  | .syscall _ (.createThread ..) =>
    let task := k.task k.currentTask
    task.kernelTask = false → 0x2000000 + threadStackSize ≤ task.stackBottom ∧
      Apart (task.codeStart, task.codeEnd) (nextStackBottom task, task.stackBottom) ∧
      Apart (task.heapStart, task.heapEnd) (nextStackBottom task, task.stackBottom)
  | .createTask _ _ a _ =>
    a.kernelTask = false → Apart (a.codeStart, a.codeEnd) (a.stackBottom, a.stackTop) ∧
      Apart (a.heapStart, a.heapEnd) (a.stackBottom, a.stackTop)
  | _ => True

/-- The threads of the task that exist. -/
def HasThread (k : Kernel) (p t : Nat) : Prop := k.live t = true ∧ k.owner t = p

structure StacksApart (s : StackLog) (p : Nat) : Prop where
  threads : ∀ t u, HasThread s.kernel p t → HasThread s.kernel p u → t ≠ u →
    Apart (s.stack t) (s.stack u)
  kernel : ∀ t, HasThread s.kernel p t → Apart (0, 0x2000000) (s.stack t)
  program : ∀ t, HasThread s.kernel p t →
    Apart ((s.kernel.task p).codeStart, (s.kernel.task p).codeEnd) (s.stack t)
  heap : ∀ t, HasThread s.kernel p t →
    Apart ((s.kernel.task p).heapStart, (s.kernel.task p).heapEnd) (s.stack t)

/-- So for all tasks of modules. -/
def AllApart (s : StackLog) : Prop :=
  ∀ p ∈ s.kernel.taskList, (s.kernel.task p).kernelTask = false → StacksApart s p

/-- The stacks lie one below the other above the next one's top. -/
structure AreaOk (s : StackLog) (p : Nat) : Prop where
  small : (s.kernel.task p).stackBottom < 2 ^ 64
  limit : 0x2000000 ≤ (s.kernel.task p).stackBottom
  above : ∀ t, HasThread s.kernel p t → (s.kernel.task p).stackBottom ≤ (s.stack t).1
  apart : StacksApart s p

/-- The tasks of modules have their stacks in order. -/
def StacksOk (s : StackLog) : Prop :=
  ∀ p ∈ s.kernel.taskList, (s.kernel.task p).kernelTask = false → AreaOk s p

theorem StacksOk.apart {s : StackLog} (h : StacksOk s) : AllApart s :=
  fun p hp hkernel => (h p hp hkernel).apart

/-- Nothing new, and threads may be gone. -/
def Fewer (k k' : Kernel) : Prop :=
  k'.task = k.task ∧ k'.taskList = k.taskList ∧ k'.owner = k.owner ∧
    ∀ t, k'.live t = true → k.live t = true

variable {k k' k'' : Kernel} {s s' : StackLog} {p t : Nat}

theorem Fewer.trans (h : Fewer k k') (h' : Fewer k' k'') : Fewer k k'' :=
  ⟨h'.1.trans h.1, h'.2.1.trans h.2.1, h'.2.2.1.trans h.2.2.1, fun t ht => h.2.2.2 t (h'.2.2.2 t ht)⟩

theorem Light.fewer (h : Light k k') : Fewer k k' := by
  obtain ⟨_, _, _, _, _, _, _, _, _, rfl, -⟩ := h
  exact ⟨rfl, rfl, rfl, fun _ ht => ht⟩

theorem downThread_live_le (k : Kernel) (regs : Frame) (ht : (k.downThread regs).live t = true) :
    k.live t = true := by
  rcases downThread_cases k regs with ⟨-, he⟩ | ⟨-, he⟩ | ⟨-, he⟩
  · rw [he, enqueueThread_live] at ht
    exact ht
  · obtain ⟨next, last, he'⟩ := removeThread_eq (k.saved regs) k.current
    rw [he, he'] at ht
    change update k.live k.current false t = true at ht
    by_cases htc : t = k.current
    · simp [htc] at ht
    · rwa [Function.update_of_ne htc] at ht
  · rw [he] at ht
    exact ht

theorem doSwitch_fewer (k : Kernel) (regs : Frame) : Fewer k (k.doSwitch regs).1 := by
  obtain ⟨htask, hlist, howner, -⟩ := doSwitch_kept k regs
  refine ⟨htask, hlist, howner, fun t ht => ?_⟩
  obtain ⟨count, he⟩ := doSwitch_eq k regs
  obtain ⟨freeNext, level0, level1, hg⟩ := getNextRunThread_frame (k.downThread regs)
  rw [he, hg] at ht
  exact downThread_live_le k regs ht

theorem afterSyscall_fewer (k : Kernel) (regs : Frame) : Fewer k (k.afterSyscall regs).1 := by
  unfold afterSyscall
  split
  · exact doSwitch_fewer k regs
  · exact ⟨rfl, rfl, rfl, fun _ ht => ht⟩

theorem clock_fewer (k : Kernel) (regs : Frame) : Fewer k (k.clockIntHandler regs).1 := by
  have hafter := afterSyscall_fewer k regs
  simp only [clockIntHandler]
  split
  · split
    · exact hafter
    · exact hafter
  · exact ⟨rfl, rfl, rfl, fun _ ht => ht⟩

/-- What is apart stays apart when threads end. -/
theorem StacksApart.mono {s' : StackLog} (h : StacksApart s p)
    (htask : s'.kernel.task p = s.kernel.task p)
    (hold : ∀ t, HasThread s'.kernel p t → HasThread s.kernel p t ∧ s'.stack t = s.stack t) :
    StacksApart s' p := by
  refine ⟨fun t u ht hu hne => ?_, fun t ht => ?_, fun t ht => ?_, fun t ht => ?_⟩
  all_goals
    obtain ⟨ht', hst⟩ := hold t ht
    rw [hst]
  · obtain ⟨hu', hsu⟩ := hold u hu
    rw [hsu]
    exact h.threads t u ht' hu' hne
  · exact h.kernel t ht'
  · rw [htask]
    exact h.program t ht'
  · rw [htask]
    exact h.heap t ht'

theorem AreaOk.mono {s' : StackLog} (h : AreaOk s p) (htask : s'.kernel.task p = s.kernel.task p)
    (hold : ∀ t, HasThread s'.kernel p t → HasThread s.kernel p t ∧ s'.stack t = s.stack t) :
    AreaOk s' p := by
  refine ⟨htask ▸ h.small, htask ▸ h.limit, fun t ht => ?_, h.apart.mono htask hold⟩
  obtain ⟨ht', hst⟩ := hold t ht
  rw [htask, hst]
  exact h.above t ht'

theorem StacksOk.fewer (h : StacksOk s) (hf : Fewer s.kernel k') : StacksOk ⟨k', s.stack⟩ := by
  obtain ⟨htask, hlist, howner, hlive⟩ := hf
  intro p hp hkernel
  rw [htask] at hkernel
  refine (h p (hlist ▸ hp) hkernel).mono (congrFun htask p) fun t ht => ?_
  exact ⟨⟨hlive t ht.1, howner ▸ ht.2⟩, rfl⟩

theorem createThread_frame {fuel : Nat} {entry args : UInt64}
    (hk : k.__createThread fuel t entry args = some k') :
    k'.taskList = k.taskList ∧ k'.owner = update k.owner t k.currentTask ∧
      k'.live = update k.live t true ∧
      k'.task = update k.task k.currentTask { k.task k.currentTask with
        curTid := (k.task k.currentTask).curTid + 1
        stackBottom := nextStackBottom (k.task k.currentTask) } := by
  obtain ⟨k1, hk1, rfl⟩ := Option.map_eq_some_iff.mp hk
  obtain ⟨parent, -, rfl⟩ := createThread_eq hk1
  obtain ⟨freeNext, level0, he⟩ :=
    enqueueThread_eq ((k.spawnThread t entry k.currentTask).linkThread parent t) t
  rw [he]
  refine ⟨rfl, rfl, rfl, ?_⟩
  simp [spawnThread, createThreadInfo, takeStack, linkThread]

theorem hasThread_update {x y : Nat} (hlive : k'.live = update k.live t true)
    (howner : k'.owner = update k.owner t x) (h : HasThread k' p y) :
    y = t ∧ p = x ∨ y ≠ t ∧ HasThread k p y := by
  obtain ⟨h1, h2⟩ := h
  by_cases hy : y = t
  · subst hy
    rw [howner, Function.update_self] at h2
    exact .inl ⟨rfl, h2.symm⟩
  · rw [hlive, Function.update_of_ne hy] at h1
    rw [howner, Function.update_of_ne hy] at h2
    exact .inr ⟨hy, h1, h2⟩

theorem AreaOk.other {x : Nat} {stack : Nat → Nat × Nat} (h : AreaOk s p) (hne : p ≠ x)
    (hlive : k'.live = update s.kernel.live t true) (howner : k'.owner = update s.kernel.owner t x)
    (htask : k'.task p = s.kernel.task p) (hstack : ∀ y, y ≠ t → stack y = s.stack y) :
    AreaOk ⟨k', stack⟩ p := by
  refine h.mono htask fun y hy => ?_
  rcases hasThread_update hlive howner hy with ⟨-, hpx⟩ | ⟨hyt, hold⟩
  · exact absurd hpx hne
  · exact ⟨hold, hstack y hyt⟩

/-- A new stack that is below the others and fits. -/
theorem StacksApart.push {x : Nat} {stack : Nat → Nat × Nat} (h : StacksApart s x)
    (hlive : k'.live = update s.kernel.live t true) (howner : k'.owner = update s.kernel.owner t x)
    (hstack : ∀ y, y ≠ t → stack y = s.stack y)
    (hcode : (k'.task x).codeStart = (s.kernel.task x).codeStart ∧
      (k'.task x).codeEnd = (s.kernel.task x).codeEnd)
    (hheap : (k'.task x).heapStart = (s.kernel.task x).heapStart ∧
      (k'.task x).heapEnd = (s.kernel.task x).heapEnd)
    (hbelow : ∀ y, HasThread s.kernel x y → (stack t).2 ≤ (s.stack y).1)
    (hkernel : 0x2000000 ≤ (stack t).1)
    (hprogram : Apart ((k'.task x).codeStart, (k'.task x).codeEnd) (stack t))
    (hheap' : Apart ((k'.task x).heapStart, (k'.task x).heapEnd) (stack t)) :
    StacksApart ⟨k', stack⟩ x := by
  refine ⟨fun y z hy hz hyz => ?_, fun y hy => ?_, fun y hy => ?_, fun y hy => ?_⟩
  all_goals rcases hasThread_update hlive howner hy with ⟨rfl, -⟩ | ⟨hyt, hyold⟩
  · rcases hasThread_update hlive howner hz with ⟨rfl, -⟩ | ⟨hzt, hzold⟩
    · exact absurd rfl hyz
    · change Apart (stack y) (stack z)
      rw [hstack z hzt]
      exact .inl (hbelow z hzold)
  · change Apart (stack y) (stack z)
    rw [hstack y hyt]
    rcases hasThread_update hlive howner hz with ⟨rfl, -⟩ | ⟨hzt, hzold⟩
    · exact .inr (hbelow y hyold)
    · rw [hstack z hzt]
      exact h.threads y z hyold hzold hyz
  · exact .inl hkernel
  · change Apart _ (stack y)
    rw [hstack y hyt]
    exact h.kernel y hyold
  · exact hprogram
  · change Apart ((k'.task x).codeStart, (k'.task x).codeEnd) (stack y)
    rw [hstack y hyt, hcode.1, hcode.2]
    exact h.program y hyold
  · exact hheap'
  · change Apart ((k'.task x).heapStart, (k'.task x).heapEnd) (stack y)
    rw [hstack y hyt, hheap.1, hheap.2]
    exact h.heap y hyold

theorem StacksOk.createThread {fuel : Nat} {entry args : UInt64} (h : StacksOk s)
    (hfits : StackFits s.kernel (.syscall fuel (.createThread t entry args)))
    (hk : s.kernel.__createThread fuel t entry args = some k') :
    StacksOk ⟨k', givenStacks s (.syscall fuel (.createThread t entry args))⟩ := by
  obtain ⟨hlist, howner, hlive, htask⟩ := createThread_frame hk
  intro p hp hkernel
  change p ∈ k'.taskList at hp
  change (k'.task p).kernelTask = false at hkernel
  rw [hlist] at hp
  obtain ⟨stack, hstack⟩ : ∃ stack, stack =
    givenStacks s (.syscall fuel (.createThread t entry args)) := ⟨_, rfl⟩
  rw [← hstack]
  have hother : ∀ y, y ≠ t → stack y = s.stack y := fun y hy =>
    hstack ▸ Function.update_of_ne hy ..
  by_cases hpc : p = s.kernel.currentTask
  · subst hpc
    rw [htask, Function.update_self] at hkernel
    have hok := h _ hp hkernel
    obtain ⟨hroom, hcode, hheap⟩ := hfits hkernel
    have hnext : nextStackBottom (s.kernel.task s.kernel.currentTask) + threadStackSize =
        (s.kernel.task s.kernel.currentTask).stackBottom := by
      have hsmall := hok.small
      have hsize : threadStackSize = 0x800000 := rfl
      rw [nextStackBottom, if_neg (by rw [hkernel]; decide)]
      omega
    have hnew : stack t = (nextStackBottom (s.kernel.task s.kernel.currentTask),
        (s.kernel.task s.kernel.currentTask).stackBottom) := hstack ▸ Function.update_self ..
    have htask' : k'.task s.kernel.currentTask = { s.kernel.task s.kernel.currentTask with
        curTid := (s.kernel.task s.kernel.currentTask).curTid + 1
        stackBottom := nextStackBottom (s.kernel.task s.kernel.currentTask) } := by
      rw [htask, Function.update_self]
    have hbelow : ∀ y, HasThread s.kernel s.kernel.currentTask y →
        (stack t).2 ≤ (s.stack y).1 := fun y hy => by
      rw [hnew]
      exact hok.above y hy
    refine ⟨?_, ?_, fun y hy => ?_, ?_⟩
    · change (k'.task _).stackBottom < 2 ^ 64
      rw [htask']
      exact Nat.mod_lt _ (by decide)
    · change 0x2000000 ≤ (k'.task _).stackBottom
      rw [htask']
      change _ ≤ nextStackBottom _
      omega
    · change (k'.task _).stackBottom ≤ (stack y).1
      rw [htask']
      rcases hasThread_update hlive howner hy with ⟨rfl, -⟩ | ⟨hyt, hold⟩
      · rw [hnew]
      · have habove := hok.above y hold
        rw [hother y hyt]
        change nextStackBottom _ ≤ _
        omega
    · refine hok.apart.push hlive howner hother ?_ ?_ hbelow ?_ ?_ ?_
      · rw [htask']
        exact ⟨rfl, rfl⟩
      · rw [htask']
        exact ⟨rfl, rfl⟩
      · rw [hnew]
        change _ ≤ nextStackBottom _
        omega
      · rw [htask', hnew]
        exact hcode
      · rw [htask', hnew]
        exact hheap
  · have htask' : k'.task p = s.kernel.task p := by
      rw [htask, Function.update_of_ne hpc]
    rw [htask'] at hkernel
    exact (h p hp hkernel).other hpc hlive howner htask' hother

theorem StacksOk.createTask {x : Nat} {a : TaskParams} {kmod : Bool} (h : StacksOk s)
    (howners : ∀ u, s.kernel.live u = true →
      s.kernel.owner u ∈ s.kernel.taskList ∨ s.kernel.owner u = s.kernel.emptyTask)
    (hx : x ∉ s.kernel.taskList) (hempty : x ≠ s.kernel.emptyTask)
    (hloaded : Loaded (.createTask x t a kmod)) (hfits : StackFits s.kernel (.createTask x t a kmod)) :
    StacksOk ⟨s.kernel.createTask x t a, givenStacks s (.createTask x t a kmod)⟩ := by
  obtain ⟨k', hk'⟩ : ∃ k', k' = s.kernel.createTask x t a := ⟨_, rfl⟩
  obtain ⟨freeNext, level0, he⟩ := enqueueThread_eq ((s.kernel.__createTask x t a).addTask x)
    (((s.kernel.__createTask x t a).addTask x).task x).threads
  have hk : k' = { (s.kernel.__createTask x t a).addTask x with
      freeNext := freeNext
      level0 := level0 } := hk'.trans he
  have hlive : k'.live = update s.kernel.live t true := hk ▸ rfl
  have howner : k'.owner = update s.kernel.owner t x := hk ▸ rfl
  have hlist : k'.taskList = x :: s.kernel.taskList := hk ▸ rfl
  have htask : ∀ p, p ≠ x → k'.task p = s.kernel.task p := by
    intro p hp
    rw [hk]
    simp [__createTask, addTask, createThreadInfo, hp]
  have hnewTask : (k'.task x).stackBottom = a.stackBottom ∧
      ((k'.task x).codeStart, (k'.task x).codeEnd) = (a.codeStart, a.codeEnd) ∧
      ((k'.task x).heapStart, (k'.task x).heapEnd) = (a.heapStart, a.heapEnd) ∧
      (k'.task x).kernelTask = a.kernelTask := by
    rw [hk]
    simp [__createTask, addTask]
  obtain ⟨stack, hstack⟩ : ∃ stack, stack = givenStacks s (.createTask x t a kmod) := ⟨_, rfl⟩
  have hother : ∀ y, y ≠ t → stack y = s.stack y := fun y hy =>
    hstack ▸ Function.update_of_ne hy ..
  have hnone : ∀ y, ¬ HasThread s.kernel x y := by
    rintro y ⟨hy, rfl⟩
    rcases howners y hy with hm | hm
    · exact hx hm
    · exact hempty hm
  rw [← hstack, ← hk']
  intro p hp hkernel
  change p ∈ k'.taskList at hp
  change (k'.task p).kernelTask = false at hkernel
  by_cases hpx : p = x
  · subst hpx
    obtain ⟨hbottom, hcode, hheap, hkt⟩ := hnewTask
    rw [hkt] at hkernel
    obtain ⟨headers, -, hinfo⟩ := hloaded hkernel
    obtain ⟨hprogram, hheap'⟩ := hfits hkernel
    have hab : a.stackBottom = 0x3F800000 := congrArg ProgramInfo.stackBottom hinfo
    have hnewStack : stack t = (a.stackBottom, a.stackTop) := hstack ▸ Function.update_self ..
    have honly : ∀ y, HasThread k' p y → stack y = (a.stackBottom, a.stackTop) := by
      intro y hy
      rcases hasThread_update hlive howner hy with ⟨rfl, -⟩ | ⟨-, hold⟩
      · exact hnewStack
      · exact absurd hold (hnone y)
    refine ⟨?_, ?_, fun y hy => ?_, fun y z hy hz hyz => ?_, fun y hy => ?_, fun y hy => ?_,
      fun y hy => ?_⟩
    · change (k'.task p).stackBottom < 2 ^ 64
      omega
    · change 0x2000000 ≤ (k'.task p).stackBottom
      omega
    · change (k'.task p).stackBottom ≤ (stack y).1
      rw [honly y hy, hbottom]
    · rcases hasThread_update hlive howner hy with ⟨rfl, -⟩ | ⟨-, hold⟩
      · rcases hasThread_update hlive howner hz with ⟨rfl, -⟩ | ⟨-, hold⟩
        · exact absurd rfl hyz
        · exact absurd hold (hnone z)
      · exact absurd hold (hnone y)
    · change Apart _ (stack y)
      rw [honly y hy]
      exact .inl (by simp only; omega)
    · change Apart ((k'.task p).codeStart, (k'.task p).codeEnd) (stack y)
      rw [honly y hy, hcode]
      exact hprogram
    · change Apart ((k'.task p).heapStart, (k'.task p).heapEnd) (stack y)
      rw [honly y hy, hheap]
      exact hheap'
  · rw [hlist] at hp
    rw [htask p hpx] at hkernel
    exact (h p (List.mem_of_ne_of_mem hpx hp) hkernel).other hpx hlive howner (htask p hpx) hother

theorem StacksOk.step {e : Frame × KernelEvent} (hset : Settled s.kernel) (h : StacksOk s)
    (hlegal : Legal s.kernel e.2) (hloaded : Loaded e.2) (hfits : StackFits s.kernel e.2)
    (hs : StackStep s e s') : StacksOk s' := by
  obtain ⟨regs, ev⟩ := e
  obtain ⟨k', hkernel, rfl⟩ := Option.map_eq_some_iff.mp hs
  replace hs : Step s.kernel (regs, ev) k' := hkernel
  clear hkernel
  change StacksOk ⟨k', givenStacks s ev⟩
  cases ev with
  | syscall fuel call =>
    obtain ⟨k1, r, hk, rfl⟩ := hs.syscall
    rcases Light.syscall hk with ⟨hcall, hlight⟩ | ⟨t, entry, args, k2, rfl, hk2, rfl⟩
    · have hsame : givenStacks s (.syscall fuel call) = s.stack := by
        cases call with
        | createThread t entry args => exact absurd rfl (hcall t entry args)
        | _ => rfl
      rw [hsame]
      exact h.fewer (hlight.fewer.trans (afterSyscall_fewer ..))
    · exact (h.createThread hfits (Option.map_eq_some_iff.mpr ⟨k2, hk2, rfl⟩)).fewer
        (afterSyscall_fewer ..)
  | clock =>
    obtain rfl := hs.clock
    exact h.fewer (clock_fewer ..)
  | switch =>
    obtain rfl := hs.switch
    exact h.fewer (doSwitch_fewer ..)
  | irq irq reserved src => exact h.fewer (Light.irq hs.irq).fewer
  | exception =>
    obtain rfl := hs.exception
    exact h.fewer ((Light.setState ..).fewer.trans (afterSyscall_fewer ..))
  | createTask p t a kmod =>
    obtain ⟨-, hp, hpe⟩ := hlegal
    obtain ⟨l, hsched, -⟩ := hset
    have hok := h.createTask hsched.owners hp hpe hloaded hfits
    obtain rfl := hs.createTask
    split
    · exact hok.fewer ⟨rfl, rfl, rfl, fun _ ht => ht⟩
    · exact hok

def StackStart (s : StackLog) : Prop := Started s.kernel

theorem StacksOk.start (h : StackStart s) : StacksOk s := by
  obtain ⟨k0, b, hz, htask, -, he⟩ := h
  intro p hp hkernel
  rw [he] at hp hkernel
  have hp' : p = b.initTask := by
    simpa [boot, createEmptyTask, __createTask, createThreadInfo, addTask, withCurrent, setState,
      __setMailbuffer, hz.taskList] using hp
  subst hp'
  have htrue : ((k0.boot b).task b.initTask).kernelTask = true := by
    simp [boot, __createTask, addTask, withCurrent, setState, __setMailbuffer, kernelTaskParams]
  rw [htrue] at hkernel
  simp at hkernel

/-! ### The stack of a new thread -/

theorem afterSyscall_live_of {u : Nat} (hu : u ≠ k.current) (regs : Frame) :
    (k.afterSyscall regs).1.live u = k.live u := by
  unfold afterSyscall
  split
  · obtain ⟨count, he⟩ := doSwitch_eq k regs
    obtain ⟨freeNext, level0, level1, hg⟩ := getNextRunThread_frame (k.downThread regs)
    rw [he, hg]
    change (k.downThread regs).live u = k.live u
    rcases downThread_cases k regs with ⟨-, hd⟩ | ⟨-, hd⟩ | ⟨-, hd⟩
    · rw [hd, enqueueThread_live]
      rfl
    · obtain ⟨next, last, hr⟩ := removeThread_eq (k.saved regs) k.current
      rw [hd, hr]
      exact Function.update_of_ne hu ..
    · rw [hd]
      rfl
  · rfl

theorem StacksOk.fits_createThread {fuel : Nat} {entry args : UInt64} {regs : Frame}
    (h : StacksOk s) (hset : Settled s.kernel)
    (hlegal : Legal s.kernel (.syscall fuel (.createThread t entry args)))
    (hs : Step s.kernel (regs, .syscall fuel (.createThread t entry args)) k')
    (hapart : AllApart ⟨k', givenStacks s (.syscall fuel (.createThread t entry args))⟩) :
    StackFits s.kernel (.syscall fuel (.createThread t entry args)) := by
  intro hkt
  obtain ⟨l, hsched, hcur, -⟩ := hset
  obtain ⟨hbusy, hfresh⟩ := hlegal
  obtain ⟨k1, r, hk, rfl⟩ := hs.syscall
  rcases Light.syscall hk with ⟨hcall, -⟩ | ⟨t', entry', args', k2, hcall, hk2, rfl⟩
  · exact absurd rfl (hcall t entry args)
  obtain ⟨rfl, rfl, rfl⟩ : t = t' ∧ entry = entry' ∧ args = args' := by simpa using hcall
  have hpass : s.kernel.__createThread fuel t entry args = some (k2.passing t args) :=
    Option.map_eq_some_iff.mpr ⟨k2, hk2, rfl⟩
  obtain ⟨hlist, howner, hlive, htask⟩ := createThread_frame hpass
  have hcurrent : (k2.passing t args).current = s.kernel.current := by
    obtain ⟨parent, -, rfl⟩ := createThread_eq hk2
    exact enqueueThread_current ..
  have hne : t ≠ s.kernel.current := by
    rintro rfl
    simp [hfresh _ rfl] at hcur
  have hmem : s.kernel.currentTask ∈ s.kernel.taskList :=
    (hsched.owners _ hcur).resolve_right hbusy
  obtain ⟨htask', hlist', howner', -⟩ :=
    afterSyscall_fewer (k2.passing t args) (regs.set .rax r)
  have hnewTask : (((k2.passing t args).afterSyscall (regs.set .rax r)).1).task
      s.kernel.currentTask = { s.kernel.task s.kernel.currentTask with
        curTid := (s.kernel.task s.kernel.currentTask).curTid + 1
        stackBottom := nextStackBottom (s.kernel.task s.kernel.currentTask) } := by
    rw [htask', htask, Function.update_self]
  have hhas : HasThread ((k2.passing t args).afterSyscall (regs.set .rax r)).1
      s.kernel.currentTask t := by
    refine ⟨?_, ?_⟩
    · rw [afterSyscall_live_of (hcurrent ▸ hne), hlive, Function.update_self]
    · rw [howner', howner, Function.update_self]
  have hstack : givenStacks s (.syscall fuel (.createThread t entry args)) t =
      (nextStackBottom (s.kernel.task s.kernel.currentTask),
        (s.kernel.task s.kernel.currentTask).stackBottom) := Function.update_self ..
  have hap := hapart s.kernel.currentTask ?_ ?_
  · have hbelow := hap.kernel t hhas
    have hprogram := hap.program t hhas
    have hheap := hap.heap t hhas
    simp only [hnewTask, hstack] at hbelow hprogram hheap
    refine ⟨?_, hprogram, hheap⟩
    have hlow := (h _ hmem hkt).limit
    have hsmall := (h _ hmem hkt).small
    have hsize : threadStackSize = 0x800000 := rfl
    have hnext : nextStackBottom (s.kernel.task s.kernel.currentTask) + threadStackSize =
        (s.kernel.task s.kernel.currentTask).stackBottom := by
      rw [nextStackBottom, if_neg (by rw [hkt]; decide)]
      omega
    simp only [Apart] at hbelow
    omega
  · change s.kernel.currentTask ∈ ((k2.passing t args).afterSyscall (regs.set .rax r)).1.taskList
    rw [hlist', hlist]
    exact hmem
  · change (((k2.passing t args).afterSyscall (regs.set .rax r)).1.task _).kernelTask = false
    rw [hnewTask]
    exact hkt

theorem fits_createTask {s : StackLog} {x : Nat} {a : TaskParams} {kmod : Bool} {regs : Frame}
    (hs : Step s.kernel (regs, .createTask x t a kmod) k')
    (hapart : AllApart ⟨k', givenStacks s (.createTask x t a kmod)⟩) :
    StackFits s.kernel (.createTask x t a kmod) := by
  intro hkt
  obtain ⟨freeNext, level0, he⟩ := enqueueThread_eq ((s.kernel.__createTask x t a).addTask x)
    (((s.kernel.__createTask x t a).addTask x).task x).threads
  replace he : s.kernel.createTask x t a = _ := he
  have hparts : k'.task = ((s.kernel.__createTask x t a).addTask x).task ∧
      k'.taskList = x :: s.kernel.taskList ∧ k'.live = update s.kernel.live t true ∧
      k'.owner = update s.kernel.owner t x := by
    rw [hs.createTask, he]
    split <;> exact ⟨rfl, rfl, rfl, rfl⟩
  obtain ⟨htask, hlist, hlive, howner⟩ := hparts
  have hnew : k'.task x = ((s.kernel.__createTask x t a).addTask x).task x := by rw [htask]
  simp only [__createTask, addTask, Function.update_self] at hnew
  have hhas : HasThread k' x t :=
    ⟨by rw [hlive, Function.update_self], by rw [howner, Function.update_self]⟩
  have hstack : givenStacks s (.createTask x t a kmod) t = (a.stackBottom, a.stackTop) :=
    Function.update_self ..
  have hap := hapart x (by simp [hlist]) (by simp [hnew, hkt])
  have hprogram := hap.program t hhas
  have hheap := hap.heap t hhas
  simp only [hnew, hstack] at hprogram hheap
  exact ⟨hprogram, hheap⟩

/-- If the stacks are apart after the step, the new one has fitted. -/
theorem StacksOk.fits {e : Frame × KernelEvent} (h : StacksOk s) (hset : Settled s.kernel)
    (hlegal : Legal s.kernel e.2) (hs : StackStep s e s') (hapart : AllApart s') :
    StackFits s.kernel e.2 := by
  obtain ⟨regs, ev⟩ := e
  obtain ⟨k', hkernel, rfl⟩ := Option.map_eq_some_iff.mp hs
  cases ev with
  | syscall fuel call =>
    cases call with
    | createThread t entry args => exact h.fits_createThread hset hlegal hkernel hapart
    | _ => trivial
  | createTask p t a kmod => exact fits_createTask hkernel hapart
  | _ => trivial

/-! ### Runs -/

/-- Steps after which the stacks of all modules are apart. -/
def ApartStep (s : StackLog) (e : Frame × KernelEvent) (s' : StackLog) : Prop :=
  StackStep s e s' ∧ AllApart s'

/-- A module of one page at 512 MiB, like the drivers. -/
def driverParams : TaskParams :=
  { moduleParams 8 0 with
    entry := 0x20000000
    codeStart := 0x20000000
    codeEnd := 0x20001000
    heapStart := 0x20003000
    heapEnd := 0x20013000 }

theorem isModule_driverParams : IsModule driverParams :=
  ⟨[⟨true, 0x20000000, 0x1000⟩], by simp, by decide⟩

/-- The driver makes 63 threads, one for each request that it serves. -/
def requestEvents : List (Frame × KernelEvent) :=
  (fun _ => 0, .createTask 500 510 driverParams true) :: (fun _ => 0, .syscall 5 .checkIpc) ::
    (List.range 63).map fun i => (fun _ => 0, .syscall 99 (.createThread (1000 + i) 0 0))

theorem loaded_requestEvents : ∀ e ∈ requestEvents, Loaded e.2 := by
  intro e he
  simp only [requestEvents, List.mem_cons, List.mem_map] at he
  rcases he with rfl | rfl | ⟨i, -, rfl⟩
  · exact fun _ => isModule_driverParams
  · trivial
  · trivial

end Kernel

end TayHuang
