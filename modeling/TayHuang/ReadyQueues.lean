import TayHuang.KernelRuns

/-! The ready queues and the semaphores' queues over runs of the kernel: who waits
where is told by the states of the threads. -/

namespace TayHuang

open Function (update)
open LinkedCells Runs

namespace Kernel

/-- The levels that `enqueue_thread` knows. -/
def Scheduled (level : Int) : Prop := level = 0 ∨ level = 1

def Runnable (st : ThreadState) : Prop := st = .ready ∨ st = .submitted

variable {k k' : Kernel} {l : List Nat} {t : Nat} {head tail : Option Nat}
  {freeNext : Nat → Option Nat} {q : ReadyQueue}

/-! ### The two queue operations -/

theorem enqueueReady_isQueue (h : IsQueue freeNext q.head q.tail l) (ht : t ∉ l) :
    IsQueue (enqueueReady freeNext q t).1 (enqueueReady freeNext q t).2.head
      (enqueueReady freeNext q t).2.tail (l ++ [t]) := by
  unfold enqueueReady
  cases htail : q.tail with
  | none =>
    obtain rfl := h.tail_none_iff.mp htail
    exact isQueue_singleton freeNext t
  | some a =>
    rw [htail] at h
    exact h.push ht

theorem enqueueThread_queue (h : IsQueue k.freeNext k.level0.head k.level0.tail l) (ht : t ∉ l) :
    ∃ freeNext level0 l', k.enqueueThread t = { k with freeNext := freeNext, level0 := level0 } ∧
      IsQueue freeNext level0.head level0.tail l' ∧
      ∀ u, u ∈ l' ↔ u ∈ l ∨ u = t ∧ Scheduled (k.level t) := by
  have hmem : Scheduled (k.level t) → ∀ u, u ∈ l ++ [t] ↔ u ∈ l ∨ u = t ∧ Scheduled (k.level t) := by
    intro hlevel u
    simp [hlevel]
  unfold enqueueThread
  split
  · next hlevel => exact ⟨_, _, l ++ [t], rfl, enqueueReady_isQueue h ht, hmem (.inl hlevel)⟩
  · next h0 =>
    split
    · next hlevel => exact ⟨_, _, l ++ [t], rfl, enqueueReady_isQueue h ht, hmem (.inr hlevel)⟩
    · next h1 =>
      refine ⟨k.freeNext, k.level0, l, rfl, h, fun u => ⟨.inl, ?_⟩⟩
      rintro (hu | ⟨-, hlevel | hlevel⟩)
      · exact hu
      · exact absurd hlevel h0
      · exact absurd hlevel h1

theorem dequeueReady_nil (h : IsQueue freeNext q.head q.tail []) :
    dequeueReady freeNext q = none := by
  rw [dequeueReady, h.head_eq]
  rfl

theorem dequeueReady_cons (h : IsQueue freeNext q.head q.tail (t :: l)) :
    ∃ freeNext' q', dequeueReady freeNext q = some (t, freeNext', q') ∧
      IsQueue freeNext' q'.head q'.tail l := by
  have hpop := h.pop.2
  refine ⟨update freeNext t none, ⟨freeNext t, if freeNext t = none then none else q.tail⟩, ?_, hpop⟩
  rw [dequeueReady, h.head_eq]
  rfl

/-- The first thread of level 0, else the thread of the empty task. -/
theorem getNextRunThread_queue (h : IsQueue k.freeNext k.level0.head k.level0.tail l)
    (h1 : k.level1 = ⟨none, none⟩) :
    l = [] ∧ k.getNextRunThread = (k, (k.task k.emptyTask).threads) ∨
      ∃ t l' freeNext level0, l = t :: l' ∧
        k.getNextRunThread = ({ k with freeNext := freeNext, level0 := level0 }, t) ∧
        IsQueue freeNext level0.head level0.tail l' := by
  cases l with
  | nil =>
    have hnone : dequeueReady k.freeNext k.level1 = none := by rw [h1]; rfl
    refine .inl ⟨rfl, ?_⟩
    simp only [getNextRunThread, dequeueReady_nil h, hnone]
  | cons t l =>
    obtain ⟨freeNext, q, hd, hq⟩ := dequeueReady_cons h
    refine .inr ⟨t, l, freeNext, q, rfl, ?_, hq⟩
    simp only [getNextRunThread, hd]

/-! ### The invariant -/

/-- The thread of the empty task. -/
def emptyThread (k : Kernel) : Nat := (k.task k.emptyTask).threads

/-- Between two threads: `l` is the queue of level 0. Only records that are threads are
spoken of. -/
structure QueuesOk (k : Kernel) (l : List Nat) : Prop where
  schedules : k.doSchedule = true
  queue : IsQueue k.freeNext k.level0.head k.level0.tail l
  level1 : k.level1 = ⟨none, none⟩
  ready : ∀ t, t ∈ l ↔ k.live t = true ∧ Scheduled (k.level t) ∧ Runnable (k.state t)
  emptyLive : k.live k.emptyThread = true
  emptyOwner : k.owner k.emptyThread = k.emptyTask
  emptyLevel : (k.task k.emptyTask).level = -1
  emptyState : Runnable (k.state k.emptyThread) ∨ k.state k.emptyThread = .running
  owners : ∀ t, k.live t = true → k.owner t ∈ k.taskList ∨ k.owner t = k.emptyTask
  waits : ∀ id s, k.signal id = some s →
    s.waiting.Nodup ∧ ∀ t ∈ s.waiting, k.live t = true ∧ k.state t = .waiting
  apart : ∀ i j r s, k.signal i = some r → k.signal j = some s → i ≠ j →
    List.Disjoint r.waiting s.waiting

/-- The record is a thread, or has kept the state in which it was freed. -/
def Recorded (k : Kernel) (t : Nat) : Prop :=
  k.live t = true ∨ k.state t = .terminated ∨ k.state t = .exception

def HandlersOk (k : Kernel) : Prop :=
  ∀ p ∈ k.taskList, ∀ t, (k.ipc p).msgHandlerThread = some t → Recorded k t

/-- Where freed records keep their fields until they are threads again. -/
structure SchedOk (k : Kernel) (l : List Nat) : Prop extends QueuesOk k l where
  handlers : HandlersOk k

theorem HandlersOk.mono (h : HandlersOk k)
    (hsame : ∀ p ∈ k'.taskList, ∀ t, (k'.ipc p).msgHandlerThread = some t →
      p ∈ k.taskList ∧ (k.ipc p).msgHandlerThread = some t)
    (hkept : ∀ t, Recorded k t → Recorded k' t) : HandlersOk k' := fun p hp t ht =>
  hkept t (h p (hsame p hp t ht).1 t (hsame p hp t ht).2)

theorem Recorded.setState {u : Nat} (h : Recorded k u) (hlive : k.live t = true) (st : ThreadState) :
    Recorded (k.setState t st) u := by
  by_cases hu : u = t
  · exact .inl (hu ▸ hlive)
  · rwa [Recorded, setState_state_of_ne hu]

theorem QueuesOk.quiet (h : QueuesOk k l) (mem : Nat → UInt8) (registers : Nat → RegisterInfo)
    (count : Nat → Int) (irqs : Nat → Int) (msgid curId : Nat) (ipc : Nat → IpcInfo) :
    QueuesOk { k with
      mem := mem
      registers := registers
      count := count
      irqHandleTasks := irqs
      msgidCounter := msgid
      curId := curId
      ipc := ipc } l :=
  ⟨h.schedules, h.queue, h.level1, h.ready, h.emptyLive, h.emptyOwner, h.emptyLevel, h.emptyState,
    h.owners, h.waits, h.apart⟩

theorem SchedOk.quiet (h : SchedOk k l) (mem : Nat → UInt8) (registers : Nat → RegisterInfo)
    (count : Nat → Int) (irqs : Nat → Int) (msgid curId : Nat) (ipc : Nat → IpcInfo)
    (hipc : ∀ p, (ipc p).msgHandlerThread = (k.ipc p).msgHandlerThread) :
    SchedOk { k with
      mem := mem
      registers := registers
      count := count
      irqHandleTasks := irqs
      msgidCounter := msgid
      curId := curId
      ipc := ipc } l :=
  ⟨h.toQueuesOk.quiet mem registers count irqs msgid curId ipc,
    h.handlers.mono (fun p hp _ ht => ⟨hp, (hipc p).symm.trans ht⟩) fun _ hk => hk⟩

/-- A thread that was not runnable and waits for no permit is made ready. -/
theorem QueuesOk.wake (h : QueuesOk k l) (hlive : k.live t = true) (hnot : ¬ Runnable (k.state t))
    (hwait : ∀ id s, k.signal id = some s → t ∉ s.waiting) :
    ∃ l', QueuesOk ((k.setState t .ready).enqueueThread t) l' := by
  have ht : t ∉ l := fun hm => hnot ((h.ready t).mp hm).2.2
  obtain ⟨freeNext, level0, l', he, hq, hmem⟩ :=
    enqueueThread_queue (k := k.setState t .ready) (l := l) h.queue ht
  refine ⟨l', ?_⟩
  rw [he]
  refine ⟨h.schedules, hq, h.level1, ?_, h.emptyLive, h.emptyOwner, h.emptyLevel, ?_,
    h.owners, ?_, h.apart⟩
  · intro u
    rw [hmem]
    change u ∈ l ∨ u = t ∧ Scheduled (k.level t) ↔
      k.live u = true ∧ Scheduled (k.level u) ∧ Runnable ((k.setState t .ready).state u)
    by_cases hu : u = t
    · subst hu
      simp [ht, hlive, Runnable]
    · rw [setState_state_of_ne hu, h.ready u]
      simp [hu]
  · change Runnable ((k.setState t .ready).state k.emptyThread) ∨
      (k.setState t .ready).state k.emptyThread = .running
    by_cases hu : k.emptyThread = t
    · rw [hu, setState_state_self]
      exact .inl (.inl rfl)
    · rw [setState_state_of_ne hu]
      exact h.emptyState
  · intro id s hs
    refine ⟨(h.waits id s hs).1, fun u hu => ?_⟩
    have hne : u ≠ t := fun hh => hwait id s hs (hh ▸ hu)
    refine ⟨((h.waits id s hs).2 u hu).1, ?_⟩
    exact (setState_state_of_ne hne _).trans ((h.waits id s hs).2 u hu).2

theorem QueuesOk.stop (h : QueuesOk k l) (st : ThreadState) (hrun : k.state k.current = .running)
    (hst : ¬ Runnable st) (hempty : k.current ≠ k.emptyThread) :
    QueuesOk (k.setState k.current st) l := by
  refine ⟨h.schedules, h.queue, h.level1, ?_, h.emptyLive, h.emptyOwner, h.emptyLevel, ?_,
    h.owners, ?_, h.apart⟩
  · intro u
    rw [h.ready u]
    change k.live u = true ∧ Scheduled (k.level u) ∧ Runnable (k.state u) ↔
      k.live u = true ∧ Scheduled (k.level u) ∧ Runnable ((k.setState k.current st).state u)
    by_cases hu : u = k.current
    · have hnot : ¬ Runnable (k.state u) := by rw [hu, hrun]; simp [Runnable]
      rw [hu] at hnot ⊢
      simp [hnot, hst]
    · rw [setState_state_of_ne hu]
  · have he := setState_state_of_ne (k := k) (Ne.symm hempty) st
    change Runnable ((k.setState k.current st).state k.emptyThread) ∨
      (k.setState k.current st).state k.emptyThread = .running
    rw [he]
    exact h.emptyState
  · intro id s hs
    refine ⟨(h.waits id s hs).1, fun u hu => ?_⟩
    obtain ⟨hl, hstate⟩ := (h.waits id s hs).2 u hu
    have hne : u ≠ k.current := by
      rintro rfl
      simp [hrun] at hstate
    exact ⟨hl, (setState_state_of_ne hne _).trans hstate⟩

theorem SchedOk.stop (h : SchedOk k l) (st : ThreadState) (hlive : k.live k.current = true)
    (hrun : k.state k.current = .running) (hst : ¬ Runnable st) (hempty : k.current ≠ k.emptyThread) :
    SchedOk (k.setState k.current st) l :=
  ⟨h.toQueuesOk.stop st hrun hst hempty,
    h.handlers.mono (fun _ hp _ ht => ⟨hp, ht⟩) fun _ hk => hk.setState hlive st⟩

theorem QueuesOk.setSignal (h : QueuesOk k l) (id : Nat) {s : Signal Nat}
    (hnodup : s.waiting.Nodup) (hwait : ∀ t ∈ s.waiting, k.live t = true ∧ k.state t = .waiting)
    (hapart : ∀ j r, j ≠ id → k.signal j = some r → List.Disjoint s.waiting r.waiting) :
    QueuesOk (k.setSignal id s) l := by
  refine ⟨h.schedules, h.queue, h.level1, h.ready, h.emptyLive, h.emptyOwner,
    h.emptyLevel, h.emptyState, h.owners, ?_, ?_⟩
  · intro i r hr
    by_cases hi : i = id
    · rw [hi, setSignal_self] at hr
      obtain rfl := Option.some.inj hr
      exact ⟨hnodup, hwait⟩
    · rw [setSignal_of_ne hi] at hr
      exact h.waits i r hr
  · intro i j r r' hr hr' hij
    by_cases hi : i = id
    · rw [hi, setSignal_self] at hr
      obtain rfl := Option.some.inj hr
      have hj : j ≠ id := fun he => hij (hi.trans he.symm)
      rw [setSignal_of_ne hj] at hr'
      exact hapart j r' hj hr'
    · rw [setSignal_of_ne hi] at hr
      by_cases hj : j = id
      · rw [hj, setSignal_self] at hr'
        obtain rfl := Option.some.inj hr'
        exact List.disjoint_symm (hapart i r hi hr)
      · rw [setSignal_of_ne hj] at hr'
        exact h.apart i j r r' hr hr' hij

theorem QueuesOk.upSignal (h : QueuesOk k l) {id : Nat} (hup : k.__upSignal id = some k') :
    (∃ l', QueuesOk k' l') ∧ k'.current = k.current ∧ k'.live = k.live := by
  obtain ⟨s, hs, hup⟩ := Option.bind_eq_some_iff.mp hup
  obtain ⟨⟨s', woken⟩, hr, rfl⟩ := Option.map_eq_some_iff.mp hup
  obtain ⟨hnodup, hwait⟩ := h.waits id s hs
  have hrest : ∀ t ∈ s'.waiting, t ∈ s.waiting := by
    rcases upSignal_cases hr with ⟨-, hw⟩ | ⟨t, -, hw⟩
    · exact fun u hu => hw ▸ hu
    · exact fun u hu => hw ▸ List.mem_cons_of_mem t hu
  have hnodup' : s'.waiting.Nodup := by
    rcases upSignal_cases hr with ⟨-, hw⟩ | ⟨t, -, hw⟩
    · exact hw ▸ hnodup
    · exact (List.nodup_cons.mp (hw ▸ hnodup)).2
  have h1 := h.setSignal id (s := s') hnodup' (fun t ht => hwait t (hrest t ht))
    (fun j r hj hr u hu => h.apart id j s r hs hr (Ne.symm hj) (hrest u hu))
  rcases upSignal_cases hr with ⟨rfl, -⟩ | ⟨t, rfl, hw⟩
  · exact ⟨⟨l, h1⟩, rfl, rfl⟩
  · have ht : t ∈ s.waiting := by rw [hw]; exact List.mem_cons_self ..
    obtain ⟨hlive, hstate⟩ := hwait t ht
    have hnot : ¬ Runnable (k.state t) := by rw [hstate]; simp [Runnable]
    refine ⟨h1.wake hlive hnot ?_, enqueueThread_current .., enqueueThread_live ..⟩
    · intro i r hi
      by_cases he : i = id
      · rw [he, setSignal_self] at hi
        obtain rfl := Option.some.inj hi
        exact (List.nodup_cons.mp (hw ▸ hnodup)).1
      · rw [setSignal_of_ne he] at hi
        exact h.apart id i s r hs hi (Ne.symm he) ht

theorem QueuesOk.downSignal (h : QueuesOk k l) {id : Nat} (hlive : k.live k.current = true)
    (hrun : k.state k.current = .running)
    (hempty : k.current ≠ k.emptyThread) (hdown : k.__downSignal id = some k') :
    QueuesOk k' l ∧ k'.current = k.current ∧ k'.live = k.live := by
  obtain ⟨s, hs, rfl⟩ := Option.map_eq_some_iff.mp hdown
  obtain ⟨hnodup, hwait⟩ := h.waits id s hs
  have hnotin : ∀ j r, k.signal j = some r → k.current ∉ r.waiting := by
    intro j r hr hm
    have hstate := ((h.waits j r hr).2 _ hm).2
    simp [hrun] at hstate
  simp only
  rcases downSignal_cases s k.current with ⟨hb, hw⟩ | ⟨hb, hw⟩
  · rw [hb]
    refine ⟨h.setSignal id (hw ▸ hnodup) (hw ▸ hwait) ?_, rfl, rfl⟩
    exact fun j r hj hr => hw ▸ h.apart id j s r hs hr (Ne.symm hj)
  · rw [hb]
    have hstop := h.stop .waiting hrun (by simp [Runnable]) hempty
    refine ⟨hstop.setSignal id (s := (TayHuang.downSignal s k.current).1) ?_ ?_ ?_, rfl, rfl⟩
    · rw [hw]
      exact List.nodup_append'.mpr ⟨hnodup, List.nodup_singleton _,
        List.disjoint_singleton.mpr (hnotin id s hs)⟩
    · intro u hu
      rw [hw] at hu
      rcases List.mem_append.mp hu with hu | hu
      · exact (hstop.waits id s hs).2 u hu
      · rw [List.mem_singleton.mp hu]
        exact ⟨hlive, setState_state_self ..⟩
    · intro j r hj hr
      rw [hw]
      refine List.disjoint_append_left.mpr ⟨h.apart id j s r hs hr (Ne.symm hj), ?_⟩
      exact List.singleton_disjoint.mpr (hnotin j r hr)

end Kernel

end TayHuang
