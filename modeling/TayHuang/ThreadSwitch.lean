import TayHuang.KernelFrames
import TayHuang.ReadyQueues

/-! New threads, and the switch from one thread to the next. -/

namespace TayHuang

open Function (update)
open LinkedCells

namespace Kernel

variable {k k' : Kernel} {l : List Nat} {t : Nat}

/-- The record `t` became a thread, not queued yet. -/
structure Spawned (k k' : Kernel) (t : Nat) : Prop where
  fresh : k.live t = false
  live : k'.live = update k.live t true
  state : k'.state = update k.state t .submitted
  doSchedule : k'.doSchedule = k.doSchedule
  level0 : k'.level0 = k.level0
  level1 : k'.level1 = k.level1
  emptyTask : k'.emptyTask = k.emptyTask
  signal : k'.signal = k.signal
  freeNext : ∀ u, u ≠ t → k'.freeNext u = k.freeNext u
  owner : ∀ u, u ≠ t → k'.owner u = k.owner u
  level : ∀ u, k.live u = true → k'.level u = k.level u
  empty : (k'.task k.emptyTask).threads = (k.task k.emptyTask).threads ∧
    (k'.task k.emptyTask).level = (k.task k.emptyTask).level
  tasks : ∀ p ∈ k.taskList, p ∈ k'.taskList
  mine : k'.owner t ∈ k'.taskList ∨ k'.owner t = k.emptyTask
  handlers : ∀ p ∈ k'.taskList, ∀ h, (k'.ipc p).msgHandlerThread = some h →
    p ∈ k.taskList ∧ (k.ipc p).msgHandlerThread = some h

theorem Spawned.live_of (h : Spawned k k' t) {u : Nat} (hu : k.live u = true) :
    k'.live u = true ∧ u ≠ t ∧ k'.state u = k.state u := by
  have hne : u ≠ t := by
    rintro rfl
    simp [h.fresh] at hu
  rw [h.live, h.state, Function.update_of_ne hne, Function.update_of_ne hne]
  exact ⟨hu, hne, rfl⟩

theorem QueuesOk.spawn (h : QueuesOk k l) (hs : Spawned k k' t) :
    ∃ l', QueuesOk (k'.enqueueThread t) l' := by
  have ht : t ∉ l := fun hm => by
    have hlive := ((h.ready t).mp hm).1
    simp [hs.fresh] at hlive
  have hqueue : IsQueue k'.freeNext k'.level0.head k'.level0.tail l := by
    rw [hs.level0]
    exact h.queue.congr fun u hu => hs.freeNext u fun he => ht (he ▸ hu)
  obtain ⟨freeNext, level0, l', he, hq, hmem⟩ := enqueueThread_queue hqueue ht
  have hempty : k'.emptyThread = k.emptyThread := by
    rw [emptyThread, hs.emptyTask, hs.empty.1, emptyThread]
  obtain ⟨hemptyLive, hemptyNe, hemptyState⟩ := hs.live_of h.emptyLive
  refine ⟨l', ?_⟩
  rw [he]
  refine ⟨hs.doSchedule.trans h.schedules, hq, hs.level1.trans h.level1, ?_, ?_, ?_, ?_, ?_, ?_, ?_,
    ?_⟩
  · intro u
    rw [hmem]
    change u ∈ l ∨ u = t ∧ Scheduled (k'.level t) ↔
      k'.live u = true ∧ Scheduled (k'.level u) ∧ Runnable (k'.state u)
    by_cases hu : u = t
    · rw [hu, hs.live, hs.state, Function.update_self, Function.update_self]
      simp [ht, Runnable]
    · have hlive : k'.live u = k.live u := by rw [hs.live, Function.update_of_ne hu]
      have hstate : k'.state u = k.state u := by rw [hs.state, Function.update_of_ne hu]
      rw [h.ready u, hlive, hstate]
      constructor
      · rintro (⟨h1, h2, h3⟩ | ⟨h1, -⟩)
        · exact ⟨h1, (hs.level u h1).symm ▸ h2, h3⟩
        · exact absurd h1 hu
      · rintro ⟨h1, h2, h3⟩
        exact .inl ⟨h1, hs.level u h1 ▸ h2, h3⟩
  · change k'.live k'.emptyThread = true
    rw [hempty]
    exact hemptyLive
  · change k'.owner k'.emptyThread = k'.emptyTask
    rw [hempty, hs.emptyTask, hs.owner _ hemptyNe]
    exact h.emptyOwner
  · change (k'.task k'.emptyTask).level = -1
    rw [hs.emptyTask, hs.empty.2]
    exact h.emptyLevel
  · change Runnable (k'.state k'.emptyThread) ∨ k'.state k'.emptyThread = .running
    rw [hempty, hemptyState]
    exact h.emptyState
  · intro u (hu : k'.live u = true)
    change k'.owner u ∈ k'.taskList ∨ k'.owner u = k'.emptyTask
    rw [hs.emptyTask]
    by_cases hut : u = t
    · rw [hut]
      exact hs.mine
    · rw [hs.live, Function.update_of_ne hut] at hu
      rw [hs.owner u hut]
      exact (h.owners u hu).imp_left (hs.tasks _)
  · intro id s (hid : k'.signal id = some s)
    rw [hs.signal] at hid
    refine ⟨(h.waits id s hid).1, fun u hu => ?_⟩
    obtain ⟨hlive, hstate⟩ := (h.waits id s hid).2 u hu
    obtain ⟨hlive', -, hstate'⟩ := hs.live_of hlive
    exact ⟨hlive', hstate'.trans hstate⟩
  · intro i j r s (hi : k'.signal i = some r) (hj : k'.signal j = some s)
    rw [hs.signal] at hi hj
    exact h.apart i j r s hi hj

theorem HandlersOk.spawn (h : HandlersOk k) (hs : Spawned k k' t) :
    HandlersOk (k'.enqueueThread t) := by
  obtain ⟨freeNext, level0, he⟩ := enqueueThread_eq k' t
  rw [he]
  refine h.mono hs.handlers fun u hu => ?_
  change k'.live u = true ∨ k'.state u = .terminated ∨ k'.state u = .exception
  by_cases hut : u = t
  · exact .inl (by rw [hut, hs.live, Function.update_self])
  · rw [hs.live, hs.state, Function.update_of_ne hut, Function.update_of_ne hut]
    exact hu

theorem createThread_spawned {fuel p : Nat} {entry : UInt64} (hfresh : k.live t = false)
    (hp : p ∈ k.taskList ∨ p = k.emptyTask)
    (hk : k.__createThread__ fuel t entry p = some k') :
    ∃ parent, Spawned k ((k.spawnThread t entry p).linkThread parent t) t ∧
      k' = ((k.spawnThread t entry p).linkThread parent t).enqueueThread t := by
  obtain ⟨parent, -, rfl⟩ := createThread_eq hk
  have hlevel : ∀ q, ((k.spawnThread t entry p).task q).level = (k.task q).level ∧
      ((k.spawnThread t entry p).task q).threads = (k.task q).threads := by
    intro q
    obtain ⟨curTid, stackBottom, he⟩ := spawnThread_task k t entry p q
    rw [he]
    exact ⟨rfl, rfl⟩
  refine ⟨parent, ⟨hfresh, rfl, rfl, rfl, rfl, rfl, rfl, rfl,
    fun u hu => Function.update_of_ne hu .., fun u hu => Function.update_of_ne hu .., ?_,
    ⟨(hlevel _).2, (hlevel _).1⟩, fun _ hq => hq, ?_, fun q hq h hh => ⟨hq, hh⟩⟩, rfl⟩
  · intro u hu
    have hne : u ≠ t := by
      rintro rfl
      simp [hfresh] at hu
    have howner : (k.spawnThread t entry p).owner u = k.owner u := Function.update_of_ne hne ..
    change ((k.spawnThread t entry p).task ((k.spawnThread t entry p).owner u)).level = k.level u
    rw [howner, (hlevel _).1, level]
  · have howner : (k.spawnThread t entry p).owner t = p := Function.update_self ..
    change (k.spawnThread t entry p).owner t ∈ k.taskList ∨
      (k.spawnThread t entry p).owner t = k.emptyTask
    rw [howner]
    exact hp

theorem createTask_spawned {p : Nat} {a : TaskParams} (h : QueuesOk k l) (hfresh : k.live t = false)
    (hp : p ∉ k.taskList) (hempty : p ≠ k.emptyTask) :
    Spawned k ((k.__createTask p t a).addTask p) t ∧
      k.createTask p t a = ((k.__createTask p t a).addTask p).enqueueThread t := by
  have hother : ∀ q, q ≠ p → ((k.__createTask p t a).addTask p).task q = k.task q ∧
      ((k.__createTask p t a).addTask p).ipc q = k.ipc q := by
    intro q hq
    simp [__createTask, createThreadInfo, addTask, hq]
  have hthreads : (((k.__createTask p t a).addTask p).task p).threads = t := by
    simp [__createTask, addTask]
  refine ⟨⟨hfresh, rfl, rfl, rfl, rfl, rfl, rfl, rfl,
    fun u hu => Function.update_of_ne hu .., fun u hu => Function.update_of_ne hu .., ?_, ?_,
    fun _ hq => List.mem_cons_of_mem p hq, ?_, ?_⟩, ?_⟩
  · intro u hu
    have hne : u ≠ t := by
      rintro rfl
      simp [hfresh] at hu
    have howner : ((k.__createTask p t a).addTask p).owner u = k.owner u :=
      Function.update_of_ne hne ..
    have hup : k.owner u ≠ p := by
      rintro rfl
      rcases h.owners u hu with hm | hm
      · exact hp hm
      · exact hempty hm
    rw [level, howner, (hother _ hup).1, level]
  · rw [(hother _ (Ne.symm hempty)).1]
    exact ⟨rfl, rfl⟩
  · left
    have howner : ((k.__createTask p t a).addTask p).owner t = p := Function.update_self ..
    rw [howner]
    exact List.mem_cons_self ..
  · intro q hq u hu
    by_cases hqp : q = p
    · subst hqp
      simp [__createTask, addTask, initIpcInfo] at hu
    · rw [(hother q hqp).2] at hu
      exact ⟨List.mem_of_ne_of_mem hqp hq, hu⟩
  · rw [createTask, hthreads]

/-! ### The switch -/

/-- The thread `u` leaves the queue, if it was in it, and runs. -/
theorem QueuesOk.resume (h : QueuesOk k l) {l' : List Nat} {freeNext : Nat → Option Nat}
    {level0 : ReadyQueue} {u : Nat} (hq : IsQueue freeNext level0.head level0.tail l')
    (hl : ∀ v, v ∈ l' ↔ v ∈ l ∧ v ≠ u) (hwait : k.state u ≠ .waiting) :
    QueuesOk (({ k with freeNext := freeNext, level0 := level0 } : Kernel).resumed u) l' := by
  refine ⟨h.schedules, hq, h.level1, ?_, h.emptyLive, h.emptyOwner, h.emptyLevel, ?_, h.owners, ?_,
    h.apart⟩
  · intro v
    rw [hl, h.ready]
    change _ ↔ k.live v = true ∧ Scheduled (k.level v) ∧ Runnable ((k.setState u .running).state v)
    by_cases hv : v = u
    · subst hv
      simp [Runnable]
    · rw [setState_state_of_ne hv]
      simp [hv]
  · change Runnable ((k.setState u .running).state k.emptyThread) ∨
      (k.setState u .running).state k.emptyThread = .running
    by_cases hu : k.emptyThread = u
    · rw [hu, setState_state_self]
      exact .inr rfl
    · rw [setState_state_of_ne hu]
      exact h.emptyState
  · intro id s hs
    refine ⟨(h.waits id s hs).1, fun v hv => ?_⟩
    obtain ⟨hl, hstate⟩ := (h.waits id s hs).2 v hv
    have hne : v ≠ u := by
      rintro rfl
      exact hwait hstate
    exact ⟨hl, (setState_state_of_ne (k := k) hne .running).trans hstate⟩

theorem QueuesOk.remove (h : QueuesOk k l)
    (hdead : k.state t = .terminated ∨ k.state t = .exception) : QueuesOk (k.removeThread t) l := by
  obtain ⟨next, last, he⟩ := removeThread_eq k t
  have hne : ∀ u, k.state u ≠ .terminated → k.state u ≠ .exception →
      update k.live t false u = k.live u := by
    intro u h1 h2
    refine Function.update_of_ne ?_ ..
    rintro rfl
    rcases hdead with hd | hd
    · exact h1 hd
    · exact h2 hd
  rw [he]
  refine ⟨h.schedules, h.queue, h.level1, ?_, ?_, h.emptyOwner, h.emptyLevel, h.emptyState, ?_, ?_,
    h.apart⟩
  · intro u
    rw [h.ready u]
    change _ ↔ update k.live t false u = true ∧ Scheduled (k.level u) ∧ Runnable (k.state u)
    by_cases hu : Runnable (k.state u)
    · rcases hu with hu | hu
      · rw [hne u (by simp [hu]) (by simp [hu])]
      · rw [hne u (by simp [hu]) (by simp [hu])]
    · simp [hu]
  · change update k.live t false k.emptyThread = true
    rw [hne]
    · exact h.emptyLive
    all_goals
      intro hd
      have hs := h.emptyState
      rw [hd] at hs
      simp [Runnable] at hs
  · intro u (hu : update k.live t false u = true)
    by_cases hut : u = t
    · rw [hut, Function.update_self] at hu
      simp at hu
    · rw [Function.update_of_ne hut] at hu
      exact h.owners u hu
  · intro id s hs
    refine ⟨(h.waits id s hs).1, fun u hu => ?_⟩
    obtain ⟨hl, hstate⟩ := (h.waits id s hs).2 u hu
    exact ⟨(hne u (by simp [hstate]) (by simp [hstate])).trans hl, hstate⟩

theorem QueuesOk.saved (h : QueuesOk k l) (regs : Frame) : QueuesOk (k.saved regs) l :=
  h.quiet ..

theorem QueuesOk.down (h : QueuesOk k l) (regs : Frame) (hlive : k.live k.current = true) :
    ∃ l', QueuesOk (k.downThread regs) l' := by
  rcases downThread_cases k regs with ⟨hrun, he⟩ | ⟨hdead, he⟩ | ⟨-, he⟩
  · rw [he]
    refine (h.saved regs).wake hlive ?_ ?_
    · change ¬ Runnable (k.state k.current)
      rw [hrun]
      simp [Runnable]
    · intro id s hs hm
      have hstate := ((h.waits id s hs).2 _ hm).2
      rw [hrun] at hstate
      simp at hstate
  · rw [he]
    exact ⟨l, (h.saved regs).remove hdead⟩
  · rw [he]
    exact ⟨l, h.saved regs⟩

theorem QueuesOk.doSwitch (h : QueuesOk k l) (regs : Frame) (hlive : k.live k.current = true) :
    ∃ l', QueuesOk (k.doSwitch regs).1 l' ∧
      (k.doSwitch regs).1.live (k.doSwitch regs).1.current = true ∧
      (k.doSwitch regs).1.state (k.doSwitch regs).1.current = .running := by
  obtain ⟨l1, h1⟩ := h.down regs hlive
  obtain ⟨count, he⟩ := doSwitch_eq k regs
  rw [he]
  rcases getNextRunThread_queue h1.queue h1.level1 with ⟨rfl, hg⟩ | ⟨t, l2, freeNext, level0, rfl, hg, hq⟩
  · rw [hg]
    have hwait : (k.downThread regs).state (k.downThread regs).emptyThread ≠ .waiting := by
      intro hw
      have hs := h1.emptyState
      rw [hw] at hs
      simp [Runnable] at hs
    have hh := h1.resume (u := (k.downThread regs).emptyThread) h1.queue (by simp) hwait
    exact ⟨[], hh.quiet _ _ count _ _ _ _, h1.emptyLive, setState_state_self ..⟩
  · rw [hg]
    obtain ⟨htlive, -, hrun⟩ := (h1.ready t).mp (List.mem_cons_self ..)
    have hwait : (k.downThread regs).state t ≠ .waiting := by
      intro hw
      rw [hw] at hrun
      simp [Runnable] at hrun
    have hnodup := List.nodup_cons.mp h1.queue.nodup
    have hl : ∀ v, v ∈ l2 ↔ v ∈ t :: l2 ∧ v ≠ t := by
      intro v
      constructor
      · exact fun hv => ⟨List.mem_cons_of_mem t hv, fun he => hnodup.1 (he ▸ hv)⟩
      · rintro ⟨hv, hne⟩
        exact List.mem_of_ne_of_mem hne hv
    have hh := h1.resume hq hl hwait
    exact ⟨l2, hh.quiet _ _ count _ _ _ _, htlive, setState_state_self ..⟩

/-- The switch writes to records that are threads, and frees one that has ended. -/
theorem HandlersOk.doSwitch (h : HandlersOk k) (hqueues : QueuesOk k l) (regs : Frame)
    (hlive : k.live k.current = true) : HandlersOk (k.doSwitch regs).1 := by
  obtain ⟨l1, h1⟩ := hqueues.down regs hlive
  have hdown : HandlersOk (k.downThread regs) := by
    rcases downThread_cases k regs with ⟨-, he⟩ | ⟨hdead, he⟩ | ⟨-, he⟩
    · obtain ⟨freeNext, level0, hq⟩ :=
        enqueueThread_eq ((k.saved regs).setState k.current .ready) k.current
      rw [he, hq]
      exact h.mono (fun _ hp _ ht => ⟨hp, ht⟩) fun _ hu => Recorded.setState (k := k) hu hlive .ready
    · obtain ⟨next, last, hr⟩ := removeThread_eq (k.saved regs) k.current
      rw [he, hr]
      refine h.mono (fun _ hp _ ht => ⟨hp, ht⟩) fun u hu => ?_
      change update k.live k.current false u = true ∨ k.state u = .terminated ∨ k.state u = .exception
      by_cases hut : u = k.current
      · exact .inr (hut ▸ hdead)
      · rw [Function.update_of_ne hut]
        exact hu
    · rw [he]
      exact h
  obtain ⟨count, he⟩ := doSwitch_eq k regs
  rw [he]
  rcases getNextRunThread_queue h1.queue h1.level1 with ⟨-, hg⟩ | ⟨t, l2, freeNext, level0, rfl, hg, -⟩
  · rw [hg]
    exact hdown.mono (fun _ hp _ ht => ⟨hp, ht⟩) fun _ hu =>
      Recorded.setState (k := k.downThread regs) hu h1.emptyLive .running
  · rw [hg]
    exact hdown.mono (fun _ hp _ ht => ⟨hp, ht⟩) fun _ hu =>
      Recorded.setState (k := k.downThread regs) hu ((h1.ready t).mp (List.mem_cons_self ..)).1 .running

theorem SchedOk.doSwitch (h : SchedOk k l) (regs : Frame) (hlive : k.live k.current = true) :
    ∃ l', SchedOk (k.doSwitch regs).1 l' ∧
      (k.doSwitch regs).1.live (k.doSwitch regs).1.current = true ∧
      (k.doSwitch regs).1.state (k.doSwitch regs).1.current = .running := by
  obtain ⟨l', hqueues, hnext⟩ := h.toQueuesOk.doSwitch regs hlive
  exact ⟨l', ⟨hqueues, h.handlers.doSwitch h.toQueuesOk regs hlive⟩, hnext⟩

end Kernel

end TayHuang
