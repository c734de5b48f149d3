import TayHuang.ReadyRuns

/-! A freed thread record is memory that `kmalloc` gives to others. The ready queues do
not depend on what is put there, as long as no pointer to it is followed. -/

namespace TayHuang

open LinkedCells Runs

namespace Kernel

variable {k k' : Kernel} {l : List Nat} {t : Nat}

/-- The records that an event comes to through the pointers of a task are threads. -/
def KeepsOff (k : Kernel) (e : KernelEvent) : Prop :=
  (∀ t ∈ k.woken e, k.live t = true) ∧ ∀ t ∈ k.listed e, k.live t = true

instance (k : Kernel) (e : KernelEvent) : Decidable (KeepsOff k e) := by
  unfold KeepsOff
  infer_instance

theorem KeepsOff.wakes {e : KernelEvent} (h : KeepsOff k e) : WakesThread k e := fun t ht _ =>
  h.1 t ht

/-- Freed records hold what they hold in `junk`. -/
def overwritten (k junk : Kernel) : Kernel :=
  { k with
    state := fun t => if k.live t then k.state t else junk.state t
    next := fun t => if k.live t then k.next t else junk.next t
    last := fun t => if k.live t then k.last t else junk.last t
    freeNext := fun t => if k.live t then k.freeNext t else junk.freeNext t
    owner := fun t => if k.live t then k.owner t else junk.owner t
    count := fun t => if k.live t then k.count t else junk.count t
    priority := fun t => if k.live t then k.priority t else junk.priority t
    tid := fun t => if k.live t then k.tid t else junk.tid t
    registers := fun t => if k.live t then k.registers t else junk.registers t }

theorem overwritten_self (k : Kernel) : k.overwritten k = k := by
  simp only [overwritten, ite_self]

variable {junk : Kernel}

theorem overwritten_state (ht : k.live t = true) : (k.overwritten junk).state t = k.state t :=
  if_pos ht

theorem overwritten_owner (ht : k.live t = true) : (k.overwritten junk).owner t = k.owner t :=
  if_pos ht

theorem overwritten_freeNext (ht : k.live t = true) :
    (k.overwritten junk).freeNext t = k.freeNext t :=
  if_pos ht

theorem overwritten_level (ht : k.live t = true) : (k.overwritten junk).level t = k.level t := by
  rw [level, overwritten_owner ht]
  rfl

/-- An event, after which whoever owns the freed records has written to them. -/
def ReusedStep (k : Kernel) (e : Frame × KernelEvent) (k' : Kernel) : Prop :=
  ∃ k1 junk, Step k e k1 ∧ k' = k1.overwritten junk

theorem Step.reused {e : Frame × KernelEvent} (h : Step k e k') : ReusedStep k e k' :=
  ⟨k', k', h, (overwritten_self k').symm⟩

theorem QueuesOk.overwritten (h : QueuesOk k l) : QueuesOk (k.overwritten junk) l := by
  refine ⟨h.schedules, ?_, h.level1, fun t => ?_, h.emptyLive, ?_, h.emptyLevel, ?_, fun t ht => ?_,
    fun id s hs => ?_, h.apart⟩
  · exact h.queue.congr fun u hu => overwritten_freeNext ((h.ready u).mp hu).1
  · rw [h.ready t]
    constructor
    · rintro ⟨hl, hlevel, hrun⟩
      refine ⟨hl, ?_, ?_⟩
      · rwa [overwritten_level hl]
      · rwa [overwritten_state hl]
    · rintro ⟨hl, hlevel, hrun⟩
      have hl' : k.live t = true := hl
      rw [overwritten_level hl'] at hlevel
      rw [overwritten_state hl'] at hrun
      exact ⟨hl', hlevel, hrun⟩
  · exact (overwritten_owner h.emptyLive).trans h.emptyOwner
  · have he : (k.overwritten junk).state k.emptyThread = k.state k.emptyThread :=
      overwritten_state h.emptyLive
    change Runnable ((k.overwritten junk).state k.emptyThread) ∨
      (k.overwritten junk).state k.emptyThread = .running
    rw [he]
    exact h.emptyState
  · have hl : k.live t = true := ht
    rw [overwritten_owner hl]
    exact h.owners t hl
  · refine ⟨(h.waits id s hs).1, fun t ht => ?_⟩
    obtain ⟨hl, hstate⟩ := (h.waits id s hs).2 t ht
    exact ⟨hl, (overwritten_state hl).trans hstate⟩

theorem Turning.overwritten (h : Turning k) : Turning (k.overwritten junk) := by
  obtain ⟨l, hqueues, hlive, hrun⟩ := h
  exact ⟨l, hqueues.overwritten, hlive, (overwritten_state hlive).trans hrun⟩

theorem Turning.reused {e : Frame × KernelEvent} (h : Turning k) (hlegal : Legal k e.2)
    (hoff : KeepsOff k e.2) (hs : ReusedStep k e k') : Turning k' := by
  obtain ⟨k1, junk, hs, rfl⟩ := hs
  exact (h.step hlegal hoff.wakes hs).overwritten

/-- Legal events that keep off the freed records. -/
abbrev SafeStep : Kernel → Frame × KernelEvent → Kernel → Prop :=
  Guarded (fun k e => Legal k e.2 ∧ KeepsOff k e.2) ReusedStep

theorem Turning.run {es : List (Frame × KernelEvent)} (h : Run Started SafeStep es k) : Turning k :=
  h.invariant (I := fun _ k => Turning k) (fun _ h0 => (Settled.start h0).turning)
    fun _ _ _ _ hk hstep => hk.reused hstep.1.1 hstep.1.2 hstep.2

/-- The two ready queues hold the threads that can run, each once. -/
def Conserves (k : Kernel) : Prop :=
  ∃ l0 l1, IsQueue k.freeNext k.level0.head k.level0.tail l0 ∧
    IsQueue k.freeNext k.level1.head k.level1.tail l1 ∧ (l0 ++ l1).Nodup ∧
    k.emptyThread ∉ l0 ++ l1 ∧
    ∀ t, t ∈ l0 ++ l1 ↔
      k.live t = true ∧ Scheduled (k.level t) ∧ Runnable (k.state t) ∧ t ≠ k.current

theorem Turning.conserves (h : Turning k) : Conserves k := by
  obtain ⟨l, h, -, hrun⟩ := h
  refine ⟨l, [], h.queue, ?_, ?_, ?_, fun t => ?_⟩
  · rw [h.level1]
    exact isQueue_nil
  · rw [List.append_nil]
    exact h.queue.nodup
  · rw [List.append_nil, h.ready]
    rintro ⟨-, hlevel, -⟩
    rw [level, h.emptyOwner, h.emptyLevel] at hlevel
    simp [Scheduled] at hlevel
  · rw [List.append_nil, h.ready]
    constructor
    · rintro ⟨h1, h2, h3⟩
      refine ⟨h1, h2, h3, ?_⟩
      rintro rfl
      rw [hrun] at h3
      simp [Runnable] at h3
    · rintro ⟨h1, h2, h3, -⟩
      exact ⟨h1, h2, h3⟩

/-- Whatever happens, in whatever order, no thread is lost or queued twice. -/
theorem ready_queues_conserve {es : List (Frame × KernelEvent)} (h : Run Started SafeStep es k) :
    Conserves k :=
  (Turning.run h).conserves

/-- Legal events that keep off the freed records, after `start_schedule`. -/
def safeRun (es : List (Frame × KernelEvent)) : Option Kernel :=
  es.foldlM (fun k e => if Legal k e.2 ∧ KeepsOff k e.2 then k.step e else none) blankBoot

theorem run_of_safeRun {es : List (Frame × KernelEvent)} (h : safeRun es = some k) :
    Run Started SafeStep es k :=
  (Run.ofGuardedFold es started_blankBoot h).mono fun _ _ _ hs => ⟨hs.1, Step.reused hs.2⟩

/-- `init` makes a thread and a task, the thread ends, `init` gets a message, and the
record of the thread then says that it waits. -/
theorem ready_queues_conserve_two : ∃ k : Kernel, k.live 220 = false ∧ k.state 220 = .waitingIpc ∧
    k.state 410 = .submitted ∧ Conserves k := by
  let es : List (Frame × KernelEvent) :=
    [(fun _ => 0, .syscall 5 (.createThread 220 0 0)), (fun _ => 0, .switch),
      (fun _ => 0, .createTask 400 410 (moduleParams 7 0) true),
      (fun _ => 0, .syscall 5 .exitThread), (fun _ => 0, .syscall 5 (.setAllow (-1)))]
  let e : Frame × KernelEvent := (fun _ => 0, .syscall 5 (.sendMsg ⟨0, 0⟩ 0 0 4 1))
  let k := (safeRun es).get (by decide +kernel)
  have hk : safeRun es = some k := (Option.some_get _).symm
  have hsafe : Legal k e.2 ∧ KeepsOff k e.2 := by decide +kernel
  let k' := (k.step e).get (by decide +kernel)
  have hk' : k.step e = some k' := (Option.some_get _).symm
  have hfree : k'.live 220 = false := by decide +kernel
  have hstate : k'.live 410 = true ∧ k'.state 410 = .submitted := by decide +kernel
  clear_value k' k es e
  let junk : Kernel := { blank with state := fun _ => .waitingIpc }
  refine ⟨k'.overwritten junk, hfree, if_neg ?_, (overwritten_state hstate.1).trans hstate.2,
    ready_queues_conserve (.snoc (run_of_safeRun hk) ⟨hsafe, k', junk, hk', rfl⟩)⟩
  rw [hfree]
  exact Bool.false_ne_true

end Kernel

end TayHuang
