import TayHuang.DoublyLinked
import TayHuang.FreedRecords

/-! An event that keeps off the freed records writes to threads and to the record that
it takes from `kmalloc`, and nowhere else. -/

namespace TayHuang

open Function (update)
open LinkedCells Runs

namespace Kernel

variable {k k' k'' : Kernel} {l : List Nat} {t p : Nat} {new : Option Nat}

/-- The record holds the same. -/
structure SameRecord (k k' : Kernel) (t : Nat) : Prop where
  state : k'.state t = k.state t
  next : k'.next t = k.next t
  last : k'.last t = k.last t
  freeNext : k'.freeNext t = k.freeNext t
  owner : k'.owner t = k.owner t
  count : k'.count t = k.count t
  priority : k'.priority t = k.priority t
  tid : k'.tid t = k.tid t
  registers : k'.registers t = k.registers t

theorem SameRecord.trans (h : SameRecord k k' t) (h' : SameRecord k' k'' t) : SameRecord k k'' t :=
  ⟨h'.state.trans h.state, h'.next.trans h.next, h'.last.trans h.last, h'.freeNext.trans h.freeNext,
    h'.owner.trans h.owner, h'.count.trans h.count, h'.priority.trans h.priority,
    h'.tid.trans h.tid, h'.registers.trans h.registers⟩

/-- Freed records hold the same, but for the one that a new thread is put into. -/
structure LeavesFreed (new : Option Nat) (k k' : Kernel) : Prop where
  record : ∀ t, k.live t = false → new ≠ some t → k'.live t = false ∧ SameRecord k k' t

theorem LeavesFreed.trans (h : LeavesFreed new k k') (h' : LeavesFreed new k' k'') : LeavesFreed new k k'' := by
  refine ⟨fun t ht hne => ?_⟩
  obtain ⟨hlive, hsame⟩ := h.record t ht hne
  obtain ⟨hlive', hsame'⟩ := h'.record t hlive hne
  exact ⟨hlive', hsame.trans hsame'⟩

/-- The record is a thread or will be one. -/
def Owned (new : Option Nat) (k : Kernel) (t : Nat) : Prop := k.live t = true ∨ new = some t

theorem Owned.ne {u : Nat} (h : Owned new k u) (hfree : k.live t = false) (hne : new ≠ some t) :
    t ≠ u := by
  rintro rfl
  rcases h with h | h
  · simp [hfree] at h
  · exact hne h

/-- Nothing of the records is written. -/
theorem LeavesFreed.quiet (k : Kernel) (mem : Nat → UInt8) (level0 level1 : ReadyQueue)
    (signal : Nat → Option (Signal Nat)) (irqs : Nat → Int) (msgid curId current : Nat)
    (ipc : Nat → IpcInfo) (task : Nat → TaskInfo) (taskList : List Nat) :
    LeavesFreed new k { k with
      mem := mem
      level0 := level0
      level1 := level1
      signal := signal
      irqHandleTasks := irqs
      msgidCounter := msgid
      curId := curId
      current := current
      ipc := ipc
      task := task
      taskList := taskList } :=
  ⟨fun _ ht _ => ⟨ht, rfl, rfl, rfl, rfl, rfl, rfl, rfl, rfl, rfl⟩⟩

theorem LeavesFreed.setState (ht : Owned new k t) (st : ThreadState) : LeavesFreed new k (k.setState t st) :=
  ⟨fun _ hu hne =>
    ⟨hu, Function.update_of_ne (ht.ne hu hne) .., rfl, rfl, rfl, rfl, rfl, rfl, rfl, rfl⟩⟩

theorem LeavesFreed.setRegisters (ht : Owned new k t) (r : RegisterInfo) :
    LeavesFreed new k { k with registers := update k.registers t r } :=
  ⟨fun _ hu hne =>
    ⟨hu, rfl, rfl, rfl, rfl, rfl, rfl, rfl, rfl, Function.update_of_ne (ht.ne hu hne) ..⟩⟩

theorem LeavesFreed.setCount (ht : Owned new k t) (c : Int) :
    LeavesFreed new k { k with count := update k.count t c } :=
  ⟨fun _ hu hne =>
    ⟨hu, rfl, rfl, rfl, rfl, rfl, Function.update_of_ne (ht.ne hu hne) .., rfl, rfl, rfl⟩⟩

/-- The queues are linked through the records of threads. -/
theorem LeavesFreed.linked {freeNext : Nat → Option Nat}
    (h : ∀ u, k.live u = false → new ≠ some u → freeNext u = k.freeNext u)
    (level0 level1 : ReadyQueue) :
    LeavesFreed new k { k with
      freeNext := freeNext
      level0 := level0
      level1 := level1 } :=
  ⟨fun u hu hne => ⟨hu, rfl, rfl, rfl, h u hu hne, rfl, rfl, rfl, rfl, rfl⟩⟩

theorem LeavesFreed.enqueue (ht : Owned new k t) (htail : ∀ a ∈ k.level0.tail, Owned new k a) :
    LeavesFreed new k (k.enqueueThread t) := by
  have henq : LeavesFreed new k (k.enqueueLevel0Thread t) := by
    refine LeavesFreed.linked (fun u hu hne => ?_) _ k.level1
    have hself : update k.freeNext t none u = k.freeNext u :=
      Function.update_of_ne (ht.ne hu hne) ..
    unfold enqueueReady
    split
    · exact hself
    · next a hq => exact (Function.update_of_ne ((htail a hq).ne hu hne) ..).trans hself
  unfold enqueueThread
  split
  · exact henq
  · split
    · exact henq
    · exact ⟨fun _ hu _ => ⟨hu, rfl, rfl, rfl, rfl, rfl, rfl, rfl, rfl, rfl⟩⟩

theorem QueuesOk.tail_live (h : QueuesOk k l) {a : Nat} (ha : a ∈ k.level0.tail) : k.live a = true :=
  ((h.ready a).mp (List.mem_of_getLast? (h.queue.tail_eq.symm.trans ha))).1

theorem QueuesOk.tail_owned (h : QueuesOk k l) : ∀ a ∈ k.level0.tail, Owned new k a := fun _ ha =>
  .inl (h.tail_live ha)

/-- The last ready thread stays allocated when a new record is taken. -/
theorem QueuesOk.tail_live_update (h : QueuesOk k l) (hfresh : k.live t = false) {a : Nat}
    (ha : a ∈ k.level0.tail) : update k.live t true a = true := by
  have hlive : k.live a = true := h.tail_live ha
  have hat : a ≠ t := by
    rintro rfl
    simp [hfresh] at hlive
  exact (Function.update_of_ne hat ..).trans hlive

theorem LeavesFreed.deliver (h : QueuesOk k l) {src size : Nat} {pack : Msgpack} {paSrc : Nat → Nat}
    {wakes : Bool} (hd : k.deliver p pack paSrc src size wakes = some k')
    (hhandler : ∀ t ∈ (k.ipc p).msgHandlerThread, k.live t = true) : LeavesFreed new k k' := by
  have h1 : LeavesFreed new k (k.delivered p pack paSrc src size) := .quiet ..
  rw [deliver_eq] at hd
  obtain ⟨t, ht, rfl⟩ := Option.map_eq_some_iff.mp hd
  split
  · have hlive : k.live t = true := hhandler t ht
    exact (h1.trans (.setState (k := k.delivered p pack paSrc src size) (.inl hlive) .ready)).trans
      (.enqueue (.inl hlive) h.tail_owned)
  · exact h1

theorem LeavesFreed.upSignal (h : QueuesOk k l) {id : Nat} (hk : k.__upSignal id = some k') :
    LeavesFreed new k k' := by
  obtain ⟨s, s', hs, ⟨-, rfl⟩ | ⟨t, hr, rfl⟩⟩ := upSignal_effect hk
  · exact .quiet ..
  · have hlive : k.live t = true := by
      rcases upSignal_cases hr with ⟨hn, -⟩ | ⟨u, hu, hl⟩
      · simp at hn
      · obtain rfl := Option.some.inj hu
        exact ((h.waits id s hs).2 t (hl ▸ List.mem_cons_self ..)).1
    have h1 : LeavesFreed new k (k.setSignal id s') := .quiet ..
    exact (h1.trans (.setState (k := k.setSignal id s') (.inl hlive) .ready)).trans
      (.enqueue (.inl hlive) h.tail_owned)

/-! ### The lists of the threads -/

/-- The lists of the threads do not lead to freed records. -/
structure LinksOk (k : Kernel) : Prop where
  next : ∀ t u, k.live t = true → k.next t = some u → k.live u = true ∧ k.last u = some t
  last : ∀ t u, k.live t = true → k.last t = some u → k.live u = true ∧ k.next u = some t

theorem LinksOk.light (h : LinksOk k) (hk : Light k k') : LinksOk k' := by
  obtain ⟨_, _, _, _, _, _, _, _, _, rfl, -⟩ := hk
  exact ⟨h.next, h.last⟩

theorem LinksOk.overwritten {junk : Kernel} (h : LinksOk k) : LinksOk (k.overwritten junk) := by
  refine ⟨fun t u ht hu => ?_, fun t u ht hu => ?_⟩
  · have ht' : k.live t = true := ht
    obtain ⟨hl, hlast⟩ := h.next t u ht' ((if_pos ht').symm.trans hu)
    exact ⟨hl, (if_pos hl).trans hlast⟩
  · have ht' : k.live t = true := ht
    obtain ⟨hl, hnext⟩ := h.last t u ht' ((if_pos ht').symm.trans hu)
    exact ⟨hl, (if_pos hl).trans hnext⟩

/-- A record that becomes a thread is in no list. -/
theorem LinksOk.createThreadInfo (h : LinksOk k) (hfresh : k.live t = false)
    (stackTop stackBottom : Nat) (entry ds cs rflags : UInt64) (priority : Int) :
    LinksOk (k.createThreadInfo t p stackTop stackBottom entry ds cs rflags priority) := by
  have hold : ∀ {u}, update k.live t true u = true → u ≠ t → k.live u = true := fun hu hne =>
    (Function.update_of_ne hne ..).symm.trans hu
  have hne : ∀ {u}, k.live u = true → u ≠ t := by
    rintro u hu rfl
    simp [hfresh] at hu
  refine ⟨fun u v hu hv => ?_, fun u v hu hv => ?_⟩
  · change update k.next t none u = some v at hv
    change update k.live t true v = true ∧ update k.last t none v = some u
    by_cases hut : u = t
    · simp [hut] at hv
    · rw [Function.update_of_ne hut] at hv
      obtain ⟨hl, hlast⟩ := h.next u v (hold hu hut) hv
      rw [Function.update_of_ne (hne hl), Function.update_of_ne (hne hl)]
      exact ⟨hl, hlast⟩
  · change update k.last t none u = some v at hv
    change update k.live t true v = true ∧ update k.next t none v = some u
    by_cases hut : u = t
    · simp [hut] at hv
    · rw [Function.update_of_ne hut] at hv
      obtain ⟨hl, hnext⟩ := h.last u v (hold hu hut) hv
      rw [Function.update_of_ne (hne hl), Function.update_of_ne (hne hl)]
      exact ⟨hl, hnext⟩

/-- The last thread of the list that starts at `t` is a thread. -/
theorem LinksOk.lastThread (h : LinksOk k) {fuel parent : Nat} (ht : k.live t = true)
    (hp : lastThread k.next fuel t = some parent) :
    k.live parent = true ∧ k.next parent = none := by
  induction fuel generalizing t with
  | zero => simp [Kernel.lastThread] at hp
  | succ fuel ih =>
    rw [Kernel.lastThread] at hp
    cases hn : k.next t with
    | none =>
      rw [hn] at hp
      obtain rfl := Option.some.inj hp
      exact ⟨ht, hn⟩
    | some u =>
      rw [hn] at hp
      exact ih (h.next t u ht hn).1 hp

theorem LinksOk.linkThread (h : LinksOk k) {parent : Nat} (ht : k.live t = true)
    (hparent : k.live parent = true) (hend : k.next parent = none) (hfirst : k.last t = none) :
    LinksOk (k.linkThread parent t) := by
  refine ⟨fun u v hu hv => ?_, fun u v hu hv => ?_⟩
  · change update k.next parent (some t) u = some v at hv
    change k.live v = true ∧ update k.last t (some parent) v = some u
    by_cases hup : u = parent
    · subst hup
      rw [Function.update_self] at hv
      obtain rfl := Option.some.inj hv
      exact ⟨ht, Function.update_self ..⟩
    · rw [Function.update_of_ne hup] at hv
      obtain ⟨hl, hlast⟩ := h.next u v hu hv
      have hvt : v ≠ t := by
        rintro rfl
        simp [hfirst] at hlast
      exact ⟨hl, (Function.update_of_ne hvt ..).trans hlast⟩
  · change update k.last t (some parent) u = some v at hv
    change k.live v = true ∧ update k.next parent (some t) v = some u
    by_cases hut : u = t
    · subst hut
      rw [Function.update_self] at hv
      obtain rfl := Option.some.inj hv
      exact ⟨hparent, Function.update_self ..⟩
    · rw [Function.update_of_ne hut] at hv
      obtain ⟨hl, hnext⟩ := h.last u v hu hv
      have hvp : v ≠ parent := by
        rintro rfl
        simp [hend] at hnext
      exact ⟨hl, (Function.update_of_ne hvp ..).trans hnext⟩

/-- A thread that ends is taken out of its list. -/
theorem removeThread_relink (k : Kernel) (t : Nat) : k.removeThread t = { k with
    next := relink k.next (k.last t) (k.next t)
    last := relink k.last (k.next t) (k.last t)
    live := update k.live t false } := by
  have hself : relink k.next (k.last t) (k.next t) t = k.next t := by
    cases hlast : k.last t with
    | none => rfl
    | some a =>
      by_cases hta : t = a
      · rw [relink, hta, Function.update_self]
      · exact Function.update_of_ne hta ..
  cases hlast : k.last t with
  | none =>
    simp only [removeThread, hlast, relink]
    cases k.next t <;> rfl
  | some a =>
    rw [hlast, relink] at hself
    simp only [removeThread, hlast, relink, hself]
    cases k.next t <;> rfl

theorem relink_apply (f : Nat → Option Nat) (a v : Option Nat) (u : Nat) :
    relink f a v u = if a = some u then v else f u := by
  cases a with
  | none => simp [relink]
  | some a =>
    by_cases hua : u = a
    · simp [relink, hua]
    · simp [relink, hua, Ne.symm hua]

theorem removeThread_links (k : Kernel) (t u : Nat) :
    (k.removeThread t).next u = (if k.last t = some u then k.next t else k.next u) ∧
      (k.removeThread t).last u = (if k.next t = some u then k.last t else k.last u) := by
  rw [removeThread_relink]
  exact ⟨relink_apply .., relink_apply ..⟩

theorem LinksOk.remove (h : LinksOk k) (ht : k.live t = true) : LinksOk (k.removeThread t) := by
  obtain ⟨_, _, he⟩ := removeThread_eq k t
  have hlive : (k.removeThread t).live = update k.live t false := by rw [he]
  have hold : ∀ {u}, (k.removeThread t).live u = true → k.live u = true ∧ u ≠ t := by
    intro u hu
    rw [hlive] at hu
    by_cases hut : u = t
    · simp [hut] at hu
    · exact ⟨(Function.update_of_ne hut ..).symm.trans hu, hut⟩
  have hstill : ∀ {u}, k.live u = true → u ≠ t → (k.removeThread t).live u = true := by
    intro u hu hne
    rw [hlive, Function.update_of_ne hne]
    exact hu
  refine ⟨fun u v hu hv => ?_, fun u v hu hv => ?_⟩
  · obtain ⟨hl, hut⟩ := hold hu
    rw [(removeThread_links k t u).1] at hv
    rw [(removeThread_links k t v).2]
    by_cases hlast : k.last t = some u
    · rw [if_pos hlast] at hv
      have hvt : v ≠ t := by
        rintro rfl
        exact hut (Option.some.inj (hlast.symm.trans (h.next v v ht hv).2))
      exact ⟨hstill (h.next t v ht hv).1 hvt, (if_pos hv).trans hlast⟩
    · rw [if_neg hlast] at hv
      obtain ⟨hvl, hback⟩ := h.next u v hl hv
      have hvt : v ≠ t := by
        rintro rfl
        exact hlast hback
      have hne : k.next t ≠ some v := fun hn =>
        hut (Option.some.inj (hback.symm.trans (h.next t v ht hn).2))
      exact ⟨hstill hvl hvt, (if_neg hne).trans hback⟩
  · obtain ⟨hl, hut⟩ := hold hu
    rw [(removeThread_links k t u).2] at hv
    rw [(removeThread_links k t v).1]
    by_cases hnext : k.next t = some u
    · rw [if_pos hnext] at hv
      have hvt : v ≠ t := by
        rintro rfl
        exact hut (Option.some.inj (hnext.symm.trans (h.last v v ht hv).2))
      exact ⟨hstill (h.last t v ht hv).1 hvt, (if_pos hv).trans hnext⟩
    · rw [if_neg hnext] at hv
      obtain ⟨hvl, hforth⟩ := h.last u v hl hv
      have hvt : v ≠ t := by
        rintro rfl
        exact hnext hforth
      have hne : k.last t ≠ some v := fun hn =>
        hut (Option.some.inj (hforth.symm.trans (h.last t v ht hn).2))
      exact ⟨hstill hvl hvt, (if_neg hne).trans hforth⟩

theorem LeavesFreed.remove (h : LinksOk k) (ht : k.live t = true) : LeavesFreed new k (k.removeThread t) := by
  refine ⟨fun u hu hne => ?_⟩
  have hut : u ≠ t := by
    rintro rfl
    simp [ht] at hu
  have hlast : k.last t ≠ some u := fun hn => by simp [(h.last t u ht hn).1] at hu
  have hnext : k.next t ≠ some u := fun hn => by simp [(h.next t u ht hn).1] at hu
  have hu1 := (removeThread_links k t u).1.trans (if_neg hlast)
  have hu2 := (removeThread_links k t u).2.trans (if_neg hnext)
  obtain ⟨next, last, he⟩ := removeThread_eq k t
  rw [he] at hu1 hu2 ⊢
  exact ⟨(Function.update_of_ne hut ..).trans hu, rfl, hu1, hu2, rfl, rfl, rfl, rfl, rfl, rfl⟩

/-! ### The switch -/

theorem LinksOk.doSwitch (h : LinksOk k) (hlive : k.live k.current = true) (regs : Frame) :
    LinksOk (k.doSwitch regs).1 := by
  have h1 : LinksOk (k.downThread regs) := by
    have h0 : LinksOk (k.saved regs) := ⟨h.next, h.last⟩
    rcases downThread_cases k regs with ⟨-, he⟩ | ⟨-, he⟩ | ⟨-, he⟩
    · rw [he]
      exact h0.light ((Light.setState ..).trans (.enqueueThread ..))
    · rw [he]
      exact h0.remove hlive
    · rw [he]
      exact h0
  obtain ⟨count, he⟩ := doSwitch_eq k regs
  obtain ⟨freeNext, level0, level1, hg⟩ := getNextRunThread_frame (k.downThread regs)
  rw [he, hg]
  exact ⟨h1.next, h1.last⟩

theorem LeavesFreed.down (h : QueuesOk k l) (hlinks : LinksOk k) (hlive : k.live k.current = true)
    (regs : Frame) : LeavesFreed new k (k.downThread regs) := by
  have h0 : LeavesFreed new k (k.saved regs) := .setRegisters (.inl hlive) _
  rcases downThread_cases k regs with ⟨-, he⟩ | ⟨-, he⟩ | ⟨-, he⟩
  · rw [he]
    exact (h0.trans (.setState (k := k.saved regs) (.inl hlive) .ready)).trans
      (.enqueue (.inl hlive) h.tail_owned)
  · rw [he]
    exact h0.trans (.remove ⟨hlinks.next, hlinks.last⟩ hlive)
  · rw [he]
    exact h0

/-- The first thread of the queue, or the empty thread, is taken. -/
theorem QueuesOk.next_live (h : QueuesOk k l) : k.live k.getNextRunThread.2 = true := by
  rcases getNextRunThread_queue h.queue h.level1 with ⟨-, hg⟩ | ⟨t, l', _, _, rfl, hg, -⟩
  · rw [hg]
    exact h.emptyLive
  · rw [hg]
    exact ((h.ready t).mp (List.mem_cons_self ..)).1

theorem LeavesFreed.next (h : QueuesOk k l) : LeavesFreed new k k.getNextRunThread.1 := by
  unfold getNextRunThread dequeueReady
  cases hhead : k.level0.head with
  | some t =>
    have ht : t ∈ l := List.mem_of_mem_head? (h.queue.head_eq.symm.trans hhead)
    have howned : Owned new k t := .inl ((h.ready t).mp ht).1
    exact .linked (fun u hu hne => Function.update_of_ne (howned.ne hu hne) ..) _ k.level1
  | none =>
    rw [h.level1]
    exact .quiet ..

theorem LeavesFreed.resumed (ht : k.live t = true) : LeavesFreed new k (k.resumed t) :=
  ⟨fun _ hu hne => ⟨hu, Function.update_of_ne (Owned.ne (.inl ht) hu hne) .., rfl, rfl, rfl, rfl, rfl,
    rfl, rfl, rfl⟩⟩

theorem LeavesFreed.doSwitch (h : QueuesOk k l) (hlinks : LinksOk k) (hlive : k.live k.current = true)
    (regs : Frame) : LeavesFreed new k (k.doSwitch regs).1 := by
  obtain ⟨l1, h1⟩ := h.down regs hlive
  have hframe : (k.downThread regs).getNextRunThread.1.live = (k.downThread regs).live := by
    obtain ⟨_, _, _, hg⟩ := getNextRunThread_frame (k.downThread regs)
    rw [hg]
  have hnext : (k.downThread regs).getNextRunThread.1.live
      (k.downThread regs).getNextRunThread.2 = true := hframe ▸ h1.next_live
  have hrun : LeavesFreed new k ((k.downThread regs).getNextRunThread.1.resumed
      (k.downThread regs).getNextRunThread.2) :=
    ((LeavesFreed.down h hlinks hlive regs).trans (.next h1)).trans (.resumed hnext)
  unfold Kernel.doSwitch
  dsimp only
  split
  · exact hrun.trans (.setCount (k := Kernel.resumed _ _) (.inl hnext) _)
  · exact hrun

theorem LinksOk.afterSyscall (h : LinksOk k) (hlive : k.live k.current = true) (regs : Frame) :
    LinksOk (k.afterSyscall regs).1 := by
  unfold Kernel.afterSyscall
  split
  · exact h.doSwitch hlive regs
  · exact h

theorem LeavesFreed.afterSyscall (h : QueuesOk k l) (hlinks : LinksOk k) (hlive : k.live k.current = true)
    (regs : Frame) : LeavesFreed new k (k.afterSyscall regs).1 := by
  unfold Kernel.afterSyscall
  split
  · exact .doSwitch h hlinks hlive regs
  · exact .quiet ..

/-! ### New threads -/

theorem LeavesFreed.createThreadInfo (stackTop stackBottom : Nat) (entry ds cs rflags : UInt64)
    (priority : Int) : LeavesFreed (some t) k
      (k.createThreadInfo t p stackTop stackBottom entry ds cs rflags priority) := by
  refine ⟨fun u hu hne => ?_⟩
  have hut : u ≠ t := fun he => hne (he ▸ rfl)
  exact ⟨(Function.update_of_ne hut ..).trans hu, Function.update_of_ne hut ..,
    Function.update_of_ne hut .., Function.update_of_ne hut .., Function.update_of_ne hut ..,
    Function.update_of_ne hut .., Function.update_of_ne hut .., Function.update_of_ne hut ..,
    Function.update_of_ne hut .., Function.update_of_ne hut ..⟩

/-- `__create_thread__` writes to the new record and to the last thread of the task. -/
theorem createThread_writes (h : QueuesOk k l) (hlinks : LinksOk k) {fuel : Nat} {entry : UInt64}
    (hfresh : k.live t = false) (hhead : k.live (k.task p).threads = true)
    (hk : k.__createThread__ fuel t entry p = some k') : LeavesFreed (some t) k k' ∧ LinksOk k' := by
  obtain ⟨parent, hparent, rfl⟩ := createThread_eq hk
  have hlinks1 : LinksOk (k.spawnThread t entry p) :=
    LinksOk.createThreadInfo (k := k.takeStack p) ⟨hlinks.next, hlinks.last⟩ hfresh ..
  have hspared : LeavesFreed (some t) k (k.spawnThread t entry p) :=
    (LeavesFreed.quiet k k.mem k.level0 k.level1 k.signal k.irqHandleTasks k.msgidCounter k.curId k.current
      k.ipc (k.takeStack p).task k.taskList).trans (.createThreadInfo (k := k.takeStack p) ..)
  have hne : (k.task p).threads ≠ t := by
    rintro he
    simp [he, hfresh] at hhead
  have hhead1 : (k.spawnThread t entry p).live (k.task p).threads = true :=
    (Function.update_of_ne hne ..).trans hhead
  have hself : (k.spawnThread t entry p).live t = true := Function.update_self ..
  obtain ⟨hlive, hend⟩ := hlinks1.lastThread hhead1 hparent
  have hlinked : LeavesFreed (some t) (k.spawnThread t entry p)
      ((k.spawnThread t entry p).linkThread parent t) :=
    ⟨fun u hu hut => ⟨hu, rfl, Function.update_of_ne (Owned.ne (.inl hlive) hu hut) ..,
      Function.update_of_ne (Owned.ne (.inl hself) hu hut) .., rfl, rfl, rfl, rfl, rfl, rfl⟩⟩
  refine ⟨(hspared.trans hlinked).trans (.enqueue (.inr rfl) fun a ha => ?_), ?_⟩
  · exact .inl (h.tail_live_update hfresh ha)
  · exact (hlinks1.linkThread hself hlive hend (Function.update_self ..)).light (.enqueueThread ..)

theorem createTask_writes (h : QueuesOk k l) (hlinks : LinksOk k) (hfresh : k.live t = false)
    (a : TaskParams) : LeavesFreed (some t) k (k.createTask p t a) ∧ LinksOk (k.createTask p t a) := by
  have hthreads : (((k.__createTask p t a).addTask p).task p).threads = t := by
    simp [__createTask, addTask]
  have hlinks1 : LinksOk ((k.__createTask p t a).addTask p) := by
    have hh := LinksOk.createThreadInfo (p := p)
      (k := { k with task := update k.task p { k.task p with curTid := 0 } })
      ⟨hlinks.next, hlinks.last⟩ hfresh a.stackTop a.stackBottom a.entry a.ds a.cs a.rflags a.priority
    exact ⟨hh.next, hh.last⟩
  have hspared : LeavesFreed (some t) k ((k.__createTask p t a).addTask p) := by
    have hh := LeavesFreed.createThreadInfo (t := t) (p := p)
      (k := { k with task := update k.task p { k.task p with curTid := 0 } })
      a.stackTop a.stackBottom a.entry a.ds a.cs a.rflags a.priority
    refine ⟨fun u hu hne => ?_⟩
    obtain ⟨hl, hsame⟩ := hh.record u hu hne
    exact ⟨hl, hsame.state, hsame.next, hsame.last, hsame.freeNext, hsame.owner, hsame.count,
      hsame.priority, hsame.tid, hsame.registers⟩
  rw [createTask, hthreads]
  refine ⟨hspared.trans (.enqueue (.inr rfl) fun a ha => ?_), hlinks1.light (.enqueueThread ..)⟩
  exact .inl (h.tail_live_update hfresh ha)

/-! ### The events -/

/-- The record that an event takes from `kmalloc`. -/
def newRecord : KernelEvent → Option Nat
  | .syscall _ call => newThread call
  | .createTask _ t _ _ => some t
  | _ => none

theorem LeavesFreed.syscall (h : QueuesOk k l) (hlinks : LinksOk k) {fuel : Nat} {call : Syscall}
    {r : UInt64} (hlive : k.live k.current = true) (hlegal : Legal k (.syscall fuel call))
    (hoff : KeepsOff k (.syscall fuel call)) (hs : k.syscall fuel call = some (k', r)) :
    LeavesFreed (newThread call) k k' ∧ LinksOk k' := by
  refine ⟨?_, ?_⟩
  · cases syscall_effect hs with
    | sent hp hroom hallow hd =>
      refine .deliver h hd fun t ht => hoff.1 t ?_
      rw [woken_sendMsg hp hroom hallow]
      exact ht
    | received hk =>
      rcases recvMsg_frame hk with rfl | ⟨mem, readPtr, size, rfl⟩
      · exact .quiet ..
      · exact .quiet ..
    | waits | exits => exact .setState (.inl hlive) _
    | ups hk => exact .upSignal h hk
    | downs hk =>
      obtain ⟨s, s', -, ⟨-, rfl⟩ | ⟨-, rfl⟩⟩ := downSignal_effect hk
      · exact .quiet ..
      · exact (LeavesFreed.quiet k ..).trans (.setState (k := k.setSignal _ s') (.inl hlive) .waiting)
    | spawns hk =>
      have hh := (createThread_writes h hlinks (hlegal.2 _ rfl) (hoff.2 _ rfl) hk).1
      exact hh.trans (.setRegisters (.inr rfl) _)
    | idle | locks | allows | mails | creates | registers => exact .quiet ..
  · rcases Light.syscall hs with ⟨-, hlight⟩ | ⟨t, entry, args, k1, rfl, hk, rfl⟩
    · exact hlinks.light hlight
    · have hh := (createThread_writes h hlinks (hlegal.2 _ rfl) (hoff.2 _ rfl) hk).2
      exact ⟨hh.next, hh.last⟩

theorem step_writes {e : Frame × KernelEvent} (hset : Turning k) (hlinks : LinksOk k)
    (hlegal : Legal k e.2) (hoff : KeepsOff k e.2) (hs : Step k e k') :
    LeavesFreed (newRecord e.2) k k' ∧ LinksOk k' := by
  obtain ⟨l, h, hlive, hrun⟩ := hset
  obtain ⟨regs, ev⟩ := e
  cases ev with
  | syscall fuel call =>
    obtain ⟨k1, r, hk, rfl⟩ := hs.syscall
    obtain ⟨⟨l1, h1⟩, hcur, hl⟩ := h.syscall hlive hrun hlegal hoff.wakes hk
    obtain ⟨hspared, hlinks1⟩ := LeavesFreed.syscall h hlinks hlive hlegal hoff hk
    exact ⟨hspared.trans (.afterSyscall h1 hlinks1 (hcur ▸ hl) _), hlinks1.afterSyscall (hcur ▸ hl) _⟩
  | clock =>
    obtain rfl := hs.clock
    obtain ⟨l1, h1, hl1, -⟩ := h.afterSyscall regs hlive
    have hspared : LeavesFreed none k (k.afterSyscall regs).1 := .afterSyscall h hlinks hlive regs
    have hlinks1 := hlinks.afterSyscall hlive regs
    simp only [clockIntHandler, h.schedules, if_true]
    split
    · exact ⟨hspared.trans (.setCount (.inl hl1) _), hlinks1.next, hlinks1.last⟩
    · exact ⟨hspared, hlinks1⟩
  | switch =>
    obtain rfl := hs.switch
    exact ⟨.doSwitch h hlinks hlive regs, hlinks.doSwitch hlive regs⟩
  | irq irq reserved src =>
    refine ⟨?_, hlinks.light (.irq hs.irq)⟩
    rcases irq_effect hs.irq with rfl | ⟨n, rfl | ⟨hirq, p, pack, hp, hroom, hallow, hd⟩⟩
    · exact .quiet ..
    · exact .quiet ..
    · have h0 : QueuesOk (k.withMsgid n) l := h.quiet ..
      refine (LeavesFreed.quiet k ..).trans (.deliver h0 hd fun t ht => hoff.1 t ?_)
      rw [woken_irq hirq hp hroom hallow]
      exact ht
  | exception =>
    obtain rfl := hs.exception
    have hlinks1 : LinksOk (k.setState k.current .exception) := ⟨hlinks.next, hlinks.last⟩
    have h1 := h.stop .exception hrun (by simp [Runnable]) (h.busy hlegal)
    exact ⟨(LeavesFreed.setState (.inl hlive) _).trans (.afterSyscall h1 hlinks1 hlive regs),
      hlinks1.afterSyscall hlive regs⟩
  | createTask p t a kmod =>
    obtain ⟨hspared, hlinks1⟩ := createTask_writes (p := p) h hlinks hlegal.1 a
    have hthreads : ((k.createTask p t a).task p).threads = t := by
      simp [createTask, __createTask, addTask]
    obtain rfl := hs.createTask
    split
    · refine ⟨hspared.trans ?_, hlinks1.next, hlinks1.last⟩
      rw [initializeKmodTask, hthreads]
      exact .setRegisters (.inr rfl) _
    · exact ⟨hspared, hlinks1⟩

theorem LinksOk.start (h : Started k) : LinksOk k := by
  obtain ⟨k0, b, hz, -, -, rfl⟩ := h
  have hlive : (k0.boot b).live = update (update k0.live b.emptyThread true) b.initThread true := rfl
  have hnext : (k0.boot b).next = update (update k0.next b.emptyThread none) b.initThread none := rfl
  have hlast : (k0.boot b).last = update (update k0.last b.emptyThread none) b.initThread none := rfl
  have hnone : ∀ t, (k0.boot b).live t = true →
      (k0.boot b).next t = none ∧ (k0.boot b).last t = none := by
    intro t ht
    rw [hlive] at ht
    rw [hnext, hlast]
    by_cases hti : t = b.initThread
    · simp [hti]
    · by_cases hte : t = b.emptyThread
      · simp [Function.update_apply, hte]
      · simp [hti, hte, hz.live] at ht
  refine ⟨fun t u ht hu => ?_, fun t u ht hu => ?_⟩
  · simp [(hnone t ht).1] at hu
  · simp [(hnone t ht).2] at hu

/-- In every run a next event that keeps off the freed records writes to none of them,
except to the one that it takes for a new thread. -/
theorem freed_untouched {es : List (Frame × KernelEvent)} {e : Frame × KernelEvent}
    (h : Run Started SafeStep es k) (hlegal : Legal k e.2) (hoff : KeepsOff k e.2)
    (hs : Step k e k') : LeavesFreed (newRecord e.2) k k' := by
  have hk : Turning k ∧ LinksOk k := by
    refine h.invariant (I := fun _ k => Turning k ∧ LinksOk k)
      (fun _ h0 => ⟨(Settled.start h0).turning, .start h0⟩) fun es k e k' hk hstep => ?_
    obtain ⟨k1, junk, hs, rfl⟩ := hstep.2
    exact ⟨hk.1.reused hstep.1.1 hstep.1.2 hstep.2,
      (step_writes hk.1 hk.2 hstep.1.1 hstep.1.2 hs).2.overwritten⟩
  exact (step_writes hk.1 hk.2 hlegal hoff hs).1

end Kernel

end TayHuang
