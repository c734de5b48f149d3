import TayHuang.FreedRecords
import TayHuang.KernelMemory

/-! The thread records, the semaphores and the nodes of the threads that wait for them,
word for word on the kernel heap: thread.c, task_manager.c, task_scheduler.c and signal.c
over memory in which a freed record belongs to whoever asks next.

`sizeof(thread_info_struct)` is 248, `sizeof(task_struct)` is 256, `sizeof(signal_node)`
is 64 and `sizeof(wtnode_t)` is 16. -/

namespace TayHuang

open Function (update)
open LinkedCells

/-- Memory, each word under the address of its lowest byte. -/
structure Words where
  word : Nat → UInt64

namespace Words

def set (m : Words) (a : Nat) (x : UInt64) : Words := ⟨update m.word a x⟩

/-- The field of `n` bytes at `a`, inside one word. -/
def part (m : Words) (a n : Nat) : Nat :=
  (m.word (a / 8 * 8)).toNat / 2 ^ (a % 8 * 8) % 2 ^ (n * 8)

def setPart (m : Words) (a n x : Nat) : Words :=
  m.set (a / 8 * 8) (.ofNat ((m.word (a / 8 * 8)).toNat - m.part a n * 2 ^ (a % 8 * 8) +
    x % 2 ^ (n * 8) * 2 ^ (a % 8 * 8)))

def ptr (m : Words) (a : Nat) : Option Nat := toPtr (m.word a).toNat

def setPtr (m : Words) (a : Nat) (p : Option Nat) : Words := m.set a (.ofNat (p.getD 0))

def int (m : Words) (a : Nat) : Int :=
  if m.part a 4 < 2 ^ 31 then m.part a 4 else m.part a 4 - 2 ^ 32

def setInt (m : Words) (a : Nat) (x : Int) : Words := m.setPart a 4 (x % 2 ^ 32).toNat

/-- `memset` with zero. -/
def clear (m : Words) (a n : Nat) : Words := ⟨fun x => if a ≤ x ∧ x < a + n then 0 else m.word x⟩

/-- `thread->registers`. -/
def registers (m : Words) (t : Nat) : RegisterInfo where
  basic i := m.word (t + 8 * i)
  rbp := m.word (t + 144)
  rsp := m.word (t + 152)
  ss := m.word (t + 160)
  rip := m.word (t + 168)
  cs := m.word (t + 176)
  rflags := m.word (t + 184)

def setRegisters (m : Words) (t : Nat) (r : RegisterInfo) : Words :=
  ⟨fun a =>
    if t ≤ a ∧ a < t + 144 then r.basic ((a - t) / 8)
    else if a = t + 144 then r.rbp
    else if a = t + 152 then r.rsp
    else if a = t + 160 then r.ss
    else if a = t + 168 then r.rip
    else if a = t + 176 then r.cs
    else if a = t + 184 then r.rflags
    else m.word a⟩

end Words

/-- `threads` are the records that are allocated as threads; the code never reads it. -/
structure RawKernel where
  mem : Words
  heap : KMem
  threads : List Nat
  task : Nat → TaskInfo
  emptyTask : Nat
  level0 : ReadyQueue
  level1 : ReadyQueue
  current : Nat
  doSchedule : Bool
  signal : Nat → Option Nat
  curId : Nat

namespace RawKernel

/-! ### Fields -/

def stateOf (x : Int) : ThreadState :=
  match x with
  | 0 => .ready
  | 1 => .running
  | 2 => .submitted
  | 3 => .waiting
  | 4 => .waitingIpc
  | 5 => .terminated
  | 6 => .exception
  | 7 => .suspend
  | 8 => .waitingSuspend
  | _ => .waitingIpcSuspend

variable (k : RawKernel)

def state (t : Nat) : ThreadState := stateOf (k.mem.int (t + 192))

def setState (t : Nat) (st : ThreadState) : RawKernel :=
  { k with mem := k.mem.setInt (t + 192) st.ctorIdx }

def next (t : Nat) : Option Nat := k.mem.ptr (t + 200)

def last (t : Nat) : Option Nat := k.mem.ptr (t + 208)

def freeNext (t : Nat) : Option Nat := k.mem.ptr (t + 216)

def owner (t : Nat) : Nat := (k.mem.word (t + 224)).toNat

def level (t : Nat) : Int := (k.task (k.owner t)).level

/-- The kernel in terms of its threads. -/
def view : Kernel :=
  { Kernel.blank with
    live := fun t => t ∈ k.threads
    state := k.state
    next := k.next
    last := k.last
    freeNext := k.freeNext
    owner := k.owner
    count := fun t => k.mem.int (t + 232)
    priority := fun t => k.mem.int (t + 236)
    tid := fun t => k.mem.int (t + 240)
    registers := k.mem.registers
    task := k.task
    emptyTask := k.emptyTask
    level0 := k.level0
    level1 := k.level1
    current := k.current
    doSchedule := k.doSchedule }

/-! ### Threads -/

/-- `kfree` of what may have been a thread. -/
def free (a : Nat) : RawKernel := { k with heap := kfree k.heap a, threads := k.threads.erase a }

def createThreadInfo (p stackTop stackBottom : Nat) (entry ds cs rflags : UInt64) (priority : Int) :
    Option (RawKernel × Nat) :=
  (kmalloc 64 k.heap 248).map fun r =>
    let t := r.2
    let m := k.mem.clear t 248
    let m := m.setRegisters t
      (Kernel.firstRegisters ds (.ofNat stackTop) (.ofNat stackBottom) entry cs rflags)
    let m := m.setInt (t + 192) 2
    let m := m.setPtr (t + 216) none
    let m := m.setPtr (t + 200) none
    let m := m.setPtr (t + 224) (some p)
    let m := m.setInt (t + 236) priority
    let m := m.setInt (t + 232) (priority * 3)
    let m := m.setInt (t + 240) (k.task p).curTid
    ({ k with
        mem := m
        heap := r.1
        threads := t :: k.threads
        task := update k.task p { k.task p with curTid := (k.task p).curTid + 1 } }, t)

def enqueueLevel0Thread (t : Nat) : RawKernel :=
  let m := k.mem.setPtr (t + 216) none
  match k.level0.tail with
  | none => { k with mem := m, level0 := ⟨some t, some t⟩ }
  | some tail => { k with mem := m.setPtr (tail + 216) (some t), level0 := ⟨k.level0.head, some t⟩ }

def enqueueThread (t : Nat) : RawKernel :=
  if k.level t = 0 then k.enqueueLevel0Thread t
  else if k.level t = 1 then k.enqueueLevel0Thread t
  else k

/-- `__create_thread__` for a task of the kernel, whose stacks need no pages. -/
def createThread (entry : UInt64) (p : Nat) : Option (RawKernel × Nat) :=
  let task := k.task p
  let bottom := Kernel.nextStackBottom task
  let k := { k with task := update k.task p { task with stackBottom := bottom } }
  (k.createThreadInfo p task.stackBottom bottom entry task.ds task.cs task.rflags
    task.priority).bind fun (k, t) =>
      (Kernel.lastThread k.next 64 (k.task p).threads).map fun parent =>
        let m := (k.mem.setPtr (parent + 200) (some t)).setPtr (t + 208) (some parent)
        (enqueueThread { k with mem := m } t, t)

def removeThread (t : Nat) : RawKernel :=
  let k :=
    match k.last t with
    | none => k
    | some a => { k with mem := k.mem.setPtr (a + 200) (k.next t) }
  let k :=
    match k.next t with
    | none => k
    | some n => { k with mem := k.mem.setPtr (n + 208) (k.last t) }
  k.free t

/-! ### The scheduler -/

def dequeueThread (q : ReadyQueue) : Option (Nat × Words × ReadyQueue) :=
  q.head.map fun t =>
    (t, k.mem.setPtr (t + 216) none,
      ⟨k.freeNext t, if k.freeNext t = none then none else q.tail⟩)

def getNextRunThread : RawKernel × Nat :=
  match k.dequeueThread k.level0 with
  | some (t, m, q) => ({ k with mem := m, level0 := q }, t)
  | none =>
    match k.dequeueThread k.level1 with
    | some (t, m, q) => ({ k with mem := m, level1 := q }, t)
    | none => (k, (k.task k.emptyTask).threads)

def shouldSwitch : Bool := k.view.shouldSwitch

def downThread (regs : Frame) : RawKernel :=
  let k := { k with
    mem := k.mem.setRegisters k.current (saveRegisters (k.mem.registers k.current) regs) }
  if k.state k.current = .running then (k.setState k.current .ready).enqueueThread k.current
  else if k.state k.current = .terminated ∨ k.state k.current = .exception then
    k.removeThread k.current
  else k

def doSwitch (regs : Frame) : RawKernel :=
  let r := (k.downThread regs).getNextRunThread
  let k : RawKernel := setState { r.1 with current := r.2 } r.2 .running
  if k.level k.current = 1 then
    { k with mem := k.mem.setInt (k.current + 232) (k.mem.int (k.current + 236) * 3) }
  else k

def afterSyscall (regs : Frame) : RawKernel := if k.shouldSwitch then k.doSwitch regs else k

/-! ### Semaphores -/

/-- `__create_signal`, with the tree of semaphores as a map to their nodes. -/
def createSignal (maxSignals value : Int) (soft : Bool) : Option RawKernel :=
  (kmalloc 64 k.heap 64).map fun r =>
    let s := r.2
    let m := ((k.mem.setPtr (s + 32) none).setPtr (s + 40) none).setPtr (s + 48) none
    let m := m.setInt (s + 56) 0
    let m := m.setPart s 4 k.curId
    let m := m.setInt (s + 4) value
    let m := m.setInt (s + 8) maxSignals
    let m := m.setPart (s + 12) 1 soft.toNat
    let m := (m.setPtr (s + 16) none).setPtr (s + 24) none
    { k with
      mem := m
      heap := r.1
      signal := update k.signal k.curId (some s)
      curId := k.curId + 1 }

def enqueueWt (s t : Nat) : Option RawKernel :=
  (kmalloc 64 k.heap 16).map fun r =>
    let node := r.2
    let m := (k.mem.setPtr node (some t)).setPtr (node + 8) none
    let m :=
      match m.ptr (s + 24) with
      | none => (m.setPtr (s + 24) (some node)).setPtr (s + 16) (some node)
      | some tail => (m.setPtr (tail + 8) (some node)).setPtr (s + 24) (some node)
    { k with mem := m, heap := r.1 }

/-- `dequeue_wt`, and the thread that it returns. -/
def dequeueWt (s : Nat) : Option (RawKernel × Nat) :=
  (k.mem.ptr (s + 16)).bind fun head =>
    let m := k.mem.setPtr (s + 16) (k.mem.ptr (head + 8))
    let m := if m.ptr (s + 16) = none then m.setPtr (s + 24) none else m
    (m.ptr head).map fun t => (free { k with mem := m } head, t)

def upSignal (id : Nat) : Option RawKernel :=
  (k.signal id).bind fun s =>
    let signals := k.mem.int (s + 4)
    let k := if signals < k.mem.int (s + 8) then { k with mem := k.mem.setInt (s + 4) (signals + 1) }
      else k
    if k.mem.part (s + 12) 1 = 0 ∧ k.mem.int (s + 4) ≤ 0 then
      (k.dequeueWt s).map fun r => (r.1.setState r.2 .ready).enqueueThread r.2
    else some k

def downSignal (id : Nat) : Option RawKernel :=
  (k.signal id).bind fun s =>
    let k := { k with mem := k.mem.setInt (s + 4) (k.mem.int (s + 4) - 1) }
    if k.mem.part (s + 12) 1 = 0 ∧ k.mem.int (s + 4) < 0 then
      (k.enqueueWt s k.current).map fun k => k.setState k.current .waiting
    else some k

end RawKernel

/-- System calls with their arguments. -/
inductive RawCall
  | createThread (entry args : UInt64)
  | exitThread
  | createSignal (maxSignals value : Int) (soft : Bool)
  | upSignal (id : Nat)
  | downSignal (id : Nat)

/-- A system call, or a `do_switch`, in the frame of the running thread. -/
inductive RawEvent
  | syscall (regs : Frame) (call : RawCall)
  | switch (regs : Frame)

namespace RawKernel

/-- `syscall`, and what it returns in `rax`. -/
def syscall (k : RawKernel) : RawCall → Option (RawKernel × UInt64)
  | .createThread entry args =>
    (k.createThread entry (k.owner k.current)).map fun (k, t) =>
      ({ k with mem := k.mem.set (t + 8 * BasicReg.rdi.word) args }, .ofInt (k.mem.int (t + 240)))
  | .exitThread => some (k.setState k.current .terminated, 0)
  | .createSignal maxSignals value soft =>
    (k.createSignal maxSignals value soft).map fun k' => (k', .ofNat k.curId)
  | .upSignal id => (k.upSignal id).map fun k => (k, 0)
  | .downSignal id => (k.downSignal id).map fun k => (k, 0)

def step (k : RawKernel) : RawEvent → Option RawKernel
  | .syscall regs call => (k.syscall call).map fun r => r.1.afterSyscall (regs.set .rax r.2)
  | .switch regs => some (k.doSwitch regs)

/-- `__create_task` for a task of the kernel. -/
def createTask (k : RawKernel) (a : Kernel.TaskParams) : Option (RawKernel × Nat) :=
  (kmalloc 64 k.heap 256).bind fun r =>
    let p := r.2
    let k := { k with heap := r.1, task := update k.task p { k.task p with curTid := 0 } }
    (k.createThreadInfo p a.stackTop a.stackBottom a.entry a.ds a.cs a.rflags a.priority).map
      fun (k, t) => ({ k with
        task := update k.task p
          ⟨t, a.pgd, a.pid, a.level, (k.task p).curTid, a.priority, a.kernelTask, a.stackBottom, a.ds,
            a.cs, a.rflags, a.codeStart, a.codeEnd, a.heapStart, a.heapEnd⟩ }, p)

/-- The kernel heap behind what `initialize` has taken of it. -/
def startHeap : KMem where
  startAddr := 0x60000
  seg := update (update (fun _ => ⟨0, false, none, none⟩) 0x60000
    ⟨0x8000, true, some 0x68000, none⟩) 0x68000 ⟨0x38000, false, none, some 0x60000⟩
  area _ := ⟨0, none⟩
  listHead _ := none
  listTail _ := none
  grown := []

/-- `create_empty_task`, `entry`, and `init` up to `start_schedule`. -/
def boot : Option RawKernel :=
  let k : RawKernel :=
    ⟨⟨fun _ => 0⟩, startHeap, [], Kernel.blank.task, 0, ⟨none, none⟩, ⟨none, none⟩, 0, false,
      fun _ => none, 0⟩
  (k.createTask (Kernel.kernelTaskParams 64 0x1200000 0x1100000 0x100000 56 0x200 4096 (-1) (-1)
    (-1))).bind fun (k, p) =>
      (createTask { k with emptyTask := p } (Kernel.kernelTaskParams 49 0x1400000 0x13C0000 0x100100
        41 0x1200 4096 1 1 0)).bind fun (k, p) =>
          (kmalloc 64 k.heap 8192).map fun r =>
            let t := (k.task p).threads
            setState { k with heap := r.1, current := t, doSchedule := true } t .running

def run (es : List RawEvent) : Option RawKernel := boot.bind fun k => es.foldlM step k

variable {k : RawKernel} {t u : Nat}

/-- A thread that is ready and is not the only one in the queue of level 0. -/
theorem not_conserves (hhead : k.level0.head = some u) (hlast : k.freeNext u = none)
    (h1 : k.level1 = ⟨none, none⟩) (ht : t ∈ k.threads) (hlevel : k.level t = 0)
    (hstate : k.state t = .ready) (htu : t ≠ u) (hcur : t ≠ k.current) : ¬ k.view.Conserves := by
  rintro ⟨l0, l1, hq0, hq1, -, -, hmem⟩
  have hl1 : l1 = [] := hq1.head_none_iff.mp (congrArg ReadyQueue.head h1)
  have hl0 : l0 = [u] := by
    cases l0 with
    | nil => exact absurd (hhead.symm.trans hq0.head_eq) (by simp)
    | cons a l =>
      obtain rfl : u = a := Option.some.inj (hhead.symm.trans hq0.head_eq)
      have hl : l.head? = none := hq0.pop.1.symm.trans hlast
      rw [List.head?_eq_none_iff.mp hl]
  have hready : k.view.live t = true ∧ Kernel.Scheduled (k.view.level t) ∧
      Kernel.Runnable (k.view.state t) ∧ t ≠ k.view.current :=
    ⟨decide_eq_true ht, .inl hlevel, .inl hstate, hcur⟩
  have ht' := (hmem t).mpr hready
  rw [hl0, hl1] at ht'
  exact htu (by simpa using ht')

/-- `init` makes four threads and ends, so that its record is free. The first two threads
wait for a semaphore, with its node and theirs in that record. The third makes a thread,
which is linked into a node, raises the semaphore twice and waits; the others take turns.
When the first thread raises the semaphore, the record of the new thread is taken for a
node, and the second thread, which is ready, is queued again in front of the fourth. -/
theorem ready_thread_lost : ∃ es k, run es = some k ∧ ¬ k.view.Conserves := by
  let call : RawCall → RawEvent := .syscall fun _ => 0
  let es : List RawEvent :=
    [call (.createThread 0 0), call (.createThread 0 0), call (.createThread 0 0),
      call (.createThread 0 0), call .exitThread, call (.createSignal 1 0 false),
      call (.downSignal 0), call (.downSignal 0), call (.createThread 0 0), call (.upSignal 0),
      call (.upSignal 0), call (.downSignal 0), .switch fun _ => 0,
      .switch (Frame.set (fun _ => 0) .r15 435864), call (.upSignal 0)]
  have hany : (run es).any (fun k => k.level0.head = some 435864 ∧ k.freeNext 435864 = none ∧
      k.level1 = ⟨none, none⟩ ∧ 436504 ∈ k.threads ∧ k.level 436504 = 0 ∧
      k.state 436504 = .ready ∧ 436504 ≠ k.current) = true := by decide +kernel
  obtain ⟨k, hk, hlost⟩ := (Option.any_eq_true ..).mp hany
  rw [decide_eq_true_iff] at hlost
  obtain ⟨hhead, hlast, h1, ht, hlevel, hstate, hcur⟩ := hlost
  exact ⟨es, k, hk, not_conserves hhead hlast h1 ht hlevel hstate (by decide) hcur⟩

end RawKernel

end TayHuang
