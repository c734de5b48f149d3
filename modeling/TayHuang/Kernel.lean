import TayHuang.LinkedCells
import TayHuang.Mailbox
import TayHuang.Paging
import TayHuang.Registers
import TayHuang.Signals

/-! The kernel's threads, tasks, ready queues and system calls: thread.c,
task_manager.c, task_scheduler.c, signal.c and syscalls.c. Each field of the
thread and task records is a map from addresses. -/

namespace TayHuang

open Function (update)

inductive ThreadState
  | ready
  | running
  | submitted
  | waiting
  | waitingIpc
  | terminated
  | exception
  | suspend
  | waitingSuspend
  | waitingIpcSuspend
  deriving DecidableEq, Repr

/-- The fields of `task_struct` and `mm_info_struct` that threads are made from. -/
structure TaskInfo where
  threads : Nat
  pgd : Nat
  pid : Int
  level : Int
  curTid : Int
  priority : Int
  kernelTask : Bool
  stackBottom : Nat
  ds : UInt64
  cs : UInt64
  rflags : UInt64
  codeStart : Nat
  codeEnd : Nat
  heapStart : Nat
  heapEnd : Nat
  deriving DecidableEq, Repr

/-- The head and the tail of a list of free threads. -/
structure ReadyQueue where
  head : Option Nat
  tail : Option Nat
  deriving DecidableEq, Repr

/-- `live` are the thread records that are allocated. A record that was freed keeps
its fields until it is allocated again. -/
structure Kernel where
  mem : Nat → UInt8
  pt : PTMem
  kernelPml4 : Nat
  live : Nat → Bool
  state : Nat → ThreadState
  next : Nat → Option Nat
  last : Nat → Option Nat
  freeNext : Nat → Option Nat
  owner : Nat → Nat
  count : Nat → Int
  priority : Nat → Int
  tid : Nat → Int
  registers : Nat → RegisterInfo
  taskList : List Nat
  task : Nat → TaskInfo
  ipc : Nat → IpcInfo
  emptyTask : Nat
  level0 : ReadyQueue
  level1 : ReadyQueue
  current : Nat
  doSchedule : Bool
  signal : Nat → Option (Signal Nat)
  curId : Nat
  irqHandleTasks : Nat → Int
  msgidCounter : Nat

namespace Kernel

variable (k : Kernel)

/-- The level of a thread's task. -/
def level (t : Nat) : Int := (k.task (k.owner t)).level

def currentTask : Nat := k.owner k.current

/-- `__pa` with the page directory of a task. -/
def pa (p v : Nat) : Nat := getPhysicalAddress k.pt (k.task p).pgd v

def setState (t : Nat) (st : ThreadState) : Kernel := { k with state := update k.state t st }

/-- The kernel while the thread `t` runs. -/
def withCurrent (t : Nat) : Kernel := { k with current := t }

def getTaskByPid (pid : Int) : Option Nat := k.taskList.find? fun p => (k.task p).pid = pid

/-! ### Ready queues -/

/-- The body of `enqueue_level0_thread` and `enqueue_level1_thread`. -/
def enqueueReady (freeNext : Nat → Option Nat) (q : ReadyQueue) (t : Nat) :
    (Nat → Option Nat) × ReadyQueue :=
  match q.tail with
  | none => (update freeNext t none, ⟨some t, some t⟩)
  | some tail => (update (update freeNext t none) tail (some t), ⟨q.head, some t⟩)

/-- The body of `dequeue_level0_thread` and `dequeue_level1_thread`. -/
def dequeueReady (freeNext : Nat → Option Nat) (q : ReadyQueue) :
    Option (Nat × (Nat → Option Nat) × ReadyQueue) :=
  q.head.map fun t =>
    (t, update freeNext t none, ⟨freeNext t, if freeNext t = none then none else q.tail⟩)

def hasLevel0Thread : Bool := k.level0.head.isSome

def hasLevel1Thread : Bool := k.level1.head.isSome

def enqueueLevel0Thread (t : Nat) : Kernel :=
  let r := enqueueReady k.freeNext k.level0 t
  { k with freeNext := r.1, level0 := r.2 }

/-- `enqueue_thread`. Both levels go to the queue of level 0. -/
def enqueueThread (t : Nat) : Kernel :=
  if k.level t = 0 then k.enqueueLevel0Thread t
  else if k.level t = 1 then k.enqueueLevel0Thread t
  else k

def getNextRunThread : Kernel × Nat :=
  match dequeueReady k.freeNext k.level0 with
  | some (t, freeNext, q) => ({ k with freeNext := freeNext, level0 := q }, t)
  | none =>
    match dequeueReady k.freeNext k.level1 with
    | some (t, freeNext, q) => ({ k with freeNext := freeNext, level1 := q }, t)
    | none => (k, (k.task k.emptyTask).threads)

/-! ### Threads and tasks -/

/-- The registers that `create_thread_info` sets. -/
def firstRegisters (ds stackTop stackBottom entry cs rflags : UInt64) : RegisterInfo where
  basic := fun i =>
    if i = BasicReg.gs.word ∨ i = BasicReg.fs.word ∨ i = BasicReg.es.word ∨ i = BasicReg.ds.word
    then ds else 0
  rbp := stackBottom
  rsp := stackTop
  ss := ds
  rip := entry
  cs := cs
  rflags := rflags

/-- `create_thread_info`; `t` is where `kmalloc` puts it. -/
def createThreadInfo (t p stackTop stackBottom : Nat) (entry ds cs rflags : UInt64)
    (priority : Int) : Kernel :=
  { k with
    live := update k.live t true
    state := update k.state t .submitted
    next := update k.next t none
    last := update k.last t none
    freeNext := update k.freeNext t none
    owner := update k.owner t p
    count := update k.count t (priority * 3)
    priority := update k.priority t priority
    tid := update k.tid t (k.task p).curTid
    task := update k.task p { k.task p with curTid := (k.task p).curTid + 1 }
    registers := update k.registers t
      (firstRegisters ds (.ofNat stackTop) (.ofNat stackBottom) entry cs rflags) }

/-- The loop of `__create_thread__`. -/
def lastThread (next : Nat → Option Nat) : Nat → Nat → Option Nat
  | 0, _ => none
  | fuel + 1, t =>
    match next t with
    | none => some t
    | some u => lastThread next fuel u

def threadStackSize : Nat := 0x800000

def kernelTaskStackSize : Nat := 0x8000

/-- `stack_bottom` of the next thread of a task. -/
def nextStackBottom (task : TaskInfo) : Nat :=
  (task.stackBottom + 2 ^ 64 -
    (if task.kernelTask then kernelTaskStackSize else threadStackSize)) % 2 ^ 64

/-- The stack of the next thread is taken from the task's stack area. -/
def takeStack (p : Nat) : Kernel :=
  { k with task := update k.task p { k.task p with stackBottom := nextStackBottom (k.task p) } }

def linkThread (parent t : Nat) : Kernel :=
  { k with next := update k.next parent (some t), last := update k.last t (some parent) }

/-- `__create_thread__` up to its loop. -/
def spawnThread (t : Nat) (entry : UInt64) (p : Nat) : Kernel :=
  let task := k.task p
  (k.takeStack p).createThreadInfo t p task.stackBottom (nextStackBottom task) entry task.ds task.cs
    task.rflags task.priority

set_option linter.style.nameCheck false in
def __createThread__ (fuel t : Nat) (entry : UInt64) (p : Nat) : Option Kernel :=
  let k := k.spawnThread t entry p
  (lastThread k.next fuel (k.task p).threads).map fun parent =>
    (k.linkThread parent t).enqueueThread t

def removeThread (t : Nat) : Kernel :=
  let k :=
    match k.last t with
    | none => k
    | some p => { k with next := update k.next p (k.next t) }
  let k :=
    match k.next t with
    | none => k
    | some n => { k with last := update k.last n (k.last t) }
  { k with live := update k.live t false }

/-- `get_thread_by_tid`, from `task->threads` on. -/
def findThread (next : Nat → Option Nat) (tids : Nat → Int) (tid : Int) :
    Nat → Option Nat → Option (Option Nat)
  | 0, _ => none
  | _ + 1, none => some none
  | fuel + 1, some t =>
    if tids t = tid then some (some t) else findThread next tids tid fuel (next t)

def getThreadByTid (fuel : Nat) (tid : Int) (p : Nat) : Option (Option Nat) :=
  findThread k.next k.tid tid fuel (some (k.task p).threads)

/-- The arguments of `create_task` that are kept. -/
structure TaskParams where
  ds : UInt64
  stackTop : Nat
  stackBottom : Nat
  entry : UInt64
  cs : UInt64
  rflags : UInt64
  pgd : Nat
  pid : Int
  priority : Int
  level : Int
  kernelTask : Bool
  codeStart : Nat
  codeEnd : Nat
  heapStart : Nat
  heapEnd : Nat

def initIpcInfo : IpcInfo := ⟨0, 0, 0, 0, 0, 0, none⟩

set_option linter.style.nameCheck false in
/-- `__create_task`; `p` and `t` are where `kmalloc` puts the task and its thread. -/
def __createTask (p t : Nat) (a : TaskParams) : Kernel :=
  let k := { k with task := update k.task p { k.task p with curTid := 0 } }
  let k := k.createThreadInfo t p a.stackTop a.stackBottom a.entry a.ds a.cs a.rflags a.priority
  { k with
    task := update k.task p
      ⟨t, a.pgd, a.pid, a.level, (k.task p).curTid, a.priority, a.kernelTask, a.stackBottom, a.ds,
        a.cs, a.rflags, a.codeStart, a.codeEnd, a.heapStart, a.heapEnd⟩
    ipc := update k.ipc p initIpcInfo }

def addTask (p : Nat) : Kernel := { k with taskList := p :: k.taskList }

def createTask (p t : Nat) (a : TaskParams) : Kernel :=
  let k := (k.__createTask p t a).addTask p
  k.enqueueThread (k.task p).threads

def kmodMagic : UInt64 := 0x71BA4851

def initializeKmodTask (p : Nat) : Kernel :=
  let task := k.task p
  let old := k.registers task.threads
  let basic := update old.basic BasicReg.rax.word kmodMagic
  let basic := update basic BasicReg.rbx.word (.ofNat task.heapStart)
  let basic := update basic BasicReg.rcx.word (.ofNat task.heapEnd)
  let basic := update basic BasicReg.rdx.word (.ofInt task.pid)
  { k with registers := update k.registers task.threads { old with basic := basic } }

/-! ### The scheduler -/

def shouldSwitch : Bool :=
  if k.doSchedule = false then false
  else if (k.task k.currentTask).pid = -1 then true
  else if k.level k.current = 0 then
    if k.state k.current = .running then false else true
  else if k.level k.current = 1 then
    if k.hasLevel0Thread then true
    else if k.state k.current ≠ .running then true
    else if k.count k.current ≤ 0 then true
    else false
  else true

def downThread (regs : Frame) : Kernel :=
  let k := { k with
    registers := update k.registers k.current (saveRegisters (k.registers k.current) regs) }
  if k.state k.current = .running then (k.setState k.current .ready).enqueueThread k.current
  else if k.state k.current = .terminated ∨ k.state k.current = .exception then
    k.removeThread k.current
  else k

def upThread (regs : Frame) : Kernel × Frame :=
  (k.setState k.current .running,
    loadRegisters (k.registers k.current) (.ofNat (k.task k.currentTask).pgd) regs)

def doSwitch (regs : Frame) : Kernel × Frame :=
  let k := k.downThread regs
  let r := k.getNextRunThread
  let u := { r.1 with current := r.2 }.upThread regs
  let k : Kernel := u.1
  (if k.level k.current = 1 then
      { k with count := update k.count k.current (k.priority k.current * 3) }
    else k, u.2)

def afterSyscall (regs : Frame) : Kernel × Frame :=
  if k.shouldSwitch then k.doSwitch regs else (k, regs)

def clockIntHandler (regs : Frame) : Kernel × Frame :=
  if k.doSchedule then
    let r := k.afterSyscall regs
    (if r.1.level r.1.current = 1 then
        { r.1 with count := update r.1.count r.1.current (r.1.count r.1.current - 1) }
      else r.1, r.2)
  else (k, regs)

/-- The end of `general_exception_handler`. -/
def exceptionHandler (regs : Frame) : Kernel × Frame :=
  (k.setState k.current .exception).afterSyscall regs

/-! ### Messages -/

/-- A pid in the 16 bits of a header. -/
def source16 (pid : Int) : UInt16 := UInt16.ofNat (pid % 65536).toNat

/-- What `__send_msg` and `dummy_send_msg` do with an accepted message. -/
def deliver (p : Nat) (pack : Msgpack) (paSrc : Nat → Nat) (src size : Nat) (wakes : Bool) :
    Option Kernel :=
  let ipc := k.ipc p
  let r := writeToBuffer (k.pa p) paSrc ipc pack src k.mem
  let used := (ipc.usedSize + (8 + size)) % 2 ^ 64
  let k := { k with
    mem := r.1
    ipc := update k.ipc p { ipc with usedSize := used, writePtr := r.2 } }
  ipc.msgHandlerThread.map fun t =>
    if k.state t = .waitingIpc ∧ wakes = true then (k.setState t .ready).enqueueThread t else k

set_option linter.style.nameCheck false in
/-- `__send_msg`; `reserved` is what the stack held there. -/
def __sendMsg (msgno : MsgnoId) (reserved : UInt8) (src size : Nat) (dst : Int) :
    Option (Kernel × Bool) :=
  match k.getTaskByPid dst with
  | none => some (k, false)
  | some p =>
    let pid := (k.task k.currentTask).pid
    if (k.ipc p).mailSize < ((k.ipc p).usedSize + size + 8) % 2 ^ 64 ∨
        ((k.ipc p).allowPid ≠ pid ∧ (k.ipc p).allowPid ≠ -1) then some (k, false)
    else
      let pack : Msgpack :=
        ⟨reserved, msgno.messageNo, msgno.msgId, UInt16.ofNat size, source16 pid⟩
      (k.deliver p pack (k.pa k.currentTask) src size ((k.ipc p).allowPid ≠ -2)).map
        fun k => (k, true)

def dummySendMsg (msgno : MsgnoId) (reserved : UInt8) (src size : Nat) (dst : Int) :
    Option (Kernel × Bool) :=
  match k.getTaskByPid dst with
  | none => some (k, false)
  | some p =>
    if (k.ipc p).mailSize < ((k.ipc p).usedSize + size + 8) % 2 ^ 64 ∨
        ((k.ipc p).allowPid ≠ -2 ∧ 0 ≤ (k.ipc p).allowPid) then some (k, false)
    else
      let pack : Msgpack :=
        ⟨reserved, msgno.messageNo, msgno.msgId, UInt16.ofNat size, source16 (-2)⟩
      (k.deliver p pack (getPhysicalAddress k.pt k.kernelPml4) src size true).map fun k => (k, true)

/-- The result of `__recv_msg` for an empty mailbox. -/
def noMessage : Msgpack := ⟨0, 255, 0, 0, 65535⟩

set_option linter.style.nameCheck false in
def __recvMsg (dst : Nat) : Option (Kernel × Msgpack) :=
  let p := k.currentTask
  let ipc := k.ipc p
  if ipc.usedSize = 0 then some (k, noMessage)
  else
    let r := readFromBuffer (k.pa p) ipc dst k.mem
    let size := r.1.length.toNat + 8
    if size ≤ ipc.usedSize then
      some ({ k with
        mem := r.2.1
        ipc := update k.ipc p
          { ipc with readPtr := r.2.2, usedSize := ipc.usedSize - size } }, r.1)
    else none

set_option linter.style.nameCheck false in
def __checkIpc : Kernel :=
  if (k.ipc k.currentTask).mail = 0 then k
  else if 0 < (k.ipc k.currentTask).usedSize then k
  else k.setState k.current .waitingIpc

set_option linter.style.nameCheck false in
def __setAllow (pid : Int) : Kernel :=
  { k with
    ipc := update k.ipc k.currentTask { k.ipc k.currentTask with allowPid := pid } }

set_option linter.style.nameCheck false in
def __setMailbuffer (buffer size : Nat) : Kernel :=
  { k with
    ipc := update k.ipc k.currentTask
      { k.ipc k.currentTask with
        mail := buffer
        writePtr := buffer
        readPtr := buffer
        mailSize := size
        usedSize := 0
        msgHandlerThread := some k.current } }

set_option linter.style.nameCheck false in
def __testAndLock (val : Nat) : Kernel × Bool :=
  let a := k.pa k.currentTask val
  if k.mem a ≠ 0 then (k, false) else ({ k with mem := update k.mem a 1 }, true)

set_option linter.style.nameCheck false in
def __regIrq (irq : Nat) : Kernel :=
  { k with irqHandleTasks := update k.irqHandleTasks irq (k.task k.currentTask).pid }

/-- `normal_irq_handler`; `src` is where the stack holds the number. -/
def normalIrqHandler (irq : Nat) (reserved : UInt8) (src : Nat) : Option Kernel :=
  if k.irqHandleTasks irq = 0 then some k
  else
    let id := getMsgid k.msgidCounter
    let k := { k with msgidCounter := id.2 }
    (k.dummySendMsg ⟨3, .ofNat id.1⟩ reserved src 4 (k.irqHandleTasks irq)).map Prod.fst

/-! ### Semaphores -/

def setSignal (id : Nat) (s : Signal Nat) : Kernel :=
  { k with signal := update k.signal id (some s) }

set_option linter.style.nameCheck false in
/-- `__create_signal`, with the tree of signals as a map. -/
def __createSignal (maxSignals value : Int) (soft : Bool) : Kernel × Nat :=
  ({ k.setSignal k.curId (createSignal maxSignals value soft) with curId := k.curId + 1 }, k.curId)

set_option linter.style.nameCheck false in
def __upSignal (id : Nat) : Option Kernel :=
  (k.signal id).bind fun s => (upSignal s).map fun r =>
    let k := k.setSignal id r.1
    match r.2 with
    | none => k
    | some t => (k.setState t .ready).enqueueThread t

set_option linter.style.nameCheck false in
def __downSignal (id : Nat) : Option Kernel :=
  (k.signal id).map fun s =>
    let r := downSignal s k.current
    let k := k.setSignal id r.1
    if r.2 then k.setState k.current .waiting else k

/-! ### System calls -/

set_option linter.style.nameCheck false in
/-- `__create_thread`: the creator puts the argument into `rdi`. -/
def __createThread (fuel t : Nat) (entry args : UInt64) : Option Kernel :=
  (k.__createThread__ fuel t entry k.currentTask).map fun k =>
    { k with
      registers := update k.registers t
        { k.registers t with basic := update (k.registers t).basic BasicReg.rdi.word args } }

set_option linter.style.nameCheck false in
def __exitThread : Kernel := k.setState k.current .terminated

end Kernel

/-- A system call with its arguments. -/
inductive Syscall
  | sendMsg (msgno : MsgnoId) (reserved : UInt8) (src size : Nat) (dst : Int)
  | checkIpc
  | setAllow (pid : Int)
  | recvMsg (dst : Nat)
  | testAndLock (val : Nat)
  | setMailbuffer (buffer size : Nat)
  | createSignal (maxSignals value : Int) (soft : Bool)
  | getSignals (id : Nat)
  | upSignal (id : Nat)
  | downSignal (id : Nat)
  | isSoftSignal (id : Nat)
  | regIrq (irq : Nat)
  | createThread (t : Nat) (entry args : UInt64)
  | exitThread
  | moo

namespace Kernel

/-- `syscall`, and what it returns in `rax`. -/
def syscall (fuel : Nat) (k : Kernel) : Syscall → Option (Kernel × UInt64)
  | .sendMsg msgno reserved src size dst =>
    (k.__sendMsg msgno reserved src size dst).map fun r => (r.1, if r.2 then 1 else 0)
  | .checkIpc => some (k.__checkIpc, 0)
  | .setAllow pid => some (k.__setAllow pid, 0)
  | .recvMsg dst =>
    (k.__recvMsg dst).map fun r => (r.1, .ofNat (LittleEndian.ofBytes r.2.bytes))
  | .testAndLock val =>
    let r := k.__testAndLock val
    some (r.1, if r.2 then 1 else 0)
  | .setMailbuffer buffer size => some (k.__setMailbuffer buffer size, 0)
  | .createSignal maxSignals value soft =>
    let r := k.__createSignal maxSignals value soft
    some (r.1, .ofNat r.2)
  | .getSignals id => (k.signal id).map fun s => (k, .ofInt s.signals)
  | .upSignal id => (k.__upSignal id).map fun k => (k, 0)
  | .downSignal id => (k.__downSignal id).map fun k => (k, 0)
  | .isSoftSignal id => (k.signal id).map fun s => (k, if s.soft then 1 else 0)
  | .regIrq irq => some (k.__regIrq irq, 0)
  | .createThread t entry args =>
    (k.__createThread fuel t entry args).map fun k => (k, .ofInt (k.tid t))
  | .exitThread => some (k.__exitThread, 0)
  | .moo => some (k, 0)

def syscallIntHandler (fuel : Nat) (k : Kernel) (regs : Frame) (call : Syscall) :
    Option (Kernel × Frame) :=
  (k.syscall fuel call).map fun r => r.1.afterSyscall (regs.set .rax r.2)

end Kernel

end TayHuang
