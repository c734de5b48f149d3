import TayHuang.KernelSteps
import TayHuang.Runs

/-! The kernel as a system that handles one event after the other, from
`start_schedule` on. -/

namespace TayHuang

open Function (update)

/-- What happens while a thread runs. The addresses `t` and `p` are where `kmalloc`
puts new records; `switch` is a `do_switch` at any time. -/
inductive KernelEvent
  | syscall (fuel : Nat) (call : Syscall)
  | clock
  | switch
  | irq (irq : Nat) (reserved : UInt8) (src : Nat)
  | exception
  | createTask (p t : Nat) (a : Kernel.TaskParams) (kmod : Bool)

namespace Kernel

/-- The kernel and the frame to return to after an event in the frame `regs`. -/
def handle (k : Kernel) (regs : Frame) : KernelEvent → Option (Kernel × Frame)
  | .syscall fuel call => k.syscallIntHandler fuel regs call
  | .clock => some (k.clockIntHandler regs)
  | .switch => some (k.doSwitch regs)
  | .irq irq reserved src => (k.normalIrqHandler irq reserved src).map fun k => (k, regs)
  | .exception => some (k.exceptionHandler regs)
  | .createTask p t a kmod =>
    let k := k.createTask p t a
    some (if kmod then k.initializeKmodTask p else k, regs)

def step (k : Kernel) (e : Frame × KernelEvent) : Option Kernel := (k.handle e.1 e.2).map Prod.fst

def Step (k : Kernel) (e : Frame × KernelEvent) (k' : Kernel) : Prop := k.step e = some k'

theorem Step.syscall {k k' : Kernel} {regs : Frame} {fuel : Nat} {call : Syscall}
    (h : Step k (regs, .syscall fuel call) k') : ∃ k1 r, k.syscall fuel call = some (k1, r) ∧
      k' = (k1.afterSyscall (regs.set .rax r)).1 := by
  obtain ⟨_, hs, rfl⟩ := Option.map_eq_some_iff.mp h
  obtain ⟨⟨k1, r⟩, hk, rfl⟩ := Option.map_eq_some_iff.mp hs
  exact ⟨k1, r, hk, rfl⟩

theorem Step.clock {k k' : Kernel} {regs : Frame} (h : Step k (regs, .clock) k') :
    k' = (k.clockIntHandler regs).1 :=
  (Option.some.inj h).symm

theorem Step.switch {k k' : Kernel} {regs : Frame} (h : Step k (regs, .switch) k') :
    k' = (k.doSwitch regs).1 :=
  (Option.some.inj h).symm

theorem Step.irq {k k' : Kernel} {regs : Frame} {irq src : Nat} {reserved : UInt8}
    (h : Step k (regs, .irq irq reserved src) k') : k.normalIrqHandler irq reserved src = some k' := by
  obtain ⟨_, hs, rfl⟩ := Option.map_eq_some_iff.mp h
  obtain ⟨k1, hk, rfl⟩ := Option.map_eq_some_iff.mp hs
  exact hk

theorem Step.exception {k k' : Kernel} {regs : Frame} (h : Step k (regs, .exception) k') :
    k' = ((k.setState k.current .exception).afterSyscall regs).1 :=
  (Option.some.inj h).symm

theorem Step.createTask {k k' : Kernel} {regs : Frame} {p t : Nat} {a : TaskParams} {kmod : Bool}
    (h : Step k (regs, .createTask p t a kmod) k') :
    k' = if kmod then (k.createTask p t a).initializeKmodTask p else k.createTask p t a :=
  (Option.some.inj h).symm

/-- The arguments that `create_empty_task` and `entry` give a task of the kernel. -/
def kernelTaskParams (ds stackTop stackBottom entry cs rflags pgd : Nat) (pid priority level : Int) :
    TaskParams where
  ds := .ofNat ds
  stackTop := stackTop
  stackBottom := stackBottom
  entry := .ofNat entry
  cs := .ofNat cs
  rflags := .ofNat rflags
  pgd := pgd
  pid := pid
  priority := priority
  level := level
  kernelTask := true
  codeStart := 0
  codeEnd := 0
  heapStart := 0
  heapEnd := 0

/-- Where `kmalloc` puts the first records and the mailbox of `init`, and where the
code of `empty` and `init` is. -/
structure BootPlaces where
  emptyTask : Nat
  emptyThread : Nat
  empty : Nat
  initTask : Nat
  initThread : Nat
  init : Nat
  mail : Nat

def createEmptyTask (k : Kernel) (b : BootPlaces) : Kernel :=
  { k.__createTask b.emptyTask b.emptyThread
      (kernelTaskParams 64 0x1200000 0x1100000 b.empty 56 0x200 k.kernelPml4 (-1) (-1) (-1)) with
    emptyTask := b.emptyTask }

/-- `entry`, and `init` up to `start_schedule`. -/
def boot (k : Kernel) (b : BootPlaces) : Kernel :=
  let k := k.createEmptyTask b
  let k := k.__createTask b.initTask b.initThread
    (kernelTaskParams 49 0x1400000 0x13C0000 b.init 41 0x1200 k.kernelPml4 1 1 0)
  let k := k.addTask b.initTask
  let k := (k.withCurrent b.initThread).setState b.initThread .running
  { k.__setMailbuffer b.mail 8192 with doSchedule := true }

/-- The variables of the kernel before `entry`. -/
structure Zeroed (k : Kernel) : Prop where
  live : ∀ t, k.live t = false
  taskList : k.taskList = []
  level0 : k.level0 = ⟨none, none⟩
  level1 : k.level1 = ⟨none, none⟩
  signal : ∀ id, k.signal id = none
  curId : k.curId = 0

def Started (k : Kernel) : Prop :=
  ∃ k0 b, Zeroed k0 ∧ b.emptyTask ≠ b.initTask ∧ b.emptyThread ≠ b.initThread ∧ k = k0.boot b

/-- The record that a call takes from `kmalloc`. -/
def newThread : Syscall → Option Nat
  | .createThread t _ _ => some t
  | _ => none

/-- The empty thread loops without a call or an exception, and new records are not
in use. -/
def Legal (k : Kernel) : KernelEvent → Prop
  | .syscall _ call => k.currentTask ≠ k.emptyTask ∧ ∀ t ∈ newThread call, k.live t = false
  | .exception => k.currentTask ≠ k.emptyTask
  | .createTask p t _ _ => k.live t = false ∧ p ∉ k.taskList ∧ p ≠ k.emptyTask
  | .clock | .switch | .irq .. => True

instance (k : Kernel) (e : KernelEvent) : Decidable (Legal k e) := by
  cases e <;> unfold Legal <;> infer_instance

/-- A kernel whose variables are all zero. -/
def blank : Kernel where
  mem _ := 0
  pt := ⟨fun _ _ => .zero, []⟩
  kernelPml4 := 4096
  live _ := false
  state _ := .ready
  next _ := none
  last _ := none
  freeNext _ := none
  owner _ := 0
  count _ := 0
  priority _ := 0
  tid _ := 0
  registers _ := ⟨fun _ => 0, 0, 0, 0, 0, 0, 0⟩
  taskList := []
  task _ := ⟨0, 0, 0, 0, 0, 0, false, 0, 0, 0, 0, 0, 0, 0, 0⟩
  ipc _ := initIpcInfo
  emptyTask := 0
  level0 := ⟨none, none⟩
  level1 := ⟨none, none⟩
  current := 0
  doSchedule := false
  signal _ := none
  curId := 0
  irqHandleTasks _ := 0
  msgidCounter := 0

def blankBoot : Kernel := blank.boot ⟨100, 110, 0, 200, 210, 0, 300⟩

theorem started_blankBoot : Started blankBoot :=
  ⟨blank, _, ⟨fun _ => rfl, rfl, rfl, rfl, fun _ => rfl, rfl⟩, by decide, by decide, rfl⟩

/-- The arguments of a module that is loaded. -/
def moduleParams (pid level : Int) : TaskParams where
  ds := 49
  stackTop := 0x40000000
  stackBottom := 0x3F800000
  entry := 0x2000000
  cs := 41
  rflags := 0x1200
  pgd := 8192
  pid := pid
  priority := 1
  level := level
  kernelTask := false
  codeStart := 0x2000000
  codeEnd := 0x2001000
  heapStart := 0x2003000
  heapEnd := 0x2013000

/-- Legal events after `start_schedule`. -/
def blankRun (es : List (Frame × KernelEvent)) : Option Kernel :=
  es.foldlM (fun k e => if Legal k e.2 then k.step e else none) blankBoot

theorem run_of_blankRun {es : List (Frame × KernelEvent)} {k : Kernel} (h : blankRun es = some k) :
    Runs.Run Started (Runs.Guarded (fun k e => Legal k e.2) Step) es k :=
  .ofGuardedFold es started_blankBoot h

end Kernel

end TayHuang
