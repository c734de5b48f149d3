import TayHuang.ReadyRuns

/-! A thread goes on with the registers with which it was stopped. -/

namespace TayHuang

open Function (update)
open Runs

/-- Per thread, the registers with which it goes on. -/
abbrev Frames := Nat → FrameReg → UInt64

/-- The registers of a thread that did not run yet. -/
def firstFrame (ds stackTop stackBottom entry cs rflags : UInt64) : FrameReg → UInt64
  | .gs | .fs | .es | .ds | .ss => ds
  | .rbp => stackBottom
  | .rsp => stackTop
  | .rip => entry
  | .cs => cs
  | .rflags => rflags
  | _ => 0

namespace Kernel

/-- The registers that a task's next thread starts with. -/
def threadFrame (task : TaskInfo) (entry args : UInt64) : FrameReg → UInt64 :=
  update (firstFrame task.ds (.ofNat task.stackBottom) (.ofNat (nextStackBottom task)) entry task.cs
    task.rflags) .rdi args

def TaskParams.frame (a : TaskParams) : FrameReg → UInt64 :=
  firstFrame a.ds (.ofNat a.stackTop) (.ofNat a.stackBottom) a.entry a.cs a.rflags

/-- What a module is told in its registers. -/
def TaskParams.kmodFrame (a : TaskParams) : FrameReg → UInt64 :=
  update (update (update (update a.frame .rax kmodMagic) .rbx (.ofNat a.heapStart)) .rcx
    (.ofNat a.heapEnd)) .rdx (.ofInt a.pid)

/-- The running thread is stopped in the frame `regs`, if it is switched out. -/
def stopped (k : Kernel) (regs : Frame) (frames : Frames) : Frames :=
  if k.shouldSwitch then update frames k.current regs.get else frames

def framesCreated (k : Kernel) (frames : Frames) : Syscall → Frames
  | .createThread t entry args => update frames t (threadFrame (k.task k.currentTask) entry args)
  | _ => frames

/-- The registers with which the threads go on after an event. -/
def framesAfter (k : Kernel) (regs : Frame) (frames : Frames) : KernelEvent → Frames
  | .syscall fuel call =>
    match k.syscall fuel call with
    | none => frames
    | some (k', r) => k'.stopped (regs.set .rax r) (k.framesCreated frames call)
  | .clock => if k.doSchedule then k.stopped regs frames else frames
  | .switch => update frames k.current regs.get
  | .irq .. => frames
  | .exception => (k.setState k.current .exception).stopped regs frames
  | .createTask _ t a kmod => update frames t (if kmod then a.kmodFrame else a.frame)

/-- Whether an event executes `do_switch`. -/
def switches (k : Kernel) : KernelEvent → Bool
  | .syscall fuel call =>
    match k.syscall fuel call with
    | none => false
    | some (k', _) => k'.shouldSwitch
  | .clock => k.doSchedule && k.shouldSwitch
  | .switch => true
  | .irq .. => false
  | .exception => (k.setState k.current .exception).shouldSwitch
  | .createTask .. => false

/-- The threads that do not run have the registers that `frames` tells. -/
def FramesOk (k : Kernel) (frames : Frames) : Prop :=
  ∀ t, k.live t = true → t ≠ k.current → ∀ r : FrameReg, r.Own → (k.registers t).get r = frames t r

/-- The thread that runs now got its registers and its page tables. -/
def Resumes (k : Kernel) (frames : Frames) (out : Frame) : Prop :=
  (∀ r : FrameReg, r.Own → out.get r = frames k.current r) ∧
    out.get .pgd = .ofNat (k.task k.currentTask).pgd

variable {k k' : Kernel} {l : List Nat} {frames : Frames} {t : Nat}

theorem downThread_registers (k : Kernel) (regs : Frame) : (k.downThread regs).registers =
    update k.registers k.current (saveRegisters (k.registers k.current) regs) := by
  rcases downThread_cases k regs with ⟨-, he⟩ | ⟨-, he⟩ | ⟨-, he⟩
  · rw [he, enqueueThread_registers]
    rfl
  · obtain ⟨next, last, he'⟩ := removeThread_eq (k.saved regs) k.current
    rw [he, he']
    rfl
  · rw [he]
    rfl

theorem doSwitch_registers (k : Kernel) (regs : Frame) : (k.doSwitch regs).1.registers =
    update k.registers k.current (saveRegisters (k.registers k.current) regs) := by
  obtain ⟨count, he⟩ := doSwitch_eq k regs
  obtain ⟨freeNext, level0, level1, hg⟩ := getNextRunThread_frame (k.downThread regs)
  rw [he, hg]
  exact downThread_registers k regs

theorem downThread_live_of (k : Kernel) (regs : Frame) (h : (k.downThread regs).live t = true) :
    k.live t = true := by
  rcases downThread_cases k regs with ⟨-, he⟩ | ⟨-, he⟩ | ⟨-, he⟩
  · rw [he, enqueueThread_live] at h
    exact h
  · obtain ⟨next, last, he'⟩ := removeThread_eq (k.saved regs) k.current
    rw [he, he'] at h
    by_cases ht : t = k.current
    · simp [ht] at h
    · exact (Function.update_of_ne ht ..).symm.trans h
  · rw [he] at h
    exact h

theorem doSwitch_live_of (k : Kernel) (regs : Frame) (h : (k.doSwitch regs).1.live t = true) :
    k.live t = true := by
  obtain ⟨count, he⟩ := doSwitch_eq k regs
  obtain ⟨freeNext, level0, level1, hg⟩ := getNextRunThread_frame (k.downThread regs)
  rw [he, hg] at h
  exact downThread_live_of k regs h

/-- The frame after a switch is made from the registers of the next thread. -/
theorem doSwitch_frame (k : Kernel) (regs : Frame) :
    (k.doSwitch regs).2 = loadRegisters
      ((k.doSwitch regs).1.registers (k.doSwitch regs).1.current)
      (.ofNat ((k.doSwitch regs).1.task (k.doSwitch regs).1.currentTask).pgd) regs := by
  simp only [doSwitch]
  split
  · rfl
  · rfl

/-- After a switch every thread has its registers, and the next one its frame. -/
theorem FramesOk.doSwitch (h : FramesOk k frames) (regs : Frame)
    (hlive : (k.doSwitch regs).1.live (k.doSwitch regs).1.current = true) :
    FramesOk (k.doSwitch regs).1 (update frames k.current regs.get) ∧
      Resumes (k.doSwitch regs).1 (update frames k.current regs.get) (k.doSwitch regs).2 := by
  have hall : ∀ t, k.live t = true → ∀ r : FrameReg, r.Own →
      ((k.doSwitch regs).1.registers t).get r = update frames k.current regs.get t r := by
    intro t ht r hr
    rw [doSwitch_registers]
    by_cases htc : t = k.current
    · rw [htc, Function.update_self, Function.update_self]
      exact get_saveRegisters hr _ regs
    · rw [Function.update_of_ne htc, Function.update_of_ne htc]
      exact h t ht htc r hr
  refine ⟨fun t ht _ => hall t (doSwitch_live_of k regs ht), fun r hr => ?_, ?_⟩
  · rw [doSwitch_frame, get_loadRegisters hr]
    exact hall _ (doSwitch_live_of k regs hlive) r hr
  · rw [doSwitch_frame, get_loadRegisters_pgd]

theorem FramesOk.afterSyscall (h : FramesOk k frames) (hsched : QueuesOk k l)
    (hlive : k.live k.current = true) (regs : Frame) :
    FramesOk (k.afterSyscall regs).1 (k.stopped regs frames) ∧
      (k.shouldSwitch = true →
        Resumes (k.afterSyscall regs).1 (k.stopped regs frames) (k.afterSyscall regs).2) := by
  unfold Kernel.afterSyscall stopped
  cases hsw : k.shouldSwitch with
  | true =>
    simp only [if_true]
    obtain ⟨l', -, hl, -⟩ := hsched.doSwitch regs hlive
    obtain ⟨h1, h2⟩ := h.doSwitch regs hl
    exact ⟨h1, fun _ => h2⟩
  | false => exact ⟨h, fun hf => absurd hf (by simp)⟩

theorem FramesOk.light (h : FramesOk k frames) (hk : Light k k') : FramesOk k' frames := by
  obtain ⟨_, _, _, _, _, _, _, _, _, rfl, -⟩ := hk
  exact h

theorem get_threadFrame (k : Kernel) (t p : Nat) (entry args : UInt64) (r : FrameReg) :
    RegisterInfo.get { (k.spawnThread t entry p).registers t with
      basic := update ((k.spawnThread t entry p).registers t).basic BasicReg.rdi.word args } r =
      threadFrame (k.task p) entry args r := by
  have he : (k.spawnThread t entry p).registers t = firstRegisters (k.task p).ds
      (.ofNat (k.task p).stackBottom) (.ofNat (nextStackBottom (k.task p))) entry (k.task p).cs
      (k.task p).rflags := by
    simp [spawnThread, createThreadInfo, takeStack]
  rw [he]
  cases r <;> rfl

theorem FramesOk.syscall (h : FramesOk k frames) {fuel : Nat} {call : Syscall} {r : UInt64}
    (hs : k.syscall fuel call = some (k', r)) : FramesOk k' (k.framesCreated frames call) := by
  rcases Light.syscall hs with ⟨hcall, hlight⟩ | ⟨t, entry, args, k1, rfl, hk, rfl⟩
  · have hnew : k.framesCreated frames call = frames := by
      cases call with
      | createThread t entry args => exact absurd rfl (hcall t entry args)
      | _ => rfl
    rw [hnew]
    exact h.light hlight
  · obtain ⟨parent, -, rfl⟩ := createThread_eq hk
    intro u hu huc r hr
    change (Kernel.enqueueThread _ t).live u = true at hu
    change u ≠ (Kernel.enqueueThread _ t).current at huc
    change (update (Kernel.enqueueThread _ t).registers t _ u).get r =
      update frames t (threadFrame (k.task k.currentTask) entry args) u r
    rw [enqueueThread_live] at hu
    rw [enqueueThread_current] at huc
    rw [enqueueThread_registers]
    by_cases hut : u = t
    · rw [hut, Function.update_self, Function.update_self]
      exact get_threadFrame k t k.currentTask entry args r
    · rw [Function.update_of_ne hut, Function.update_of_ne hut]
      have hreg : ((k.spawnThread t entry k.currentTask).linkThread parent t).registers u =
          k.registers u := Function.update_of_ne hut ..
      rw [hreg]
      exact h u ((Function.update_of_ne hut ..).symm.trans hu) huc r hr

theorem createTask_registers (k : Kernel) (p t : Nat) (a : TaskParams) :
    (k.createTask p t a).registers = update k.registers t
      (firstRegisters a.ds (.ofNat a.stackTop) (.ofNat a.stackBottom) a.entry a.cs a.rflags) := by
  rw [createTask, enqueueThread_registers]
  rfl

theorem createTask_task (k : Kernel) (p t : Nat) (a : TaskParams) : ∃ curTid,
    (k.createTask p t a).task p = ⟨t, a.pgd, a.pid, a.level, curTid, a.priority, a.kernelTask,
      a.stackBottom, a.ds, a.cs, a.rflags, a.codeStart, a.codeEnd, a.heapStart, a.heapEnd⟩ := by
  rw [createTask, enqueueThread_task]
  exact ⟨_, Function.update_self ..⟩

theorem initializeKmodTask_registers {p : Nat} {a : TaskParams} :
    ((k.createTask p t a).initializeKmodTask p).registers = update k.registers t
      { firstRegisters a.ds (.ofNat a.stackTop) (.ofNat a.stackBottom) a.entry a.cs a.rflags with
        basic := update (update (update (update
          (firstRegisters a.ds (.ofNat a.stackTop) (.ofNat a.stackBottom) a.entry a.cs a.rflags).basic
          BasicReg.rax.word kmodMagic) BasicReg.rbx.word (.ofNat a.heapStart)) BasicReg.rcx.word
          (.ofNat a.heapEnd)) BasicReg.rdx.word (.ofInt a.pid) } := by
  obtain ⟨curTid, he⟩ := createTask_task k p t a
  simp only [initializeKmodTask, he, createTask_registers, Function.update_self,
    Function.update_idem]

theorem FramesOk.createTask (h : FramesOk k frames) {p : Nat} {a : TaskParams} (kmod : Bool) :
    FramesOk (if kmod then (k.createTask p t a).initializeKmodTask p else k.createTask p t a)
      (update frames t (if kmod then a.kmodFrame else a.frame)) := by
  have hlive : (k.createTask p t a).live = update k.live t true := by
    rw [Kernel.createTask, enqueueThread_live]
    rfl
  have hcur : (k.createTask p t a).current = k.current := by
    rw [Kernel.createTask, enqueueThread_current]
    rfl
  have hold : ∀ u, u ≠ t → (k.createTask p t a).live u = true →
      u ≠ (k.createTask p t a).current → ∀ r : FrameReg, r.Own → (k.registers u).get r = frames u r := by
    intro u hut hu huc r hr
    rw [hlive, Function.update_of_ne hut] at hu
    rw [hcur] at huc
    exact h u hu huc r hr
  cases kmod with
  | true =>
    intro u hu huc r hr
    simp only [if_true]
    rw [initializeKmodTask_registers]
    by_cases hut : u = t
    · rw [hut, Function.update_self, Function.update_self]
      cases r <;> rfl
    · rw [Function.update_of_ne hut, Function.update_of_ne hut]
      exact hold u hut hu huc r hr
  | false =>
    intro u hu huc r hr
    simp only [Bool.false_eq_true, if_false] at hu huc ⊢
    rw [createTask_registers]
    by_cases hut : u = t
    · rw [hut, Function.update_self, Function.update_self]
      cases r <;> rfl
    · rw [Function.update_of_ne hut, Function.update_of_ne hut]
      exact hold u hut hu huc r hr

/-! ### The runs -/

structure SwitchLog where
  kernel : Kernel
  frames : Frames

def SwitchStarted (s : SwitchLog) : Prop :=
  ∃ k0 b, Zeroed k0 ∧ b.emptyTask ≠ b.initTask ∧ b.emptyThread ≠ b.initThread ∧
    s.kernel = k0.boot b ∧ s.frames b.emptyThread =
      (kernelTaskParams 64 0x1200000 0x1100000 b.empty 56 0x200 k0.kernelPml4 (-1) (-1) (-1)).frame

def SwitchStep (s : SwitchLog) (e : Frame × KernelEvent) (s' : SwitchLog) : Prop :=
  Step s.kernel e s'.kernel ∧ s'.frames = s.kernel.framesAfter e.1 s.frames e.2

/-- One event: the threads keep their registers, and a switch resumes with them. -/
theorem FramesOk.step {regs out : Frame} {e : KernelEvent} (hset : Turning k) (h : FramesOk k frames)
    (hlegal : Legal k e) (hwakes : WakesThread k e) (hs : k.handle regs e = some (k', out)) :
    FramesOk k' (k.framesAfter regs frames e) ∧
      (k.switches e = true → Resumes k' (k.framesAfter regs frames e) out) := by
  obtain ⟨l, hsched, hlive, hrun⟩ := hset
  cases e with
  | syscall fuel call =>
    obtain ⟨⟨k1, r⟩, hk, he⟩ := Option.map_eq_some_iff.mp hs
    obtain ⟨⟨l1, hsched1⟩, hcur, hl⟩ := hsched.syscall hlive hrun hlegal hwakes hk
    obtain ⟨h1, h2⟩ := (h.syscall hk).afterSyscall hsched1 (hcur ▸ hl) (regs.set .rax r)
    simp only [framesAfter, switches, hk]
    obtain ⟨rfl, rfl⟩ := Prod.mk.inj he
    exact ⟨h1, h2⟩
  | clock =>
    have he := Option.some.inj hs
    obtain ⟨h1, h2⟩ := h.afterSyscall hsched hlive regs
    simp only [framesAfter, switches, hsched.schedules, if_true, Bool.true_and]
    simp only [clockIntHandler, hsched.schedules, if_true, Prod.mk.injEq] at he
    obtain ⟨rfl, rfl⟩ := he
    split
    · exact ⟨h1, h2⟩
    · exact ⟨h1, h2⟩
  | switch =>
    obtain ⟨rfl, rfl⟩ := Prod.mk.inj (Option.some.inj hs)
    obtain ⟨l', -, hl, -⟩ := hsched.doSwitch regs hlive
    obtain ⟨h1, h2⟩ := h.doSwitch regs hl
    exact ⟨h1, fun _ => h2⟩
  | irq irq reserved src =>
    obtain ⟨k1, hk, he⟩ := Option.map_eq_some_iff.mp hs
    obtain rfl := (Prod.mk.inj he).1
    exact ⟨h.light (.irq hk), fun hf => absurd hf (by simp [switches])⟩
  | exception =>
    obtain ⟨rfl, rfl⟩ := Prod.mk.inj (Option.some.inj hs)
    have hstop := hsched.stop .exception hrun (by simp [Runnable]) (hsched.busy hlegal)
    exact FramesOk.afterSyscall (h.light (.setState k k.current .exception)) hstop hlive regs
  | createTask p t a kmod =>
    obtain ⟨rfl, -⟩ := Prod.mk.inj (Option.some.inj hs)
    exact ⟨h.createTask kmod, fun hf => absurd hf (by simp [switches])⟩

theorem Settled.of_start {s : SwitchLog} (h : SwitchStarted s) : Settled s.kernel := by
  obtain ⟨k0, b, hz, htask, hthread, hk, -⟩ := h
  exact .start ⟨k0, b, hz, htask, hthread, hk⟩

theorem FramesOk.start {s : SwitchLog} (h : SwitchStarted s) : FramesOk s.kernel s.frames := by
  obtain ⟨k0, b, hz, -, hthread, hk, hframes⟩ := h
  rw [hk]
  intro t ht htc r hr
  have hcur : (k0.boot b).current = b.initThread := rfl
  have hlive : (k0.boot b).live = update (update k0.live b.emptyThread true) b.initThread true := rfl
  have hreg : (k0.boot b).registers = update (update k0.registers b.emptyThread
      (firstRegisters 64 0x1200000 0x1100000 (.ofNat b.empty) 56 0x200)) b.initThread
      (firstRegisters 49 0x1400000 0x13C0000 (.ofNat b.init) 41 0x1200) := rfl
  rw [hcur] at htc
  rw [hlive, Function.update_of_ne htc] at ht
  have hte : t = b.emptyThread := by
    by_contra hte
    rw [Function.update_of_ne hte, hz.live] at ht
    exact Bool.false_ne_true ht
  rw [hte, hreg, Function.update_of_ne hthread, Function.update_self, hframes]
  cases r <;> rfl

/-- Whenever a thread is resumed, it gets the registers with which it was stopped or
made. -/
theorem switch_transparent {es : List (Frame × KernelEvent)} {s : SwitchLog} {regs out : Frame}
    {e : KernelEvent}
    (h : Run SwitchStarted (Guarded (fun s e => Legal s.kernel e.2) SwitchStep) es s)
    (hlegal : Legal s.kernel e) (hs : s.kernel.handle regs e = some (k', out))
    (hswitch : s.kernel.switches e = true) :
    Resumes k' (s.kernel.framesAfter regs s.frames e) out := by
  have hk : Settled s.kernel ∧ FramesOk s.kernel s.frames := by
    refine h.invariant (I := fun _ s => Settled s.kernel ∧ FramesOk s.kernel s.frames)
      (fun s h0 => ⟨.of_start h0, .start h0⟩) ?_
    rintro es s ⟨regs, e⟩ s' ⟨hset, hf⟩ ⟨hl, hstep, he⟩
    refine ⟨hset.step hl hstep, ?_⟩
    obtain ⟨⟨k1, out⟩, hs, hk1⟩ := Option.map_eq_some_iff.mp hstep
    rw [he, ← hk1]
    exact (hf.step hset.turning hl (hset.wakes e) hs).1
  exact (hk.2.step hk.1.turning hlegal (hk.1.wakes e) hs).2 hswitch

def blankLog : SwitchLog where
  kernel := blankBoot
  frames := update (fun _ _ => 0) 110
    (kernelTaskParams 64 0x1200000 0x1100000 0 56 0x200 4096 (-1) (-1) (-1)).frame

theorem switchStarted_blankLog : SwitchStarted blankLog :=
  ⟨blank, ⟨100, 110, 0, 200, 210, 0, 300⟩, ⟨fun _ => rfl, rfl, rfl, rfl, fun _ => rfl, rfl⟩,
    by decide, by decide, rfl, rfl⟩

theorem switchStep_of_handle {s : SwitchLog} {regs out : Frame} {e : KernelEvent}
    (hs : s.kernel.handle regs e = some (k', out)) :
    SwitchStep s (regs, e) ⟨k', s.kernel.framesAfter regs s.frames e⟩ :=
  ⟨Option.map_eq_some_iff.mpr ⟨(k', out), hs, rfl⟩, rfl⟩

theorem handle_switch (k : Kernel) (regs : Frame) :
    k.handle regs .switch = some ((k.doSwitch regs).1, (k.doSwitch regs).2) := rfl

theorem switches_switch (k : Kernel) : k.switches .switch = true := rfl

/-- `init` makes a module, is switched out, and goes on with its own registers. -/
theorem switch_transparent_init : ∃ (k' : Kernel) (out : Frame), k'.current = 210 ∧
    ∀ r : FrameReg, r.Own → out.get r = .ofNat r.word := by
  let x : Frame := .ofNat
  let y : Frame := fun _ => 77
  let create : KernelEvent := .createTask 400 410 (moduleParams 7 0) true
  let k1 := (blankBoot.createTask 400 410 (moduleParams 7 0)).initializeKmodTask 400
  let f1 := blankBoot.framesAfter x blankLog.frames create
  let s2 : SwitchLog := ⟨(k1.doSwitch x).1, k1.framesAfter x f1 .switch⟩
  let r := s2.kernel.doSwitch y
  have hl1 : Legal blankBoot create := by decide +kernel
  have h1 : SwitchStep blankLog (x, create) ⟨k1, f1⟩ := switchStep_of_handle rfl
  have hl2 : Legal k1 .switch := trivial
  have h2 : SwitchStep ⟨k1, f1⟩ (x, .switch) s2 := switchStep_of_handle (handle_switch k1 x)
  have hrun : Run SwitchStarted (Guarded (fun s e => Legal s.kernel e.2) SwitchStep)
      [(x, create), (x, .switch)] s2 :=
    .snoc (.snoc (.start switchStarted_blankLog) ⟨hl1, h1⟩) ⟨hl2, h2⟩
  have hl3 : Legal s2.kernel .switch := trivial
  have hs : s2.kernel.handle y .switch = some (r.1, r.2) := handle_switch s2.kernel y
  have hresumes := switch_transparent hrun hl3 hs (switches_switch s2.kernel)
  have hcur : r.1.current = 210 ∧ k1.current = 210 ∧ s2.kernel.current = 410 := by decide +kernel
  refine ⟨r.1, r.2, hcur.1, fun s hs => (hresumes.1 s hs).trans ?_⟩
  change update (update f1 k1.current x.get) s2.kernel.current y.get r.1.current s = _
  rw [hcur.1, hcur.2.1, hcur.2.2]
  rfl

end Kernel

end TayHuang
