import TayHuang.InterruptFrames
import TayHuang.ReadyOrder

/-! The threads of the kernel on the machine: an interrupt goes through the code of
int_handlers.S into the kernel and out again, to the thread that runs then. -/

namespace TayHuang

open Function (update)
open Runs

namespace IntHandlers

variable {e : KernelEvent} {code : Option UInt64} {insns : List Insn} {m m' : Machine}

/-- The vectors with `errcode_exception`. -/
def errcodeVectors : List Nat := [8, 10, 11, 12, 13, 14, 17, 21, 29, 30]

/-- What the processor pushes for an event, and the code up to the call. Interrupt 0 is
the clock. -/
inductive Prologue : KernelEvent → Option UInt64 → List Insn → Prop
  | syscall (fuel : Nat) (call : Syscall) : Prologue (.syscall fuel call) none syscallHandler
  | clock : Prologue .clock none (irqHandler 0)
  | irq (irq : Nat) (reserved : UInt8) (src : Nat) (h : 0 < irq ∧ irq < 16) :
    Prologue (.irq irq reserved src) none (irqHandler (.ofNat irq))
  | nonerrcode (vector : Nat) (h : vector < 32 ∧ vector ∉ errcodeVectors) :
    Prologue .exception none (nonerrcodeException (.ofNat vector))
  | errcode (vector : Nat) (code : UInt64) (h : vector ∈ errcodeVectors) :
    Prologue .exception (some code) (errcodeException (.ofNat vector))

/-- What the code loads for the call does not touch the frame. -/
theorem frame_of_pushad {f : FrameReg → UInt64} {low : UInt64} {call : List Insn}
    (h : (m.run intX64Pushad).rsp = low ∧ ∀ r : FrameReg, (m.run intX64Pushad).frameIn.get r = f r)
    (hcall : ∀ m : Machine, (m.run call).rsp = m.rsp ∧ (m.run call).mem = m.mem) :
    (m.run (intX64Pushad ++ call)).rsp = low ∧
      ∀ r : FrameReg, (m.run (intX64Pushad ++ call)).frameIn.get r = f r := by
  rw [Machine.run_append]
  obtain ⟨hrsp, hmem⟩ := hcall (m.run intX64Pushad)
  refine ⟨hrsp.trans h.1, fun r => ?_⟩
  rw [← h.2 r]
  simp only [Frame.get, Machine.frameIn, hrsp, hmem]

/-- Every handler gets the registers of the thread that it interrupts. -/
theorem Prologue.frame (h : Prologue e code insns) (m : Machine) (top handler : UInt64)
    (cs : UInt16) : ((m.interrupted top code handler cs).run insns).rsp = top - 208 ∧
      ∀ r : FrameReg, ((m.interrupted top code handler cs).run insns).frameIn.get r =
        m.frameOf top r := by
  cases h with
  | syscall fuel call =>
    exact frame_of_pushad (Machine.Entered.interrupted m top handler cs).pushad
      fun _ => ⟨rfl, rfl⟩
  | clock =>
    exact frame_of_pushad (Machine.Entered.interrupted m top handler cs).pushad
      fun _ => ⟨rfl, rfl⟩
  | irq irq reserved src h =>
    exact frame_of_pushad (Machine.Entered.interrupted m top handler cs).pushad
      fun _ => ⟨rfl, rfl⟩
  | nonerrcode vector h =>
    rw [nonerrcodeException, List.append_assoc, Machine.run_append]
    exact frame_of_pushad (Machine.Entered.nonerrcode m top handler cs).1.pushad
      fun _ => ⟨rfl, rfl⟩
  | errcode vector code h =>
    rw [errcodeException, List.append_assoc, Machine.run_append]
    exact frame_of_pushad (Machine.Entered.errcode m top handler code cs).1.pushad
      fun _ => ⟨rfl, rfl⟩

/-- A handler has returned to the code that called it, with this frame. -/
def Returned (m m' : Machine) (out : Frame) : Prop :=
  m'.rsp = m.rsp ∧ ∀ r : FrameReg, m'.frameIn.get r = out.get r

end IntHandlers

namespace Kernel

open IntHandlers (Context contextOf)

variable {k k' : Kernel} {l : List Nat} {frames : Frames} {regs out : Frame} {e : KernelEvent}

/-- The frame after an event that does not switch. -/
def answered (k : Kernel) (regs : Frame) : KernelEvent → Frame
  | .syscall fuel call =>
    match k.syscall fuel call with
    | none => regs
    | some (_, r) => regs.set .rax r
  | _ => regs

/-- No event touches the word that `int_x64_popad` pops into `rsp`. -/
theorem afterSyscall_ist (k : Kernel) (regs : Frame) :
    (k.afterSyscall regs).2.get .ist = regs.get .ist := by
  unfold afterSyscall
  split
  · rw [doSwitch_frame]
    rfl
  · rfl

theorem handle_ist (hs : k.handle regs e = some (k', out)) : out.get .ist = regs.get .ist := by
  cases e with
  | syscall fuel call =>
    obtain ⟨⟨k1, r⟩, -, he⟩ := Option.map_eq_some_iff.mp hs
    rw [← (Prod.mk.inj he).2]
    exact afterSyscall_ist k1 (regs.set .rax r)
  | clock =>
    have hout : out = (k.clockIntHandler regs).2 :=
      (congrArg Prod.snd (Option.some.inj hs)).symm
    rw [hout]
    unfold clockIntHandler
    split
    · exact afterSyscall_ist k regs
    · rfl
  | switch =>
    have hout : out = (k.doSwitch regs).2 := (congrArg Prod.snd (Option.some.inj hs)).symm
    rw [hout, doSwitch_frame]
    rfl
  | irq irq reserved src =>
    obtain ⟨k1, -, he⟩ := Option.map_eq_some_iff.mp hs
    rw [← (Prod.mk.inj he).2]
  | exception =>
    rw [← (Prod.mk.inj (Option.some.inj hs)).2]
    exact afterSyscall_ist ..
  | createTask p t a kmod => rw [← (Prod.mk.inj (Option.some.inj hs)).2]

theorem pgd_of_light (h : Light k k') : k'.current = k.current ∧
    (k'.task k'.currentTask).pgd = (k.task k.currentTask).pgd := by
  obtain ⟨_, _, _, _, _, _, _, _, _, rfl, -⟩ := h
  exact ⟨rfl, rfl⟩

theorem afterSyscall_calm (h : k.shouldSwitch = false) (regs : Frame) :
    k.afterSyscall regs = (k, regs) := by
  rw [afterSyscall, h]
  rfl

theorem pgd_of_createTask {p t : Nat} {a : TaskParams} {kmod : Bool}
    (hp : p ≠ k.currentTask) (ht : t ≠ k.current)
    (hs : k.handle regs (.createTask p t a kmod) = some (k', out)) :
    k'.current = k.current ∧ (k'.task k'.currentTask).pgd = (k.task k.currentTask).pgd := by
  have hnew : (k.createTask p t a).current = k.current ∧
      (k.createTask p t a).owner k.current = k.currentTask ∧
        (k.createTask p t a).task k.currentTask = k.task k.currentTask := by
    unfold createTask
    obtain ⟨freeNext, level0, he⟩ := enqueueThread_eq ((k.__createTask p t a).addTask p)
      (((k.__createTask p t a).addTask p).task p).threads
    rw [he]
    refine ⟨rfl, Function.update_of_ne ht.symm .., ?_⟩
    simp [__createTask, addTask, createThreadInfo, Function.update_of_ne hp.symm]
  have hk : k' = if kmod then (k.createTask p t a).initializeKmodTask p else k.createTask p t a :=
    (congrArg Prod.fst (Option.some.inj hs)).symm
  obtain ⟨hcur, hown, htask⟩ := hnew
  have htask' : k'.current = k.current ∧ k'.owner = (k.createTask p t a).owner ∧
      k'.task = (k.createTask p t a).task := by
    rw [hk]
    cases kmod
    · exact ⟨hcur, rfl, rfl⟩
    · exact ⟨hcur, rfl, rfl⟩
  obtain ⟨h1, h2, h3⟩ := htask'
  refine ⟨h1, ?_⟩
  rw [currentTask, h1, h2, h3, hown, htask]

/-- Without a switch the thread goes on in its own page tables. -/
theorem handle_calm (hset : Turning k) (hlegal : Legal k e) (hs : k.handle regs e = some (k', out))
    (hsw : k.switches e = false) : k'.current = k.current ∧
      (k'.task k'.currentTask).pgd = (k.task k.currentTask).pgd ∧ out = k.answered regs e := by
  obtain ⟨l, hsched, hlive, hrun⟩ := hset
  cases e with
  | syscall fuel call =>
    obtain ⟨⟨k1, r⟩, hk, he⟩ := Option.map_eq_some_iff.mp hs
    simp only [switches, hk] at hsw
    rw [afterSyscall_calm hsw] at he
    obtain ⟨rfl, rfl⟩ := Prod.mk.inj he
    obtain ⟨hcur, -, hown, curTid, stackBottom, htask⟩ := syscall_task hlive hlegal hk
    refine ⟨hcur, by rw [hown, htask], ?_⟩
    simp only [answered, hk]
  | clock =>
    have he : k.clockIntHandler regs = (k', out) := Option.some.inj hs
    simp only [switches, hsched.schedules, Bool.true_and] at hsw
    simp only [clockIntHandler, hsched.schedules, if_true, afterSyscall_calm hsw] at he
    obtain ⟨rfl, rfl⟩ := Prod.mk.inj he
    split
    · exact ⟨rfl, rfl, rfl⟩
    · exact ⟨rfl, rfl, rfl⟩
  | switch => exact absurd hsw (by simp [switches])
  | irq irq reserved src =>
    obtain ⟨k1, hk, he⟩ := Option.map_eq_some_iff.mp hs
    obtain ⟨rfl, rfl⟩ := Prod.mk.inj he
    obtain ⟨h1, h2⟩ := pgd_of_light (.irq hk)
    exact ⟨h1, h2, rfl⟩
  | exception =>
    have he : (k.setState k.current .exception).afterSyscall regs = (k', out) := Option.some.inj hs
    rw [afterSyscall_calm hsw] at he
    obtain ⟨rfl, rfl⟩ := Prod.mk.inj he
    exact ⟨rfl, rfl, rfl⟩
  | createTask p t a kmod =>
    have hout : out = regs := (Prod.mk.inj (Option.some.inj hs)).2.symm
    obtain ⟨hnew, hp, hpe⟩ := hlegal
    have htc : t ≠ k.current := fun he => Bool.false_ne_true (hnew.symm.trans (he ▸ hlive))
    have hpc : p ≠ k.currentTask := by
      rintro rfl
      exact (hsched.owners _ hlive).elim hp hpe
    obtain ⟨h1, h2⟩ := pgd_of_createTask hpc htc hs
    exact ⟨h1, h2, hout⟩

theorem FramesOk.overwritten {junk : Kernel} (h : FramesOk k frames) :
    FramesOk (k.overwritten junk) frames := by
  intro t ht htc r hr
  have hl : k.live t = true := ht
  have hreg : (k.overwritten junk).registers t = k.registers t := if_pos hl
  rw [hreg]
  exact h t hl htc r hr

theorem pgd_overwritten {junk : Kernel} (hset : Turning k) :
    ((k.overwritten junk).task (k.overwritten junk).currentTask).pgd = (k.task k.currentTask).pgd := by
  obtain ⟨l, -, hlive, -⟩ := hset
  have hown : (k.overwritten junk).currentTask = k.currentTask := overwritten_owner hlive
  rw [hown]
  rfl

end Kernel

namespace IntHandlers

open Kernel

/-- The registers with which the threads are to go on. -/
abbrev Contexts := Nat → Context

def Context.withRax (c : Context) (x : UInt64) : Context := { c with gpr := update c.gpr .rax x }

def contextsCreated (k : Kernel) (contexts : Contexts) : Syscall → Contexts
  | .createThread t entry args =>
    update contexts t (contextOf (threadFrame (k.task k.currentTask) entry args))
  | _ => contexts

/-- After an event that finds the running thread with the registers `c`: a call changes
`rax`, and a new thread starts with the registers of its task. -/
def contextsAfter (k : Kernel) (c : Context) (contexts : Contexts) : KernelEvent → Contexts
  | .syscall fuel call =>
    match k.syscall fuel call with
    | none => contexts
    | some (_, r) => update (contextsCreated k contexts call) k.current (c.withRax r)
  | .createTask _ t a kmod => update contexts t (contextOf (if kmod then a.kmodFrame else a.frame))
  | _ => update contexts k.current c

/-- The processor and the kernel; `contexts` is not part of the machine. -/
structure Cpu where
  kernel : Kernel
  machine : Machine
  contexts : Contexts

/-- `own`: the running thread computes. `call`: it makes a task, which is not an
interrupt. `interrupt`: at `top` the words of an interrupt are pushed for the handler at
`handler`; `m'` is the machine when the handler has returned, whose code may have used
the x87 and SSE registers. -/
inductive CpuEvent
  | own (m' : Machine)
  | call (p t : Nat) (a : TaskParams) (kmod : Bool) (m' : Machine)
  | interrupt (e : KernelEvent) (top handler : UInt64) (cs : UInt16) (code : Option UInt64)
    (insns : List Insn) (m' : Machine)

def CpuStep (s : Cpu) : CpuEvent → Cpu → Prop
  | .own m', s' => m'.cr3 = s.machine.cr3 ∧ s' = { s with machine := m' }
  | .call p t a kmod m', s' => m'.cr3 = s.machine.cr3 ∧ s'.machine = m' ∧
    ReusedStep s.kernel (fun _ => 0, .createTask p t a kmod) s'.kernel ∧
      s'.contexts = contextsAfter s.kernel s.machine.context s.contexts (.createTask p t a kmod)
  | .interrupt e top handler cs code insns m', s' => Prologue e code insns ∧ ∃ k1 junk out,
    s.kernel.handle ((s.machine.interrupted top code handler cs).run insns).frameIn e =
        some (k1, out) ∧
      s'.kernel = k1.overwritten junk ∧
      Returned ((s.machine.interrupted top code handler cs).run insns) m' out ∧
        s'.machine = m'.run leave ∧
          s'.contexts = contextsAfter s.kernel s.machine.context s.contexts e

def CpuLegal (s : Cpu) : CpuEvent → Prop
  | .own _ => True
  | .call p t a kmod _ => Legal s.kernel (.createTask p t a kmod)
  | .interrupt e .. => Legal s.kernel e ∧ KeepsOff s.kernel e

/-- `init` runs in its page tables. -/
def CpuStarted (s : Cpu) : Prop :=
  ∃ frames, SwitchStarted ⟨s.kernel, frames⟩ ∧ (s.contexts = fun t => contextOf (frames t)) ∧
    s.machine.cr3 = .ofNat (s.kernel.task s.kernel.currentTask).pgd

/-- The frames of the stopped threads hold their registers, and `cr3` the page tables of
the thread that runs. -/
def CpuOk (s : Cpu) : Prop :=
  Turning s.kernel ∧ s.machine.cr3 = .ofNat (s.kernel.task s.kernel.currentTask).pgd ∧
    ∃ frames, FramesOk s.kernel frames ∧
      ∀ t, t ≠ s.kernel.current → contextOf (frames t) = s.contexts t

variable {k k' : Kernel} {frames : Frames} {contexts : Contexts} {regs out : Frame} {s s' : Cpu}

theorem contextOf_congr {f g : FrameReg → UInt64} (h : ∀ r : FrameReg, r.Own → f r = g r) :
    contextOf f = contextOf g := by
  have hreg : ∀ r : Reg, r.frame.Own := by
    intro r
    cases r <;> exact ⟨nofun, nofun⟩
  have hseg : ∀ r : SegReg, r.frame.Own := by
    intro r
    cases r <;> exact ⟨nofun, nofun⟩
  refine Context.ext (funext fun r => h _ (hreg r)) (h _ ⟨nofun, nofun⟩)
    (funext fun r => congrArg UInt64.toUInt16 (h _ (hseg r))) (h _ ⟨nofun, nofun⟩) ?_ ?_
    (h _ ⟨nofun, nofun⟩)
  · exact congrArg UInt64.toUInt16 (h _ ⟨nofun, nofun⟩)
  · exact congrArg UInt64.toUInt16 (h _ ⟨nofun, nofun⟩)

theorem contextOf_set_rax (regs : Frame) (x : UInt64) :
    contextOf (regs.set .rax x).get = (contextOf regs.get).withRax x := by
  refine Context.ext (funext fun r => ?_) rfl (funext fun r => ?_) rfl rfl rfl rfl
  · cases r <;> rfl
  · cases r <;> rfl

theorem contextsCreated_eq (h : ∀ t, t ≠ k.current → contextOf (frames t) = contexts t)
    (call : Syscall) {t : Nat} (ht : t ≠ k.current) :
    contextOf (k.framesCreated frames call t) = contextsCreated k contexts call t := by
  cases call with
  | createThread u entry args =>
    simp only [framesCreated, contextsCreated]
    by_cases hu : t = u
    · rw [hu, Function.update_self, Function.update_self]
    · rw [Function.update_of_ne hu, Function.update_of_ne hu]
      exact h t ht
  | _ => exact h t ht

/-- One thread is stopped with `c`, if there is a switch. -/
theorem stopped_eq {frames' : Frames} {contexts' : Contexts} {k1 : Kernel} {c : Context}
    (h : ∀ t, t ≠ k.current → contextOf (frames' t) = contexts' t) (hcur : k1.current = k.current)
    (hc : contextOf regs.get = c) (t : Nat) (ht : t ≠ k.current ∨ k1.shouldSwitch = true) :
    contextOf (k1.stopped regs frames' t) = update contexts' k.current c t := by
  unfold stopped
  by_cases htc : t = k.current
  · rw [if_pos (ht.resolve_left fun hn => hn htc), hcur, htc, Function.update_self,
      Function.update_self, hc]
  · rw [Function.update_of_ne htc, ← h t htc]
    split
    · rw [hcur, Function.update_of_ne htc]
    · rfl

/-- What the frames of the threads and their registers go through in one event. -/
theorem contextsAfter_eq {e : KernelEvent} {c : Context} (hset : Turning k)
    (h : ∀ t, t ≠ k.current → contextOf (frames t) = contexts t) (hc : contextOf regs.get = c)
    (hlegal : Legal k e) (hs : k.handle regs e = some (k', out)) (t : Nat)
    (ht : t ≠ k.current ∨ k.switches e = true) :
    contextOf (k.framesAfter regs frames e t) = contextsAfter k c contexts e t := by
  obtain ⟨l, hsched, hlive, hrun⟩ := hset
  cases e with
  | syscall fuel call =>
    obtain ⟨⟨k1, r⟩, hk, -⟩ := Option.map_eq_some_iff.mp hs
    have hcur := (syscall_task hlive hlegal hk).1
    simp only [framesAfter, contextsAfter, switches, hk] at ht ⊢
    exact stopped_eq (fun t ht => contextsCreated_eq h call ht) hcur
      ((contextOf_set_rax regs r).trans (congrArg (Context.withRax · r) hc)) t ht
  | clock =>
    simp only [framesAfter, contextsAfter, switches, hsched.schedules, if_true, Bool.true_and] at ht ⊢
    exact stopped_eq h rfl hc t ht
  | switch =>
    simp only [framesAfter, contextsAfter]
    by_cases htc : t = k.current
    · rw [htc, Function.update_self, Function.update_self, hc]
    · rw [Function.update_of_ne htc, Function.update_of_ne htc, h t htc]
  | irq irq reserved src =>
    have htc : t ≠ k.current := ht.resolve_right (by simp [switches])
    simp only [framesAfter, contextsAfter]
    rw [Function.update_of_ne htc, h t htc]
  | exception =>
    have hcur : (k.setState k.current .exception).current = k.current := rfl
    exact stopped_eq h hcur hc t ht
  | createTask p u a kmod =>
    have htc : t ≠ k.current := ht.resolve_right (by simp [switches])
    simp only [framesAfter, contextsAfter]
    by_cases hu : t = u
    · rw [hu, Function.update_self, Function.update_self]
    · rw [Function.update_of_ne hu, Function.update_of_ne hu, h t htc]

theorem answered_eq (contexts : Contexts) {e : KernelEvent} {c : Context} (hc : contextOf regs.get = c)
    (hs : k.handle regs e = some (k', out)) (he : ∀ p t a kmod, e ≠ .createTask p t a kmod) :
    contextOf (k.answered regs e).get = contextsAfter k c contexts e k.current ∧
      (k.answered regs e).get .pgd = regs.get .pgd := by
  cases e with
  | syscall fuel call =>
    obtain ⟨⟨k1, r⟩, hk, -⟩ := Option.map_eq_some_iff.mp hs
    simp only [Kernel.answered, contextsAfter, hk, Function.update_self]
    exact ⟨(contextOf_set_rax regs r).trans (congrArg (Context.withRax · r) hc), rfl⟩
  | createTask p t a kmod => exact absurd rfl (he p t a kmod)
  | clock | switch | irq | exception =>
    simp only [Kernel.answered, contextsAfter, Function.update_self, and_true]
    exact hc

theorem Prologue.not_createTask {e : KernelEvent} {code : Option UInt64} {insns : List Insn}
    (h : Prologue e code insns) (p t : Nat) (a : TaskParams) (kmod : Bool) :
    e ≠ .createTask p t a kmod := by
  cases h <;> nofun

/-- The frame that a handler returns, in terms of the threads. -/
theorem handle_contexts {e : KernelEvent} {c : Context} {cr3 : UInt64} (hset : Turning k)
    (hframes : FramesOk k frames) (h : ∀ t, t ≠ k.current → contextOf (frames t) = contexts t)
    (hc : contextOf regs.get = c) (hpgd : regs.get .pgd = cr3)
    (hcr3 : cr3 = .ofNat (k.task k.currentTask).pgd) (hlegal : Legal k e) (hwakes : WakesThread k e)
    (he : ∀ p t a kmod, e ≠ .createTask p t a kmod) (hs : k.handle regs e = some (k', out)) :
    (∃ frames', FramesOk k' frames' ∧
      ∀ t, t ≠ k'.current → contextOf (frames' t) = contextsAfter k c contexts e t) ∧
    contextOf out.get = contextsAfter k c contexts e k'.current ∧
      out.get .pgd = .ofNat (k'.task k'.currentTask).pgd := by
  obtain ⟨hframes', hresumes⟩ := hframes.step hset hlegal hwakes hs
  have htracked := contextsAfter_eq hset h hc hlegal hs
  cases hsw : k.switches e with
  | true =>
    obtain ⟨hown, hpgd'⟩ := hresumes hsw
    refine ⟨⟨_, hframes', fun t _ => htracked t (.inr hsw)⟩, ?_, hpgd'⟩
    rw [← htracked _ (.inr hsw)]
    exact contextOf_congr hown
  | false =>
    obtain ⟨hcur, hsame, hout⟩ := handle_calm hset hlegal hs hsw
    obtain ⟨hanswer, hkept⟩ := answered_eq contexts hc hs he
    refine ⟨⟨_, hframes', fun t ht => htracked t (.inl (hcur ▸ ht))⟩, ?_, ?_⟩
    · rw [hout, hcur, hanswer]
    · rw [hout, hkept, hpgd, hcr3, hsame]

/-- One interrupt: into the kernel with one thread, and out of it with the registers and
the page tables of the thread that runs then. -/
theorem CpuOk.interrupt {e : KernelEvent} {top handler : UInt64} {cs : UInt16}
    {code : Option UInt64} {insns : List Insn} {m' : Machine} (h : CpuOk s)
    (hlegal : Legal s.kernel e) (hoff : KeepsOff s.kernel e)
    (hs : CpuStep s (.interrupt e top handler cs code insns m') s') :
    CpuOk s' ∧ s'.machine.context = s'.contexts s'.kernel.current ∧ s'.machine.sse = m'.sse := by
  obtain ⟨hset, hcr3, frames, hframes, htracked⟩ := h
  obtain ⟨hprologue, k1, junk, out, hk, hkernel, ⟨hrsp, hframe⟩, hmachine, hcontexts⟩ := hs
  obtain ⟨hlow, hregs⟩ := hprologue.frame s.machine top handler cs
  have hget : (Machine.run insns (s.machine.interrupted top code handler cs)).frameIn.get =
      s.machine.frameOf top := funext hregs
  have hc : contextOf (Machine.run insns (s.machine.interrupted top code handler cs)).frameIn.get =
      s.machine.context := by rw [hget, Machine.context_frameOf]
  have hist : m'.frameIn.get .ist = m'.rsp + 168 := by
    rw [hframe, handle_ist hk, hregs, hrsp, hlow]
    change top - 40 = top - 208 + 168
    grind
  obtain ⟨hleft, hleftCr3⟩ := Machine.leave_spec m' hist
  obtain ⟨⟨frames', hframes', htracked'⟩, hcontext, hpgd⟩ := handle_contexts hset hframes htracked hc
    (hregs .pgd) hcr3 hlegal hoff.wakes hprologue.not_createTask hk
  have hout : contextOf m'.frameIn.get = contextOf out.get := contextOf_congr fun r _ => hframe r
  have hstep : Step s.kernel
      ((Machine.run insns (s.machine.interrupted top code handler cs)).frameIn, e) k1 :=
    Option.map_eq_some_iff.mpr ⟨_, hk, rfl⟩
  have hset1 : Turning k1 := hset.step hlegal hoff.wakes hstep
  have hcr3' : out.get .pgd = .ofNat (s'.kernel.task s'.kernel.currentTask).pgd := by
    rw [hpgd, hkernel, pgd_overwritten hset1]
  rw [CpuOk, hmachine, hcontexts, hleft, hleftCr3, hout, hframe]
  refine ⟨⟨?_, hcr3', frames', ?_, ?_⟩, ?_, Machine.run_sse ..⟩
  · exact hkernel ▸ hset1.overwritten
  · exact hkernel ▸ hframes'.overwritten
  · exact hkernel ▸ htracked'
  · exact hkernel ▸ hcontext

theorem CpuOk.call {p t : Nat} {a : TaskParams} {kmod : Bool} {m' : Machine} (h : CpuOk s)
    (hlegal : Legal s.kernel (.createTask p t a kmod)) (hs : CpuStep s (.call p t a kmod m') s') :
    CpuOk s' := by
  obtain ⟨hset, hcr3, frames, hframes, htracked⟩ := h
  obtain ⟨hsame, hmachine, ⟨k1, junk, hstep, hkernel⟩, hcontexts⟩ := hs
  have hwakes : WakesThread s.kernel (.createTask p t a kmod) := by simp [WakesThread, woken]
  obtain ⟨⟨k2, out⟩, hk, rfl⟩ := Option.map_eq_some_iff.mp hstep
  obtain ⟨hcur, hpgd, -⟩ := handle_calm hset hlegal hk rfl
  have hset1 : Turning k2 := hset.step hlegal hwakes hstep
  rw [CpuOk, hkernel]
  refine ⟨hset1.overwritten, ?_, _, (hframes.step hset hlegal hwakes hk).1.overwritten,
    fun u hu => ?_⟩
  · rw [hmachine, hsame, hcr3, pgd_overwritten hset1, hpgd]
  · rw [hcontexts]
    exact contextsAfter_eq hset htracked rfl hlegal hk u (.inl (hcur ▸ hu))

theorem CpuOk.step {e : CpuEvent} (h : CpuOk s) (hlegal : CpuLegal s e) (hs : CpuStep s e s') :
    CpuOk s' := by
  cases e with
  | own m' =>
    obtain ⟨hsame, rfl⟩ := hs
    obtain ⟨hset, hcr3, hframes⟩ := h
    exact ⟨hset, hsame.trans hcr3, hframes⟩
  | call p t a kmod m' => exact h.call hlegal hs
  | interrupt e top handler cs code insns m' => exact (h.interrupt hlegal.1 hlegal.2 hs).1

theorem CpuOk.start (h : CpuStarted s) : CpuOk s := by
  obtain ⟨frames, hstart, hcontexts, hcr3⟩ := h
  exact ⟨(Settled.of_start hstart).turning, hcr3, frames, .start hstart, fun t _ => by rw [hcontexts]⟩

/-- Whatever runs in between, a thread goes on with the registers that it had, in the page
tables of its task. The x87 and SSE registers are as the handler left them. -/
theorem threads_undisturbed {es : List CpuEvent} {e : KernelEvent} {top handler : UInt64}
    {cs : UInt16} {code : Option UInt64} {insns : List Insn} {m' : Machine}
    (h : Run CpuStarted (Guarded CpuLegal CpuStep) es s) (hlegal : Legal s.kernel e)
    (hoff : KeepsOff s.kernel e) (hs : CpuStep s (.interrupt e top handler cs code insns m') s') :
    s'.machine.context = s'.contexts s'.kernel.current ∧
      s'.machine.cr3 = .ofNat (s'.kernel.task s'.kernel.currentTask).pgd ∧
        s'.machine.sse = m'.sse := by
  have hok : CpuOk s := h.invariant (I := fun _ s => CpuOk s) (fun _ => .start)
    fun _ _ _ _ hok hs => hok.step hs.1 hs.2
  obtain ⟨⟨-, hcr3, -⟩, hcontext, hsse⟩ := hok.interrupt hlegal hoff hs
  exact ⟨hcontext, hcr3, hsse⟩

/-- A handler can return with any frame. -/
theorem exists_returned (m : Machine) (out : Frame) : ∃ m', Returned m m' out := by
  refine ⟨{ m with mem := fun a => out ((a - m.rsp).toNat / 8) }, rfl, fun r => ?_⟩
  have hword : r.word < 26 := by cases r <;> decide
  have hat : m.rsp + 8 * UInt64.ofNat r.word - m.rsp = 8 * UInt64.ofNat r.word := by grind
  have h8 : (8 : UInt64).toNat = 8 := rfl
  change out ((m.rsp + 8 * UInt64.ofNat r.word - m.rsp).toNat / 8) = out r.word
  rw [hat, UInt64.toNat_mul, UInt64.toNat_ofNat', h8]
  congr 1
  omega

theorem exists_interrupt {e : KernelEvent} {code : Option UInt64} {insns : List Insn} (s : Cpu)
    (hp : Prologue e code insns) (top handler : UInt64) (cs : UInt16) {k' : Kernel} {out : Frame}
    (hk : s.kernel.handle ((s.machine.interrupted top code handler cs).run insns).frameIn e =
      some (k', out)) :
    ∃ m' s', CpuStep s (.interrupt e top handler cs code insns m') s' ∧ s'.kernel = k' ∧
      s'.contexts = contextsAfter s.kernel s.machine.context s.contexts e := by
  obtain ⟨m', hret⟩ := exists_returned ((s.machine.interrupted top code handler cs).run insns) out
  exact ⟨m', ⟨k', m'.run leave, contextsAfter s.kernel s.machine.context s.contexts e⟩,
    ⟨hp, k', k', out, hk, (overwritten_self k').symm, hret, rfl, rfl⟩, rfl, rfl⟩

def blankCpu : Cpu where
  kernel := blankBoot
  machine := ⟨fun _ => 7, 0x1400000, fun _ => 49, 4096, 0, 41, 49, 0x1200, fun _ => 0, 0, fun _ => 0⟩
  contexts t := contextOf (blankLog.frames t)

/-- `init` finds its mailbox empty, and the empty thread starts with its first registers. -/
theorem threads_undisturbed_init : ∃ s' : Cpu, s'.kernel.current = 110 ∧
    s'.machine.context = contextOf (blankLog.frames 110) ∧ s'.machine.cr3 = 4096 := by
  have hstart : CpuStarted blankCpu := ⟨_, switchStarted_blankLog, rfl, by decide +kernel⟩
  have hlegal : Legal blankCpu.kernel (.syscall 5 .checkIpc) := by decide +kernel
  have hoff : KeepsOff blankCpu.kernel (.syscall 5 .checkIpc) := by decide +kernel
  have hany : (blankCpu.kernel.handle ((blankCpu.machine.interrupted 0x1300000 none 0 41).run
      syscallHandler).frameIn (.syscall 5 .checkIpc)).any (fun x =>
        x.1.current = 110 ∧ (x.1.task x.1.currentTask).pgd = 4096) = true := by decide +kernel
  obtain ⟨⟨k', out⟩, hk, hnext⟩ := (Option.any_eq_true ..).mp hany
  rw [decide_eq_true_iff] at hnext
  obtain ⟨m', s', hs, rfl, hcontexts⟩ := exists_interrupt blankCpu (.syscall 5 .checkIpc)
    0x1300000 0 41 hk
  obtain ⟨hcontext, hcr3, -⟩ := threads_undisturbed (.start hstart) hlegal hoff hs
  refine ⟨s', hnext.1, ?_, hcr3.trans (congrArg UInt64.ofNat hnext.2)⟩
  have hcall : (blankBoot.syscall 5 .checkIpc).isSome := by decide +kernel
  obtain ⟨⟨k1, r⟩, hk⟩ := Option.isSome_iff_exists.mp hcall
  have hfirst : contextsAfter blankBoot blankCpu.machine.context blankCpu.contexts
      (.syscall 5 .checkIpc) 110 = blankCpu.contexts 110 := by
    simp only [contextsAfter, hk]
    exact Function.update_of_ne (by decide) ..
  rw [hcontext, hnext.1, hcontexts]
  exact hfirst

end IntHandlers

end TayHuang
