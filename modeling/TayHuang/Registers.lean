import Mathlib.Logic.Function.Basic

/-! The interrupt frame and the registers of a thread that does not run:
init_int.h, thread.h and the two copies of task_scheduler.c. A structure is the
row of its words. -/

namespace TayHuang

/-- The fields of `struct intterup_args`, in order. -/
inductive FrameReg
  | r15 | r14 | r13 | r12 | r11 | r10 | r9 | r8 | rdi | rsi | rdx | rcx | rbx | rax
  | gs | fs | es | ds | pgd | rbp | ist | rip | cs | rflags | rsp | ss
  deriving DecidableEq, Repr

/-- The fields of `register_info_struct.basic`, in order. -/
inductive BasicReg
  | r15 | r14 | r13 | r12 | r11 | r10 | r9 | r8 | rdi | rsi | rdx | rcx | rbx | rax
  | gs | fs | es | ds
  deriving DecidableEq, Repr

/-- The word of a frame that a field names. -/
def FrameReg.word (r : FrameReg) : Nat := r.ctorIdx

def BasicReg.word (r : BasicReg) : Nat := r.ctorIdx

/-- What the processor pushes for an interrupt, and `int_x64_pushad` after it. -/
def pushes : List FrameReg :=
  [.ss, .rsp, .rflags, .cs, .rip, .ist, .rbp, .pgd, .ds, .es, .fs, .gs, .rax, .rbx, .rcx, .rdx, .rsi,
    .rdi, .r8, .r9, .r10, .r11, .r12, .r13, .r14, .r15]

/-- What `int_x64_popad` and `iretq` pop. -/
def pops : List FrameReg :=
  [.r15, .r14, .r13, .r12, .r11, .r10, .r9, .r8, .rdi, .rsi, .rdx, .rcx, .rbx, .rax, .gs, .fs, .es,
    .ds, .pgd, .rbp, .ist, .rip, .cs, .rflags, .rsp, .ss]

/-- The struct has the words in the order in which they are pushed and popped. -/
theorem frame_layout : pushes.reverse = pops ∧ pops.map FrameReg.word = List.range 26 := by
  decide

/-- The number of words of `register_info_struct.basic`. -/
def basicWords : Nat := 18

abbrev Frame := Nat → UInt64

structure RegisterInfo where
  basic : Nat → UInt64
  rbp : UInt64
  rsp : UInt64
  ss : UInt64
  rip : UInt64
  cs : UInt64
  rflags : UInt64

def Frame.get (regs : Frame) (r : FrameReg) : UInt64 := regs r.word

def Frame.set (regs : Frame) (r : FrameReg) (x : UInt64) : Frame := Function.update regs r.word x

/-- `memcpy` of the first `n` words. -/
def copyWords (n : Nat) (dst src : Nat → UInt64) : Nat → UInt64 :=
  fun i => if i < n then src i else dst i

/-- What `down_thread` keeps of a frame. -/
def saveRegisters (old : RegisterInfo) (regs : Frame) : RegisterInfo where
  basic := copyWords basicWords old.basic regs
  rbp := regs.get .rbp
  rsp := regs.get .rsp
  ss := regs.get .ss
  rip := regs.get .rip
  cs := regs.get .cs
  rflags := regs.get .rflags

/-- What `up_thread` makes of the frame. -/
def loadRegisters (saved : RegisterInfo) (pgd : UInt64) (regs : Frame) : Frame :=
  let regs : Frame := copyWords basicWords regs saved.basic
  let regs := regs.set .rbp saved.rbp
  let regs := regs.set .rsp saved.rsp
  let regs := regs.set .ss saved.ss
  let regs := regs.set .cs saved.cs
  let regs := regs.set .rip saved.rip
  let regs := regs.set .rflags saved.rflags
  regs.set .pgd pgd

/-- The word of a saved thread that a register of the frame goes to. -/
def RegisterInfo.get (saved : RegisterInfo) : FrameReg → UInt64
  | .rbp => saved.rbp
  | .rsp => saved.rsp
  | .ss => saved.ss
  | .rip => saved.rip
  | .cs => saved.cs
  | .rflags => saved.rflags
  | r => saved.basic r.word

/-- The registers of a thread, as opposed to its page tables and the interrupt's stack. -/
def FrameReg.Own (r : FrameReg) : Prop := r ≠ .pgd ∧ r ≠ .ist

theorem get_saveRegisters {r : FrameReg} (hr : r.Own) (old : RegisterInfo) (regs : Frame) :
    (saveRegisters old regs).get r = regs.get r := by
  obtain ⟨hpgd, hist⟩ := hr
  cases r <;> first | rfl | exact absurd rfl hpgd | exact absurd rfl hist

theorem get_loadRegisters {r : FrameReg} (hr : r.Own) (saved : RegisterInfo) (pgd : UInt64)
    (regs : Frame) : (loadRegisters saved pgd regs).get r = saved.get r := by
  obtain ⟨hpgd, hist⟩ := hr
  cases r <;> first | rfl | exact absurd rfl hpgd | exact absurd rfl hist

theorem get_loadRegisters_pgd (saved : RegisterInfo) (pgd : UInt64) (regs : Frame) :
    (loadRegisters saved pgd regs).get .pgd = pgd := rfl

end TayHuang
