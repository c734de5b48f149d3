import TayHuang.Registers

/-! The code around `int $0x40`: `dosyscall` of dosyscall.S, which the kernel's own wrappers
call, and the stubs of libkmod, syscall.S. The stack of a caller is the row of its words from
the stack pointer on. -/

namespace TayHuang

open Function (update)

/-- The instructions that the stubs use, with the operands in the order of the source. -/
inductive Insn
  | movImm (imm : UInt64) (dst : FrameReg)
  | mov (src dst : FrameReg)
  | xchg (a b : FrameReg)
  | load (disp : Nat) (dst : FrameReg)
  | push (r : FrameReg)
  | pop (r : FrameReg)
  | int
  | ret
  deriving DecidableEq, Repr

structure Cpu where
  reg : FrameReg → UInt64
  stack : List UInt64

namespace Cpu

/-- What `int_x64_pushad` makes of the registers. -/
def frame (c : Cpu) : Frame := fun i => (pops.map c.reg).getD i 0

/-- The interrupt, when `syscall` returns `result`: the frame goes back into the registers. -/
def interrupt (c : Cpu) (result : UInt64) : Cpu := { c with reg := (c.frame.set .rax result).get }

def step (result : UInt64) (c : Cpu) : Insn → Cpu
  | .movImm imm dst => { c with reg := update c.reg dst imm }
  | .mov src dst => { c with reg := update c.reg dst (c.reg src) }
  | .xchg a b => { c with reg := update (update c.reg a (c.reg b)) b (c.reg a) }
  | .load disp dst => { c with reg := update c.reg dst (c.stack.getD (disp / 8) 0) }
  | .push r => { c with stack := c.reg r :: c.stack }
  | .pop r => ⟨update c.reg r (c.stack.headD 0), c.stack.tail⟩
  | .int => c.interrupt result
  | .ret => { c with stack := c.stack.tail }

def run (result : UInt64) (code : List Insn) (c : Cpu) : Cpu := code.foldl (step result) c

/-- The frame of the first interrupt. -/
def trap : List Insn → Cpu → Option Frame
  | [], _ => none
  | .int :: _, c => some c.frame
  | i :: is, c => trap is (c.step 0 i)

end Cpu

def dosyscall : List Insn :=
  [.push .rbx, .push .r12, .push .r13, .push .r14, .push .r15,
    .mov .rdi .rax, .mov .rsi .rbx, .xchg .rdx .rcx, .mov .r8 .rsi, .mov .r9 .rdi,
    .load 48 .r8, .load 56 .r9, .load 64 .r10, .load 72 .r11, .load 80 .r12, .load 88 .r13,
    .load 96 .r14, .load 104 .r15, .int,
    .pop .r15, .pop .r14, .pop .r13, .pop .r12, .pop .rbx, .ret]

namespace Libkmod

def moo : List Insn := [.movImm 0x00 .rax, .int, .ret]

def sendMsg : List Insn := [.movImm 0x01 .rax, .xchg .rdx .rcx, .mov .rdi .r8, .int, .ret]

def checkIpc : List Insn := [.movImm 0x02 .rax, .int, .ret]

def setAllow : List Insn := [.movImm 0x03 .rax, .mov .rdi .rdx, .int, .ret]

def recvMsg : List Insn := [.movImm 0x04 .rax, .int, .ret]

def testAndLock : List Insn := [.movImm 0x06 .rax, .int, .ret]

def setMailbuffer : List Insn := [.movImm 0x07 .rax, .mov .rsi .rcx, .int, .ret]

def createSignal : List Insn :=
  [.movImm 0x08 .rax, .mov .rdi .rcx, .mov .rdx .r8, .mov .rsi .rdx, .int, .ret]

def getSignals : List Insn := [.movImm 0x09 .rax, .mov .rdi .rdx, .int, .ret]

def upSignal : List Insn := [.movImm 0x0A .rax, .mov .rdi .rdx, .int, .ret]

def downSignal : List Insn := [.movImm 0x0B .rax, .mov .rdi .rdx, .int, .ret]

def isSoftSignal : List Insn := [.movImm 0x0C .rax, .mov .rdi .rdx, .int, .ret]

def regIrq : List Insn := [.movImm 0x10 .rax, .mov .rdi .rdx, .int, .ret]

/-- Its number is no system call of the kernel. -/
def exit : List Insn := [.movImm 0x11 .rax, .mov .rdi .rdx, .int, .ret]

def createThread : List Insn := [.movImm 0x20 .rax, .xchg .rsi .rdi, .int, .ret]

def exitThread : List Insn := [.movImm 0x21 .rax, .int, .ret]

end Libkmod

/-! ### Registers through an interrupt -/

namespace Cpu

variable {c : Cpu} {result : UInt64}

@[simp] theorem get_frame (c : Cpu) (r : FrameReg) : c.frame.get r = c.reg r := by
  cases r <;> rfl

theorem get_set (regs : Frame) (r r' : FrameReg) (x : UInt64) :
    (regs.set r x).get r' = if r' = r then x else regs.get r' := by
  unfold Frame.set Frame.get
  by_cases he : r' = r
  · rw [he, Function.update_self, if_pos rfl]
  · have hw : r'.word ≠ r.word := by
      intro hw
      exact he (by revert hw; cases r <;> cases r' <;> decide)
    rw [Function.update_of_ne hw, if_neg he]

@[simp] theorem interrupt_reg (c : Cpu) (result : UInt64) :
    (c.interrupt result).reg = update c.reg .rax result := by
  funext r
  simp only [interrupt, get_set, get_frame, Function.update_apply]

@[simp] theorem interrupt_stack (c : Cpu) (result : UInt64) :
    (c.interrupt result).stack = c.stack := rfl

/-- The registers that a function must leave as they were. -/
def calleeSaved : List FrameReg := [.rbx, .rbp, .r12, .r13, .r14, .r15]

/-- The code returned to its caller. -/
structure Returned (c c' : Cpu) (result : UInt64) : Prop where
  rax : c'.reg .rax = result
  saved : ∀ r ∈ calleeSaved, c'.reg r = c.reg r
  stack : c'.stack = c.stack.tail

/-- The frame of `dosyscall` has its arguments in the order of the parameters of `syscall`. -/
theorem dosyscall_trap {back : UInt64} {args rest : List UInt64} (hlen : args.length = 8)
    (hstack : c.stack = back :: (args ++ rest)) : ∃ regs, trap dosyscall c = some regs ∧
      [FrameReg.rax, .rbx, .rcx, .rdx, .rsi, .rdi].map regs.get =
        [FrameReg.rdi, .rsi, .rdx, .rcx, .r8, .r9].map c.reg ∧
      [FrameReg.r8, .r9, .r10, .r11, .r12, .r13, .r14, .r15].map regs.get = args := by
  obtain ⟨a1, a2, a3, a4, a5, a6, a7, a8, rfl⟩ : ∃ a1 a2 a3 a4 a5 a6 a7 a8 : UInt64,
      args = [a1, a2, a3, a4, a5, a6, a7, a8] := by
    match args, hlen with
    | [a1, a2, a3, a4, a5, a6, a7, a8], _ => exact ⟨a1, a2, a3, a4, a5, a6, a7, a8, rfl⟩
  refine ⟨_, rfl, ?_, ?_⟩
  · simp [step]
  · simp [step, hstack]

theorem dosyscall_returns (result : UInt64) (c : Cpu) :
    Returned c (c.run result dosyscall) result := by
  refine ⟨?_, ?_, ?_⟩
  · simp [run, dosyscall, step]
  · simp [calleeSaved, run, dosyscall, step, Function.update_apply]
  · simp [run, dosyscall, step]

end Cpu

end TayHuang
