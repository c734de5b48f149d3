import Mathlib.Data.List.Induction
import Mathlib.Tactic.IntervalCases
import TayHuang.Registers

/-! The code of int_handlers.S around the handlers, on the machine's own registers and
stack: how the frame gets there, and what goes back into the registers.

The stack is a memory of 64-bit words, each under the address of its lowest byte. -/

namespace TayHuang

open Function (update)

namespace IntHandlers

/-- The general registers apart from `rsp`. -/
inductive Reg
  | rax | rbx | rcx | rdx | rsi | rdi | rbp | r8 | r9 | r10 | r11 | r12 | r13 | r14 | r15
  deriving DecidableEq, Repr

inductive SegReg
  | ds | es | fs | gs
  deriving DecidableEq, Repr

/-- The word of a frame that is for a register. -/
def Reg.frame : Reg → FrameReg
  | .rax => .rax
  | .rbx => .rbx
  | .rcx => .rcx
  | .rdx => .rdx
  | .rsi => .rsi
  | .rdi => .rdi
  | .rbp => .rbp
  | .r8 => .r8
  | .r9 => .r9
  | .r10 => .r10
  | .r11 => .r11
  | .r12 => .r12
  | .r13 => .r13
  | .r14 => .r14
  | .r15 => .r15

def SegReg.frame : SegReg → FrameReg
  | .ds => .ds
  | .es => .es
  | .fs => .fs
  | .gs => .gs

/-- `errcode` is the variable of exception.c, `sse` the x87 and SSE state that `init_sse`
turns on. -/
structure Machine where
  gpr : Reg → UInt64
  rsp : UInt64
  seg : SegReg → UInt16
  cr3 : UInt64
  rip : UInt64
  cs : UInt16
  ss : UInt16
  rflags : UInt64
  mem : UInt64 → UInt64
  errcode : UInt64
  sse : Nat → UInt64

inductive Insn
  | push (r : Reg)
  | pop (r : Reg)
  | pushRsp
  | popRsp
  | movCr3Reg (dst : Reg)
  | movRegCr3 (src : Reg)
  | movSegReg (src : SegReg) (dst : Reg)
  | movRegSeg (src : Reg) (dst : SegReg)
  | movImm (imm : UInt64) (dst : Reg)
  | movRsp (dst : Reg)
  | load (disp : UInt64) (dst : Reg)
  | storeErrcode (src : Reg)
  | addRsp (imm : UInt64)
  | iretq
  deriving DecidableEq, Repr

namespace Machine

def pushWord (m : Machine) (w : UInt64) : Machine :=
  { m with rsp := m.rsp - 8, mem := update m.mem (m.rsp - 8) w }

def setReg (m : Machine) (r : Reg) (x : UInt64) : Machine := { m with gpr := update m.gpr r x }

/-- `movw` to the lower half of the lower half. -/
def setLow (x : UInt64) (w : UInt16) : UInt64 := .ofNat (x.toNat / 2 ^ 16 * 2 ^ 16 + w.toNat)

/-- The flags are not followed: the handlers run between two copies of them on the stack. -/
def step (m : Machine) : Insn → Machine
  | .push r => m.pushWord (m.gpr r)
  | .pop r => { m.setReg r (m.mem m.rsp) with rsp := m.rsp + 8 }
  | .pushRsp => m.pushWord m.rsp
  | .popRsp => { m with rsp := m.mem m.rsp }
  | .movCr3Reg dst => m.setReg dst m.cr3
  | .movRegCr3 src => { m with cr3 := m.gpr src }
  | .movSegReg src dst => m.setReg dst (setLow (m.gpr dst) (m.seg src))
  | .movRegSeg src dst => { m with seg := update m.seg dst (m.gpr src).toUInt16 }
  | .movImm imm dst => m.setReg dst imm
  | .movRsp dst => m.setReg dst m.rsp
  | .load disp dst => m.setReg dst (m.mem (m.rsp + disp))
  | .storeErrcode src => { m with errcode := m.gpr src }
  | .addRsp imm => { m with rsp := m.rsp + imm }
  | .iretq => { m with
      rip := m.mem m.rsp
      cs := (m.mem (m.rsp + 8)).toUInt16
      rflags := m.mem (m.rsp + 16)
      rsp := m.mem (m.rsp + 24)
      ss := (m.mem (m.rsp + 32)).toUInt16 }

def run (code : List Insn) (m : Machine) : Machine := code.foldl step m

/-- What the processor pushes at `top`, in order; some exceptions push a code. -/
def hardwareWords (m : Machine) (code : Option UInt64) : List UInt64 :=
  [m.ss.toUInt64, m.rsp, m.rflags, m.cs.toUInt64, m.rip] ++ code.toList

/-- The processor at the first instruction of a handler. -/
def interrupted (m : Machine) (top : UInt64) (code : Option UInt64) (handler : UInt64) (cs : UInt16) :
    Machine :=
  { (m.hardwareWords code).foldl pushWord { m with rsp := top } with rip := handler, cs := cs }

end Machine

/-! ### The code -/

def intX64Pushad : List Insn :=
  [.pushRsp, .push .rbp, .movCr3Reg .rbp, .push .rbp,
    .movSegReg .ds .rbp, .push .rbp, .movSegReg .es .rbp, .push .rbp,
    .movSegReg .fs .rbp, .push .rbp, .movSegReg .gs .rbp, .push .rbp] ++
    [Reg.rax, .rbx, .rcx, .rdx, .rsi, .rdi, .r8, .r9, .r10, .r11, .r12, .r13, .r14, .r15].map .push

def intX64Popad : List Insn :=
  [Reg.r15, .r14, .r13, .r12, .r11, .r10, .r9, .r8, .rdi, .rsi, .rdx, .rcx, .rbx, .rax].map .pop ++
    [.pop .rbp, .movRegSeg .rbp .gs, .pop .rbp, .movRegSeg .rbp .fs,
    .pop .rbp, .movRegSeg .rbp .es, .pop .rbp, .movRegSeg .rbp .ds,
    .pop .rbp, .movRegCr3 .rbp, .pop .rbp, .popRsp]

/-- `irq_handler` up to its call. -/
def irqHandler (irq : UInt64) : List Insn := intX64Pushad ++ [.movImm irq .rdi, .movRsp .rsi]

/-- `syscall_handler` up to its call. -/
def syscallHandler : List Insn := intX64Pushad ++ [.movRsp .rdi]

/-- `nonerrcode_exception` up to the call in `_exception`. -/
def nonerrcodeException (vector : UInt64) : List Insn :=
  [.push .rax, .movImm 0xFFFFFFFFFFFFFFFF .rax, .storeErrcode .rax, .pop .rax] ++ intX64Pushad ++
    [.movImm vector .rdi, .movRsp .rsi]

/-- `errcode_exception` up to the call in `_exception`. -/
def errcodeException (vector : UInt64) : List Insn :=
  [.push .rax, .load 8 .rax, .storeErrcode .rax, .pop .rax, .addRsp 8] ++ intX64Pushad ++
    [.movImm vector .rdi, .movRsp .rsi]

/-- What follows a call of a handler. -/
def leave : List Insn := intX64Popad ++ [.iretq]

/-! ### Words on the stack -/

namespace Machine

variable {m m' : Machine} {top : UInt64} {f : FrameReg → UInt64}

theorem sub_inj {a : UInt64} {i j : Nat} (hi : i < 2 ^ 32) (hj : j < 2 ^ 32)
    (h : a - 8 * UInt64.ofNat i = a - 8 * UInt64.ofNat j) : i = j := by
  have hh := congrArg UInt64.toNat ((UInt64.sub_right_inj a).mp h)
  simp only [UInt64.toNat_mul, UInt64.toNat_ofNat'] at hh
  have h8 : (8 : UInt64).toNat = 8 := rfl
  rw [h8] at hh
  omega

theorem sub_succ (a : UInt64) (n : Nat) :
    a - 8 * UInt64.ofNat n - 8 = a - 8 * UInt64.ofNat (n + 1) := by
  rw [UInt64.ofNat_add]
  grind

/-- Words that are pushed one after the other. -/
theorem pushWords_spec (ws : List UInt64) (m : Machine) (hlen : ws.length < 2 ^ 31) :
    (ws.foldl pushWord m).rsp = m.rsp - 8 * UInt64.ofNat ws.length ∧
      ∀ i (hi : i < ws.length),
        (ws.foldl pushWord m).mem (m.rsp - 8 * UInt64.ofNat (i + 1)) = ws[i] := by
  induction ws using List.reverseRecOn with
  | nil => simp
  | append_singleton ws w ih =>
    rw [List.length_append, List.length_singleton] at hlen
    obtain ⟨hrsp, hmem⟩ := ih (by omega)
    rw [List.foldl_append]
    have hnext : (ws.foldl pushWord m).rsp - 8 = m.rsp - 8 * UInt64.ofNat (ws.length + 1) := by
      rw [hrsp, sub_succ]
    refine ⟨by rw [List.length_append, List.length_singleton]; exact hnext, fun i hi => ?_⟩
    rw [List.length_append, List.length_singleton] at hi
    have hpushed : (List.foldl pushWord (ws.foldl pushWord m) [w]).mem =
        update (ws.foldl pushWord m).mem (m.rsp - 8 * UInt64.ofNat (ws.length + 1)) w := by
      rw [← hnext]
      rfl
    rw [hpushed]
    by_cases hlast : i = ws.length
    · subst hlast
      rw [Function.update_self, List.getElem_concat_length rfl]
    · have hne : m.rsp - 8 * UInt64.ofNat (i + 1) ≠ m.rsp - 8 * UInt64.ofNat (ws.length + 1) := by
        intro he
        have := sub_inj (by omega) (by omega) he
        omega
      rw [Function.update_of_ne hne, hmem i (by omega), List.getElem_append_left (by omega)]

theorem add_ne_sub (a : UInt64) {i j : Nat} (hi : i < 2 ^ 32) (hj : j < 2 ^ 32) :
    a + 8 * UInt64.ofNat i ≠ a - 8 * UInt64.ofNat (j + 1) := by
  intro h
  have hh : 8 * UInt64.ofNat (i + (j + 1)) = 0 := by
    rw [UInt64.ofNat_add]
    grind
  have hz := congrArg UInt64.toNat hh
  have h8 : (8 : UInt64).toNat = 8 := rfl
  simp only [UInt64.toNat_mul, UInt64.toNat_ofNat', h8, UInt64.toNat_zero] at hz
  omega

theorem pushWords_above (ws : List UInt64) (m : Machine) (hlen : ws.length < 2 ^ 31) {i : Nat}
    (hi : i < 2 ^ 32) : (ws.foldl pushWord m).mem (m.rsp + 8 * UInt64.ofNat i) =
      m.mem (m.rsp + 8 * UInt64.ofNat i) := by
  induction ws using List.reverseRecOn with
  | nil => rfl
  | append_singleton ws w ih =>
    rw [List.length_append, List.length_singleton] at hlen
    have hrsp := (pushWords_spec ws m (by omega)).1
    have hpushed : (List.foldl pushWord (ws.foldl pushWord m) [w]).mem =
        update (ws.foldl pushWord m).mem ((ws.foldl pushWord m).rsp - 8) w := rfl
    rw [List.foldl_append, hpushed, hrsp, sub_succ,
      Function.update_of_ne (add_ne_sub m.rsp hi (by omega)), ih (by omega)]

/-! ### The frame -/

/-- The words from the stack pointer on, as the handlers see them. -/
def frameIn (m : Machine) : Frame := fun i => m.mem (m.rsp + 8 * UInt64.ofNat i)

/-- The frame of an interrupt that found the processor in `m`. Below the selectors the
words keep what the code left of `cr3`. -/
def frameOf (m : Machine) (top : UInt64) : FrameReg → UInt64
  | .r15 => m.gpr .r15
  | .r14 => m.gpr .r14
  | .r13 => m.gpr .r13
  | .r12 => m.gpr .r12
  | .r11 => m.gpr .r11
  | .r10 => m.gpr .r10
  | .r9 => m.gpr .r9
  | .r8 => m.gpr .r8
  | .rdi => m.gpr .rdi
  | .rsi => m.gpr .rsi
  | .rdx => m.gpr .rdx
  | .rcx => m.gpr .rcx
  | .rbx => m.gpr .rbx
  | .rax => m.gpr .rax
  | .gs => setLow m.cr3 (m.seg .gs)
  | .fs => setLow m.cr3 (m.seg .fs)
  | .es => setLow m.cr3 (m.seg .es)
  | .ds => setLow m.cr3 (m.seg .ds)
  | .pgd => m.cr3
  | .rbp => m.gpr .rbp
  | .ist => top - 40
  | .rip => m.rip
  | .cs => m.cs.toUInt64
  | .rflags => m.rflags
  | .rsp => m.rsp
  | .ss => m.ss.toUInt64

theorem toNat_setLow (x : UInt64) (w : UInt16) :
    (setLow x w).toNat = x.toNat / 2 ^ 16 * 2 ^ 16 + w.toNat := by
  have hx := x.toNat_lt
  have hw := w.toNat_lt
  rw [setLow, UInt64.toNat_ofNat']
  omega

@[simp] theorem setLow_setLow (x : UInt64) (v w : UInt16) : setLow (setLow x v) w = setLow x w := by
  have hv := v.toNat_lt
  have hhigh : (x.toNat / 2 ^ 16 * 2 ^ 16 + v.toNat) / 2 ^ 16 = x.toNat / 2 ^ 16 := by omega
  rw [setLow, toNat_setLow, hhigh, setLow]

@[simp] theorem toUInt16_setLow (x : UInt64) (w : UInt16) : (setLow x w).toUInt16 = w := by
  have hw := w.toNat_lt
  refine UInt16.toNat_inj.mp ?_
  rw [UInt64.toNat_toUInt16, toNat_setLow]
  omega

/-- The words that `int_x64_pushad` pushes. -/
def savedWords (m : Machine) : List UInt64 :=
  [m.rsp, m.gpr .rbp, m.cr3, setLow m.cr3 (m.seg .ds), setLow m.cr3 (m.seg .es),
    setLow m.cr3 (m.seg .fs), setLow m.cr3 (m.seg .gs), m.gpr .rax, m.gpr .rbx, m.gpr .rcx,
    m.gpr .rdx, m.gpr .rsi, m.gpr .rdi, m.gpr .r8, m.gpr .r9, m.gpr .r10, m.gpr .r11, m.gpr .r12,
    m.gpr .r13, m.gpr .r14, m.gpr .r15]

@[simp] theorem pushWord_gpr (w : UInt64) : (m.pushWord w).gpr = m.gpr := rfl

@[simp] theorem pushWord_seg (w : UInt64) : (m.pushWord w).seg = m.seg := rfl

@[simp] theorem pushWord_cr3 (w : UInt64) : (m.pushWord w).cr3 = m.cr3 := rfl

@[simp] theorem setReg_gpr_self (r : Reg) (x : UInt64) : (m.setReg r x).gpr r = x :=
  Function.update_self ..

theorem setReg_gpr_of_ne {r s : Reg} (h : s ≠ r) (x : UInt64) : (m.setReg r x).gpr s = m.gpr s :=
  Function.update_of_ne h ..

@[simp] theorem setReg_seg (r : Reg) (x : UInt64) : (m.setReg r x).seg = m.seg := rfl

@[simp] theorem setReg_rsp (r : Reg) (x : UInt64) : (m.setReg r x).rsp = m.rsp := rfl

@[simp] theorem setReg_mem (r : Reg) (x : UInt64) : (m.setReg r x).mem = m.mem := rfl

@[simp] theorem setReg_pushWord (r : Reg) (x w : UInt64) :
    (m.setReg r x).pushWord w = (m.pushWord w).setReg r x := rfl

@[simp] theorem setReg_setReg (r : Reg) (x y : UInt64) :
    (m.setReg r x).setReg r y = m.setReg r y := by
  simp only [setReg, Function.update_idem]

@[simp] theorem step_push (r : Reg) : m.step (.push r) = m.pushWord (m.gpr r) := rfl

@[simp] theorem step_movSegReg (r : SegReg) (d : Reg) :
    m.step (.movSegReg r d) = m.setReg d (setLow (m.gpr d) (m.seg r)) := rfl

theorem run_append (a b : List Insn) (m : Machine) : m.run (a ++ b) = (m.run a).run b :=
  List.foldl_append

/-- No instruction of int_handlers.S saves or loads the x87 and SSE state. -/
theorem run_sse (code : List Insn) (m : Machine) : (m.run code).sse = m.sse := by
  induction code generalizing m with
  | nil => rfl
  | cons i code ih =>
    refine (ih (m.step i)).trans ?_
    cases i <;> rfl

theorem run_pushes (rs : List Reg) (m : Machine) :
    m.run (rs.map .push) = (rs.map m.gpr).foldl pushWord m := by
  induction rs generalizing m with
  | nil => rfl
  | cons r rs ih => exact ih (m.pushWord (m.gpr r))

theorem pushWords_setReg (ws : List UInt64) (r : Reg) (x : UInt64) (m : Machine) :
    ws.foldl pushWord (m.setReg r x) = (ws.foldl pushWord m).setReg r x := by
  induction ws generalizing m with
  | nil => rfl
  | cons w ws ih => exact ih (m.pushWord w)

theorem pushWords_gpr (ws : List UInt64) (m : Machine) : (ws.foldl pushWord m).gpr = m.gpr := by
  induction ws generalizing m with
  | nil => rfl
  | cons w ws ih => exact ih (m.pushWord w)

theorem pushWords_seg (ws : List UInt64) (m : Machine) : (ws.foldl pushWord m).seg = m.seg := by
  induction ws generalizing m with
  | nil => rfl
  | cons w ws ih => exact ih (m.pushWord w)

theorem pushWords_cr3 (ws : List UInt64) (m : Machine) : (ws.foldl pushWord m).cr3 = m.cr3 := by
  induction ws generalizing m with
  | nil => rfl
  | cons w ws ih => exact ih (m.pushWord w)

/-- Only `rbp` is lost on the way. -/
theorem run_intX64Pushad (m : Machine) : m.run intX64Pushad =
    ((m.savedWords).foldl pushWord m).setReg .rbp (setLow m.cr3 (m.seg .gs)) := by
  have hsel : m.run [.pushRsp, .push .rbp, .movCr3Reg .rbp, .push .rbp,
      .movSegReg .ds .rbp, .push .rbp, .movSegReg .es .rbp, .push .rbp,
      .movSegReg .fs .rbp, .push .rbp, .movSegReg .gs .rbp, .push .rbp] =
      ((m.savedWords.take 7).foldl pushWord m).setReg .rbp (setLow m.cr3 (m.seg .gs)) := by
    have hrsp : m.step .pushRsp = m.pushWord m.rsp := rfl
    have hcr3 : ∀ m : Machine, m.step (.movCr3Reg .rbp) = m.setReg .rbp m.cr3 := fun _ => rfl
    simp [run, hrsp, hcr3, savedWords]
  have hrest : ∀ r ∈ [Reg.rax, .rbx, .rcx, .rdx, .rsi, .rdi, .r8, .r9, .r10, .r11, .r12, .r13, .r14,
      .r15], r ≠ .rbp := by decide
  have hgpr : ∀ r, r ≠ .rbp → (((m.savedWords.take 7).foldl pushWord m).setReg .rbp
      (setLow m.cr3 (m.seg .gs))).gpr r = m.gpr r := fun r hr => by
    rw [setReg_gpr_of_ne hr, pushWords_gpr]
  rw [intX64Pushad, run_append, hsel, run_pushes, pushWords_setReg,
    List.map_congr_left fun r hr => hgpr r (hrest r hr), ← List.foldl_append]
  rfl

/-- The processor in front of `int_x64_pushad`, when it was in `m` before. -/
structure Entered (m : Machine) (top : UInt64) (m' : Machine) : Prop where
  gpr : m'.gpr = m.gpr
  seg : m'.seg = m.seg
  cr3 : m'.cr3 = m.cr3
  rsp : m'.rsp = top - 40
  words : ∀ i (hi : i < 5),
    m'.frameIn i = [m.rip, m.cs.toUInt64, m.rflags, m.rsp, m.ss.toUInt64][i]

theorem Entered.savedWords_eq (h : Entered m top m') : m'.savedWords =
    [FrameReg.ist, .rbp, .pgd, .ds, .es, .fs, .gs, .rax, .rbx, .rcx, .rdx, .rsi, .rdi, .r8, .r9,
      .r10, .r11, .r12, .r13, .r14, .r15].map (m.frameOf top) := by
  rw [savedWords, h.gpr, h.seg, h.cr3, h.rsp]
  rfl

theorem frameIn_pushad (m : Machine) : (m.run intX64Pushad).rsp = m.rsp - 168 ∧
    (∀ i (hi : i < 21), (m.run intX64Pushad).frameIn (20 - i) = m.savedWords[i]) ∧
      ∀ i, i < 5 → (m.run intX64Pushad).frameIn (21 + i) = m.frameIn i := by
  have hlen : m.savedWords.length < 2 ^ 31 := by simp [savedWords]
  obtain ⟨hrsp, hmem⟩ := pushWords_spec m.savedWords m hlen
  have habove := fun i hi => pushWords_above m.savedWords m hlen (i := i) hi
  have hrun := run_intX64Pushad m
  have hlow : (m.run intX64Pushad).rsp = m.rsp - 168 := by
    rw [hrun, setReg_rsp, hrsp]
    rfl
  have hframe : ∀ i, (m.run intX64Pushad).frameIn i =
      (m.savedWords.foldl pushWord m).mem (m.rsp - 168 + 8 * UInt64.ofNat i) := fun i => by
    rw [frameIn, hlow, hrun, setReg_mem]
  refine ⟨hlow, fun i hi => ?_, fun i hi => ?_⟩
  · have hsum : UInt64.ofNat (20 - i) + UInt64.ofNat (i + 1) = 21 := by
      rw [← UInt64.ofNat_add, show 20 - i + (i + 1) = 21 by omega]
      rfl
    have hat : m.rsp - 168 + 8 * UInt64.ofNat (20 - i) = m.rsp - 8 * UInt64.ofNat (i + 1) := by
      grind
    rw [hframe, hat, hmem i hi]
  · have hat : m.rsp - 168 + 8 * UInt64.ofNat (21 + i) = m.rsp + 8 * UInt64.ofNat i := by
      have h21 : UInt64.ofNat (21 + i) = 21 + UInt64.ofNat i := UInt64.ofNat_add 21 i
      grind
    rw [hframe, hat, habove i (by omega), frameIn]

theorem Entered.pushad (h : Entered m top m') : (m'.run intX64Pushad).rsp = top - 208 ∧
    ∀ r : FrameReg, (m'.run intX64Pushad).frameIn.get r = m.frameOf top r := by
  obtain ⟨hlow, hsaved, hhard⟩ := frameIn_pushad m'
  refine ⟨by rw [hlow, h.rsp]; grind, fun r => ?_⟩
  have hwords : ∀ i (hi : i < 5), (m'.run intX64Pushad).frameIn (21 + i) =
      [m.rip, m.cs.toUInt64, m.rflags, m.rsp, m.ss.toUInt64][i] := fun i hi => by
    rw [hhard i hi, h.words i hi]
  simp only [h.savedWords_eq] at hsaved
  cases r with
  | rip => exact hwords 0 (by omega)
  | cs => exact hwords 1 (by omega)
  | rflags => exact hwords 2 (by omega)
  | rsp => exact hwords 3 (by omega)
  | ss => exact hwords 4 (by omega)
  | ist => exact hsaved 0 (by omega)
  | rbp => exact hsaved 1 (by omega)
  | pgd => exact hsaved 2 (by omega)
  | ds => exact hsaved 3 (by omega)
  | es => exact hsaved 4 (by omega)
  | fs => exact hsaved 5 (by omega)
  | gs => exact hsaved 6 (by omega)
  | rax => exact hsaved 7 (by omega)
  | rbx => exact hsaved 8 (by omega)
  | rcx => exact hsaved 9 (by omega)
  | rdx => exact hsaved 10 (by omega)
  | rsi => exact hsaved 11 (by omega)
  | rdi => exact hsaved 12 (by omega)
  | r8 => exact hsaved 13 (by omega)
  | r9 => exact hsaved 14 (by omega)
  | r10 => exact hsaved 15 (by omega)
  | r11 => exact hsaved 16 (by omega)
  | r12 => exact hsaved 17 (by omega)
  | r13 => exact hsaved 18 (by omega)
  | r14 => exact hsaved 19 (by omega)
  | r15 => exact hsaved 20 (by omega)

/-! ### Into the handlers -/

/-- The words under the top, with a code or without. -/
theorem interrupted_words (m : Machine) (top handler : UInt64) (code : Option UInt64) (cs : UInt16) :
    (m.interrupted top code handler cs).rsp =
        top - 8 * UInt64.ofNat (m.hardwareWords code).length ∧
      ∀ i (hi : i < (m.hardwareWords code).length),
        (m.interrupted top code handler cs).mem (top - 8 * UInt64.ofNat (i + 1)) =
          (m.hardwareWords code)[i] := by
  have hlen : (m.hardwareWords code).length < 2 ^ 31 := by cases code <;> simp [hardwareWords]
  obtain ⟨hrsp, hmem⟩ := pushWords_spec (m.hardwareWords code) { m with rsp := top } hlen
  exact ⟨hrsp, hmem⟩

theorem interrupted_kept (m : Machine) (top handler : UInt64) (code : Option UInt64) (cs : UInt16) :
    (m.interrupted top code handler cs).gpr = m.gpr ∧
      (m.interrupted top code handler cs).seg = m.seg ∧
        (m.interrupted top code handler cs).cr3 = m.cr3 :=
  ⟨pushWords_gpr .., pushWords_seg .., pushWords_cr3 ..⟩

theorem below_top (top : UInt64) {i : Nat} (hi : i < 5) :
    top - 40 + 8 * UInt64.ofNat i = top - 8 * UInt64.ofNat (4 - i + 1) := by
  have hsum : UInt64.ofNat i + UInt64.ofNat (4 - i + 1) = 5 := by
    rw [← UInt64.ofNat_add, show i + (4 - i + 1) = 5 by omega]
    rfl
  grind

/-- A processor that has kept the registers and the words of the interrupt. -/
theorem Entered.of_words {m m' : Machine} {top handler : UInt64} {code : Option UInt64} {cs : UInt16}
    (hgpr : m'.gpr = (m.interrupted top code handler cs).gpr)
    (hseg : m'.seg = (m.interrupted top code handler cs).seg)
    (hcr3 : m'.cr3 = (m.interrupted top code handler cs).cr3) (hrsp : m'.rsp = top - 40)
    (hmem : ∀ i, i < 5 → m'.mem (top - 8 * UInt64.ofNat (i + 1)) =
      (m.interrupted top code handler cs).mem (top - 8 * UInt64.ofNat (i + 1))) :
    Entered m top m' := by
  obtain ⟨hg, hs, hc⟩ := interrupted_kept m top handler code cs
  refine ⟨hgpr.trans hg, hseg.trans hs, hcr3.trans hc, hrsp, fun i hi => ?_⟩
  have hword := (interrupted_words m top handler code cs).2 (4 - i)
    (by simp [hardwareWords]; omega)
  rw [frameIn, hrsp, below_top top hi, hmem (4 - i) (by omega), hword]
  interval_cases i <;> rfl

/-- Without a code there is nothing to do. -/
theorem Entered.interrupted (m : Machine) (top handler : UInt64) (cs : UInt16) :
    Entered m top (m.interrupted top none handler cs) := by
  refine .of_words rfl rfl rfl ?_ fun _ _ => rfl
  exact (interrupted_words m top handler none cs).1

/-- The code is taken from the stack, with `rax` saved around. -/
theorem run_takeErrcode (m : Machine) :
    m.run [.push .rax, .load 8 .rax, .storeErrcode .rax, .pop .rax, .addRsp 8] =
      { m with
        rsp := m.rsp + 8
        mem := update m.mem (m.rsp - 8) (m.gpr .rax)
        errcode := m.mem m.rsp } := by
  have hback : m.rsp - 8 + 8 = m.rsp := by grind
  have hload : update m.mem (m.rsp - 8) (m.gpr .rax) m.rsp = m.mem m.rsp :=
    Function.update_of_ne (fun he => absurd he (by grind)) ..
  simp only [run, List.foldl_cons, List.foldl_nil, step, pushWord, setReg, hback, hload,
    Function.update_self, Function.update_idem, Function.update_eq_self]

/-- An exception without a code gets one of ones. -/
theorem run_noErrcode (m : Machine) :
    m.run [.push .rax, .movImm 0xFFFFFFFFFFFFFFFF .rax, .storeErrcode .rax, .pop .rax] =
      { m with
        mem := update m.mem (m.rsp - 8) (m.gpr .rax)
        errcode := 0xFFFFFFFFFFFFFFFF } := by
  have hback : m.rsp - 8 + 8 = m.rsp := by grind
  simp only [run, List.foldl_cons, List.foldl_nil, step, pushWord, setReg, hback,
    Function.update_self, Function.update_idem, Function.update_eq_self]

/-- The word that saves `rax` is below the words of the interrupt. -/
theorem saved_below (top : UInt64) (mem : UInt64 → UInt64) (x : UInt64) {i j : Nat} (hi : i < j)
    (hj : j < 2 ^ 31) :
    update mem (top - 8 * UInt64.ofNat j - 8) x (top - 8 * UInt64.ofNat (i + 1)) =
      mem (top - 8 * UInt64.ofNat (i + 1)) := by
  rw [sub_succ]
  refine Function.update_of_ne (fun he => ?_) ..
  have := sub_inj (by omega) (by omega) he
  omega

theorem Entered.errcode (m : Machine) (top handler code : UInt64) (cs : UInt16) :
    Entered m top ((m.interrupted top (some code) handler cs).run
        [.push .rax, .load 8 .rax, .storeErrcode .rax, .pop .rax, .addRsp 8]) ∧
      ((m.interrupted top (some code) handler cs).run
        [.push .rax, .load 8 .rax, .storeErrcode .rax, .pop .rax, .addRsp 8]).errcode = code := by
  obtain ⟨hrsp, hmem⟩ := interrupted_words m top handler (some code) cs
  have hlen : (m.hardwareWords (some code)).length = 6 := rfl
  rw [hlen] at hrsp
  rw [run_takeErrcode]
  refine ⟨@of_words m _ top handler (some code) cs rfl rfl rfl ?_ fun i hi => ?_, ?_⟩
  · change (m.interrupted top (some code) handler cs).rsp + 8 = top - 40
    rw [hrsp]
    have h6 : UInt64.ofNat 6 = 6 := rfl
    grind
  · change update (m.interrupted top (some code) handler cs).mem _ _ _ = _
    rw [hrsp]
    exact saved_below top _ _ (by omega) (by omega)
  · change (m.interrupted top (some code) handler cs).mem _ = code
    rw [hrsp]
    exact hmem 5 (by rw [hlen]; omega)

theorem Entered.nonerrcode (m : Machine) (top handler : UInt64) (cs : UInt16) :
    Entered m top ((m.interrupted top none handler cs).run
        [.push .rax, .movImm 0xFFFFFFFFFFFFFFFF .rax, .storeErrcode .rax, .pop .rax]) ∧
      ((m.interrupted top none handler cs).run
        [.push .rax, .movImm 0xFFFFFFFFFFFFFFFF .rax, .storeErrcode .rax, .pop .rax]).errcode =
          0xFFFFFFFFFFFFFFFF := by
  obtain ⟨hrsp, -⟩ := interrupted_words m top handler none cs
  have hlen : (m.hardwareWords none).length = 5 := rfl
  rw [hlen] at hrsp
  rw [run_noErrcode]
  refine ⟨@of_words m _ top handler none cs rfl rfl rfl hrsp fun i hi => ?_, rfl⟩
  change update (m.interrupted top none handler cs).mem _ _ _ = _
  rw [hrsp]
  exact saved_below top _ _ (by omega) (by omega)

/-! ### Out of the handlers -/

/-- The registers on the way out, when `n` words are popped. -/
def popped (m : Machine) (n : Nat) (gpr : Reg → UInt64) (seg : SegReg → UInt16) (cr3 : UInt64) :
    Machine :=
  { m with gpr := gpr, seg := seg, cr3 := cr3, rsp := m.rsp + 8 * UInt64.ofNat n }

theorem popped_pop (m : Machine) (n : Nat) (gpr : Reg → UInt64) (seg : SegReg → UInt16)
    (cr3 : UInt64) (r : Reg) : (m.popped n gpr seg cr3).step (.pop r) =
      m.popped (n + 1) (update gpr r (m.frameIn n)) seg cr3 := by
  have hnext : m.rsp + 8 * UInt64.ofNat n + 8 = m.rsp + 8 * UInt64.ofNat (n + 1) := by
    rw [UInt64.ofNat_add]
    grind
  simp only [step, popped, setReg, frameIn, hnext]

/-- Different registers that are popped one after the other. -/
theorem run_pops (rs : List Reg) (hrs : rs.Nodup) (m : Machine) : ∃ gpr,
    m.run (rs.map .pop) = m.popped rs.length gpr m.seg m.cr3 ∧
      ∀ i (hi : i < rs.length), gpr rs[i] = m.frameIn i := by
  induction rs using List.reverseRecOn with
  | nil => exact ⟨m.gpr, by simp [run, popped], by simp⟩
  | append_singleton rs r ih =>
    obtain ⟨hrs', hr⟩ := List.nodup_append.mp hrs |>.imp_right fun h => h.2
    obtain ⟨gpr, hrun, hgpr⟩ := ih hrs'
    refine ⟨update gpr r (m.frameIn rs.length), ?_, fun i hi => ?_⟩
    · rw [List.map_append, run_append, hrun, List.length_append, List.length_singleton,
        ← popped_pop]
      rfl
    · rw [List.length_append, List.length_singleton] at hi
      by_cases hlast : i = rs.length
      · subst hlast
        rw [List.getElem_concat_length rfl, Function.update_self]
      · rw [List.getElem_append_left (by omega), Function.update_of_ne, hgpr i (by omega)]
        exact fun he => hr _ (List.getElem_mem _) r (List.mem_singleton_self r) he

/-- A selector goes through `rbp`. -/
theorem popped_selector (m : Machine) (n : Nat) (gpr : Reg → UInt64) (seg : SegReg → UInt16)
    (cr3 x : UInt64) (r : SegReg) :
    (m.popped n (update gpr .rbp x) seg cr3).step (.movRegSeg .rbp r) =
      m.popped n (update gpr .rbp x) (update seg r x.toUInt16) cr3 := by
  simp only [step, popped, Function.update_self]

theorem popped_pgd (m : Machine) (n : Nat) (gpr : Reg → UInt64) (seg : SegReg → UInt16)
    (cr3 x : UInt64) : (m.popped n (update gpr .rbp x) seg cr3).step (.movRegCr3 .rbp) =
      m.popped n (update gpr .rbp x) seg x := by
  simp only [step, popped, Function.update_self]

/-- `int_x64_popad` takes every register from the frame, `rsp` from the word before the last. -/
theorem run_intX64Popad (m : Machine) : ∃ gpr seg, m.run intX64Popad =
      { m with gpr := gpr, seg := seg, cr3 := m.frameIn.get .pgd, rsp := m.frameIn.get .ist } ∧
    (∀ r : Reg, gpr r = m.frameIn.get r.frame) ∧
      ∀ r : SegReg, seg r = (m.frameIn.get r.frame).toUInt16 := by
  obtain ⟨g, hrun, hg⟩ := run_pops [.r15, .r14, .r13, .r12, .r11, .r10, .r9, .r8, .rdi, .rsi, .rdx,
    .rcx, .rbx, .rax] (by decide) m
  have hsel : (m.popped 14 g m.seg m.cr3).run
      [.pop .rbp, .movRegSeg .rbp .gs, .pop .rbp, .movRegSeg .rbp .fs,
      .pop .rbp, .movRegSeg .rbp .es, .pop .rbp, .movRegSeg .rbp .ds,
      .pop .rbp, .movRegCr3 .rbp, .pop .rbp, .popRsp] =
      (m.popped 20 (update g .rbp (m.frameIn 19))
        (update (update (update (update m.seg .gs (m.frameIn 14).toUInt16) .fs
          (m.frameIn 15).toUInt16) .es (m.frameIn 16).toUInt16) .ds (m.frameIn 17).toUInt16)
        (m.frameIn 18)).step .popRsp := by
    simp only [run, List.foldl_cons, List.foldl_nil, popped_selector, popped_pgd, popped_pop,
      Function.update_idem]
  refine ⟨update g .rbp (m.frameIn 19),
    update (update (update (update m.seg .gs (m.frameIn 14).toUInt16) .fs
      (m.frameIn 15).toUInt16) .es (m.frameIn 16).toUInt16) .ds (m.frameIn 17).toUInt16,
    ?_, fun r => ?_, fun r => ?_⟩
  · rw [intX64Popad, run_append, hrun]
    exact hsel
  · cases r with
    | rbp => rfl
    | r15 => exact hg 0 (by decide)
    | r14 => exact hg 1 (by decide)
    | r13 => exact hg 2 (by decide)
    | r12 => exact hg 3 (by decide)
    | r11 => exact hg 4 (by decide)
    | r10 => exact hg 5 (by decide)
    | r9 => exact hg 6 (by decide)
    | r8 => exact hg 7 (by decide)
    | rdi => exact hg 8 (by decide)
    | rsi => exact hg 9 (by decide)
    | rdx => exact hg 10 (by decide)
    | rcx => exact hg 11 (by decide)
    | rbx => exact hg 12 (by decide)
    | rax => exact hg 13 (by decide)
  · cases r <;> rfl

end Machine

/-! ### What a thread sees -/

/-- The registers of a thread. -/
@[ext]
structure Context where
  gpr : Reg → UInt64
  rsp : UInt64
  seg : SegReg → UInt16
  rip : UInt64
  cs : UInt16
  ss : UInt16
  rflags : UInt64

def Machine.context (m : Machine) : Context :=
  ⟨m.gpr, m.rsp, m.seg, m.rip, m.cs, m.ss, m.rflags⟩

/-- The registers that a frame holds. -/
def contextOf (f : FrameReg → UInt64) : Context where
  gpr r := f r.frame
  rsp := f .rsp
  seg r := (f r.frame).toUInt16
  rip := f .rip
  cs := (f .cs).toUInt16
  ss := (f .ss).toUInt16
  rflags := f .rflags

namespace Machine

variable {m m' : Machine} {top : UInt64}

theorem context_frameOf (m : Machine) (top : UInt64) : contextOf (m.frameOf top) = m.context := by
  refine Context.ext (funext fun r => ?_) rfl (funext fun r => ?_) rfl ?_ ?_ rfl
  · cases r <;> rfl
  · cases r <;> simp [contextOf, frameOf, SegReg.frame, context]
  · simp [contextOf, frameOf, context]
  · simp [contextOf, frameOf, context]

/-- The way out of a handler: all registers are those of the frame, if the word that is
for `rsp` was not changed. -/
theorem leave_spec (m : Machine) (h : m.frameIn.get .ist = m.rsp + 168) :
    (m.run leave).context = contextOf m.frameIn.get ∧ (m.run leave).cr3 = m.frameIn.get .pgd := by
  obtain ⟨g, s, hrun, hg, hs⟩ := run_intX64Popad m
  rw [leave, run_append, hrun, h]
  have hword : ∀ i, m.mem (m.rsp + 168 + 8 * UInt64.ofNat i) = m.frameIn (21 + i) := fun i => by
    have h21 : UInt64.ofNat (21 + i) = 21 + UInt64.ofNat i := UInt64.ofNat_add 21 i
    have hat : m.rsp + 168 + 8 * UInt64.ofNat i = m.rsp + 8 * UInt64.ofNat (21 + i) := by grind
    rw [hat, frameIn]
  have hrip : m.mem (m.rsp + 168) = m.frameIn 21 := by
    rw [← hword 0]
    exact congrArg m.mem (UInt64.add_zero _).symm
  refine ⟨Context.ext (funext hg) (hword 3) (funext hs) hrip ?_ ?_ (hword 2), rfl⟩
  · exact congrArg UInt64.toUInt16 (hword 1)
  · exact congrArg UInt64.toUInt16 (hword 4)

end Machine

end IntHandlers

end TayHuang
