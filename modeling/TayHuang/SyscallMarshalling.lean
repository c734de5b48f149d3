import TayHuang.KernelRuns
import TayHuang.Stubs
import TayHuang.SyscallTouches

/-! From a call of a wrapper to the operation that `syscall` calls for it. An argument of a
type below 64 bits fills the low part of its register only; the rest is what the caller left
there. -/

namespace TayHuang

open Function (update)

/-- An operation with the arguments of its declared types. -/
inductive KernelOp
  | moo
  | sendMsg (msgno : UInt32) (src size : UInt64) (dst : Int32)
  | checkIpc
  | setAllow (pid : Int32)
  | recvMsg (dst : UInt64)
  | clearMail
  | testAndLock (val : UInt64)
  | setMailbuffer (buffer size : UInt64)
  | createSignal (maxSignals value : Int32) (soft : Bool)
  | getSignals (id : UInt32)
  | upSignal (id : UInt32)
  | downSignal (id : UInt32)
  | isSoftSignal (id : UInt32)
  | regIrq (irq : Int32)
  | createThread (entry args : UInt64)
  | exitThread (retval : UInt64)
  deriving DecidableEq, Repr

/-- The operation that `syscall` calls, with its arguments in their types. -/
def dispatch (sysno : UInt32) (counter data src dst arg1 : UInt64) : Option KernelOp :=
  if sysno = 0x00 then some .moo
  else if sysno = 0x01 then some (.sendMsg arg1.toUInt32 src counter data.toUInt32.toInt32)
  else if sysno = 0x02 then some .checkIpc
  else if sysno = 0x03 then some (.setAllow data.toUInt32.toInt32)
  else if sysno = 0x04 then some (.recvMsg dst)
  else if sysno = 0x06 then some (.testAndLock dst)
  else if sysno = 0x07 then some (.setMailbuffer dst counter)
  else if sysno = 0x08 then
    some (.createSignal counter.toUInt32.toInt32 data.toUInt32.toInt32 (arg1 ≠ 0))
  else if sysno = 0x09 then some (.getSignals data.toUInt32)
  else if sysno = 0x0A then some (.upSignal data.toUInt32)
  else if sysno = 0x0B then some (.downSignal data.toUInt32)
  else if sysno = 0x0C then some (.isSoftSignal data.toUInt32)
  else if sysno = 0x10 then some (.regIrq data.toUInt32.toInt32)
  else if sysno = 0x20 then some (.createThread src dst)
  else if sysno = 0x21 then some (.exitThread dst)
  else none

/-- The call in `syscall_int_handler`. -/
def Frame.invokes (regs : Frame) : Option KernelOp :=
  dispatch (regs.get .rax).toUInt32 (regs.get .rcx) (regs.get .rdx) (regs.get .rsi) (regs.get .rdi)
    (regs.get .r8)

/-! ### The wrappers of the kernel -/

structure DosyscallArgs where
  sysno : UInt32
  mode : UInt64
  counter : UInt64
  data : UInt64
  src : UInt64
  dst : UInt64
  args : List UInt64

/-- An `int` that is converted to a `qword`. -/
def qword (x : Int32) : UInt64 := .ofInt x.toInt

/-- The `qword` at the address of a `msgno_id`, with the four bytes that are above it. -/
def qwordAt (msgno above : UInt32) : UInt64 := .ofNat (msgno.toNat + 2 ^ 32 * above.toNat)

namespace Syscalls

def moo : DosyscallArgs := ⟨0x00, 0, 0, 0, 0, 0, [0, 0, 0, 0, 0, 0, 0, 0]⟩

def sendMsg (msgno src size : UInt64) (dst : Int32) : DosyscallArgs :=
  ⟨0x01, 0, size, qword dst, src, 0, [msgno, 0, 0, 0, 0, 0, 0, 0]⟩

def checkIpc : DosyscallArgs := ⟨0x02, 0, 0, 0, 0, 0, [0, 0, 0, 0, 0, 0, 0, 0]⟩

def setAllow (pid : Int32) : DosyscallArgs :=
  ⟨0x03, 0, 0, qword pid, 0, 0, [0, 0, 0, 0, 0, 0, 0, 0]⟩

def recvMsg (dst : UInt64) : DosyscallArgs := ⟨0x04, 0, 0, 0, 0, dst, [0, 0, 0, 0, 0, 0, 0, 0]⟩

def clearMail : DosyscallArgs := ⟨0x05, 0, 0, 0, 0, 0, [0, 0, 0, 0, 0, 0, 0, 0]⟩

def testAndLock (val : UInt64) : DosyscallArgs := ⟨0x06, 0, 0, 0, 0, val, [0, 0, 0, 0, 0, 0, 0, 0]⟩

def setMailbuffer (buffer size : UInt64) : DosyscallArgs :=
  ⟨0x07, 0, size, 0, 0, buffer, [0, 0, 0, 0, 0, 0, 0, 0]⟩

def createSignal (maxSignals value : Int32) (soft : Bool) : DosyscallArgs :=
  ⟨0x08, 0, qword maxSignals, qword value, 0, 0, [if soft then 1 else 0, 0, 0, 0, 0, 0, 0, 0]⟩

def getSignals (id : UInt32) : DosyscallArgs :=
  ⟨0x09, 0, 0, id.toUInt64, 0, 0, [0, 0, 0, 0, 0, 0, 0, 0]⟩

def upSignal (id : UInt32) : DosyscallArgs :=
  ⟨0x0A, 0, 0, id.toUInt64, 0, 0, [0, 0, 0, 0, 0, 0, 0, 0]⟩

def downSignal (id : UInt32) : DosyscallArgs :=
  ⟨0x0B, 0, 0, id.toUInt64, 0, 0, [0, 0, 0, 0, 0, 0, 0, 0]⟩

def isSoftSignal (id : UInt32) : DosyscallArgs :=
  ⟨0x0C, 0, 0, id.toUInt64, 0, 0, [0, 0, 0, 0, 0, 0, 0, 0]⟩

def regIrq (irq : Int32) : DosyscallArgs := ⟨0x10, 0, 0, qword irq, 0, 0, [0, 0, 0, 0, 0, 0, 0, 0]⟩

def createThread (entry args : UInt64) : DosyscallArgs :=
  ⟨0x20, 0, 0, 0, entry, args, [0, 0, 0, 0, 0, 0, 0, 0]⟩

def exitThread (retval : UInt64) : DosyscallArgs :=
  ⟨0x21, 0, 0, 0, 0, retval, [0, 0, 0, 0, 0, 0, 0, 0]⟩

end Syscalls

/-- What the wrapper of an operation passes to `dosyscall`. -/
def KernelOp.wrapper (above : UInt32) : KernelOp → DosyscallArgs
  | .moo => Syscalls.moo
  | .sendMsg msgno src size dst =>
    Syscalls.sendMsg (qwordAt msgno above) src size dst
  | .checkIpc => Syscalls.checkIpc
  | .setAllow pid => Syscalls.setAllow pid
  | .recvMsg dst => Syscalls.recvMsg dst
  | .clearMail => Syscalls.clearMail
  | .testAndLock val => Syscalls.testAndLock val
  | .setMailbuffer buffer size => Syscalls.setMailbuffer buffer size
  | .createSignal maxSignals value soft => Syscalls.createSignal maxSignals value soft
  | .getSignals id => Syscalls.getSignals id
  | .upSignal id => Syscalls.upSignal id
  | .downSignal id => Syscalls.downSignal id
  | .isSoftSignal id => Syscalls.isSoftSignal id
  | .regIrq irq => Syscalls.regIrq irq
  | .createThread entry args => Syscalls.createThread entry args
  | .exitThread retval => Syscalls.exitThread retval

/-- A call of `dosyscall` with these arguments, by the calling convention of C. -/
structure DosyscallArgs.Passed (a : DosyscallArgs) (c : Cpu) : Prop where
  sysno : (c.reg .rdi).toUInt32 = a.sysno
  mode : c.reg .rsi = a.mode
  counter : c.reg .rdx = a.counter
  data : c.reg .rcx = a.data
  src : c.reg .r8 = a.src
  dst : c.reg .r9 = a.dst
  args : ∃ back rest, c.stack = back :: (a.args ++ rest)

/-! ### The stubs of libkmod -/

/-- A call of a stub, with the arguments of the types that libkmod declares. -/
inductive Stub
  | moo
  | sendMsg (msgno : UInt32) (msg size : UInt64) (dst : Int32)
  | checkIpc
  | setAllow (pid : Int32)
  | recvMsg (msg : UInt64)
  | testAndLock (val : UInt64)
  | setMailbuffer (buffer : UInt64) (size : Int32)
  | createSignal (maxSignals value : Int32) (soft : Bool)
  | getSignals (id : UInt32)
  | upSignal (id : UInt32)
  | downSignal (id : UInt32)
  | isSoftSignal (id : UInt32)
  | regIrq (irq : Int32)
  | createThread (entry args : UInt64)
  | exitThread (retval : UInt64)
  deriving DecidableEq, Repr

namespace Stub

def code : Stub → List Insn
  | .moo => Libkmod.moo
  | .sendMsg .. => Libkmod.sendMsg
  | .checkIpc => Libkmod.checkIpc
  | .setAllow _ => Libkmod.setAllow
  | .recvMsg _ => Libkmod.recvMsg
  | .testAndLock _ => Libkmod.testAndLock
  | .setMailbuffer .. => Libkmod.setMailbuffer
  | .createSignal .. => Libkmod.createSignal
  | .getSignals _ => Libkmod.getSignals
  | .upSignal _ => Libkmod.upSignal
  | .downSignal _ => Libkmod.downSignal
  | .isSoftSignal _ => Libkmod.isSoftSignal
  | .regIrq _ => Libkmod.regIrq
  | .createThread .. => Libkmod.createThread
  | .exitThread _ => Libkmod.exitThread

/-- The operation of the same name. The kernel declares `size` as a `qword`. -/
def op : Stub → KernelOp
  | .moo => .moo
  | .sendMsg msgno msg size dst => .sendMsg msgno msg size dst
  | .checkIpc => .checkIpc
  | .setAllow pid => .setAllow pid
  | .recvMsg msg => .recvMsg msg
  | .testAndLock val => .testAndLock val
  | .setMailbuffer buffer size => .setMailbuffer buffer (qword size)
  | .createSignal maxSignals value soft => .createSignal maxSignals value soft
  | .getSignals id => .getSignals id
  | .upSignal id => .upSignal id
  | .downSignal id => .downSignal id
  | .isSoftSignal id => .isSoftSignal id
  | .regIrq irq => .regIrq irq
  | .createThread entry args => .createThread entry args
  | .exitThread retval => .exitThread retval

/-- The arguments in their registers, by the calling convention of C. -/
def Passed (c : Cpu) : Stub → Prop
  | .moo | .checkIpc => True
  | .sendMsg msgno msg size dst =>
    (c.reg .rdi).toUInt32 = msgno ∧ c.reg .rsi = msg ∧ c.reg .rdx = size ∧
      (c.reg .rcx).toUInt32.toInt32 = dst
  | .setAllow x | .regIrq x => (c.reg .rdi).toUInt32.toInt32 = x
  | .recvMsg p | .testAndLock p | .exitThread p => c.reg .rdi = p
  | .setMailbuffer buffer size => c.reg .rdi = buffer ∧ (c.reg .rsi).toUInt32.toInt32 = size
  | .createSignal maxSignals value soft =>
    (c.reg .rdi).toUInt32.toInt32 = maxSignals ∧ (c.reg .rsi).toUInt32.toInt32 = value ∧
      (c.reg .rdx).toUInt8 = if soft then 1 else 0
  | .getSignals id | .upSignal id | .downSignal id | .isSoftSignal id =>
    (c.reg .rdi).toUInt32 = id
  | .createThread entry args => c.reg .rdi = entry ∧ c.reg .rsi = args

/-- The registers of `size` and of a `soft` that is false are filled up to 64 bits. -/
def Extended (c : Cpu) : Stub → Prop
  | .setMailbuffer _ size => c.reg .rsi = qword size
  | .createSignal _ _ soft => soft = false → c.reg .rdx = 0
  | _ => True

end Stub

/-! ### Calling an operation -/

/-- `t` is where `kmalloc` puts a new thread, `reserved` what the stack holds. -/
def KernelOp.call (t : Nat) (reserved : UInt8) : KernelOp → Option Syscall
  | .moo => some .moo
  | .sendMsg msgno src size dst =>
    some (.sendMsg (msgnoArg msgno.toUInt64) reserved src.toNat size.toNat dst.toInt)
  | .checkIpc => some .checkIpc
  | .setAllow pid => some (.setAllow pid.toInt)
  | .recvMsg dst => some (.recvMsg dst.toNat)
  | .clearMail => none
  | .testAndLock val => some (.testAndLock val.toNat)
  | .setMailbuffer buffer size => some (.setMailbuffer buffer.toNat size.toNat)
  | .createSignal maxSignals value soft =>
    some (.createSignal maxSignals.toInt value.toInt soft)
  | .getSignals id => some (.getSignals id.toNat)
  | .upSignal id => some (.upSignal id.toNat)
  | .downSignal id => some (.downSignal id.toNat)
  | .isSoftSignal id => some (.isSoftSignal id.toNat)
  | .regIrq irq => some (.regIrq irq.toInt.toNat)
  | .createThread entry args => some (.createThread t entry args)
  | .exitThread _ => some .exitThread

namespace Kernel

set_option linter.style.nameCheck false in
def __clearMail (k : Kernel) : Kernel :=
  let ipc := k.ipc k.currentTask
  { k with
    ipc := update k.ipc k.currentTask
      { ipc with readPtr := ipc.mail, writePtr := ipc.mail, usedSize := 0 } }

/-- The operation called on its own. -/
def perform (fuel : Nat) (k : Kernel) (t : Nat) (reserved : UInt8) (op : KernelOp) :
    Option (Kernel × UInt64) :=
  match op.call t reserved with
  | none => some (k.__clearMail, 0)
  | some call => k.syscall fuel call

/-- The mailbox is as `__clear_mail` leaves it. -/
def MailClear (k : Kernel) : Prop :=
  (k.ipc k.currentTask).readPtr = (k.ipc k.currentTask).mail ∧
    (k.ipc k.currentTask).writePtr = (k.ipc k.currentTask).mail ∧
    (k.ipc k.currentTask).usedSize = 0

end Kernel

/-! ### Conversions -/

theorem toInt_low (w : UInt64) : w.toUInt32.toInt32.toInt = intArg w := by
  change (UInt32.toInt32 w.toUInt32).toBitVec.toInt = (w.toNat : Int).bmod (2 ^ 32)
  have hlow : w.toUInt32.toBitVec.toNat = w.toNat % 2 ^ 32 := UInt64.toNat_toUInt32 w
  rw [UInt32.toBitVec_toInt32, BitVec.toInt_eq_toNat_bmod, hlow, Int.natCast_mod]
  exact Int.emod_bmod _ _

theorem toNat_ofInt (i : Int) : ((UInt64.ofInt i).toNat : Int) = i % 2 ^ 64 := by
  have hlt : i % 2 ^ 64 < 2 ^ 64 := Int.emod_lt_of_pos i (by decide)
  have hpos : 0 ≤ i % 2 ^ 64 := Int.emod_nonneg i (by decide)
  rw [UInt64.ofInt, UInt64.toNat_ofNat', Nat.mod_eq_of_lt ((Int.toNat_lt hpos).mpr hlt)]
  exact Int.toNat_of_nonneg hpos

theorem emod_bmod_low (i : Int) : (i % 2 ^ 64).bmod (2 ^ 32) = i.bmod (2 ^ 32) := by
  have hdvd : ((2 ^ 32 : Nat) : Int) ∣ 2 ^ 64 := by
    rw [Int.natCast_pow]
    exact pow_dvd_pow 2 (by decide)
  rw [← Int.emod_bmod, Int.emod_emod_of_dvd i hdvd, Int.emod_bmod]

/-- An `int` comes back out of a `qword`. -/
@[simp] theorem low_qword (x : Int32) : (qword x).toUInt32.toInt32 = x := by
  apply Int32.toInt_inj.mp
  rw [toInt_low, qword]
  change ((UInt64.ofInt x.toInt).toNat : Int).bmod (2 ^ 32) = x.toInt
  rw [toNat_ofInt, emod_bmod_low]
  exact Int.bmod_eq_of_le x.le_toInt x.toInt_lt

@[simp] theorem low_qwordAt (msgno above : UInt32) : (qwordAt msgno above).toUInt32 = msgno := by
  apply UInt32.toNat_inj.mp
  have hm := msgno.toNat_lt
  have ha := above.toNat_lt
  have hlt : msgno.toNat + 2 ^ 32 * above.toNat < 2 ^ 64 := by omega
  rw [UInt64.toNat_toUInt32, qwordAt, UInt64.toNat_ofNat', Nat.mod_eq_of_lt hlt]
  omega

theorem msgnoArg_low (w : UInt64) : msgnoArg w.toUInt32.toUInt64 = msgnoArg w := by
  have hlow : w.toUInt32.toUInt64.toNat = w.toNat % 2 ^ 32 := UInt64.toNat_toUInt32 w
  simp only [msgnoArg, hlow, MsgnoId.mk.injEq]
  constructor
  · apply UInt8.toNat_inj.mp
    rw [UInt8.toNat_ofNat', UInt8.toNat_ofNat']
    omega
  · apply UInt16.toNat_inj.mp
    rw [UInt16.toNat_ofNat', UInt16.toNat_ofNat']
    omega

/-! ### What is called -/

theorem dispatch_wrapper (op : KernelOp) (above : UInt32) :
    dispatch (op.wrapper above).sysno (op.wrapper above).counter (op.wrapper above).data
        (op.wrapper above).src (op.wrapper above).dst ((op.wrapper above).args.headD 0) =
      if op = .clearMail then none else some op := by
  cases op with
  | createSignal maxSignals value soft =>
    cases soft <;> simp [KernelOp.wrapper, Syscalls.createSignal, dispatch]
  | _ => simp [KernelOp.wrapper, dispatch, Syscalls.moo, Syscalls.sendMsg, Syscalls.checkIpc,
      Syscalls.setAllow, Syscalls.recvMsg, Syscalls.clearMail, Syscalls.testAndLock, Syscalls.setMailbuffer,
      Syscalls.getSignals, Syscalls.upSignal, Syscalls.downSignal, Syscalls.isSoftSignal,
      Syscalls.regIrq, Syscalls.createThread, Syscalls.exitThread]

theorem invokes_frame (c : Cpu) : c.frame.invokes =
    dispatch (c.reg .rax).toUInt32 (c.reg .rcx) (c.reg .rdx) (c.reg .rsi) (c.reg .rdi) (c.reg .r8) := by
  simp only [Frame.invokes, Cpu.get_frame]

/-- The number of `exit` is not one that `syscall` knows. -/
theorem exit_ignored (c : Cpu) : ∃ regs, Cpu.trap Libkmod.exit c = some regs ∧ regs.invokes = none := by
  refine ⟨_, rfl, ?_⟩
  rw [invokes_frame]
  simp [Cpu.step, dispatch]

theorem dosyscall_invokes {op : KernelOp} {above : UInt32} {c : Cpu}
    (h : (op.wrapper above).Passed c) : ∃ regs, Cpu.trap dosyscall c = some regs ∧
      regs.invokes = if op = .clearMail then none else some op := by
  obtain ⟨hsysno, -, hcounter, hdata, hsrc, hdst, back, rest, hstack⟩ := h
  have hlen : (op.wrapper above).args.length = 8 := by cases op <;> rfl
  obtain ⟨regs, htrap, hregs, hargs⟩ := Cpu.dosyscall_trap hlen hstack
  simp only [List.map_cons, List.map_nil, List.cons.injEq, and_true] at hregs
  obtain ⟨hrax, -, hrcx, hrdx, hrsi, hrdi⟩ := hregs
  refine ⟨regs, htrap, ?_⟩
  rw [← dispatch_wrapper, ← hargs, ← hsysno, ← hcounter, ← hdata, ← hsrc, ← hdst, Frame.invokes, hrax,
    hrcx, hrdx, hrsi, hrdi]
  rfl

theorem stub_invokes {stub : Stub} {c : Cpu} (h : stub.Passed c) :
    ∃ regs, Cpu.trap stub.code c = some regs ∧ (regs.invokes = some stub.op ↔ stub.Extended c) := by
  cases stub with
  | createSignal maxSignals value soft =>
    obtain ⟨rfl, rfl, hsoft⟩ := h
    refine ⟨_, rfl, ?_⟩
    rw [invokes_frame]
    cases soft with
    | false => simp [Cpu.step, dispatch, Stub.op, Stub.Extended]
    | true =>
      have hne : c.reg .rdx ≠ 0 := by
        intro h0
        rw [h0] at hsoft
        exact absurd hsoft (by decide)
      simp [Cpu.step, dispatch, Stub.op, Stub.Extended, hne]
  | setMailbuffer buffer size =>
    obtain ⟨rfl, -⟩ := h
    refine ⟨_, rfl, ?_⟩
    rw [invokes_frame]
    simp [Cpu.step, dispatch, Stub.op, Stub.Extended]
  | sendMsg msgno msg size dst =>
    obtain ⟨rfl, rfl, rfl, rfl⟩ := h
    refine ⟨_, rfl, ?_⟩
    rw [invokes_frame]
    simp [Cpu.step, dispatch, Stub.op, Stub.Extended]
  | createThread entry args =>
    obtain ⟨rfl, rfl⟩ := h
    refine ⟨_, rfl, ?_⟩
    rw [invokes_frame]
    simp [Cpu.step, dispatch, Stub.op, Stub.Extended]
  | moo | checkIpc =>
    refine ⟨_, rfl, ?_⟩
    rw [invokes_frame]
    simp [Cpu.step, dispatch, Stub.op, Stub.Extended]
  | _ =>
    obtain rfl := h
    refine ⟨_, rfl, ?_⟩
    rw [invokes_frame]
    simp [Cpu.step, dispatch, Stub.op, Stub.Extended]

theorem stub_returns (stub : Stub) (result : UInt64) (c : Cpu) :
    Cpu.Returned c (c.run result stub.code) result := by
  cases stub <;> refine ⟨?_, ?_, ?_⟩ <;>
    simp [Stub.code, Cpu.run, Cpu.step, Cpu.calleeSaved, Libkmod.moo, Libkmod.sendMsg,
      Libkmod.checkIpc, Libkmod.setAllow, Libkmod.recvMsg, Libkmod.testAndLock, Libkmod.setMailbuffer,
      Libkmod.createSignal, Libkmod.getSignals, Libkmod.upSignal, Libkmod.downSignal,
      Libkmod.isSoftSignal, Libkmod.regIrq, Libkmod.createThread, Libkmod.exitThread]

/-! ### What it does -/

theorem syscall_eq (regs : Frame) (t : Nat) (reserved : UInt8) :
    regs.syscall t reserved = regs.invokes.bind (KernelOp.call t reserved) := by
  have hid : ∀ w : UInt64, w.toUInt32.toNat = idArg w := fun w => UInt64.toNat_toUInt32 w
  unfold Frame.syscall Frame.invokes dispatch
  dsimp only
  simp only [apply_ite fun o => Option.bind o (KernelOp.call t reserved), Option.bind_some,
    Option.bind_none, KernelOp.call, toInt_low, msgnoArg_low, hid]

theorem dispatch_ne (sysno : UInt32) (counter data src dst arg1 : UInt64) :
    dispatch sysno counter data src dst arg1 ≠ some .clearMail := by
  unfold dispatch
  simp only [ne_eq, ite_eq_iff, Option.some.injEq, reduceCtorEq, and_false, or_self,
    not_false_eq_true]

variable {fuel t : Nat} {k : Kernel} {regs : Frame} {reserved : UInt8}

theorem frameSyscall_none (h : regs.invokes = none) :
    k.frameSyscall fuel regs t reserved = some (k, 0) := by
  rw [Kernel.frameSyscall, syscall_eq, h]
  rfl

theorem frameSyscall_some {op : KernelOp} (h : regs.invokes = some op) :
    k.frameSyscall fuel regs t reserved = k.perform fuel t reserved op := by
  have hne : op ≠ .clearMail := by
    rintro rfl
    exact dispatch_ne _ _ _ _ _ _ h
  rw [Kernel.frameSyscall, syscall_eq, h]
  cases op with
  | clearMail => exact absurd rfl hne
  | _ => rfl

theorem cleared_eq_iff (ipc : IpcInfo) :
    { ipc with readPtr := ipc.mail, writePtr := ipc.mail, usedSize := 0 } = ipc ↔
      ipc.readPtr = ipc.mail ∧ ipc.writePtr = ipc.mail ∧ ipc.usedSize = 0 := by
  cases ipc
  simp only [IpcInfo.mk.injEq, true_and, and_true]
  exact ⟨fun ⟨hw, hr, hu⟩ => ⟨hr.symm, hw.symm, hu.symm⟩,
    fun ⟨hr, hw, hu⟩ => ⟨hw.symm, hr.symm, hu.symm⟩⟩

theorem clearMail_eq_iff (k : Kernel) : k.__clearMail = k ↔ k.MailClear := by
  rw [Kernel.MailClear, ← cleared_eq_iff]
  constructor
  · intro h
    have hipc := congrFun (congrArg Kernel.ipc h) k.currentTask
    simpa only [Kernel.__clearMail, Function.update_self] using hipc
  · intro h
    have hipc : update k.ipc k.currentTask _ = k.ipc := Function.update_eq_self_iff.mpr h
    exact congrArg (fun ipc => { k with ipc := ipc }) hipc

/-- `syscall` calls the operation with its arguments and does what it does; its result is in
`rax` when the code returns. -/
structure Marshals (code : List Insn) (c : Cpu) (op : KernelOp) : Prop where
  invokes : ∃ regs, Cpu.trap code c = some regs ∧ regs.invokes = some op
  performs : ∀ regs, Cpu.trap code c = some regs → ∀ fuel k t reserved,
    Kernel.frameSyscall fuel k regs t reserved = k.perform fuel t reserved op
  returns : ∀ result, Cpu.Returned c (c.run result code) result

theorem marshals_of_invokes {code : List Insn} {c : Cpu} {op : KernelOp}
    (htrap : Cpu.trap code c = some regs) (h : regs.invokes = some op)
    (hret : ∀ result, Cpu.Returned c (c.run result code) result) : Marshals code c op := by
  refine ⟨⟨regs, htrap, h⟩, fun regs' htrap' _ _ _ _ => ?_, hret⟩
  obtain rfl := Option.some.inj (htrap.symm.trans htrap')
  exact frameSyscall_some h

/-- Every wrapper but `clear_mail` reaches its operation. A stub does if the registers that it
copies whole hold their arguments up to 64 bits. -/
theorem syscalls_marshalled (c : Cpu) :
    (∀ (op : KernelOp) (above : UInt32), (op.wrapper above).Passed c →
      (Marshals dosyscall c op ↔ op ≠ .clearMail)) ∧
    (∀ stub : Stub, stub.Passed c → (Marshals stub.code c stub.op ↔ stub.Extended c)) ∧
    ∀ (above : UInt32) (regs : Frame), (KernelOp.clearMail.wrapper above).Passed c →
      Cpu.trap dosyscall c = some regs → ∀ fuel k t reserved,
        (Kernel.frameSyscall fuel k regs t reserved = k.perform fuel t reserved .clearMail ↔
          k.MailClear) := by
  refine ⟨?_, ?_, ?_⟩
  · intro op above h
    obtain ⟨regs, htrap, hinv⟩ := dosyscall_invokes h
    constructor
    · rintro ⟨⟨regs', htrap', hinv'⟩, -, -⟩ rfl
      obtain rfl := Option.some.inj (htrap.symm.trans htrap')
      simp [hinv] at hinv'
    · intro hne
      rw [if_neg hne] at hinv
      exact marshals_of_invokes htrap hinv fun result => Cpu.dosyscall_returns result c
  · intro stub h
    obtain ⟨regs, htrap, hinv⟩ := stub_invokes h
    constructor
    · rintro ⟨⟨regs', htrap', hinv'⟩, -, -⟩
      obtain rfl := Option.some.inj (htrap.symm.trans htrap')
      exact hinv.mp hinv'
    · exact fun hext => marshals_of_invokes htrap (hinv.mpr hext) fun result =>
        stub_returns stub result c
  · intro above regs h htrap fuel k t reserved
    obtain ⟨regs', htrap', hinv⟩ := dosyscall_invokes h
    obtain rfl := Option.some.inj (htrap.symm.trans htrap')
    have hperform : k.perform fuel t reserved .clearMail = some (k.__clearMail, 0) := rfl
    rw [frameSyscall_none hinv, hperform, ← clearMail_eq_iff, Option.some.injEq, Prod.mk.injEq]
    exact ⟨fun he => he.1.symm, fun he => ⟨he.symm, rfl⟩⟩

/-- The registers of a call of `dosyscall` with a number and `data`. -/
def dosyscallCpu (sysno data : UInt64) : Cpu :=
  ⟨update (update (fun _ => 0) .rdi sysno) .rcx data, List.replicate 9 0⟩

theorem syscalls_marshalled_allow : Marshals dosyscall (dosyscallCpu 0x03 7) (.setAllow 7) :=
  ((syscalls_marshalled _).1 _ 0 ⟨rfl, rfl, rfl, by decide, rfl, rfl, 0, [], rfl⟩).mpr (by simp)

/-- A task with a message in its mailbox. -/
def unreadKernel : Kernel :=
  { Kernel.blank with ipc := fun _ => ⟨0x1000, 0x1008, 0x1000, 0x1000, 8, 0, none⟩ }

/-- `clear_mail` leaves the message where it is. -/
theorem clear_mail_ignored : ¬ ∀ (op : KernelOp) (above : UInt32) (c : Cpu) (regs : Frame),
    (op.wrapper above).Passed c → Cpu.trap dosyscall c = some regs → ∀ fuel k t reserved,
      Kernel.frameSyscall fuel k regs t reserved = k.perform fuel t reserved op := by
  intro hall
  have hpassed : (KernelOp.clearMail.wrapper 0).Passed (dosyscallCpu 0x05 0) :=
    ⟨rfl, rfl, rfl, rfl, rfl, rfl, 0, [], rfl⟩
  obtain ⟨regs, htrap, hinv⟩ := dosyscall_invokes hpassed
  have hsame := hall .clearMail 0 _ regs hpassed htrap 0 unreadKernel 0 0
  rw [frameSyscall_none hinv] at hsame
  have hclear : unreadKernel.__clearMail = unreadKernel :=
    (congrArg Prod.fst (Option.some.inj hsame)).symm
  exact absurd ((clearMail_eq_iff unreadKernel).mp hclear).2.2 (by decide)

end TayHuang
