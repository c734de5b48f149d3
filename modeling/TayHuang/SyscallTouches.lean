import TayHuang.MailAdmission

/-! What `syscall` makes of the registers of a program, and the pointers of programs
that a call goes through. Each byte at such a pointer is used at the address that
`__pa` gives for it, and no other byte is written. -/

namespace TayHuang

open Function (update)

/-- A register as an `int`. -/
def intArg (x : UInt64) : Int := (x.toNat : Int).bmod (2 ^ 32)

/-- A register as an `id_t`. -/
def idArg (x : UInt64) : Nat := x.toNat % 2 ^ 32

/-- `*(msgno_id *)&arg1`. -/
def msgnoArg (x : UInt64) : MsgnoId :=
  ⟨UInt8.ofNat (x.toNat / 2 ^ 8), UInt16.ofNat (x.toNat / 2 ^ 16)⟩

/-- The call that the registers ask for, in the order of the tests of `syscall`. The
`int` `sysno` is compared by its bits; `t` is where `kmalloc` puts a new thread, `reserved`
what the stack holds. -/
def Frame.syscall (regs : Frame) (t : Nat) (reserved : UInt8) : Option Syscall :=
  let sysno := (regs.get .rax).toUInt32
  let counter := regs.get .rcx
  let data := regs.get .rdx
  let src := regs.get .rsi
  let dst := regs.get .rdi
  let arg1 := regs.get .r8
  if sysno = 0x00 then some .moo
  else if sysno = 0x01 then
    some (.sendMsg (msgnoArg arg1) reserved src.toNat counter.toNat (intArg data))
  else if sysno = 0x02 then some .checkIpc
  else if sysno = 0x03 then some (.setAllow (intArg data))
  else if sysno = 0x04 then some (.recvMsg dst.toNat)
  else if sysno = 0x06 then some (.testAndLock dst.toNat)
  else if sysno = 0x07 then some (.setMailbuffer dst.toNat counter.toNat)
  else if sysno = 0x08 then some (.createSignal (intArg counter) (intArg data) (arg1 ≠ 0))
  else if sysno = 0x09 then some (.getSignals (idArg data))
  else if sysno = 0x0A then some (.upSignal (idArg data))
  else if sysno = 0x0B then some (.downSignal (idArg data))
  else if sysno = 0x0C then some (.isSoftSignal (idArg data))
  else if sysno = 0x10 then some (.regIrq (intArg data).toNat)
  else if sysno = 0x20 then some (.createThread t src dst)
  else if sysno = 0x21 then some .exitThread
  else none

/-- The index of `IRQ_HANDLE_TASKS` that the call writes. -/
def Frame.irqIndex (regs : Frame) : Option Int :=
  if (regs.get .rax).toUInt32 = 0x10 then some (intArg (regs.get .rdx)) else none

/-- The pointers that `n` steps of a loop over a mailbox go through. -/
def ringPointers (ipc : IpcInfo) (ptr n : Nat) : List Nat :=
  (List.range n).map fun i => (increasePtr ipc.mail ipc.mailSize)^[i] ptr

theorem mem_ringPointers {ipc : IpcInfo} {ptr n v : Nat} : v ∈ ringPointers ipc ptr n ↔
    ∃ i < n, (increasePtr ipc.mail ipc.mailSize)^[i] ptr = v := by
  simp only [ringPointers, List.mem_map, List.mem_range]

namespace Kernel

/-- `syscall`, from the registers on. A number that it does not know has no effect. -/
def frameSyscall (fuel : Nat) (k : Kernel) (regs : Frame) (t : Nat) (reserved : UInt8) :
    Option (Kernel × UInt64) :=
  match regs.syscall t reserved with
  | none => some (k, 0)
  | some call => k.syscall fuel call

/-- The `length` in the header that `read_from_buffer` finds. -/
def pendingLength (k : Kernel) : Nat :=
  let ipc := k.ipc k.currentTask
  (Msgpack.ofBytes (popBytes (k.pa k.currentTask) (increasePtr ipc.mail ipc.mailSize) k.mem 8
    ipc.readPtr).1).length.toNat

/-- The pointers that a message of `len` bytes goes through, with the tasks whose page
tables translate them. -/
def messagePointers (p q : Nat) (ipc : IpcInfo) (ptr buffer len : Nat) : List (Nat × Nat) :=
  (ringPointers ipc ptr (8 + len)).map (fun v => (p, v)) ++ (addresses buffer len).map fun v => (q, v)

/-- The pointers of programs that a call goes through. -/
def touches (k : Kernel) : Syscall → List (Nat × Nat)
  | .sendMsg _ _ src size dst =>
    match k.getTaskByPid dst with
    | none => []
    | some p =>
      if (k.ipc p).mailSize < ((k.ipc p).usedSize + size + 8) % 2 ^ 64 ∨
          ((k.ipc p).allowPid ≠ (k.task k.currentTask).pid ∧ (k.ipc p).allowPid ≠ -1) then []
      else messagePointers p k.currentTask (k.ipc p) (k.ipc p).writePtr src (UInt16.ofNat size).toNat
  | .recvMsg dst =>
    let ipc := k.ipc k.currentTask
    if ipc.usedSize = 0 then []
    else messagePointers k.currentTask k.currentTask ipc ipc.readPtr dst k.pendingLength
  | .testAndLock val => [(k.currentTask, val)]
  | _ => []

/-! ### What the pointers are used for -/

section Frames

variable {k k' : Kernel} {call : Syscall} {fuel a : Nat} {r : UInt64}

theorem enqueueThread_mem (k : Kernel) (t : Nat) : (k.enqueueThread t).mem = k.mem := by
  obtain ⟨freeNext, level0, he⟩ := enqueueThread_eq k t
  rw [he]

theorem syscall_frame (h : k.syscall fuel call = some (k', r))
    (ha : ∀ x ∈ k.touches call, a ≠ k.pa x.1 x.2) : k'.mem a = k.mem a := by
  cases syscall_effect h with
  | @sent _ _ _ size _ p _ hp hroom hallow hd =>
    have hpass : ¬ ((k.ipc p).mailSize < ((k.ipc p).usedSize + size + 8) % 2 ^ 64 ∨
        ((k.ipc p).allowPid ≠ (k.task k.currentTask).pid ∧ (k.ipc p).allowPid ≠ -1)) := by
      rw [not_or, not_and_or, not_not, not_not]
      exact ⟨Nat.not_lt.mpr hroom, hallow⟩
    simp only [touches, hp, if_neg hpass] at ha
    obtain ⟨state, freeNext, level0, rfl⟩ := deliver_frame hd
    refine writeToBuffer_frame fun i hi => ?_
    refine ha (p, _) (List.mem_append_left _ (List.mem_map_of_mem ?_))
    exact mem_ringPointers.mpr ⟨i, hi, rfl⟩
  | received hk =>
    simp only [__recvMsg] at hk
    simp only [touches] at ha
    split at hk
    · obtain ⟨rfl, -⟩ := Prod.mk.inj (Option.some.inj hk)
      rfl
    · next hused =>
      rw [if_neg hused] at ha
      split at hk
      · obtain ⟨rfl, -⟩ := Prod.mk.inj (Option.some.inj hk)
        simp only [readFromBuffer]
        refine copyOut_frame _ fun hmem => ?_
        obtain ⟨v, hv, rfl⟩ := List.mem_map.mp hmem
        exact ha (k.currentTask, v) (List.mem_append_right _ (List.mem_map_of_mem hv)) rfl
      · simp at hk
  | locks val => exact Function.update_of_ne (ha (k.currentTask, val) List.mem_cons_self) _ _
  | ups hk =>
    obtain ⟨s, s', -, ⟨-, rfl⟩ | ⟨t, -, rfl⟩⟩ := upSignal_effect hk
    · rfl
    · rw [enqueueThread_mem]
      rfl
  | downs hk =>
    obtain ⟨s, s', -, ⟨-, rfl⟩ | ⟨-, rfl⟩⟩ := downSignal_effect hk
    · rfl
    · rfl
  | @spawns t entry _ _ hk =>
    obtain ⟨parent, -, rfl⟩ := createThread_eq hk
    change (((k.spawnThread t entry k.currentTask).linkThread parent t).enqueueThread t).mem a = _
    rw [enqueueThread_mem]
    rfl
  | idle | waits | allows | mails | creates | registers | exits => rfl

end Frames

end Kernel

end TayHuang
