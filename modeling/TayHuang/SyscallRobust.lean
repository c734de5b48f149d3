import TayHuang.CreatedSignals
import TayHuang.SyscallReads

/-! Which system calls are robust against their arguments. None of them checks the id of
a semaphore, the number of an IRQ or a pointer, so a call is robust if and only if its
arguments are. -/

namespace TayHuang.Kernel

open Function (update)
open LinkedCells Runs

/-- The call returns, `IRQ_HANDLE_TASKS` is indexed in its bounds, and no pointer is used
for which `__pa` gives `NULL`. Then page 0 is neither written nor read, unless something is
mapped there. -/
structure Robust (k : Kernel) (regs : Frame) (t : Nat) (reserved : UInt8) : Prop where
  returns : ∃ fuel r, k.frameSyscall fuel regs t reserved = some r
  indexed : ∀ i ∈ regs.irqIndex, 0 ≤ i ∧ i < 16
  mapped : ∀ call ∈ regs.syscall t reserved, ∀ x ∈ k.touches call, k.pa x.1 x.2 ≠ 0
  spared : (∀ p v, k.pa p v = 0 ∨ 4096 ≤ k.pa p v) → ∀ fuel k' r,
    k.frameSyscall fuel regs t reserved = some (k', r) → (∀ a < 4096, k'.mem a = k.mem a) ∧
      ∀ m, (∀ a, 4096 ≤ a → m a = k.mem a) → ∃ m',
        (k.withMemory m k.pt).frameSyscall fuel regs t reserved = some (k'.withMemory m' k'.pt, r) ∧
          ∀ a, 4096 ≤ a → m' a = k'.mem a

/-! ### The arguments -/

/-- The `n` bytes from `ptr` on of a mailbox are mapped. -/
def RingMapped (k : Kernel) (p : Nat) (ipc : IpcInfo) (ptr n : Nat) : Prop :=
  ∀ i < n, k.pa p ((increasePtr ipc.mail ipc.mailSize)^[i] ptr) ≠ 0

/-- The `n` bytes at `buffer` are mapped. -/
def RangeMapped (k : Kernel) (p buffer n : Nat) : Prop := ∀ i < n, k.pa p ((buffer + i) % 2 ^ 64) ≠ 0

/-- `__up_signal` finds a thread whenever it looks for one. -/
def Raisable (s : Signal Nat) : Prop :=
  s.soft = true ∨ s.waiting ≠ [] ∨ 0 < s.signals + if s.signals < s.maxSignals then 1 else 0

/-- The list of threads that starts at `t` ends. -/
def ListEnds (next : Nat → Option Nat) (t : Nat) : Prop :=
  ∃ rest, Chained id (fun _ n => n) next (t :: rest) none

/-- What the code relies on for the arguments of a call, and does not check. -/
def Usable (k : Kernel) : Syscall → Prop
  | .sendMsg _ _ src size dst => ∀ p, Admits k k.sendAllowed size dst p →
    (k.ipc p).msgHandlerThread ≠ none ∧
      RingMapped k p (k.ipc p) (k.ipc p).writePtr (8 + size % 2 ^ 16) ∧
      RangeMapped k k.currentTask src (size % 2 ^ 16)
  | .recvMsg dst => (k.ipc k.currentTask).usedSize ≠ 0 →
    k.pendingLength + 8 ≤ (k.ipc k.currentTask).usedSize ∧
      RingMapped k k.currentTask (k.ipc k.currentTask) (k.ipc k.currentTask).readPtr
        (8 + k.pendingLength) ∧
      RangeMapped k k.currentTask dst k.pendingLength
  | .testAndLock val => k.pa k.currentTask val ≠ 0
  | .getSignals id | .downSignal id | .isSoftSignal id => id < k.curId
  | .upSignal id => id < k.curId ∧ ∀ s ∈ k.signal id, Raisable s
  | .createThread t _ _ => ListEnds (update k.next t none) (k.task k.currentTask).threads
  | _ => True

structure Valid (k : Kernel) (regs : Frame) (t : Nat) (reserved : UInt8) : Prop where
  irq : ∀ i ∈ regs.irqIndex, 0 ≤ i ∧ i < 16
  usable : ∀ call ∈ regs.syscall t reserved, Usable k call

variable {k k' : Kernel} {call : Syscall} {p q ptr buffer len : Nat} {ipc : IpcInfo}

theorem messagePointers_mapped : (∀ x ∈ messagePointers p q ipc ptr buffer len, k.pa x.1 x.2 ≠ 0) ↔
    RingMapped k p ipc ptr (8 + len) ∧ RangeMapped k q buffer len := by
  simp only [messagePointers, List.mem_append, List.mem_map, addresses, List.mem_range]
  constructor
  · intro h
    refine ⟨fun i hi => h (p, _) (.inl ⟨_, mem_ringPointers.mpr ⟨i, hi, rfl⟩, rfl⟩), fun i hi => ?_⟩
    exact h (q, _) (.inr ⟨_, ⟨i, hi, rfl⟩, rfl⟩)
  · rintro ⟨hring, hrange⟩ x (⟨v, hv, rfl⟩ | ⟨v, ⟨i, hi, rfl⟩, rfl⟩)
    · obtain ⟨i, hi, rfl⟩ := mem_ringPointers.mp hv
      exact hring i hi
    · exact hrange i hi

theorem upSignal_returns {s : Signal Nat} : (∃ r, upSignal s = some r) ↔ Raisable s := by
  have hcount : (if s.signals < s.maxSignals then { s with signals := s.signals + 1 } else s).signals =
      s.signals + if s.signals < s.maxSignals then 1 else 0 := by
    split <;> simp
  have hsame : ∀ P : Prop, ∀ [Decidable P], (if P then { s with signals := s.signals + 1 } else s).soft =
      s.soft ∧ (if P then { s with signals := s.signals + 1 } else s).waiting = s.waiting := by
    intro P _
    split <;> simp
  simp only [upSignal, Raisable, hcount, (hsame _).1, (hsame _).2]
  by_cases hsleep : s.soft = false ∧ (s.signals + if s.signals < s.maxSignals then 1 else 0) ≤ 0
  · rw [if_pos hsleep]
    cases hw : s.waiting with
    | nil =>
      simp [hsleep.1]
      omega
    | cons t rest => simp
  · rw [if_neg hsleep]
    refine ⟨fun _ => ?_, fun _ => ⟨_, rfl⟩⟩
    by_cases hsoft : s.soft = true
    · exact .inl hsoft
    · rw [not_and_or] at hsleep
      rcases hsleep with hh | hh
      · simp at hsoft hh
        simp [hsoft] at hh
      · exact .inr (.inr (by omega))

theorem lastThread_iff {next : Nat → Option Nat} {t : Nat} :
    (∃ fuel u, lastThread next fuel t = some u) ↔ ListEnds next t := by
  constructor
  · rintro ⟨fuel, u, h⟩
    induction fuel generalizing t with
    | zero => simp [lastThread] at h
    | succ fuel ih =>
      rw [lastThread] at h
      cases hn : next t with
      | none => exact ⟨[], hn, trivial⟩
      | some v =>
        simp only [hn] at h
        obtain ⟨rest, hrest⟩ := ih h
        exact ⟨v :: rest, hn, hrest⟩
  · rintro ⟨rest, h⟩
    induction rest generalizing t with
    | nil =>
      have hn : next t = none := h.1
      exact ⟨1, t, by rw [lastThread, hn]⟩
    | cons v rest ih =>
      have hn : next t = some v := h.1
      obtain ⟨fuel, u, hu⟩ := ih h.2
      refine ⟨fuel + 1, u, ?_⟩
      rw [lastThread, hn]
      exact hu

theorem sendMsg_usable {msgno : MsgnoId} {reserved : UInt8} {src size : Nat} {dst : Int} :
    (∃ r, k.__sendMsg msgno reserved src size dst = some r) ∧
        (∀ x ∈ k.touches (.sendMsg msgno reserved src size dst), k.pa x.1 x.2 ≠ 0) ↔
      Usable k (.sendMsg msgno reserved src size dst) := by
  have hlen : (UInt16.ofNat size).toNat = size % 2 ^ 16 := UInt16.toNat_ofNat'
  by_cases hadm : ∃ p, Admits k k.sendAllowed size dst p
  · obtain ⟨p, hp⟩ := hadm
    rw [sendMsg_admitted hp, touches_admitted hp, messagePointers_mapped, hlen]
    constructor
    · rintro ⟨⟨r, hr⟩, hmapped⟩ p' hp'
      obtain rfl := Option.some.inj (hp.1.symm.trans hp'.1)
      refine ⟨fun hnone => ?_, hmapped⟩
      rw [deliver_eq, hnone] at hr
      simp at hr
    · intro h
      obtain ⟨hhandler, hmapped⟩ := h p hp
      obtain ⟨k1, hk1⟩ := deliver_isSome hhandler
      exact ⟨⟨_, by rw [hk1, Option.map_some]⟩, hmapped⟩
  · have hrefused : ∀ p, ¬ Admits k k.sendAllowed size dst p := fun p hp => hadm ⟨p, hp⟩
    rw [sendMsg_refused hrefused, touches_refused hrefused]
    exact ⟨fun _ p hp => absurd hp (hrefused p), fun _ => ⟨⟨_, rfl⟩, by simp⟩⟩

theorem recvMsg_usable {dst : Nat} : (∃ r, k.__recvMsg dst = some r) ∧
    (∀ x ∈ k.touches (.recvMsg dst), k.pa x.1 x.2 ≠ 0) ↔ Usable k (.recvMsg dst) := by
  by_cases hused : (k.ipc k.currentTask).usedSize = 0
  · rw [recvMsg_empty hused]
    simp [touches, Usable, hused]
  · have hreturns : (∃ r, k.__recvMsg dst = some r) ↔
        k.pendingLength + 8 ≤ (k.ipc k.currentTask).usedSize := by
      simp only [__recvMsg, if_neg hused]
      change (∃ r, (if k.pendingLength + 8 ≤ (k.ipc k.currentTask).usedSize then _ else _) = some r) ↔ _
      split
      · next hle => exact ⟨fun _ => hle, fun _ => ⟨_, rfl⟩⟩
      · next hle => simp [hle]
    simp only [touches, if_neg hused, messagePointers_mapped, hreturns, Usable]
    exact ⟨fun h _ => h, fun h => h hused⟩

theorem createThread_returns {t : Nat} {entry args : UInt64} :
    (∃ fuel k', k.__createThread fuel t entry args = some k') ↔
      ListEnds (update k.next t none) (k.task k.currentTask).threads := by
  have hnext : (k.spawnThread t entry k.currentTask).next = update k.next t none := rfl
  obtain ⟨curTid, stackBottom, htask⟩ := spawnThread_task k t entry k.currentTask k.currentTask
  rw [← lastThread_iff]
  constructor
  · rintro ⟨fuel, k', h⟩
    obtain ⟨k1, hk1, -⟩ := Option.map_eq_some_iff.mp h
    obtain ⟨parent, hparent, -⟩ := createThread_eq hk1
    exact ⟨fuel, parent, hparent⟩
  · rintro ⟨fuel, parent, h⟩
    refine ⟨fuel, _, Option.map_eq_some_iff.mpr ⟨_, Option.map_eq_some_iff.mpr ⟨parent, ?_, rfl⟩, rfl⟩⟩
    rw [hnext, htask]
    exact h

theorem exists_map {α β : Type} {o : Option α} {f : α → β} :
    (∃ r, o.map f = some r) ↔ ∃ x, o = some x := by
  cases o <;> simp

theorem upSignal_returns_iff (h : SignalsCreated k) {id : Nat} :
    (∃ k', k.__upSignal id = some k') ↔ id < k.curId ∧ ∀ s ∈ k.signal id, Raisable s := by
  rw [← h id, __upSignal]
  cases hs : k.signal id with
  | none => simp
  | some s => simp [← upSignal_returns]

/-- A call returns and goes through mapped pointers only if and only if its arguments
are what it relies on. -/
theorem usable_iff (h : SignalsCreated k) : ((∃ fuel r, k.syscall fuel call = some r) ∧
    ∀ x ∈ k.touches call, k.pa x.1 x.2 ≠ 0) ↔ Usable k call := by
  have hsignal : ∀ id, (∃ s, k.signal id = some s) ↔ id < k.curId := fun id =>
    Option.ne_none_iff_exists'.symm.trans (h id)
  cases call with
  | sendMsg msgno reserved src size dst =>
    rw [← sendMsg_usable]
    simp only [syscall, exists_const, exists_map]
  | recvMsg dst =>
    rw [← recvMsg_usable]
    simp only [syscall, exists_const, exists_map]
  | testAndLock val => simp [syscall, touches, Usable]
  | getSignals id | isSoftSignal id =>
    simp only [syscall, exists_const, exists_map, hsignal, touches, Usable]
    simp
  | downSignal id =>
    simp only [syscall, __downSignal, exists_const, exists_map, hsignal, touches, Usable]
    simp
  | upSignal id =>
    simp only [syscall, exists_const, exists_map, upSignal_returns_iff h, touches, Usable]
    simp
  | createThread t entry args =>
    simp only [syscall, exists_map, createThread_returns, touches, Usable]
    simp
  | checkIpc | setAllow | setMailbuffer | createSignal | regIrq | exitThread | moo =>
    simp [syscall, touches, Usable]

theorem syscall_spared {fuel : Nat} {r : UInt64}
    (hmapped : ∀ x ∈ k.touches call, k.pa x.1 x.2 ≠ 0)
    (hpage : ∀ p v, k.pa p v = 0 ∨ 4096 ≤ k.pa p v) (hs : k.syscall fuel call = some (k', r)) :
    (∀ a < 4096, k'.mem a = k.mem a) ∧ ∀ m, (∀ a, 4096 ≤ a → m a = k.mem a) → ∃ m',
      (k.withMemory m k.pt).syscall fuel call = some (k'.withMemory m' k'.pt, r) ∧
        ∀ a, 4096 ≤ a → m' a = k'.mem a := by
  have habove : ∀ x ∈ k.touches call, 4096 ≤ k.pa x.1 x.2 := fun x hx =>
    (hpage x.1 x.2).resolve_left (hmapped x hx)
  refine ⟨fun a ha => syscall_frame hs fun x hx => ?_, fun m hm => ?_⟩
  · have := habove x hx
    omega
  · exact syscall_reads habove hm hs

theorem robust_iff {regs : Frame} {t : Nat} {reserved : UInt8} (h : SignalsCreated k) :
    Robust k regs t reserved ↔ Valid k regs t reserved := by
  cases hcall : regs.syscall t reserved with
  | none =>
    have hreturns : ∀ k' fuel, frameSyscall fuel k' regs t reserved = some (k', 0) := by
      intro k' fuel
      rw [frameSyscall, hcall]
    have hno : ∀ c, c ∉ regs.syscall t reserved := by
      intro c hc
      rw [hcall] at hc
      exact absurd hc (by simp)
    constructor
    · intro hr
      exact ⟨hr.indexed, fun c hc => absurd hc (hno c)⟩
    · intro hv
      refine ⟨⟨0, _, hreturns k 0⟩, hv.irq, fun c hc => absurd hc (hno c), ?_⟩
      intro _ fuel k' r hs
      obtain ⟨rfl, rfl⟩ := Prod.mk.inj (Option.some.inj ((hreturns k fuel).symm.trans hs))
      exact ⟨fun _ _ => rfl, fun m hm => ⟨m, hreturns _ fuel, hm⟩⟩
  | some call =>
    have hreturns : ∀ k' fuel, frameSyscall fuel k' regs t reserved = k'.syscall fuel call := by
      intro k' fuel
      rw [frameSyscall, hcall]
    constructor
    · rintro ⟨hr, hindexed, hmapped, -⟩
      refine ⟨hindexed, fun c hc => ?_⟩
      rw [hcall] at hc hmapped
      obtain rfl := Option.some.inj hc
      simp only [hreturns] at hr
      exact (usable_iff h).mp ⟨hr, hmapped _ rfl⟩
    · rintro ⟨hirq, husable⟩
      obtain ⟨hr, hmapped⟩ := (usable_iff h).mpr (husable call hcall)
      refine ⟨by simpa only [hreturns] using hr, hirq, fun c hc => ?_, ?_⟩
      · obtain rfl := Option.some.inj (hcall.symm.trans hc)
        exact hmapped
      · intro hpage fuel k' r hs
        simp only [hreturns] at hs ⊢
        exact syscall_spared hmapped hpage hs

/-- The registers for a call with its `data` and `dst`. -/
def callRegs (sysno data dst : UInt64) : Frame :=
  ((Frame.set (fun _ => 0) .rax sysno).set .rdx data).set .rdi dst

end TayHuang.Kernel
