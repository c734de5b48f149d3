import TayHuang.MailHeaders
import TayHuang.RpcRegistry
import TayHuang.RpcServers

/-! The message loop of a module, ipc.c of libkmod: what `recv_msg` copies to the buffer of
the loop, and what the loop copies on to the buffer of a call that waits. -/

namespace TayHuang

open Function (update)
open Runs

/-- The kernel with the messages that wait for the module, and the entries for answers. By
its signal, which no other call has, `blocks` is the size of the buffer that a call of
`__rpc_call` has for its answer, 0 once the buffer is freed, and `answered` says that the
call may go on. `nextSignal` is the next id of `create_signal`. -/
structure LoopState where
  kernel : Kernel
  pending : List Msgpack
  reg : Reg
  blocks : Nat → Nat
  answered : Nat → Bool
  nextSignal : Nat

def messageLen : Nat := 1024

/-- A copy to the buffer of the loop, or on to the address `data` in the buffer of the call
with this signal. -/
inductive Copy
  | message (length : Nat)
  | result (signal data length : Nat)
  deriving DecidableEq, Repr

/-- The copy stays in the buffer that it goes to. -/
def Copy.Inside (blocks : Nat → Nat) : Copy → Prop
  | .message length => length ≤ messageLen
  | .result signal _ length => length ≤ blocks signal

/-- `recv_msg` of `message_loop`, which waits in `check_ipc` until a message is there. -/
def takeMessage (p buffer : Nat) (s : LoopState) (thread : Nat) : Option (LoopState × Msgpack) :=
  let k := s.kernel.withCurrent thread
  if k.currentTask = p ∧ (k.ipc p).usedSize ≠ 0 then
    (k.__recvMsg buffer).map fun r =>
      ({ s with
        kernel := r.1
        pending := s.pending.tail }, r.2)
  else none

/-- What a turn of the loop copies for a message. -/
def copies (fuel : Nat) (reg : Reg) (pack : Msgpack) : Option (List Copy) :=
  let received := Copy.message pack.length.toNat
  if pack.messageNo = RpcServer.msgRpcResult then
    (getSignal fuel reg pack.msgId.toNat).map fun found =>
      match found with
      | none => [received]
      | some q => [received, .result (reg.node q).signal (reg.node q).data pack.length.toNat]
  else some [received]

/-- The end of a turn. The handlers do not touch the mailbox or the registry. -/
def endTurn (fuel : Nat) (s : LoopState) (pack : Msgpack) : Option LoopState :=
  if pack.messageNo = RpcServer.msgRpcResult then
    (getSignal fuel s.reg pack.msgId.toNat).bind fun found =>
      match found with
      | none => some s
      | some q => (removeRpcResult fuel s.reg pack.msgId.toNat).map fun reg =>
        { s with
          reg := reg
          answered := update s.answered (s.reg.node q).signal true }
  else some s

/-- `thread` is the one that runs; `other` is what the programs and the system do with the
rest of the memory; `signal` is what `create_signal` and `data` and `new` are what `malloc`
returns in a call. A call that is answered goes on, and frees its buffer in the end. -/
inductive LoopEvent
  | send (thread : Nat) (msgno : MsgnoId) (reserved : UInt8) (src size : Nat)
  | dummySend (msgno : MsgnoId) (reserved : UInt8) (src size : Nat)
  | allow (thread : Nat) (pid : Int)
  | other (mem : Nat → UInt8) (pt : PTMem)
  | call (msgid signal data returnSize new : Nat)
  | finish (signal : Nat)
  | turn (thread : Nat)

/-- A message that the kernel took joins those that wait. -/
def LoopState.sent (s : LoopState) (pack : Msgpack) (r : Kernel × Bool) : LoopState :=
  { s with
    kernel := r.1
    pending := if r.2 then s.pending ++ [pack] else s.pending }

/-- The module is the task `p`, and its pid is `pid`. -/
def loopStep (p : Nat) (pid : Int) (buffer fuel : Nat) (s : LoopState) : LoopEvent → Option LoopState
  | .send thread msgno reserved src size =>
    let k := s.kernel.withCurrent thread
    (k.__sendMsg msgno reserved src size pid).map
      (s.sent (Kernel.header msgno reserved size (k.task k.currentTask).pid))
  | .dummySend msgno reserved src size =>
    (s.kernel.dummySendMsg msgno reserved src size pid).map
      (s.sent (Kernel.header msgno reserved size (-2)))
  | .allow thread allowed =>
    some { s with kernel := (s.kernel.withCurrent thread).__setAllow allowed }
  | .other mem pt => some { s with kernel := s.kernel.withMemory mem pt }
  | .call msgid signal data returnSize new =>
    if s.nextSignal ≤ signal then
      (setRpcResult fuel new s.reg msgid signal data).map fun reg =>
        { s with
          reg := reg
          blocks := update s.blocks signal (8 + returnSize)
          nextSignal := signal + 1 }
    else none
  | .finish signal =>
    if s.answered signal then some { s with blocks := update s.blocks signal 0 } else none
  | .turn thread => (takeMessage p buffer s thread).bind fun r => endTurn fuel r.1 r.2

def LoopStep (p : Nat) (pid : Int) (buffer : Nat) (s : LoopState) (e : LoopEvent) (s' : LoopState) :
    Prop := ∃ fuel, loopStep p pid buffer fuel s e = some s'

/-- The module has just set its mailbox of 8 KiB, and no call waits. -/
def loopStart (p : Nat) (pid : Int) (s : LoopState) : Prop :=
  ∃ (k : Kernel) (mail : Nat), k.currentTask = p ∧ k.getTaskByPid pid = some p ∧
    Box (k.pa p) mail 8192 ∧ s.kernel = k.__setMailbuffer mail 8192 ∧ s.pending = [] ∧
    s.reg.head = none ∧ ∀ signal, s.answered signal = false

/-- The entries of the registry. -/
inductive Listed (reg : Reg) : Nat → Prop
  | head {q : Nat} (h : reg.head = some q) : Listed reg q
  | next {q n : Nat} (h : Listed reg q) (hn : (reg.node q).next = some n) : Listed reg n

/-- Every buffer that an entry with this id names is there, and has room for the answer. -/
def AnswerFits (reg : Reg) (blocks : Nat → Nat) (x : Msgpack) : Prop :=
  x.messageNo = RpcServer.msgRpcResult → ∀ q, Listed reg q → (reg.node q).msgid = x.msgId.toNat →
    x.length.toNat ≤ blocks (reg.node q).signal

/-- What is accepted has at most the size of the buffer of the loop, and of those buffers
that entries name for it. -/
def AcceptedFits (s : LoopState) (k : Kernel) (allowed : Int → Prop) (pid : Int) (x : Msgpack)
    (size : Nat) : Prop :=
  ∀ p, k.Admits allowed size pid p → size ≤ messageLen ∧ AnswerFits s.reg s.blocks x

/-- Accepted messages fit, a call is not given a buffer that is too small for an answer that
is already there, and does not free its buffer while another answer for it is there. The
mailbox is written by the kernel only: not by the programs, and the buffer of the loop is
somewhere else. -/
def LoopFits (p : Nat) (pid : Int) (buffer : Nat) (s : LoopState) : LoopEvent → Prop
  | .send thread msgno reserved _ size =>
    let k := s.kernel.withCurrent thread
    AcceptedFits s k k.sendAllowed pid (Kernel.header msgno reserved size (k.task k.currentTask).pid)
      size
  | .dummySend msgno reserved _ size =>
    AcceptedFits s s.kernel Kernel.dummyAllowed pid (Kernel.header msgno reserved size (-2)) size
  | .allow _ _ => True
  | .other mem pt => ∀ i < (s.kernel.ipc p).mailSize,
    (s.kernel.withMemory mem pt).pa p ((s.kernel.ipc p).mail + i) =
      s.kernel.pa p ((s.kernel.ipc p).mail + i) ∧
    mem (s.kernel.pa p ((s.kernel.ipc p).mail + i)) =
      s.kernel.mem (s.kernel.pa p ((s.kernel.ipc p).mail + i))
  | .call msgid signal data returnSize new => ∀ fuel reg,
    setRpcResult fuel new s.reg msgid signal data = some reg →
      ∀ x ∈ s.pending, AnswerFits reg (update s.blocks signal (8 + returnSize)) x
  | .finish signal => ∀ x ∈ s.pending, AnswerFits s.reg (update s.blocks signal 0) x
  | .turn _ => ∀ a ∈ addresses buffer messageLen, ¬ InMailbox s.kernel p (s.kernel.pa p a)

/-! ### The registry -/

section Registry

variable {reg reg' : Reg} {fuel msgid q : Nat}

theorem listed_of_findNode {m : Nat → SignalLn} {cur : Option Nat}
    (h : findNode m msgid fuel cur = some (some q)) (P : Nat → Prop) (hcur : ∀ c, cur = some c → P c)
    (hnext : ∀ c n, P c → (m c).next = some n → P n) : P q ∧ (m q).msgid = msgid := by
  induction fuel generalizing cur with
  | zero => simp [findNode] at h
  | succ fuel ih =>
    cases cur with
    | none => simp [findNode] at h
    | some c =>
      rw [findNode] at h
      split at h
      · next hid =>
        obtain rfl := Option.some.inj (Option.some.inj h)
        exact ⟨hcur c rfl, hid⟩
      · exact ih h fun n hn => hnext c n (hcur c rfl) hn

/-- `get_signal` finds an entry. -/
theorem listed_of_getSignal (h : getSignal fuel reg msgid = some (some q)) :
    Listed reg q ∧ (reg.node q).msgid = msgid :=
  listed_of_findNode h (Listed reg) (fun _ hc => .head hc) fun _ _ hc hn => .next hc hn

theorem removeLoop_cases {m m' : Nat → SignalLn} {cur : Nat}
    (h : removeLoop m msgid cur fuel = some m') :
    m' = m ∨ ∃ n, (m cur).next = some n ∧ m' = update m cur { m cur with next := (m n).next } := by
  induction fuel with
  | zero => simp [removeLoop] at h
  | succ fuel ih =>
    rw [removeLoop] at h
    cases hn : (m cur).next with
    | none =>
      simp only [hn] at h
      exact .inl (Option.some.inj h).symm
    | some n =>
      simp only [hn] at h
      split at h
      · exact .inr ⟨n, rfl, (Option.some.inj h).symm⟩
      · have hloop := ih h
        rwa [hn] at hloop

theorem listed_of_remove (h : removeRpcResult fuel reg msgid = some reg') (hq : Listed reg' q) :
    Listed reg q ∧ (reg'.node q).msgid = (reg.node q).msgid ∧
      (reg'.node q).signal = (reg.node q).signal := by
  obtain ⟨head, node⟩ := reg
  unfold removeRpcResult at h
  cases head with
  | none =>
    obtain rfl := Option.some.inj h
    exact ⟨hq, rfl, rfl⟩
  | some cur =>
    obtain ⟨m, hm, rfl⟩ := Option.map_eq_some_iff.mp h
    have hcur : Listed ⟨some cur, node⟩ cur := .head rfl
    rcases removeLoop_cases hm with rfl | ⟨n, hn, rfl⟩
    · exact ⟨hq, rfl, rfl⟩
    · have hfields : ∀ c, (update node cur { node cur with next := (node n).next } c).msgid =
          (node c).msgid ∧
          (update node cur { node cur with next := (node n).next } c).signal =
            (node c).signal := by
        intro c
        by_cases hc : c = cur
        · rw [hc, Function.update_self]
          exact ⟨rfl, rfl⟩
        · rw [Function.update_of_ne hc]
          exact ⟨rfl, rfl⟩
      refine ⟨?_, hfields q⟩
      induction hq with
      | head hq => exact .head hq
      | @next c d _ hd ih =>
        have hc := ih
        by_cases he : c = cur
        · simp only [he, Function.update_self] at hd
          exact .next (.next hcur hn) hd
        · simp only [Function.update_of_ne he] at hd
          exact .next hc hd

end Registry

/-! ### The invariant -/

structure LoopOk (p : Nat) (pid : Int) (s : LoopState) : Prop where
  target : s.kernel.getTaskByPid pid = some p
  headed : ∃ r, Headed s.kernel p r s.pending
  short : ∀ x ∈ s.pending, x.length.toNat ≤ messageLen
  answers : ∀ x ∈ s.pending, AnswerFits s.reg s.blocks x

section Invariant

variable {p buffer fuel thread : Nat} {pid : Int} {s s' : LoopState} {k k' : Kernel} {x : Msgpack}
  {allowed : Int → Prop} {size : Nat}

theorem mem_addresses {a n m v : Nat} (h : v ∈ addresses a n) (hle : n ≤ m) : v ∈ addresses a m := by
  obtain ⟨i, hi, rfl⟩ := List.mem_map.mp h
  exact List.mem_map.mpr ⟨i, List.mem_range.mpr (Nat.lt_of_lt_of_le (List.mem_range.mp hi) hle), rfl⟩

theorem LoopOk.delivered {paSrc : Nat → Nat} {src : Nat} {wakes : Bool} (h : LoopOk p pid s)
    (hk : Headed k p r s.pending) (htarget : k.getTaskByPid pid = some p)
    (hx : x.length = UInt16.ofNat size) (hroom : Kernel.HasRoom (k.ipc p) size)
    (hallow : allowed (k.ipc p).allowPid) (hfits : AcceptedFits s k allowed pid x size)
    (hd : k.deliver p x paSrc src size wakes = some k') : LoopOk p pid (s.sent x (k', true)) := by
  obtain ⟨hshort, hanswer⟩ := hfits p ⟨htarget, hroom, hallow⟩
  have hlt : size < 2 ^ 16 := Nat.lt_of_le_of_lt hshort (by decide)
  have hlen : x.length.toNat = size := by
    rw [hx, UInt16.toNat_ofNat_of_lt' (by simpa using hlt)]
  refine ⟨?_, ⟨r, hk.deliver hlt hx hroom hd⟩, fun y hy => ?_, fun y hy => ?_⟩
  · obtain ⟨state, freeNext, level0, rfl⟩ := Kernel.deliver_frame hd
    exact htarget
  · rcases List.mem_append.mp hy with hy | hy
    · exact h.short y hy
    · rw [List.mem_singleton.mp hy, hlen]
      exact hshort
  · rcases List.mem_append.mp hy with hy | hy
    · exact h.answers y hy
    · rw [List.mem_singleton.mp hy]
      exact hanswer

theorem Headed.withCurrent {r : Nat} {l : List Msgpack} (h : Headed k p r l) (thread : Nat) :
    Headed (k.withCurrent thread) p r l :=
  h.congr (fun _ _ => rfl) (fun _ _ => rfl) ⟨_, rfl⟩

theorem LoopOk.take (h : LoopOk p pid s) {r : LoopState × Msgpack}
    (ht : takeMessage p buffer s thread = some r) :
    ∃ l, s.pending = r.2 :: l ∧ r.1.reg = s.reg ∧ r.1.blocks = s.blocks ∧ r.1.pending = l ∧
      (∀ a, a ∉ (addresses buffer r.2.length.toNat).map (s.kernel.pa p) →
        r.1.kernel.mem a = s.kernel.mem a) ∧
      ((∀ a ∈ addresses buffer messageLen, ¬ InMailbox s.kernel p (s.kernel.pa p a)) →
        LoopOk p pid r.1) := by
  obtain ⟨i, hheaded⟩ := h.headed
  simp only [takeMessage] at ht
  split at ht
  · next hrun =>
    obtain ⟨hcur, hne⟩ := hrun
    obtain ⟨r', hrecv, rfl⟩ := Option.map_eq_some_iff.mp ht
    have hused := hheaded.used
    cases hl : s.pending with
    | nil =>
      rw [hl] at hused
      exact absurd hused hne
    | cons x l =>
      rw [hl] at hheaded
      have hhead := hheaded.withCurrent thread
      subst hcur
      obtain ⟨mem, hk, hmem⟩ := hhead.recv buffer
      obtain rfl := Option.some.inj (hk.symm.trans hrecv)
      have hkept : ∀ y ∈ l, y ∈ s.pending := fun y hy => by
        rw [hl]
        exact List.mem_cons_of_mem _ hy
      refine ⟨l, rfl, rfl, rfl, rfl, hmem, fun hbuffer => ⟨h.target,
        ⟨_, hhead.taken (fun a ha => ?_) hmem⟩, fun y hy => h.short y (hkept y hy),
        fun y hy => h.answers y (hkept y hy)⟩⟩
      exact hbuffer a (mem_addresses ha (h.short x (by simp [hl])))
  · simp at ht

theorem LoopOk.endTurn (h : LoopOk p pid s) (he : endTurn fuel s x = some s') : LoopOk p pid s' := by
  simp only [TayHuang.endTurn] at he
  split at he
  · obtain ⟨found, -, he⟩ := Option.bind_eq_some_iff.mp he
    cases found with
    | none =>
      obtain rfl := Option.some.inj he
      exact h
    | some q =>
      obtain ⟨reg, hreg, rfl⟩ := Option.map_eq_some_iff.mp he
      refine ⟨h.target, h.headed, h.short, fun y hy hno n hn hid => ?_⟩
      obtain ⟨hlisted, hmsgid, hsignal⟩ := listed_of_remove hreg hn
      rw [hsignal]
      exact h.answers y hy hno n hlisted (hmsgid ▸ hid)
  · obtain rfl := Option.some.inj he
    exact h

theorem LoopOk.step {e : LoopEvent} (h : LoopOk p pid s) (hfits : LoopFits p pid buffer s e)
    (hstep : LoopStep p pid buffer s e s') : LoopOk p pid s' := by
  obtain ⟨fuel, hstep⟩ := hstep
  obtain ⟨r, hheaded⟩ := h.headed
  cases e with
  | send thread msgno reserved src size =>
    have hk := hheaded.withCurrent thread
    obtain ⟨⟨k', b⟩, hsend, rfl⟩ := Option.map_eq_some_iff.mp hstep
    rcases Kernel.sendMsg_cases hsend with ⟨rfl, rfl⟩ | ⟨rfl, q, hq, hroom, hallow, hd⟩
    · exact ⟨h.target, ⟨r, hk⟩, h.short, h.answers⟩
    · obtain rfl := Option.some.inj (hq.symm.trans h.target)
      exact h.delivered hk h.target rfl hroom hallow hfits hd
  | dummySend msgno reserved src size =>
    obtain ⟨⟨k', b⟩, hsend, rfl⟩ := Option.map_eq_some_iff.mp hstep
    rcases Kernel.dummySendMsg_cases hsend with ⟨rfl, rfl⟩ | ⟨rfl, q, hq, hroom, hallow, hd⟩
    · exact ⟨h.target, ⟨r, hheaded⟩, h.short, h.answers⟩
    · obtain rfl := Option.some.inj (hq.symm.trans h.target)
      exact h.delivered hheaded h.target rfl hroom hallow hfits hd
  | allow thread allowed =>
    obtain rfl := Option.some.inj hstep
    refine ⟨h.target, ⟨r, hheaded.congr (fun _ _ => rfl) (fun _ _ => rfl) ?_⟩, h.short, h.answers⟩
    by_cases hp : p = s.kernel.owner thread
    · subst hp
      exact ⟨allowed, Function.update_self ..⟩
    · exact ⟨_, Function.update_of_ne hp ..⟩
  | other mem pt =>
    obtain rfl := Option.some.inj hstep
    exact ⟨h.target, ⟨r, hheaded.congr (fun i hi => (hfits i hi).1) (fun i hi => (hfits i hi).2)
      ⟨_, rfl⟩⟩, h.short, h.answers⟩
  | call msgid signal data returnSize new =>
    simp only [loopStep] at hstep
    split at hstep
    · obtain ⟨reg, hreg, rfl⟩ := Option.map_eq_some_iff.mp hstep
      exact ⟨h.target, ⟨r, hheaded⟩, h.short, hfits fuel reg hreg⟩
    · simp at hstep
  | finish signal =>
    simp only [loopStep] at hstep
    split at hstep
    · obtain rfl := Option.some.inj hstep
      exact ⟨h.target, ⟨r, hheaded⟩, h.short, hfits⟩
    · simp at hstep
  | turn thread =>
    obtain ⟨m, hm, he⟩ := Option.bind_eq_some_iff.mp hstep
    obtain ⟨l, -, -, -, -, -, hok⟩ := h.take hm
    exact (hok hfits).endTurn he

theorem LoopOk.start (h : loopStart p pid s) : LoopOk p pid s := by
  obtain ⟨kernel, pending, reg, blocks, answered, nextSignal⟩ := s
  obtain ⟨k, mail, hcur, htarget, hbox, hkernel, hpending, -⟩ := h
  simp only at hkernel hpending
  subst hkernel hpending hcur
  refine ⟨htarget, ⟨0, ?_⟩, by simp, by simp⟩
  refine ⟨?_, ?_, ?_, ?_, trivial⟩
  all_goals simp only [Kernel.__setMailbuffer, Function.update_self]
  · exact hbox
  · omega
  · exact .start rfl rfl rfl (by simp)
  · rfl

theorem LoopOk.run {es : List LoopEvent}
    (h : Run (loopStart p pid) (Guarded (LoopFits p pid buffer) (LoopStep p pid buffer)) es s) :
    LoopOk p pid s :=
  h.invariant (I := fun _ s => LoopOk p pid s) (fun _ h0 => .start h0)
    fun _ _ _ _ hok hstep => hok.step hstep.1 hstep.2

end Invariant

theorem mailKernel_pa {v : Nat} (hge : 24576 ≤ v) (hlt : v < 2 ^ 21) : mailKernel.pa 0 v = v :=
  mailTables_identity hge hlt

/-- Its mailbox is at 28672, and it takes messages from everyone. -/
def emptyLoop : LoopState :=
  ⟨(mailKernel.__setAllow (-1)).__setMailbuffer 28672 8192, [], ⟨none, fun _ => ⟨0, 0, 0, none⟩⟩,
    fun _ => 0, fun _ => false, 0⟩

theorem emptyLoop_start : loopStart 0 7 emptyLoop := by
  have hpa : ∀ i < 8192, (mailKernel.__setAllow (-1)).pa 0 (28672 + i) = 28672 + i :=
    fun i hi => mailKernel_pa (by omega) (by omega)
  refine ⟨mailKernel.__setAllow (-1), 28672, rfl, rfl, ⟨by omega, by omega, fun i j hi hj he => ?_⟩,
    rfl, rfl, rfl, fun _ => rfl⟩
  rw [hpa i hi, hpa j hj] at he
  omega

/-- The module sends itself a message, which is the next one that the loop takes. -/
theorem send_taken {s : LoopState} (hkernel : s.kernel = emptyLoop.kernel) (hpending : s.pending = [])
    (msgno : MsgnoId) {size : Nat} (hsize : size ≤ 8184) (buffer : Nat) :
    ∃ s' r, LoopStep 0 7 buffer s (.send 0 msgno 0 24576 size) s' ∧
      takeMessage 0 buffer s' 0 = some r ∧ r.2 = ⟨0, msgno.messageNo, msgno.msgId, .ofNat size, 7⟩ ∧
        r.1.reg = s.reg ∧ r.1.blocks = s.blocks := by
  obtain ⟨kernel, pending, reg, blocks, answered, nextSignal⟩ := s
  simp only at hkernel hpending
  subst hkernel hpending
  obtain ⟨i, hheaded⟩ : ∃ i, Headed emptyLoop.kernel 0 i [] := (LoopOk.start emptyLoop_start).headed
  have hroom : Kernel.HasRoom (emptyLoop.kernel.ipc 0) size := by
    have hused : (emptyLoop.kernel.ipc 0).usedSize = 0 := rfl
    have hmail : (emptyLoop.kernel.ipc 0).mailSize = 8192 := rfl
    unfold Kernel.HasRoom
    rw [hused, hmail]
    omega
  have hadmits : Kernel.Admits (emptyLoop.kernel.withCurrent 0)
      (emptyLoop.kernel.withCurrent 0).sendAllowed size 7 0 := ⟨rfl, hroom, .inr rfl⟩
  have hhandler : ((emptyLoop.kernel.withCurrent 0).ipc 0).msgHandlerThread ≠ none := by decide
  obtain ⟨k', hd⟩ : ∃ k', (emptyLoop.kernel.withCurrent 0).deliver 0 (Kernel.header msgno 0 size 7)
      ((emptyLoop.kernel.withCurrent 0).pa 0) 24576 size
      (((emptyLoop.kernel.withCurrent 0).ipc 0).allowPid ≠ -2) = some k' :=
    Kernel.deliver_isSome hhandler
  have hstep : (emptyLoop.kernel.withCurrent 0).__sendMsg msgno 0 24576 size 7 = some (k', true) := by
    rw [Kernel.sendMsg_admitted hadmits]
    exact congrArg (Option.map _) hd
  have hafter := (hheaded.withCurrent 0).deliver (by omega) rfl hroom hd
  obtain ⟨state, freeNext, level0, hk'⟩ := Kernel.deliver_frame hd
  have hcur : (k'.withCurrent 0).currentTask = 0 := by
    rw [hk']
    rfl
  have hhead := hafter.withCurrent 0
  have hused : ((k'.withCurrent 0).ipc 0).usedSize ≠ 0 := by
    have hsum := hhead.used
    rw [List.nil_append, occupied_cons] at hsum
    omega
  have hown : Headed (k'.withCurrent 0) (k'.withCurrent 0).currentTask i
      [Kernel.header msgno 0 size 7] := by
    rw [hcur]
    exact hhead
  obtain ⟨k'', hrecv⟩ : ∃ k'', (k'.withCurrent 0).__recvMsg buffer =
      some (k'', Kernel.header msgno 0 size 7) := by
    obtain ⟨mem, hrecv, -⟩ := hown.recv buffer
    exact ⟨_, hrecv⟩
  refine ⟨LoopState.sent ⟨emptyLoop.kernel, [], reg, blocks, answered, nextSignal⟩
      (Kernel.header msgno 0 size 7) (k', true),
    (⟨k'', [], reg, blocks, answered, nextSignal⟩, Kernel.header msgno 0 size 7),
    ⟨0, congrArg (Option.map _) hstep⟩, ?_, rfl, rfl, rfl⟩
  simp only [takeMessage, LoopState.sent]
  rw [if_pos ⟨hcur, hused⟩]
  exact congrArg (Option.map _) hrecv

end TayHuang
