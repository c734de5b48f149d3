import TayHuang.KernelSteps
import TayHuang.Runs

/-! The mailbox of one task as a queue of messages, over runs of sends and receives
by any threads. -/

namespace TayHuang

open Function (update)
open Ring Runs

/-- A message as its sender gave it. -/
structure Mail where
  messageNo : UInt8
  msgId : UInt16
  length : UInt16
  source : UInt16
  payload : List UInt8
  deriving DecidableEq, Repr

/-- The kernel, the messages it accepted for the task and those the task received. -/
structure MailLog where
  kernel : Kernel
  accepted : List Mail
  received : List Mail

/-- `thread` is the one that runs. -/
inductive MailEvent
  | send (thread : Nat) (msgno : MsgnoId) (reserved : UInt8) (src size : Nat)
  | dummySend (msgno : MsgnoId) (reserved : UInt8) (src size : Nat)
  | recv (thread dst : Nat)
  | allow (thread : Nat) (pid : Int)

def mailOf (pack : Msgpack) (payload : List UInt8) : Mail :=
  ⟨pack.messageNo, pack.msgId, pack.length, pack.source, payload⟩

/-- One call. The messages go to the task `p`, whose pid is `pid`. -/
def mailStep (p : Nat) (pid : Int) (s : MailLog) : MailEvent → Option MailLog
  | .send thread msgno reserved src size =>
    let k := s.kernel.withCurrent thread
    (k.__sendMsg msgno reserved src size pid).map fun r =>
      { s with
        kernel := r.1
        accepted :=
          if r.2 then
            s.accepted ++ [⟨msgno.messageNo, msgno.msgId, UInt16.ofNat size,
              Kernel.source16 (k.task k.currentTask).pid,
              span (k.pa k.currentTask) src size k.mem⟩]
          else s.accepted }
  | .dummySend msgno reserved src size =>
    (s.kernel.dummySendMsg msgno reserved src size pid).map fun r =>
      { s with
        kernel := r.1
        accepted :=
          if r.2 then
            s.accepted ++ [⟨msgno.messageNo, msgno.msgId, UInt16.ofNat size, Kernel.source16 (-2),
              span (getPhysicalAddress s.kernel.pt s.kernel.kernelPml4) src size s.kernel.mem⟩]
          else s.accepted }
  | .recv thread dst =>
    let k := s.kernel.withCurrent thread
    if k.currentTask = p then
      (k.__recvMsg dst).map fun r =>
        { s with
          kernel := r.1
          received :=
            if (k.ipc p).usedSize = 0 then s.received
            else s.received ++ [mailOf r.2 (span (r.1.pa p) dst r.2.length.toNat r.1.mem)] }
    else none
  | .allow thread allowed =>
    some { s with kernel := (s.kernel.withCurrent thread).__setAllow allowed }

def MailStep (p : Nat) (pid : Int) (s : MailLog) (e : MailEvent) (s' : MailLog) : Prop :=
  mailStep p pid s e = some s'

/-- The task has just called `__set_mailbuffer`. -/
def mailStart (p : Nat) (pid : Int) (s : MailLog) : Prop :=
  ∃ (k : Kernel) (buffer size : Nat), k.currentTask = p ∧ 1 ≤ size ∧ size ≤ 65543 ∧
    k.getTaskByPid pid = some p ∧ Box (k.pa p) buffer size ∧ s = ⟨k.__setMailbuffer buffer size, [], []⟩

/-- Whether an address holds a byte of the task's mailbox. -/
def InMailbox (k : Kernel) (p a : Nat) : Prop :=
  InBox (k.pa p) (k.ipc p).mail (k.ipc p).mailSize a

/-- The sender's bytes are outside the mailbox, and so are the different bytes that
receive the message. -/
def MailFits (p : Nat) (s : MailLog) : MailEvent → Prop
  | .send thread _ _ src size => size < 2 ^ 16 ∧
    ∀ a ∈ addresses src size, ¬ InMailbox s.kernel p (s.kernel.pa (s.kernel.owner thread) a)
  | .dummySend _ _ src size => size < 2 ^ 16 ∧
    ∀ a ∈ addresses src size,
      ¬ InMailbox s.kernel p (getPhysicalAddress s.kernel.pt s.kernel.kernelPml4 a)
  | .recv _ dst => ∀ m, (s.accepted.drop s.received.length).head? = some m →
    ((addresses dst m.payload.length).map (s.kernel.pa p)).Nodup ∧
      ∀ a ∈ addresses dst m.payload.length, ¬ InMailbox s.kernel p (s.kernel.pa p a)
  | .allow _ _ => True

/-! ### The invariant -/

/-- A message in the mailbox. -/
def raw (x : Msgpack × List UInt8) : List UInt8 := x.1.bytes ++ x.2

def Mail.size (m : Mail) : Nat := 8 + m.length.toNat

/-- The mailbox holds the messages `l` from offset `r` on. -/
structure Holds (k : Kernel) (p r : Nat) (l : List (Msgpack × List UInt8)) : Prop where
  box : Box (k.pa p) (k.ipc p).mail (k.ipc p).mailSize
  small : (k.ipc p).mailSize ≤ 65543
  handler : (k.ipc p).msgHandlerThread ≠ none
  offset : r < (k.ipc p).mailSize
  read : (k.ipc p).readPtr = (k.ipc p).mail + r
  used : (k.ipc p).usedSize = (l.flatMap raw).length
  le : (k.ipc p).usedSize ≤ (k.ipc p).mailSize
  write : (k.ipc p).writePtr =
    (k.ipc p).mail + (r + (k.ipc p).usedSize) % (k.ipc p).mailSize
  content : window (cells (k.pa p) (k.ipc p).mail k.mem) (k.ipc p).mailSize r (k.ipc p).usedSize =
    l.flatMap raw
  lengths : ∀ x ∈ l, x.2.length = x.1.length.toNat

structure MailOk (p : Nat) (pid : Int) (s : MailLog) (r : Nat) (l : List (Msgpack × List UInt8)) :
    Prop where
  target : s.kernel.getTaskByPid pid = some p
  holds : Holds s.kernel p r l
  log : s.accepted = s.received ++ l.map fun x => mailOf x.1 x.2

variable {k k' : Kernel} {p r : Nat} {pid : Int} {l : List (Msgpack × List UInt8)} {s s' : MailLog}

/-- Only the translation, the memory and the record of the mailbox count. -/
theorem Holds.congr (h : Holds k p r l) (hpa : k'.pa p = k.pa p) (hmem : k'.mem = k.mem)
    (hipc : ∃ allowed, k'.ipc p = { k.ipc p with allowPid := allowed }) : Holds k' p r l := by
  obtain ⟨allowed, hipc⟩ := hipc
  refine ⟨?_, ?_, ?_, ?_, ?_, ?_, ?_, ?_, ?_, h.lengths⟩
  · rw [hpa, hipc]
    exact h.box
  · rw [hipc]
    exact h.small
  · rw [hipc]
    exact h.handler
  · rw [hipc]
    exact h.offset
  · rw [hipc]
    exact h.read
  · rw [hipc]
    exact h.used
  · rw [hipc]
    exact h.le
  · rw [hipc]
    exact h.write
  · rw [hpa, hipc, hmem]
    exact h.content

/-- It is enough that the bytes of the mailbox stay, and where they are. -/
theorem Holds.frame (h : Holds k p r l)
    (hpa : ∀ i < (k.ipc p).mailSize, k'.pa p ((k.ipc p).mail + i) = k.pa p ((k.ipc p).mail + i))
    (hmem : ∀ a, InMailbox k p a → k'.mem a = k.mem a)
    (hipc : ∃ allowed, k'.ipc p = { k.ipc p with allowPid := allowed }) : Holds k' p r l := by
  obtain ⟨allowed, hipc⟩ := hipc
  have hbox : Box (k'.pa p) (k.ipc p).mail (k.ipc p).mailSize :=
    ⟨h.box.pos, h.box.top, fun i j hi hj he => h.box.inj i j hi hj (by rwa [hpa i hi, hpa j hj] at he)⟩
  have hcells : ∀ i < (k.ipc p).mailSize, cells (k'.pa p) (k.ipc p).mail k'.mem i =
      cells (k.pa p) (k.ipc p).mail k.mem i := by
    intro i hi
    rw [cells, cells, hpa i hi]
    exact hmem _ ⟨i, hi, rfl⟩
  refine ⟨?_, ?_, ?_, ?_, ?_, ?_, ?_, ?_, ?_, h.lengths⟩
  all_goals rw [hipc]
  · exact hbox
  · exact h.small
  · exact h.handler
  · exact h.offset
  · exact h.read
  · exact h.used
  · exact h.le
  · exact h.write
  · rw [← h.content]
    exact window_congr fun i _ => hcells _ (Nat.mod_lt _ h.box.pos)

theorem Holds.deliver {pack : Msgpack} {paSrc : Nat → Nat} {src size : Nat} {wakes : Bool}
    (h : Holds k p r l) (hsize : size < 2 ^ 16) (hpack : pack.length = UInt16.ofNat size)
    (hroom : Kernel.HasRoom (k.ipc p) size)
    (hsrc : ∀ a ∈ addresses src size, ¬ InMailbox k p (paSrc a))
    (hd : k.deliver p pack paSrc src size wakes = some k') :
    Holds k' p r (l ++ [(pack, span paSrc src size k.mem)]) := by
  have hlen : pack.length.toNat = size := by
    rw [hpack, UInt16.toNat_ofNat_of_lt' (by simpa using hsize)]
  have hle := h.le
  have hsmall := h.small
  have hused : (k.ipc p).usedSize + (8 + size) ≤ (k.ipc p).mailSize := by
    unfold Kernel.HasRoom at hroom
    omega
  have hmod : ((k.ipc p).usedSize + (8 + size)) % 2 ^ 64 = (k.ipc p).usedSize + (8 + size) :=
    Nat.mod_eq_of_lt (by omega)
  obtain ⟨state, freeNext, level0, rfl⟩ := Kernel.deliver_frame hd
  obtain ⟨hptr, hwin⟩ := writeToBuffer_spec k.mem h.box h.write
    (by rw [hlen]; exact hused) (by rw [hlen]; exact hsrc)
  rw [hlen] at hptr hwin
  have hipc : (k.delivered p pack paSrc src size).ipc p = { k.ipc p with
      usedSize := (k.ipc p).usedSize + (8 + size)
      writePtr := (k.ipc p).mail +
        (r + ((k.ipc p).usedSize + (8 + size))) % (k.ipc p).mailSize } := by
    simp only [Kernel.delivered, Function.update_self, hmod, hptr]
  have hflat : (l ++ [(pack, span paSrc src size k.mem)]).flatMap raw =
      l.flatMap raw ++ (pack.bytes ++ span paSrc src size k.mem) := by
    rw [List.flatMap_append]
    simp [raw]
  have hraw : ((l ++ [(pack, span paSrc src size k.mem)]).flatMap raw).length =
      (k.ipc p).usedSize + (8 + size) := by
    rw [hflat, List.length_append, ← h.used]
    simp
  have hlengths : ∀ x ∈ l ++ [(pack, span paSrc src size k.mem)], x.2.length = x.1.length.toNat := by
    intro x hx
    rcases List.mem_append.mp hx with hx | hx
    · exact h.lengths x hx
    · rw [List.mem_singleton.mp hx, length_span, hlen]
  refine ⟨?_, ?_, ?_, ?_, ?_, ?_, ?_, ?_, ?_, hlengths⟩
  all_goals simp only [hipc]
  · exact h.box
  · exact h.small
  · exact h.handler
  · exact h.offset
  · exact h.read
  · exact hraw.symm
  · exact hused
  · rw [hflat, ← h.content]
    exact hwin

/-- The first message comes out, and is at `dst`. -/
theorem Holds.recv {x : Msgpack × List UInt8} {dst : Nat} (h : Holds k (k.currentTask) r (x :: l))
    (hnodup : ((addresses dst x.2.length).map (k.pa k.currentTask)).Nodup)
    (hdst : ∀ a ∈ addresses dst x.2.length, ¬ InMailbox k k.currentTask (k.pa k.currentTask a)) :
    ∃ k', k.__recvMsg dst = some (k', x.1) ∧ (k.ipc k.currentTask).usedSize ≠ 0 ∧
      k'.taskList = k.taskList ∧ k'.task = k.task ∧ k'.pt = k.pt ∧
      span (k'.pa k.currentTask) dst x.1.length.toNat k'.mem = x.2 ∧
      ∃ r', Holds k' k.currentTask r' l := by
  obtain ⟨pack, body⟩ := x
  have hbody : body.length = pack.length.toNat := h.lengths _ (List.mem_cons_self ..)
  have hused := h.used
  have hcontent := h.content
  have hle := h.le
  rw [List.flatMap_cons, List.length_append] at hused
  have hrawlen : (raw (pack, body)).length = 8 + pack.length.toNat := by
    simp [raw, hbody]
  rw [hused, List.flatMap_cons, hrawlen] at hcontent
  simp only [hbody] at hnodup hdst
  obtain ⟨mem', hread, hrest, hspan⟩ := readFromBuffer_spec h.box h.offset h.read hbody hcontent
    hnodup hdst
  rw [hrawlen] at hused
  have hne : (k.ipc k.currentTask).usedSize ≠ 0 := by omega
  refine ⟨k.taken mem' _ (pack.length.toNat + 8), Kernel.recvMsg_taken hne hread (by omega), hne,
    rfl, rfl, rfl, hspan, (r + (8 + pack.length.toNat)) % (k.ipc k.currentTask).mailSize, ?_⟩
  · refine ⟨?_, ?_, ?_, ?_, ?_, ?_, ?_, ?_, ?_, fun y hy => h.lengths y (List.mem_cons_of_mem _ hy)⟩
    all_goals simp only [Kernel.taken, Function.update_self]
    · exact h.box
    · exact h.small
    · exact h.handler
    · exact Nat.mod_lt _ h.box.pos
    · omega
    · omega
    · rw [h.write, hused, Nat.mod_add_mod]
      congr 2
      omega
    · have hsub : (k.ipc k.currentTask).usedSize - (pack.length.toNat + 8) =
          (l.flatMap raw).length := by omega
      rw [hsub]
      exact hrest

/-! ### The steps -/

theorem MailOk.send {thread : Nat} {msgno : MsgnoId} {reserved : UInt8} {src size : Nat}
    (h : MailOk p pid s r l) (hfits : MailFits p s (.send thread msgno reserved src size))
    (hstep : MailStep p pid s (.send thread msgno reserved src size) s') :
    ∃ r' l', MailOk p pid s' r' l' := by
  obtain ⟨hsize, hsrc⟩ := hfits
  obtain ⟨⟨k', b⟩, hk, rfl⟩ := Option.map_eq_some_iff.mp hstep
  have hholds : Holds (s.kernel.withCurrent thread) p r l := h.holds.congr rfl rfl ⟨_, rfl⟩
  rcases Kernel.sendMsg_cases hk with ⟨rfl, rfl⟩ | ⟨rfl, q, hq, hroom, -, hd⟩
  · exact ⟨r, l, h.target, hholds, h.log⟩
  · have hqp : q = p := Option.some.inj (hq.symm.trans h.target)
    subst hqp
    have hafter := hholds.deliver hsize rfl hroom hsrc hd
    obtain ⟨state, freeNext, level0, rfl⟩ := Kernel.deliver_frame hd
    refine ⟨r, _, h.target, hafter, ?_⟩
    simp only [if_true, h.log, List.map_append, List.append_assoc]
    rfl

theorem MailOk.dummySend {msgno : MsgnoId} {reserved : UInt8} {src size : Nat}
    (h : MailOk p pid s r l) (hfits : MailFits p s (.dummySend msgno reserved src size))
    (hstep : MailStep p pid s (.dummySend msgno reserved src size) s') :
    ∃ r' l', MailOk p pid s' r' l' := by
  obtain ⟨hsize, hsrc⟩ := hfits
  obtain ⟨⟨k', b⟩, hk, rfl⟩ := Option.map_eq_some_iff.mp hstep
  rcases Kernel.dummySendMsg_cases hk with ⟨rfl, rfl⟩ | ⟨rfl, q, hq, hroom, -, hd⟩
  · exact ⟨r, l, h.target, h.holds, h.log⟩
  · have hqp : q = p := Option.some.inj (hq.symm.trans h.target)
    subst hqp
    have hafter := h.holds.deliver hsize rfl hroom hsrc hd
    obtain ⟨state, freeNext, level0, rfl⟩ := Kernel.deliver_frame hd
    refine ⟨r, _, h.target, hafter, ?_⟩
    simp only [if_true, h.log, List.map_append, List.append_assoc]
    rfl

theorem MailOk.recv_cons {thread dst : Nat} {x : Msgpack × List UInt8}
    (h : MailOk p pid s r (x :: l)) (hfits : MailFits p s (.recv thread dst))
    (howner : s.kernel.owner thread = p) :
    ∃ s', MailStep p pid s (.recv thread dst) s' ∧ s'.accepted = s.accepted ∧
      s'.received = s.received ++ [mailOf x.1 x.2] ∧ ∃ r', MailOk p pid s' r' l := by
  have hhead : (s.accepted.drop s.received.length).head? = some (mailOf x.1 x.2) := by
    rw [h.log, List.drop_left]
    rfl
  obtain ⟨hnodup, hdst⟩ := hfits _ hhead
  have hholds : Holds (s.kernel.withCurrent thread) p r (x :: l) :=
    h.holds.congr rfl rfl ⟨_, rfl⟩
  subst howner
  obtain ⟨k', hk, hne, hlist, htask, hpt, hspan, r', hafter⟩ := hholds.recv hnodup hdst
  refine ⟨⟨k', s.accepted, s.received ++ [mailOf x.1 x.2]⟩, ?_, rfl, rfl, r', ?_⟩
  · have hcur : (s.kernel.withCurrent thread).currentTask = s.kernel.owner thread := rfl
    simp only [MailStep, mailStep]
    rw [if_pos hcur, hk, Option.map_some]
    rw [hcur] at hne hspan
    rw [if_neg hne, hspan]
  · refine ⟨?_, hafter, ?_⟩
    · simp only [Kernel.getTaskByPid, hlist, htask]
      exact h.target
    · simp only [h.log, List.map_cons, List.append_assoc, List.singleton_append]

theorem MailOk.recv_nil {thread dst : Nat} (h : MailOk p pid s r [])
    (hstep : MailStep p pid s (.recv thread dst) s') : MailOk p pid s' r [] := by
  simp only [MailStep, mailStep] at hstep
  split at hstep
  · next hcur =>
    have hempty : ((s.kernel.withCurrent thread).ipc p).usedSize = 0 := by
      have hused := h.holds.used
      rwa [List.flatMap_nil, List.length_nil] at hused
    rw [Kernel.recvMsg_empty (by rw [hcur]; exact hempty)] at hstep
    simp only [Option.map_some, Option.some.injEq] at hstep
    subst hstep
    refine ⟨h.target, h.holds.congr rfl rfl ⟨_, rfl⟩, ?_⟩
    simp only [if_pos hempty]
    exact h.log
  · simp at hstep

theorem MailOk.allow {thread : Nat} {allowed : Int} (h : MailOk p pid s r l)
    (hstep : MailStep p pid s (.allow thread allowed) s') : MailOk p pid s' r l := by
  obtain rfl := Option.some.inj hstep
  refine ⟨h.target, h.holds.congr rfl rfl ?_, h.log⟩
  by_cases hp : p = s.kernel.owner thread
  · subst hp
    exact ⟨allowed, Function.update_self ..⟩
  · exact ⟨_, Function.update_of_ne hp ..⟩

theorem MailOk.step {e : MailEvent} (h : MailOk p pid s r l) (hfits : MailFits p s e)
    (hstep : MailStep p pid s e s') : ∃ r' l', MailOk p pid s' r' l' := by
  cases e with
  | send => exact h.send hfits hstep
  | dummySend => exact h.dummySend hfits hstep
  | allow => exact ⟨r, l, h.allow hstep⟩
  | recv thread dst =>
    cases l with
    | nil => exact ⟨r, [], h.recv_nil hstep⟩
    | cons x l =>
      have howner : s.kernel.owner thread = p := by
        simp only [MailStep, mailStep] at hstep
        split at hstep
        · assumption
        · simp at hstep
      obtain ⟨s1, hs1, -, -, r', hafter⟩ := h.recv_cons hfits howner
      obtain rfl := Option.some.inj (hs1.symm.trans hstep)
      exact ⟨r', l, hafter⟩

theorem MailOk.start (h : mailStart p pid s) : MailOk p pid s 0 [] := by
  obtain ⟨k, buffer, size, rfl, hpos, hsmall, htarget, hbox, rfl⟩ := h
  refine ⟨?_, ⟨?_, ?_, ?_, ?_, ?_, ?_, ?_, ?_, ?_, by simp⟩, rfl⟩
  · exact htarget
  all_goals simp only [Kernel.__setMailbuffer, Function.update_self]
  · exact hbox
  · exact hsmall
  · simp
  · exact hpos
  · rfl
  · rfl
  · omega
  · rw [Nat.zero_add, Nat.zero_mod, Nat.add_zero]
  · rfl

theorem MailOk.run {es : List MailEvent}
    (h : Run (mailStart p pid) (Guarded (MailFits p) (MailStep p pid)) es s) :
    ∃ r l, MailOk p pid s r l :=
  h.invariant (I := fun _ s => ∃ r l, MailOk p pid s r l) (fun _ h0 => ⟨0, [], .start h0⟩)
    fun _ _ _ _ ⟨_, _, hok⟩ hstep => hok.step hstep.1 hstep.2

/-- The messages that are accepted and not received. -/
def MailLog.pending (s : MailLog) : List Mail := s.accepted.drop s.received.length

theorem MailOk.pending_eq (h : MailOk p pid s r l) : s.pending = l.map fun x => mailOf x.1 x.2 := by
  rw [MailLog.pending, h.log, List.drop_left]

theorem Holds.used_eq (h : Holds k p r l) :
    (k.ipc p).usedSize = ((l.map fun x => mailOf x.1 x.2).map Mail.size).sum := by
  rw [h.used, List.length_flatMap, List.map_map]
  congr 1
  refine List.map_congr_left fun x hx => ?_
  simp [raw, mailOf, Mail.size, h.lengths x hx]

/-- The mailbox is a queue of messages: what was received are the messages that were
accepted, up to those that wait, and the next receive yields the first of these. -/
theorem mailbox_fifo {es : List MailEvent}
    (h : Run (mailStart p pid) (Guarded (MailFits p) (MailStep p pid)) es s) :
    s.accepted = s.received ++ s.pending ∧
      (s.kernel.ipc p).usedSize = (s.pending.map Mail.size).sum ∧
      (s.kernel.ipc p).usedSize ≤ (s.kernel.ipc p).mailSize ∧
      (∃ i < (s.kernel.ipc p).mailSize, (s.kernel.ipc p).readPtr = (s.kernel.ipc p).mail + i ∧
        (s.kernel.ipc p).writePtr = (s.kernel.ipc p).mail +
          (i + (s.kernel.ipc p).usedSize) % (s.kernel.ipc p).mailSize) ∧
      ∀ thread dst m rest, s.kernel.owner thread = p → s.pending = m :: rest →
        MailFits p s (.recv thread dst) →
        ∃ s', MailStep p pid s (.recv thread dst) s' ∧ s'.received = s.received ++ [m] := by
  obtain ⟨r, l, hok⟩ := MailOk.run h
  have hpending := hok.pending_eq
  refine ⟨?_, ?_, hok.holds.le, ⟨r, hok.holds.offset, hok.holds.read, hok.holds.write⟩, ?_⟩
  · rw [hpending, ← hok.log]
  · rw [hpending, ← hok.holds.used_eq]
  · intro thread dst m rest howner hm hfits
    rw [hpending] at hm
    obtain ⟨x, l, rfl, rfl, -⟩ := List.map_eq_cons_iff.mp hm
    obtain ⟨s1, hs1, -, hreceived, -⟩ := hok.recv_cons hfits howner
    exact ⟨s1, hs1, hreceived⟩

/-- All addresses below 2 MiB are mapped to themselves, but for the page at 20480. -/
def mailTables : PTMem where
  entry table i :=
    { PageEntry.zero with
      p := !(table = 16384 && i = 5)
      address :=
        if table = 4096 then 2 else if table = 8192 then 3 else if table = 12288 then 4 else i }
  frames := []

theorem mailTables_identity {v : Nat} (hge : 24576 ≤ v) (hlt : v < 2 ^ 21) :
    getPhysicalAddress mailTables 4096 v = v := by
  have h4 : pml4eIdx v = 0 := by
    unfold pml4eIdx
    omega
  have h3 : pdpteIdx v = 0 := by
    unfold pdpteIdx
    omega
  have h2 : pdeIdx v = 0 := by
    unfold pdeIdx
    omega
  have h1 : pteIdx v = v / 4096 := by
    unfold pteIdx
    omega
  have hpage : v / 4096 ≠ 5 := by omega
  simp only [getPhysicalAddress, mailTables, h4, h3, h2, h1, ofField]
  simp [hpage]
  omega

/-- One task with one thread. The bytes 1 and 2 are at 24576. -/
def mailKernel : Kernel where
  mem a := if a = 24576 then 1 else if a = 24577 then 2 else 0
  pt := mailTables
  kernelPml4 := 4096
  live _ := true
  state _ := .running
  next _ := none
  last _ := none
  freeNext _ := none
  owner _ := 0
  count _ := 0
  priority _ := 0
  tid _ := 0
  registers _ := ⟨fun _ => 0, 0, 0, 0, 0, 0, 0⟩
  taskList := [0]
  task _ := ⟨0, 4096, 7, 0, 1, 0, true, 0, 0, 0, 0, 0, 0, 0, 0⟩
  ipc _ := Kernel.initIpcInfo
  emptyTask := 0
  level0 := ⟨none, none⟩
  level1 := ⟨none, none⟩
  current := 0
  doSchedule := true
  signal _ := none
  curId := 0
  irqHandleTasks _ := 0
  msgidCounter := 0

/-- The task has set a mailbox and takes messages from everyone. -/
def mailAt (buffer size : Nat) : MailLog :=
  ⟨(mailKernel.__setAllow (-1)).__setMailbuffer buffer size, [], []⟩

def plainMail (src size : Nat) : MailEvent := .send 0 ⟨3, 9⟩ 5 src size

theorem mailStart_mailAt : mailStart 0 7 (mailAt 28672 32) := by
  have hinj : ∀ i < 32, ∀ j < 32, (mailKernel.__setAllow (-1)).pa 0 (28672 + i) =
      (mailKernel.__setAllow (-1)).pa 0 (28672 + j) → i = j := by decide +kernel
  refine ⟨mailKernel.__setAllow (-1), 28672, 32, rfl, by omega, by omega, rfl, ?_, rfl⟩
  exact ⟨by omega, by omega, fun i j hi hj he => hinj i hi j hj he⟩

/-- A task that gets its own message of two bytes. -/
theorem mailbox_fifo_own : ∃ s : MailLog, s.received = [⟨3, 9, 2, 7, [1, 2]⟩] ∧
    s.accepted = s.received ++ s.pending ∧
    (s.kernel.ipc 0).usedSize = (s.pending.map Mail.size).sum := by
  let s0 := mailAt 28672 32
  have hsend : MailFits 0 s0 (plainMail 24576 2) := by
    refine ⟨by decide, ?_⟩
    unfold InMailbox InBox
    decide +kernel
  let s1 := (mailStep 0 7 s0 (plainMail 24576 2)).get (by decide +kernel)
  have h1 : MailStep 0 7 s0 (plainMail 24576 2) s1 := (Option.some_get _).symm
  have hrecv : MailFits 0 s1 (.recv 0 32768) := by
    have hhead : (s1.accepted.drop s1.received.length).head? = some ⟨3, 9, 2, 7, [1, 2]⟩ := by
      decide +kernel
    intro m hm
    obtain rfl := Option.some.inj (hhead.symm.trans hm)
    unfold InMailbox InBox
    decide +kernel
  let s2 := (mailStep 0 7 s1 (.recv 0 32768)).get (by decide +kernel)
  have h2 : MailStep 0 7 s1 (.recv 0 32768) s2 := (Option.some_get _).symm
  have hrun : Run (mailStart 0 7) (Guarded (MailFits 0) (MailStep 0 7))
      [plainMail 24576 2, .recv 0 32768] s2 :=
    .snoc (.snoc (.start mailStart_mailAt) ⟨hsend, h1⟩) ⟨hrecv, h2⟩
  obtain ⟨hlog, hused, -⟩ := mailbox_fifo hrun
  exact ⟨s2, by decide +kernel, hlog, hused⟩

/-- A run of the task from its mailbox on yields what was not accepted. -/
def Corrupted (buffer size : Nat) (es : List MailEvent) : Prop :=
  ∃ s, Run (fun s => s = mailAt buffer size) (MailStep 0 7) es s ∧ ¬ s.received <+: s.accepted

theorem corrupted_of {buffer size : Nat} {es : List MailEvent} (accepted received : List Mail)
    (h : (es.foldlM (mailStep 0 7) (mailAt buffer size)).map (fun s => (s.accepted, s.received)) =
      some (accepted, received)) (hne : ¬ received <+: accepted) : Corrupted buffer size es := by
  obtain ⟨s, hs, he⟩ := Option.map_eq_some_iff.mp h
  obtain ⟨rfl, rfl⟩ := Prod.mk.inj he
  exact ⟨s, .ofFold es rfl hs, hne⟩

/-- A message that is received over one that waits, one that is sent from the
mailbox, one for a page that is not mapped, and a mailbox at the end of memory. -/
theorem mailbox_corrupts :
    Corrupted 28672 32
        [plainMail 24576 1, plainMail 24577 1, .recv 0 (28672 + 17), .recv 0 32768] ∧
      Corrupted 28672 32 [plainMail 28672 1, .recv 0 32768] ∧
      Corrupted 28672 32 [plainMail 24576 2, .recv 0 20480] ∧
      Corrupted (2 ^ 64 - 8) 16 [plainMail 24576 0, .recv 0 32768] := by
  refine ⟨corrupted_of [⟨3, 9, 1, 7, [1]⟩, ⟨3, 9, 1, 7, [2]⟩]
      [⟨3, 9, 1, 7, [1]⟩, ⟨3, 9, 1, 7, [1]⟩] ?_ (by decide),
    corrupted_of [⟨3, 9, 1, 7, [0]⟩] [⟨3, 9, 1, 7, [5]⟩] ?_ (by decide),
    corrupted_of [⟨3, 9, 2, 7, [1, 2]⟩] [⟨3, 9, 2, 7, [2, 2]⟩] ?_
      (by decide),
    corrupted_of [⟨3, 9, 0, 7, []⟩] [⟨0, 0, 0, 0, []⟩] ?_ (by decide)⟩
  all_goals decide +kernel

end TayHuang
