import Mathlib.Data.List.Find
import TayHuang.FreedRecords
import TayHuang.SyscallTouches

/-! What the mailboxes of all tasks are together: a post office, in which every task has a
box of messages. The kernel refines it in runs of all its events. -/

namespace TayHuang

open Function (update)
open Ring Runs

/-- The mailbox of a task as the tasks see it. Without a buffer it has no room. -/
structure Postbox where
  capacity : Nat
  allowed : Int
  waiting : List Mail

structure Office where
  tasks : List Nat
  pid : Nat → Int
  box : Nat → Postbox

inductive Posting
  | send (sender receiver : Int) (m : Mail)
  | interrupt (receiver : Int) (m : Mail)
  | take (p : Nat)
  | allow (p : Nat) (pid : Int)
  | place (p capacity : Nat)
  | join (p : Nat) (pid : Int)
  | nothing

def Postbox.used (b : Postbox) : Nat := (b.waiting.map Mail.size).sum

/-- Whether the box takes a message from a sender that `admits` speaks of. -/
def Postbox.Takes (b : Postbox) (m : Mail) (admits : Int → Prop) : Prop :=
  b.used + m.size ≤ b.capacity ∧ admits b.allowed

instance (b : Postbox) (m : Mail) (admits : Int → Prop) [DecidablePred admits] :
    Decidable (b.Takes m admits) := inferInstanceAs (Decidable (_ ∧ _))

def Postbox.add (b : Postbox) (m : Mail) : Postbox := { b with waiting := b.waiting ++ [m] }

namespace Office

def find (o : Office) (pid : Int) : Option Nat := o.tasks.find? fun p => o.pid p = pid

/-- The task that gets a message, if its box takes it. -/
def target (o : Office) (receiver : Int) (m : Mail) (admits : Int → Prop) [DecidablePred admits] :
    Option Nat :=
  (o.find receiver).filter fun p => (o.box p).Takes m admits

def setBox (o : Office) (p : Nat) (b : Postbox) : Office := { o with box := update o.box p b }

def put (o : Office) (m : Mail) : Option Nat → Office
  | none => o
  | some p => o.setBox p ((o.box p).add m)

/-- A task may send to those that allow it or everyone; an interrupt goes to those that
allow no task in particular. -/
def receiver (o : Office) : Posting → Option Nat
  | .send sender receiver m => o.target receiver m fun allowed => allowed = sender ∨ allowed = -1
  | .interrupt receiver m => o.target receiver m fun allowed => allowed < 0
  | _ => none

def act (o : Office) : Posting → Office
  | .send sender receiver m => o.put m (o.receiver (.send sender receiver m))
  | .interrupt receiver m => o.put m (o.receiver (.interrupt receiver m))
  | .take p => o.setBox p { o.box p with waiting := (o.box p).waiting.tail }
  | .allow p pid => o.setBox p { o.box p with allowed := pid }
  | .place p capacity => o.setBox p { o.box p with capacity := capacity, waiting := [] }
  | .join p pid =>
    { tasks := p :: o.tasks, pid := update o.pid p pid, box := update o.box p ⟨0, 0, []⟩ }
  | .nothing => o

end Office

namespace Kernel

/-- What a call asks of the office. -/
def posted (k : Kernel) : Syscall → Posting
  | .sendMsg msgno _ src size dst =>
    .send (k.task k.currentTask).pid dst
      ⟨msgno.messageNo, msgno.msgId, UInt16.ofNat size, source16 (k.task k.currentTask).pid,
        span (k.pa k.currentTask) src size k.mem⟩
  | .recvMsg _ => .take k.currentTask
  | .setAllow pid => .allow k.currentTask pid
  | .setMailbuffer _ size => .place k.currentTask size
  | _ => .nothing

/-- The message that `normal_irq_handler` makes. -/
def irqMail (k : Kernel) (src : Nat) : Mail :=
  ⟨3, .ofNat (getMsgid k.msgidCounter).1, 4, source16 (-2),
    span (getPhysicalAddress k.pt k.kernelPml4) src 4 k.mem⟩

def posting (k : Kernel) : KernelEvent → Posting
  | .syscall _ call => k.posted call
  | .irq irq _ src =>
    if k.irqHandleTasks irq = 0 then .nothing else .interrupt (k.irqHandleTasks irq) (k.irqMail src)
  | .createTask p _ a _ => .join p a.pid
  | .clock | .switch | .exception => .nothing

/-- No byte of a mailbox. -/
def OutsideMail (k : Kernel) (a : Nat) : Prop := ∀ p ∈ k.taskList, ¬ InMailbox k p a

/-- The tasks give the kernel buffers that are not in a mailbox, and mailboxes that are apart. -/
def MailApart (k : Kernel) : KernelEvent → Prop
  | .syscall _ (.sendMsg _ _ src size dst) => size < 2 ^ 16 ∧
    ∀ p, k.getTaskByPid dst = some p → ∀ v ∈ addresses src size, ¬ InMailbox k p (k.pa k.currentTask v)
  | .syscall _ (.recvMsg dst) => (k.ipc k.currentTask).usedSize ≠ 0 →
    ((addresses dst k.pendingLength).map (k.pa k.currentTask)).Nodup ∧
      ∀ v ∈ addresses dst k.pendingLength, k.OutsideMail (k.pa k.currentTask v)
  | .syscall _ (.testAndLock val) => k.OutsideMail (k.pa k.currentTask val)
  | .syscall _ (.setMailbuffer buffer size) => size ≤ 65543 ∧ Box (k.pa k.currentTask) buffer size ∧
    ∀ p ∈ k.taskList, p ≠ k.currentTask → ∀ a, InBox (k.pa k.currentTask) buffer size a →
      ¬ InMailbox k p a
  | .irq irq _ src => ∀ p, k.getTaskByPid (k.irqHandleTasks irq) = some p →
    ∀ v ∈ addresses src 4, ¬ InMailbox k p (getPhysicalAddress k.pt k.kernelPml4 v)
  | _ => True

/-- The mailbox of `p` holds what the box holds. -/
structure Carries (k : Kernel) (p : Nat) (b : Postbox) : Prop where
  capacity : (k.ipc p).mailSize = b.capacity
  allowed : (k.ipc p).allowPid = b.allowed
  mails : b.capacity = 0 ∧ b.waiting = [] ∧ (k.ipc p).usedSize = 0 ∨
    ∃ r l, Holds k p r l ∧ b.waiting = l.map fun x => mailOf x.1 x.2

structure Refines (k : Kernel) (o : Office) : Prop where
  tasks : o.tasks = k.taskList
  pid : ∀ p ∈ k.taskList, o.pid p = (k.task p).pid
  boxes : ∀ p ∈ k.taskList, Carries k p (o.box p)
  apart : ∀ p ∈ k.taskList, ∀ q ∈ k.taskList, p ≠ q → ∀ a, InMailbox k p a → ¬ InMailbox k q a

variable {k k' : Kernel} {o : Office} {p q : Nat} {b : Postbox}

/-! ### What keeps the mail -/

/-- The mailbox of `p` is at the same place. -/
def MailAt (k k' : Kernel) (p : Nat) : Prop :=
  ∀ i < (k.ipc p).mailSize, k'.pa p ((k.ipc p).mail + i) = k.pa p ((k.ipc p).mail + i)

theorem MailAt.of_pa (h : k'.pa p = k.pa p) : MailAt k k' p := fun _ _ => by rw [h]

/-- The tasks and the mailboxes stay. -/
structure MailKept (k k' : Kernel) : Prop where
  list : k'.taskList = k.taskList
  pid : ∀ p, (k'.task p).pid = (k.task p).pid
  place : ∀ p ∈ k.taskList, MailAt k k' p
  ipc : k'.ipc = k.ipc
  cells : ∀ p ∈ k.taskList, ∀ a, InMailbox k p a → k'.mem a = k.mem a

theorem inMailbox_congr (hpa : MailAt k k' p) (hmail : (k'.ipc p).mail = (k.ipc p).mail)
    (hsize : (k'.ipc p).mailSize = (k.ipc p).mailSize) : InMailbox k' p = InMailbox k p := by
  funext a
  rw [InMailbox, InMailbox, hmail, hsize]
  refine propext (exists_congr fun i => and_congr_right fun hi => ?_)
  rw [hpa i hi]

theorem Carries.frame (h : Carries k p b) (hpa : MailAt k k' p)
    (hcells : ∀ a, InMailbox k p a → k'.mem a = k.mem a) (hipc : k'.ipc p = k.ipc p) :
    Carries k' p b := by
  refine ⟨by rw [hipc]; exact h.capacity, by rw [hipc]; exact h.allowed, ?_⟩
  refine h.mails.imp (fun hh => by rw [hipc]; exact hh) fun hh => ?_
  obtain ⟨r, l, hholds, hwait⟩ := hh
  exact ⟨r, l, hholds.frame hpa hcells ⟨_, hipc⟩, hwait⟩

theorem Refines.kept (h : Refines k o) (hk : MailKept k k') : Refines k' o := by
  have hin : ∀ p ∈ k.taskList, InMailbox k' p = InMailbox k p := fun p hp =>
    inMailbox_congr (hk.place p hp) (by rw [hk.ipc]) (by rw [hk.ipc])
  refine ⟨h.tasks.trans hk.list.symm, fun p hp => ?_, fun p hp => ?_, fun p hp q hq hne a => ?_⟩
  · rw [hk.list] at hp
    rw [hk.pid, h.pid p hp]
  · rw [hk.list] at hp
    exact (h.boxes p hp).frame (hk.place p hp) (hk.cells p hp) (by rw [hk.ipc])
  · rw [hk.list] at hp hq
    rw [hin p hp, hin q hq]
    exact h.apart p hp q hq hne a

/-- What happens to one mailbox, with the other ones as they are. -/
theorem Refines.setBox (h : Refines k o) (hlist : k'.taskList = k.taskList)
    (hpid : ∀ q, (k'.task q).pid = (k.task q).pid) (hpa : ∀ q, MailAt k k' q)
    (hipc : ∀ q, q ≠ p → k'.ipc q = k.ipc q)
    (hcells : ∀ q ∈ k.taskList, q ≠ p → ∀ a, InMailbox k q a → k'.mem a = k.mem a)
    (hbox : p ∈ k.taskList → Carries k' p b)
    (hapart : p ∈ k.taskList → ∀ q ∈ k.taskList, q ≠ p → ∀ a, InMailbox k' p a → ¬ InMailbox k q a) :
    Refines k' (o.setBox p b) := by
  have hin : ∀ q, q ≠ p → InMailbox k' q = InMailbox k q := fun q hq =>
    inMailbox_congr (hpa q) (by rw [hipc q hq]) (by rw [hipc q hq])
  refine ⟨h.tasks.trans hlist.symm, fun q hq => ?_, fun q hq => ?_, fun q hq u hu hne a ha hau => ?_⟩
  · rw [hlist] at hq
    exact (h.pid q hq).trans (hpid q).symm
  · rw [hlist] at hq
    by_cases hqp : q = p
    · subst hqp
      simp only [Office.setBox, Function.update_self]
      exact hbox hq
    · simp only [Office.setBox, Function.update_of_ne hqp]
      exact (h.boxes q hq).frame (hpa q) (hcells q hq hqp) (hipc q hqp)
  · rw [hlist] at hq hu
    by_cases hqp : q = p
    · subst hqp
      rw [hin u hne.symm] at hau
      exact hapart hq u hu hne.symm a ha hau
    · rw [hin q hqp] at ha
      by_cases hup : u = p
      · subst hup
        exact hapart hu q hq hne a hau ha
      · rw [hin u hup] at hau
        exact h.apart q hq u hu hne a ha hau

theorem MailKept.of_eq (hlist : k'.taskList = k.taskList) (htask : k'.task = k.task)
    (hpt : k'.pt = k.pt) (hipc : k'.ipc = k.ipc) (hmem : k'.mem = k.mem) : MailKept k k' := by
  refine ⟨hlist, fun p => by rw [htask], fun p _ => .of_pa ?_, hipc, fun _ _ a _ => by rw [hmem]⟩
  funext v
  rw [Kernel.pa, Kernel.pa, hpt, htask]

theorem MailKept.trans {k1 : Kernel} (h : MailKept k k1) (h' : MailKept k1 k') : MailKept k k' := by
  refine ⟨h'.list.trans h.list, fun p => (h'.pid p).trans (h.pid p), fun p hp i hi => ?_,
    h'.ipc.trans h.ipc, fun p hp a ha => ?_⟩
  · have hplace := h'.place p (by rw [h.list]; exact hp) i (by rw [h.ipc]; exact hi)
    rw [h.ipc] at hplace
    exact hplace.trans (h.place p hp i hi)
  · have hin : InMailbox k1 p = InMailbox k p :=
      inMailbox_congr (h.place p hp) (by rw [h.ipc]) (by rw [h.ipc])
    rw [h'.cells p (by rw [h.list]; exact hp) a (by rw [hin]; exact ha), h.cells p hp a ha]

theorem downThread_memory (k : Kernel) (regs : Frame) :
    (k.downThread regs).mem = k.mem ∧ (k.downThread regs).pt = k.pt := by
  rcases downThread_cases k regs with ⟨-, he⟩ | ⟨-, he⟩ | ⟨-, he⟩
  · obtain ⟨freeNext, level0, he'⟩ :=
      enqueueThread_eq ((k.saved regs).setState k.current .ready) k.current
    rw [he, he']
    exact ⟨rfl, rfl⟩
  · obtain ⟨next, last, he'⟩ := removeThread_eq (k.saved regs) k.current
    rw [he, he']
    exact ⟨rfl, rfl⟩
  · rw [he]
    exact ⟨rfl, rfl⟩

theorem doSwitch_mailKept (k : Kernel) (regs : Frame) : MailKept k (k.doSwitch regs).1 := by
  obtain ⟨htask, hlist, -, -, hipc, -⟩ := doSwitch_kept k regs
  obtain ⟨count, he⟩ := doSwitch_eq k regs
  obtain ⟨freeNext, level0, level1, hg⟩ := getNextRunThread_frame (k.downThread regs)
  obtain ⟨hmem, hpt⟩ := downThread_memory k regs
  have hk : (k.doSwitch regs).1.mem = k.mem ∧ (k.doSwitch regs).1.pt = k.pt := by
    rw [he, hg]
    exact ⟨hmem, hpt⟩
  exact .of_eq hlist htask hk.2 hipc hk.1

theorem afterSyscall_mailKept (k : Kernel) (regs : Frame) : MailKept k (k.afterSyscall regs).1 := by
  unfold afterSyscall
  split
  · exact doSwitch_mailKept k regs
  · exact .of_eq rfl rfl rfl rfl rfl

/-! ### Messages -/

variable {dst : Int} {src size : Nat} {msgno : MsgnoId} {reserved : UInt8} {m : Mail}

theorem Refines.find (h : Refines k o) (pid : Int) : o.find pid = k.getTaskByPid pid := by
  rw [Office.find, getTaskByPid, h.tasks]
  exact List.find?_congr fun p hp => by rw [h.pid p hp]

theorem Carries.used (h : Carries k p b) : b.used = (k.ipc p).usedSize := by
  rcases h.mails with ⟨-, hwait, hused⟩ | ⟨r, l, hholds, hwait⟩
  · rw [Postbox.used, hwait, hused]
    rfl
  · rw [Postbox.used, hwait, hholds.used_eq]

theorem Carries.used_lt (h : Carries k p b) : (k.ipc p).usedSize < 2 ^ 63 := by
  rcases h.mails with ⟨-, -, hused⟩ | ⟨r, l, hholds, -⟩
  · omega
  · have hle := hholds.le
    have hsmall := hholds.small
    omega

theorem Carries.takes_iff (h : Carries k p b) (hsize : size < 2 ^ 16) (hm : m.length = .ofNat size)
    (admits : Int → Prop) : b.Takes m admits ↔ HasRoom (k.ipc p) size ∧ admits (k.ipc p).allowPid := by
  have hlen : m.size = 8 + size := by
    rw [Mail.size, hm, UInt16.toNat_ofNat_of_lt' (by simpa using hsize)]
  have hlt := h.used_lt
  rw [Postbox.Takes, h.used, hlen, ← h.capacity, ← h.allowed, HasRoom,
    Nat.mod_eq_of_lt (show (k.ipc p).usedSize + size + 8 < 2 ^ 64 by omega)]
  rw [show (k.ipc p).usedSize + size + 8 = (k.ipc p).usedSize + (8 + size) by omega]

/-- A room of nothing takes no message. -/
theorem Carries.holds (h : Carries k p b) (hsize : size < 2 ^ 16) (hroom : HasRoom (k.ipc p) size) :
    ∃ r l, Holds k p r l ∧ b.waiting = l.map fun x => mailOf x.1 x.2 := by
  refine h.mails.resolve_left fun hh => ?_
  obtain ⟨hzero, -, hused⟩ := hh
  have hcap := h.capacity
  unfold HasRoom at hroom
  omega

/-- One box gets a message, and the others stay. -/
theorem Refines.deliver {pack : Msgpack} {paSrc : Nat → Nat} {wakes : Bool} (h : Refines k o)
    (hp : p ∈ k.taskList) (hsize : size < 2 ^ 16) (hpack : pack.length = .ofNat size)
    (hroom : HasRoom (k.ipc p) size) (hsrc : ∀ v ∈ addresses src size, ¬ InMailbox k p (paSrc v))
    (hd : k.deliver p pack paSrc src size wakes = some k') :
    Refines k' (o.setBox p ((o.box p).add (mailOf pack (span paSrc src size k.mem)))) := by
  obtain ⟨r, l, hholds, hwait⟩ := (h.boxes p hp).holds hsize hroom
  have hafter := hholds.deliver hsize hpack hroom hsrc hd
  obtain ⟨state, freeNext, level0, rfl⟩ := deliver_frame hd
  refine h.setBox rfl (fun _ => rfl) (fun _ => .of_pa rfl) (fun q hq => Function.update_of_ne hq ..)
    (fun q hq hne a ha => ?_) (fun _ => ⟨?_, ?_, .inr ⟨r, _, hafter, ?_⟩⟩) fun _ q hq hne a ha => ?_
  · refine writeToBuffer_frame fun i hi he => h.apart q hq p hp hne a ha ?_
    rw [hholds.write, hholds.box.iterate] at he
    exact ⟨_, Nat.mod_lt _ hholds.box.pos, he⟩
  · simp only [delivered, Function.update_self]
    exact (h.boxes p hp).capacity
  · simp only [delivered, Function.update_self]
    exact (h.boxes p hp).allowed
  · rw [Postbox.add, hwait, List.map_append]
    rfl
  · have hin : InMailbox { k.delivered p pack paSrc src size with
        state := state, freeNext := freeNext, level0 := level0 } p = InMailbox k p := by
      refine inMailbox_congr (.of_pa rfl) ?_ ?_
      all_goals simp only [delivered, Function.update_self]
    rw [hin] at ha
    exact h.apart p hp q hq hne.symm a ha

theorem Refines.target_some (h : Refines k o) (hsize : size < 2 ^ 16) (hm : m.length = .ofNat size)
    (admits : Int → Prop) [DecidablePred admits] (hp : k.getTaskByPid dst = some p)
    (hok : HasRoom (k.ipc p) size ∧ admits (k.ipc p).allowPid) : o.target dst m admits = some p := by
  rw [Office.target, h.find, hp]
  refine Option.filter_some_pos (decide_eq_true ?_)
  exact ((h.boxes p (getTaskByPid_mem hp)).takes_iff hsize hm admits).mpr hok

theorem Refines.target_none (h : Refines k o) (hsize : size < 2 ^ 16) (hm : m.length = .ofNat size)
    (admits : Int → Prop) [DecidablePred admits]
    (hno : ∀ p, k.getTaskByPid dst = some p → ¬ (HasRoom (k.ipc p) size ∧ admits (k.ipc p).allowPid)) :
    o.target dst m admits = none := by
  rw [Office.target, h.find]
  cases hp : k.getTaskByPid dst with
  | none => rfl
  | some p =>
    refine Option.filter_some_neg (decide_eq_false fun htakes => hno p hp ?_)
    exact ((h.boxes p (getTaskByPid_mem hp)).takes_iff hsize hm admits).mp htakes

/-- The kernel takes the messages that the office takes, and its answer says so. -/
theorem Refines.send {fuel : Nat} (h : Refines k o)
    (hapart : MailApart k (.syscall fuel (.sendMsg msgno reserved src size dst))) :
    ∃ k', k.__sendMsg msgno reserved src size dst =
        some (k', (o.receiver (k.posted (.sendMsg msgno reserved src size dst))).isSome) ∧
      Refines k' (o.act (k.posted (.sendMsg msgno reserved src size dst))) := by
  obtain ⟨hsize, hsrc⟩ := hapart
  simp only [posted, Office.act, Office.receiver]
  by_cases hok : ∃ p, Admits k k.sendAllowed size dst p
  · obtain ⟨p, hadmits⟩ := hok
    obtain ⟨hp, hroom, hallow⟩ := hadmits
    have hmem := getTaskByPid_mem hp
    obtain ⟨r, l, hholds, -⟩ := (h.boxes p hmem).holds hsize hroom
    obtain ⟨k', hd⟩ : ∃ k', k.deliver p (header msgno reserved size (k.task k.currentTask).pid)
        (k.pa k.currentTask) src size ((k.ipc p).allowPid ≠ -2) = some k' := deliver_isSome hholds.handler
    rw [h.target_some hsize rfl (fun allowed => allowed = (k.task k.currentTask).pid ∨ allowed = -1) hp
      ⟨hroom, hallow⟩, sendMsg_admitted ⟨hp, hroom, hallow⟩, hd]
    exact ⟨k', rfl, h.deliver hmem hsize rfl hroom (hsrc p hp) hd⟩
  · rw [h.target_none hsize rfl (fun allowed => allowed = (k.task k.currentTask).pid ∨ allowed = -1)
      fun p hp hh => hok ⟨p, hp, hh.1, hh.2⟩]
    exact ⟨k, sendMsg_refused fun p hp => hok ⟨p, hp⟩, h⟩

theorem Refines.dummySend (h : Refines k o) (msgno : MsgnoId) (reserved : UInt8) (hsize : size < 2 ^ 16)
    (hsrc : ∀ p, k.getTaskByPid dst = some p →
      ∀ v ∈ addresses src size, ¬ InMailbox k p (getPhysicalAddress k.pt k.kernelPml4 v)) :
    ∃ k' b, k.dummySendMsg msgno reserved src size dst = some (k', b) ∧
      Refines k' (o.act (.interrupt dst ⟨msgno.messageNo, msgno.msgId, .ofNat size, source16 (-2),
        span (getPhysicalAddress k.pt k.kernelPml4) src size k.mem⟩)) := by
  simp only [Office.act, Office.receiver]
  by_cases hok : ∃ p, Admits k dummyAllowed size dst p
  · obtain ⟨p, hadmits⟩ := hok
    obtain ⟨hp, hroom, hallow⟩ := hadmits
    have hneg : (k.ipc p).allowPid < 0 := by
      unfold dummyAllowed at hallow
      omega
    have hmem := getTaskByPid_mem hp
    obtain ⟨r, l, hholds, -⟩ := (h.boxes p hmem).holds hsize hroom
    obtain ⟨k', hd⟩ : ∃ k', k.deliver p (header msgno reserved size (-2))
        (getPhysicalAddress k.pt k.kernelPml4) src size true = some k' := deliver_isSome hholds.handler
    rw [h.target_some hsize rfl _ hp ⟨hroom, hneg⟩, dummySendMsg_admitted ⟨hp, hroom, hallow⟩, hd]
    exact ⟨k', true, rfl, h.deliver hmem hsize rfl hroom (hsrc p hp) hd⟩
  · rw [h.target_none hsize rfl _ fun p hp hh => hok ⟨p, hp, hh.1, .inr hh.2⟩]
    exact ⟨k, false, dummySendMsg_refused fun p hp => hok ⟨p, hp⟩, h⟩

/-- So it is with the message of an interrupt. -/
theorem Refines.irq {irq : Nat} (h : Refines k o) (hapart : MailApart k (.irq irq reserved src)) :
    ∃ k', k.normalIrqHandler irq reserved src = some k' ∧
      Refines k' (o.act (k.posting (.irq irq reserved src))) := by
  have hposting : k.posting (.irq irq reserved src) = if k.irqHandleTasks irq = 0 then .nothing else
      .interrupt (k.irqHandleTasks irq) (k.irqMail src) := rfl
  rw [hposting, normalIrqHandler]
  split
  · exact ⟨k, rfl, h⟩
  · have h1 : Refines (k.withMsgid (getMsgid k.msgidCounter).2) o :=
      h.kept (.of_eq rfl rfl rfl rfl rfl)
    obtain ⟨k', b, hk, hafter⟩ := h1.dummySend ⟨3, .ofNat (getMsgid k.msgidCounter).1⟩ reserved
      (by decide : 4 < 2 ^ 16) hapart
    exact ⟨k', congrArg (Option.map Prod.fst) hk, hafter⟩

/-- What `__recv_msg` makes of the header of the message in front. -/
theorem pendingLength_eq {r : Nat} {x : Msgpack × List UInt8} {l : List (Msgpack × List UInt8)}
    (h : Holds k k.currentTask r (x :: l)) : k.pendingLength = x.2.length := by
  have hcontent := h.content
  have hused := h.used
  have hlen := h.lengths x List.mem_cons_self
  have hraw : (raw x).length = 8 + x.2.length := by simp [raw]
  rw [List.flatMap_cons, List.length_append, hraw] at hused
  have hsplit : (k.ipc k.currentTask).usedSize = 8 + (x.2.length + (l.flatMap raw).length) := by omega
  rw [hsplit, window_append, List.flatMap_cons, raw, List.append_assoc] at hcontent
  obtain ⟨hhead, -⟩ := List.append_inj hcontent (by simp [window])
  rw [pendingLength, h.read]
  simp only [popBytes_spec h.box h.offset, hhead, Msgpack.ofBytes_bytes, hlen]

/-- What `__recv_msg` writes is outside the other mailboxes. -/
theorem Refines.recv_frame {fuel buf r : Nat} {pack : Msgpack} {x : Msgpack × List UInt8}
    {l : List (Msgpack × List UInt8)} (h : Refines k o) (hcur : k.currentTask ∈ k.taskList)
    (hholds : Holds k k.currentTask r (x :: l)) (hused : (k.ipc k.currentTask).usedSize ≠ 0)
    (hapart : MailApart k (.syscall fuel (.recvMsg buf))) (hk : k.__recvMsg buf = some (k', pack))
    (hq : q ∈ k.taskList) (hne : q ≠ k.currentTask) (a : Nat) (ha : InMailbox k q a) :
    k'.mem a = k.mem a := by
  have hs : k.syscall fuel (.recvMsg buf) = some (k', .ofNat (LittleEndian.ofBytes pack.bytes)) := by
    simp only [syscall, hk, Option.map_some]
  refine syscall_frame hs fun y hy he => ?_
  rw [touches] at hy
  simp only [if_neg hused, messagePointers, List.mem_append, List.mem_map] at hy
  rcases hy with ⟨v, hv, rfl⟩ | ⟨v, hv, rfl⟩
  · obtain ⟨i, hi, rfl⟩ := mem_ringPointers.mp hv
    have hread : (k.ipc k.currentTask).readPtr =
        (k.ipc k.currentTask).mail + r % (k.ipc k.currentTask).mailSize := by
      rw [hholds.read, Nat.mod_eq_of_lt hholds.offset]
    simp only at he
    rw [hread, hholds.box.iterate] at he
    exact h.apart q hq _ hcur hne a ha ⟨_, Nat.mod_lt _ hholds.box.pos, he⟩
  · exact (hapart hused).2 v hv q hq (he ▸ ha)

/-- A task gets the message in front of its box, at `buf`. -/
theorem Refines.recv {fuel buf : Nat} (h : Refines k o) (hcur : k.currentTask ∈ k.taskList)
    (hapart : MailApart k (.syscall fuel (.recvMsg buf))) :
    ∃ k' pack, k.__recvMsg buf = some (k', pack) ∧ Refines k' (o.act (k.posted (.recvMsg buf))) ∧
      match (o.box k.currentTask).waiting with
      | [] => pack = noMessage ∧ k' = k
      | m :: _ => mailOf pack (span (k'.pa k.currentTask) buf pack.length.toNat k'.mem) = m := by
  have hbox := h.boxes _ hcur
  by_cases hused : (k.ipc k.currentTask).usedSize = 0
  · have hwait : (o.box k.currentTask).waiting = [] := by
      have hz := hbox.used.trans hused
      cases hw : (o.box k.currentTask).waiting with
      | nil => rfl
      | cons m ms =>
        rw [Postbox.used, hw, List.map_cons, List.sum_cons, Mail.size] at hz
        omega
    have hsame : o.act (k.posted (.recvMsg buf)) = o := by
      simp only [posted, Office.act, Office.setBox, hwait, List.tail_nil]
      rw [← hwait]
      exact congrArg (fun box => { o with box := box }) (Function.update_eq_self ..)
    rw [hwait, hsame]
    exact ⟨k, noMessage, recvMsg_empty hused, h, rfl, rfl⟩
  · obtain ⟨r, l, hholds, hwait⟩ := hbox.mails.resolve_left fun hh => hused hh.2.2
    cases l with
    | nil => exact absurd hholds.used hused
    | cons x l =>
      obtain ⟨hnodup, hout⟩ := hapart hused
      rw [pendingLength_eq hholds] at hnodup hout
      obtain ⟨k', hk, -, hlist, htask, hpt, hspan, r', hafter⟩ := hholds.recv hnodup
        fun v hv => hout v hv _ hcur
      have hframe : ∀ q ∈ k.taskList, q ≠ k.currentTask → ∀ a, InMailbox k q a → k'.mem a = k.mem a :=
        fun q hq hne => h.recv_frame hcur hholds hused hapart hk hq hne
      obtain ⟨mem, readPtr, size, rfl⟩ : ∃ mem readPtr size, k' = k.taken mem readPtr size := by
        refine (recvMsg_frame hk).resolve_left ?_
        rintro rfl
        have h1 := hholds.used
        rw [hafter.used, List.flatMap_cons, List.length_append] at h1
        simp [raw] at h1
      rw [hwait]
      refine ⟨_, x.1, hk, ?_, by rw [hspan]; rfl⟩
      refine h.setBox rfl (fun _ => rfl) (fun _ => .of_pa rfl) (fun q hq => Function.update_of_ne hq ..) hframe
        (fun _ => ⟨?_, ?_, .inr ⟨r', l, hafter, ?_⟩⟩) fun _ q hq hne a ha => ?_
      · simp only [taken, Function.update_self]
        exact hbox.capacity
      · simp only [taken, Function.update_self]
        exact hbox.allowed
      · rw [hwait]
        rfl
      · have hin : InMailbox (k.taken mem readPtr size) k.currentTask = InMailbox k k.currentTask := by
          refine inMailbox_congr (.of_pa rfl) ?_ ?_
          all_goals simp only [taken, Function.update_self]
        rw [hin] at ha
        exact h.apart _ hcur q hq hne.symm a ha

/-! ### The other calls -/

theorem Refines.setAllow (h : Refines k o) (pid : Int) :
    Refines (k.__setAllow pid) (o.act (k.posted (.setAllow pid))) := by
  have hin : InMailbox (k.__setAllow pid) k.currentTask = InMailbox k k.currentTask := by
    refine inMailbox_congr (.of_pa rfl) ?_ ?_
    all_goals simp only [__setAllow, Function.update_self]
  refine h.setBox rfl (fun _ => rfl) (fun _ => .of_pa rfl) (fun q hq => Function.update_of_ne hq ..)
    (fun _ _ _ _ _ => rfl) (fun hp => ?_) fun hp q hq hne a ha => ?_
  · have hbox := h.boxes _ hp
    refine ⟨?_, ?_, hbox.mails.imp (fun hh => ⟨hh.1, hh.2.1, ?_⟩) fun hh => ?_⟩
    · simp only [__setAllow, Function.update_self]
      exact hbox.capacity
    · simp only [__setAllow, Function.update_self]
    · simp only [__setAllow, Function.update_self]
      exact hh.2.2
    · obtain ⟨r, l, hholds, hwait⟩ := hh
      exact ⟨r, l, hholds.congr rfl rfl ⟨pid, Function.update_self ..⟩, hwait⟩
  · rw [hin] at ha
    exact h.apart _ hp q hq hne.symm a ha

theorem Refines.setMailbuffer {fuel buffer : Nat} (h : Refines k o)
    (hapart : MailApart k (.syscall fuel (.setMailbuffer buffer size))) :
    Refines (k.__setMailbuffer buffer size) (o.act (k.posted (.setMailbuffer buffer size))) := by
  obtain ⟨hsmall, hbox, hother⟩ := hapart
  refine h.setBox rfl (fun _ => rfl) (fun _ => .of_pa rfl) (fun q hq => Function.update_of_ne hq ..)
    (fun _ _ _ _ _ => rfl) (fun hp => ?_) fun hp q hq hne a ha => ?_
  · refine ⟨?_, ?_, .inr ⟨0, [], ⟨?_, ?_, ?_, ?_, ?_, ?_, ?_, ?_, ?_, by simp⟩, rfl⟩⟩
    all_goals simp only [__setMailbuffer, Function.update_self]
    · exact (h.boxes _ hp).allowed
    · exact hbox
    · exact hsmall
    · simp
    · exact hbox.pos
    · rfl
    · rfl
    · omega
    · rw [Nat.zero_add, Nat.zero_mod, Nat.add_zero]
    · rfl
  · have hin : InMailbox (k.__setMailbuffer buffer size) k.currentTask =
        InBox (k.pa k.currentTask) buffer size := by
      funext v
      simp only [InMailbox, __setMailbuffer, Function.update_self]
      rfl
    rw [hin] at ha
    exact hother q hq hne a ha

/-- What the calls do that are not about messages. -/
theorem mailKept_of_effect {fuel : Nat} {call : Syscall} {r : UInt64}
    (hs : k.syscall fuel call = some (k', r)) (hcall : k.posted call = .nothing)
    (hapart : MailApart k (.syscall fuel call)) : MailKept k k' := by
  cases syscall_effect hs with
  | idle => exact .of_eq rfl rfl rfl rfl rfl
  | sent | received | allows | mails => exact absurd hcall nofun
  | waits | exits | creates | registers => exact .of_eq rfl rfl rfl rfl rfl
  | locks val =>
    refine ⟨rfl, fun _ => rfl, fun _ _ => .of_pa rfl, rfl, fun p hp a ha => Function.update_of_ne ?_ ..⟩
    rintro rfl
    exact hapart p hp ha
  | ups hk =>
    obtain ⟨s, s', -, ⟨-, rfl⟩ | ⟨t, -, rfl⟩⟩ := upSignal_effect hk
    · exact .of_eq rfl rfl rfl rfl rfl
    · obtain ⟨freeNext, level0, he⟩ := enqueueThread_eq ((k.setSignal _ s').setState t .ready) t
      rw [he]
      exact .of_eq rfl rfl rfl rfl rfl
  | downs hk =>
    obtain ⟨s, s', -, ⟨-, rfl⟩ | ⟨-, rfl⟩⟩ := downSignal_effect hk
    · exact .of_eq rfl rfl rfl rfl rfl
    · exact .of_eq rfl rfl rfl rfl rfl
  | @spawns t entry _ _ hk =>
    obtain ⟨parent, -, rfl⟩ := createThread_eq hk
    obtain ⟨freeNext, level0, he⟩ :=
      enqueueThread_eq ((k.spawnThread t entry k.currentTask).linkThread parent t) t
    rw [he]
    have htask : ∀ p, ((k.spawnThread t entry k.currentTask).task p).pid = (k.task p).pid ∧
        ((k.spawnThread t entry k.currentTask).task p).pgd = (k.task p).pgd := fun p => by
      obtain ⟨curTid, stackBottom, hp⟩ := spawnThread_task k t entry k.currentTask p
      rw [hp]
      exact ⟨rfl, rfl⟩
    refine ⟨rfl, fun p => (htask p).1, fun p _ => .of_pa ?_, rfl, fun _ _ _ _ => rfl⟩
    funext v
    exact congrArg (getPhysicalAddress k.pt · v) (htask p).2

/-- A new task has no mailbox yet. -/
theorem Refines.createTask {t : Nat} {a : TaskParams} {kmod : Bool} (h : Refines k o)
    (hp : p ∉ k.taskList) :
    Refines (k.createTask p t a) (o.act (k.posting (.createTask p t a kmod))) := by
  have hkept : MailKept ((k.__createTask p t a).addTask p) (k.createTask p t a) := by
    unfold Kernel.createTask
    obtain ⟨freeNext, level0, he⟩ := enqueueThread_eq ((k.__createTask p t a).addTask p)
      (((k.__createTask p t a).addTask p).task p).threads
    simp only [he]
    exact .of_eq rfl rfl rfl rfl rfl
  refine Refines.kept ?_ hkept
  have hne : ∀ q ∈ k.taskList, q ≠ p := fun q hq he => hp (he ▸ hq)
  have htask : ∀ q, q ≠ p → ((k.__createTask p t a).addTask p).task q = k.task q ∧
      ((k.__createTask p t a).addTask p).ipc q = k.ipc q := fun q hq => by
    simp only [addTask, __createTask, createThreadInfo, Function.update_of_ne hq, and_self]
  have hpa : ∀ q, q ≠ p → ((k.__createTask p t a).addTask p).pa q = k.pa q := fun q hq => by
    funext v
    rw [Kernel.pa, Kernel.pa, (htask q hq).1]
    rfl
  have hnew : ((k.__createTask p t a).addTask p).ipc p = initIpcInfo := Function.update_self ..
  have hin : ∀ q, q ≠ p → InMailbox ((k.__createTask p t a).addTask p) q = InMailbox k q := fun q hq =>
    inMailbox_congr (.of_pa (hpa q hq)) (by rw [(htask q hq).2]) (by rw [(htask q hq).2])
  have hempty : ∀ x, ¬ InMailbox ((k.__createTask p t a).addTask p) p x := by
    rintro x ⟨i, hi, -⟩
    rw [hnew] at hi
    exact Nat.not_lt_zero i hi
  refine ⟨?_, fun q hq => ?_, fun q hq => ?_, fun q hq u hu hqu x hx hxu => ?_⟩
  · exact congrArg (List.cons p) h.tasks
  · simp only [posting, Office.act]
    rcases List.mem_cons.mp hq with rfl | hq
    · rw [Function.update_self]
      simp [addTask, __createTask]
    · rw [Function.update_of_ne (hne q hq), (htask q (hne q hq)).1]
      exact h.pid q hq
  · simp only [posting, Office.act]
    rcases List.mem_cons.mp hq with rfl | hq
    · rw [Function.update_self]
      exact ⟨by rw [hnew]; rfl, by rw [hnew]; rfl, .inl ⟨rfl, rfl, by rw [hnew]; rfl⟩⟩
    · rw [Function.update_of_ne (hne q hq)]
      exact (h.boxes q hq).frame (.of_pa (hpa q (hne q hq))) (fun _ _ => rfl) (htask q (hne q hq)).2
  · rcases List.mem_cons.mp hq with rfl | hq
    · exact hempty x hx
    · rcases List.mem_cons.mp hu with rfl | hu
      · exact hempty x hxu
      · rw [hin q (hne q hq)] at hx
        rw [hin u (hne u hu)] at hxu
        exact h.apart q hq u hu hqu x hx hxu

theorem Refines.syscall {fuel : Nat} {call : Syscall} {r : UInt64} (h : Refines k o)
    (hcur : k.currentTask ∈ k.taskList) (hapart : MailApart k (.syscall fuel call))
    (hs : k.syscall fuel call = some (k', r)) : Refines k' (o.act (k.posted call)) := by
  cases call with
  | sendMsg msgno reserved src size dst =>
    obtain ⟨k1, hk, hafter⟩ := h.send hapart
    obtain ⟨x, hx, he⟩ := Option.map_eq_some_iff.mp hs
    obtain rfl := Option.some.inj (hk.symm.trans hx)
    exact (Prod.mk.inj he).1 ▸ hafter
  | recvMsg buf =>
    obtain ⟨k1, pack, hk, hafter, -⟩ := h.recv hcur hapart
    obtain ⟨x, hx, he⟩ := Option.map_eq_some_iff.mp hs
    obtain rfl := Option.some.inj (hk.symm.trans hx)
    exact (Prod.mk.inj he).1 ▸ hafter
  | setAllow pid =>
    obtain rfl := (Prod.mk.inj (Option.some.inj hs)).1
    exact h.setAllow pid
  | setMailbuffer buffer size =>
    obtain rfl := (Prod.mk.inj (Option.some.inj hs)).1
    exact h.setMailbuffer hapart
  | _ => exact h.kept (mailKept_of_effect hs rfl hapart)

/-- The office does what the kernel does. -/
theorem Refines.step {e : Frame × KernelEvent} (hset : Turning k) (h : Refines k o)
    (hlegal : Legal k e.2) (hapart : MailApart k e.2) (hs : Step k e k') :
    Refines k' (o.act (k.posting e.2)) := by
  obtain ⟨l, hqueues, hlive, hrun⟩ := hset
  obtain ⟨regs, ev⟩ := e
  cases ev with
  | syscall fuel call =>
    obtain ⟨k1, r, hk, rfl⟩ := hs.syscall
    have hcur : k.currentTask ∈ k.taskList := (hqueues.owners k.current hlive).resolve_right hlegal.1
    exact (h.syscall hcur hapart hk).kept (afterSyscall_mailKept ..)
  | clock =>
    obtain rfl := hs.clock
    have hkept := afterSyscall_mailKept k regs
    simp only [clockIntHandler, hqueues.schedules, if_true]
    split
    · exact h.kept (hkept.trans (.of_eq rfl rfl rfl rfl rfl))
    · exact h.kept hkept
  | switch =>
    obtain rfl := hs.switch
    exact h.kept (doSwitch_mailKept k regs)
  | irq irq reserved src =>
    obtain ⟨k1, hk, hafter⟩ := h.irq hapart
    obtain rfl := Option.some.inj (hk.symm.trans hs.irq)
    exact hafter
  | exception =>
    obtain rfl := hs.exception
    have h1 : MailKept k (k.setState k.current .exception) := .of_eq rfl rfl rfl rfl rfl
    exact h.kept (h1.trans (afterSyscall_mailKept ..))
  | createTask p t a kmod =>
    have h1 : Refines (k.createTask p t a) (o.act (k.posting (.createTask p t a kmod))) :=
      h.createTask hlegal.2.1
    obtain rfl := hs.createTask
    split
    · exact h1.kept (.of_eq rfl rfl rfl rfl rfl)
    · exact h1

/-! ### Runs -/

/-- The kernel and the office beside it. -/
structure Served where
  kernel : Kernel
  office : Office

/-- `store`: programs write their memory, and pages are mapped. -/
inductive ServedEvent
  | event (regs : Frame) (e : KernelEvent)
  | store (mem : Nat → UInt8) (pt : PTMem)

def ServedStep (s : Served) : ServedEvent → Served → Prop
  | .event regs e, s' =>
    ReusedStep s.kernel (regs, e) s'.kernel ∧ s'.office = s.office.act (s.kernel.posting e)
  | .store mem pt, s' => s' = { s with kernel := s.kernel.withMemory mem pt }

/-- Nobody writes to a mailbox, or moves it, and no event comes to a freed thread record. -/
def ServedLegal (s : Served) : ServedEvent → Prop
  | .event _ e => Legal s.kernel e ∧ KeepsOff s.kernel e ∧ MailApart s.kernel e
  | .store mem pt => ∀ p ∈ s.kernel.taskList, MailAt s.kernel (s.kernel.withMemory mem pt) p ∧
    ∀ a, InMailbox s.kernel p a → mem a = s.kernel.mem a

/-- `init` has a mailbox of 8192 bytes. -/
def ServedStarted (s : Served) : Prop :=
  ∃ k0 b, Zeroed k0 ∧ b.emptyTask ≠ b.initTask ∧ b.emptyThread ≠ b.initThread ∧
    Box (s.kernel.pa b.initTask) b.mail 8192 ∧
      s = ⟨k0.boot b, ⟨[b.initTask], fun _ => 1, fun _ => ⟨8192, 0, []⟩⟩⟩

theorem Turning.withMemory (h : Turning k) (mem : Nat → UInt8) (pt : PTMem) :
    Turning (k.withMemory mem pt) := by
  obtain ⟨l, hqueues, hlive, hrun⟩ := h
  exact ⟨l, ⟨hqueues.schedules, hqueues.queue, hqueues.level1, hqueues.ready, hqueues.emptyLive,
    hqueues.emptyOwner, hqueues.emptyLevel, hqueues.emptyState, hqueues.owners, hqueues.waits,
    hqueues.apart⟩, hlive, hrun⟩

/-- The mail is not in thread records. -/
theorem Refines.overwritten (h : Refines k o) (junk : Kernel) : Refines (k.overwritten junk) o :=
  h.kept (.of_eq rfl rfl rfl rfl rfl)

theorem Refines.start {s : Served} (h : ServedStarted s) : Refines s.kernel s.office := by
  obtain ⟨k0, b, hz, htask, -, hbox, rfl⟩ := h
  have hcur : (k0.boot b).ipc b.initTask = ⟨b.mail, b.mail, b.mail, 8192, 0, 0, some b.initThread⟩ := by
    simp [boot, __setMailbuffer, currentTask, withCurrent, setState, addTask, __createTask,
      createThreadInfo, initIpcInfo]
  have hlist : (k0.boot b).taskList = [b.initTask] := by
    change b.initTask :: k0.taskList = _
    rw [hz.taskList]
  refine ⟨hlist.symm, fun p hp => ?_, fun p hp => ?_, fun p hp q hq hne => ?_⟩
  · rw [hlist, List.mem_singleton] at hp
    subst hp
    simp [boot, __setMailbuffer, currentTask, withCurrent, setState, addTask, __createTask,
      createThreadInfo, kernelTaskParams]
  · rw [hlist, List.mem_singleton] at hp
    subst hp
    refine ⟨by rw [hcur], by rw [hcur], .inr ⟨0, [], ⟨?_, ?_, ?_, ?_, ?_, ?_, ?_, ?_, ?_, by simp⟩, rfl⟩⟩
    all_goals rw [hcur]
    · exact hbox
    · exact (by decide : 8192 ≤ 65543)
    · simp
    · exact (by decide : 0 < 8192)
    · rfl
    · rfl
    · exact Nat.zero_le _
    · rfl
    · rfl
  · rw [hlist, List.mem_singleton] at hp hq
    exact absurd (hp.trans hq.symm) hne

theorem Served.run {es : List ServedEvent} {s : Served}
    (h : Run ServedStarted (Guarded ServedLegal ServedStep) es s) :
    Turning s.kernel ∧ Refines s.kernel s.office := by
  refine h.invariant (I := fun _ s => Turning s.kernel ∧ Refines s.kernel s.office) ?_ ?_
  · intro s hs
    refine ⟨?_, .start hs⟩
    obtain ⟨k0, b, hz, htask, hthread, -, rfl⟩ := hs
    exact (Settled.start ⟨k0, b, hz, htask, hthread, rfl⟩).turning
  · rintro es s e s' ⟨hset, hrefines⟩ ⟨hlegal, hs⟩
    cases e with
    | event regs e =>
      obtain ⟨hlegal, hoff, hapart⟩ := hlegal
      obtain ⟨hs, he⟩ := hs
      refine ⟨hset.reused hlegal hoff hs, ?_⟩
      obtain ⟨k1, junk, hk1, hk⟩ := hs
      rw [he, hk]
      exact (hrefines.step hset hlegal hapart hk1).overwritten junk
    | store mem pt =>
      obtain rfl := hs
      exact ⟨hset.withMemory mem pt, hrefines.kept
        ⟨rfl, fun _ => rfl, fun p hp => (hlegal p hp).1, rfl, fun p hp => (hlegal p hp).2⟩⟩

/-- Whatever has gone on before: every `send_msg` gets the answer of the office, and every
`recv_msg` the message that the office has for the task. -/
theorem mail_served {es : List ServedEvent} {s : Served}
    (h : Run ServedStarted (Guarded ServedLegal ServedStep) es s) :
    (∀ p ∈ s.kernel.taskList, (s.kernel.ipc p).usedSize = (s.office.box p).used ∧
      (s.office.box p).used ≤ (s.office.box p).capacity) ∧
    (∀ fuel msgno reserved src size dst,
      MailApart s.kernel (.syscall fuel (.sendMsg msgno reserved src size dst)) →
      ∃ k', s.kernel.__sendMsg msgno reserved src size dst =
        some (k', (s.office.receiver (s.kernel.posted (.sendMsg msgno reserved src size dst))).isSome)) ∧
    ∀ fuel buf, s.kernel.currentTask ≠ s.kernel.emptyTask →
      MailApart s.kernel (.syscall fuel (.recvMsg buf)) → ∃ k' pack,
        s.kernel.__recvMsg buf = some (k', pack) ∧
        match (s.office.box s.kernel.currentTask).waiting with
        | [] => pack = noMessage ∧ k' = s.kernel
        | m :: _ => mailOf pack (span (k'.pa s.kernel.currentTask) buf pack.length.toNat k'.mem) = m := by
  obtain ⟨⟨l, hqueues, hlive, hrun⟩, hrefines⟩ := Served.run h
  refine ⟨fun p hp => ?_, fun fuel msgno reserved src size dst hapart => ?_,
    fun fuel buf hbusy hapart => ?_⟩
  · have hbox := hrefines.boxes p hp
    refine ⟨hbox.used.symm, ?_⟩
    rw [hbox.used, ← hbox.capacity]
    rcases hbox.mails with ⟨-, -, hused⟩ | ⟨r, l, hholds, -⟩
    · omega
    · exact hholds.le
  · obtain ⟨k', hk, -⟩ := hrefines.send hapart
    exact ⟨k', hk⟩
  · obtain ⟨k', pack, hk, -, hm⟩ :=
      hrefines.recv ((hqueues.owners _ hlive).resolve_right hbusy) hapart
    exact ⟨k', pack, hk, hm⟩

/-! ### A message that `init` sends itself -/

def mailBoot : Kernel := (blank.withMemory (fun _ => 0) mailTables).boot ⟨100, 110, 0, 200, 210, 0, 28672⟩

def servedStart : Served := ⟨mailBoot, ⟨[200], fun _ => 1, fun _ => ⟨8192, 0, []⟩⟩⟩

theorem servedStarted_mailBoot : ServedStarted servedStart := by
  refine ⟨blank.withMemory (fun _ => 0) mailTables, _,
    ⟨fun _ => rfl, rfl, rfl, rfl, fun _ => rfl, rfl⟩, by decide, by decide, ?_, rfl⟩
  have hpa : ∀ i < 8192, mailBoot.pa 200 (28672 + i) = 28672 + i := fun i hi =>
    mailTables_identity (by omega) (by omega)
  refine ⟨by decide, by decide, fun i j hi hj he => ?_⟩
  change mailBoot.pa 200 (28672 + i) = mailBoot.pa 200 (28672 + j) at he
  rw [hpa i hi, hpa j hj] at he
  omega

/-- The events in turn, with the office beside the kernel. -/
def servedStep (s : Served) (e : KernelEvent) : Option Served :=
  (s.kernel.step (fun _ => 0, e)).map fun k => ⟨k, s.office.act (s.kernel.posting e)⟩

theorem servedStep_spec {s s' : Served} {e : KernelEvent} (h : servedStep s e = some s') :
    ServedStep s (.event (fun _ => 0) e) s' := by
  obtain ⟨k, hk, rfl⟩ := Option.map_eq_some_iff.mp h
  exact ⟨Step.reused hk, rfl⟩

/-- What the kernel decides of a mailbox of 32 bytes at 28672. -/
def SmallBox (k : Kernel) : Prop :=
  k.currentTask ≠ k.emptyTask ∧ (∀ p ∈ k.taskList, p = k.currentTask) ∧
    ∀ i < 32, ∀ j < 32, k.pa k.currentTask (28672 + i) = k.pa k.currentTask (28672 + j) → i = j

/-- The bytes at `v` are different ones, and not in a mailbox. -/
def AwayFrom (k : Kernel) (v n : Nat) : Prop :=
  ((addresses v n).map (k.pa k.currentTask)).Nodup ∧
    ∀ a ∈ addresses v n, ∀ p ∈ k.taskList, ∀ i < (k.ipc p).mailSize,
      k.pa k.currentTask a ≠ k.pa p ((k.ipc p).mail + i)

instance (k : Kernel) : Decidable (SmallBox k) := inferInstanceAs (Decidable (_ ∧ _))

instance (k : Kernel) (v n : Nat) : Decidable (AwayFrom k v n) := inferInstanceAs (Decidable (_ ∧ _))

theorem AwayFrom.outside {v n : Nat} (h : AwayFrom k v n) {a : Nat} (ha : a ∈ addresses v n) :
    k.OutsideMail (k.pa k.currentTask a) := by
  rintro p hp ⟨i, hi, he⟩
  exact h.2 a ha p hp i hi he

/-- `init` takes messages from everyone, into 32 bytes, and gets its own. -/
theorem mail_served_init : ∃ (k k' : Kernel) (pack : Msgpack),
    k.__recvMsg 45056 = some (k', pack) ∧ pack.length = 2 ∧ pack.source = 1 := by
  have hany : (servedStep servedStart (.syscall 5 (.setAllow (-1)))).any (fun s1 =>
      SmallBox s1.kernel ∧ (servedStep s1 (.syscall 5 (.setMailbuffer 28672 32))).any (fun s2 =>
        SmallBox s2.kernel ∧ AwayFrom s2.kernel 40960 2 ∧
        KeepsOff s2.kernel (.syscall 5 (.sendMsg ⟨3, 9⟩ 5 40960 2 1)) ∧
        (servedStep s2 (.syscall 5 (.sendMsg ⟨3, 9⟩ 5 40960 2 1))).any (fun s3 =>
          SmallBox s3.kernel ∧ AwayFrom s3.kernel 45056 s3.kernel.pendingLength ∧
            (s3.office.box s3.kernel.currentTask).waiting = [⟨3, 9, 2, 1, [0, 0]⟩]))) = true := by
    decide +kernel
  obtain ⟨s1, h1, hs1⟩ := (Option.any_eq_true ..).mp hany
  obtain ⟨hsmall1, hany⟩ := of_decide_eq_true hs1
  obtain ⟨s2, h2, hs2⟩ := (Option.any_eq_true ..).mp hany
  obtain ⟨hsmall2, haway2, hoff2, hany⟩ := of_decide_eq_true hs2
  obtain ⟨s3, h3, hs3⟩ := (Option.any_eq_true ..).mp hany
  obtain ⟨hsmall3, haway3, hwaiting⟩ := of_decide_eq_true hs3
  have hlegal1 : ServedLegal servedStart (.event (fun _ => 0) (.syscall 5 (.setAllow (-1)))) :=
    ⟨by decide +kernel, by simp [KeepsOff, woken, listed], trivial⟩
  have hlegal2 : ServedLegal s1 (.event (fun _ => 0) (.syscall 5 (.setMailbuffer 28672 32))) :=
    ⟨⟨hsmall1.1, by simp [newThread]⟩, by simp [KeepsOff, woken, listed], by decide,
      ⟨by decide, by decide, fun i j hi hj => hsmall1.2.2 i hi j hj⟩,
      fun p hp hne => absurd (hsmall1.2.1 p hp) hne⟩
  have hlegal3 : ServedLegal s2 (.event (fun _ => 0) (.syscall 5 (.sendMsg ⟨3, 9⟩ 5 40960 2 1))) :=
    ⟨⟨hsmall2.1, by simp [newThread]⟩, hoff2, by decide,
      fun p hp v hv => haway2.outside hv p (getTaskByPid_mem hp)⟩
  have hrun : Run ServedStarted (Guarded ServedLegal ServedStep) [.event (fun _ => 0)
      (.syscall 5 (.setAllow (-1))), .event (fun _ => 0) (.syscall 5 (.setMailbuffer 28672 32)),
      .event (fun _ => 0) (.syscall 5 (.sendMsg ⟨3, 9⟩ 5 40960 2 1))] s3 :=
    (((Run.start servedStarted_mailBoot).snoc ⟨hlegal1, servedStep_spec h1⟩).snoc
      ⟨hlegal2, servedStep_spec h2⟩).snoc ⟨hlegal3, servedStep_spec h3⟩
  obtain ⟨-, -, hrecv⟩ := mail_served hrun
  obtain ⟨k', pack, hk, hm⟩ := hrecv 5 45056 hsmall3.1 fun _ => ⟨haway3.1, fun v hv => haway3.outside hv⟩
  rw [hwaiting] at hm
  obtain ⟨-, -, hlength, hsource, -⟩ := Mail.mk.inj hm
  exact ⟨s3.kernel, k', pack, hk, hlength, hsource⟩

end Kernel

end TayHuang
