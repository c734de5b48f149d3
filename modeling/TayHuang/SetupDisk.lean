import TayHuang.AtaCommands
import TayHuang.MailAdmission

/-! The disk driver of the setup module, disk.c of setup, which sleeps in `check_ipc` until
the kernel has turned the interrupt of a channel into a message. The channel, the interrupt,
the other tasks and the driver take their steps in any order. -/

namespace TayHuang

open Function (update)
open Fuel Runs Polling LittleEndian

namespace SetupDisk

open Ata

/-- A call of `read_sector`, by the thread `t` of the task `p`. `irqVar` is where the
variable `irq` is. -/
structure Reading where
  p : Nat
  t : Nat
  pid : Int
  disks : Fat32.Disks
  identity : Fat32.Device → Block
  disturbed : Disturbed
  lba : UInt32
  num : Int
  selector : UInt32
  irqVar : Nat

/-- `selector & IDE_MASK`. -/
def Reading.ide (a : Reading) : Bool := (Fat32.deviceOf a.selector).1

/-- `selector & SLAVE_MASK`. -/
def Reading.slave (a : Reading) : Bool := (Fat32.deviceOf a.selector).2

/-- What `read_ide0_sector` and `read_ide1_sector` write to the device control register. -/
def control (ide : Bool) : UInt8 := if ide then 2 else 0

/-- The interrupts that they wait for. -/
def irqNumber (ide : Bool) : Nat := if ide then 15 else 14

/-- The registers of a command for one sector. -/
def command (a : Reading) (i : Nat) (fuel : Nat) (c : Channel) : Option Channel :=
  let lba := a.lba + .ofNat i
  let drives := drivesOf a.disks a.identity a.disturbed a.ide
  let c := c.outb drives .device (makeDeviceReg 1 (ofBool a.slave) (lba >>> 24))
  (waitForFree fuel (relax c)).map
    (select drives (control a.ide) 1 (lba &&& 0xFF).toUInt8 ((lba >>> 8) &&& 0xFF).toUInt8
      ((lba >>> 16) &&& 0xFF).toUInt8 0x20)

/-- The loop over the words of a sector. -/
def inWords : Nat → Channel → Block × Channel
  | 0, c => ([], c)
  | n + 1, c =>
    let r := c.inData
    let rest := inWords n r.2
    (r.1 :: rest.1, rest.2)

/-- Where the driver is in the loop: in front of `set_allow`, of the registers, of
`check_ipc` or of `recv_msg` for sector `i`. -/
inductive Point
  | allow (i : Nat)
  | command (i : Nat)
  | check (i : Nat)
  | recv (i : Nat)
  deriving DecidableEq

/-- `request`: the interrupt of the channel waits for the processor. `sectors`: what is
behind `dst`, with `none` for a sector that was given up. -/
structure System where
  kernel : Kernel
  channel : Channel
  request : Bool
  point : Point
  sectors : List (Option Block)

/-- The drive raises its interrupt with the next block, unless bit 1 of the device control
register forbids it. -/
def raises (c : Channel) : Bool :=
  match c.phase with
  | .busy 0 (_ :: _) => c.reg .deviceControl &&& 2 == 0
  | _ => false

/-- The int at the variable `irq`. -/
def irqValue (a : Reading) (k : Kernel) : Nat := ofBytes (span (k.pa a.p) a.irqVar 4 k.mem)

/-- The driver's thread is not in `check_ipc`. -/
def Awake (a : Reading) (s : System) : Prop := s.kernel.state a.t ≠ .waitingIpc

/-- What the other threads and tasks do to the kernel: not to this task, its mailbox and its
interrupt. -/
structure Spares (a : Reading) (k k' : Kernel) : Prop where
  pa : k'.pa a.p = k.pa a.p
  cells : ∀ i, i < (k.ipc a.p).mailSize →
    k'.mem (k.pa a.p ((k.ipc a.p).mail + i)) = k.mem (k.pa a.p ((k.ipc a.p).mail + i))
  ipc : k'.ipc a.p = k.ipc a.p
  target : k'.getTaskByPid a.pid = k.getTaskByPid a.pid
  irq : k'.irqHandleTasks (irqNumber a.ide) = k.irqHandleTasks (irqNumber a.ide)
  owner : k'.owner a.t = k.owner a.t
  state : k'.state a.t = .waitingIpc ↔ k.state a.t = .waitingIpc

inductive Event
  | driver
  | tick
  | irq (reserved : UInt8) (src : Nat)
  | send (thread : Nat) (msgno : MsgnoId) (reserved : UInt8) (src size : Nat)
  | others

/-- `tick`: time passes on the channel. `irq`: the kernel handles the interrupt. `send`:
another task sends a message. -/
inductive Step (a : Reading) (s : System) : Event → System → Prop
  | allow {i : Nat} (h : s.point = .allow i) (hi : (i : Int) < a.num) (hawake : Awake a s) :
    Step a s .driver { s with
      kernel := (s.kernel.withCurrent a.t).__setAllow (-2)
      point := .command i }
  | command {i : Nat} {c : Channel} (h : s.point = .command i) (hawake : Awake a s)
    (hc : Settles (fun fuel => command a i fuel s.channel) c) :
    Step a s .driver { s with channel := c, point := .check i }
  | check {i : Nat} (h : s.point = .check i) (hawake : Awake a s) :
    Step a s .driver { s with
      kernel := (s.kernel.withCurrent a.t).__checkIpc
      point := .recv i }
  | recv {i : Nat} {k : Kernel} {pack : Msgpack} (h : s.point = .recv i) (hawake : Awake a s)
    (hk : (s.kernel.withCurrent a.t).__recvMsg a.irqVar = some (k, pack))
    (hirq : irqValue a k = irqNumber a.ide) :
    Step a s .driver { s with
      kernel := k
      channel := (inWords 256 s.channel).2
      point := .allow (i + 1)
      sectors := s.sectors ++ [some (inWords 256 s.channel).1] }
  | wrong {i : Nat} {k : Kernel} {pack : Msgpack} (h : s.point = .recv i) (hawake : Awake a s)
    (hk : (s.kernel.withCurrent a.t).__recvMsg a.irqVar = some (k, pack))
    (hirq : irqValue a k ≠ irqNumber a.ide) :
    Step a s .driver { s with
      kernel := k
      point := .allow (i + 1)
      sectors := s.sectors ++ [none] }
  | tick (h : looks s.channel ≠ 0) : Step a s .tick { s with
      channel := s.channel.look
      request := s.request || raises s.channel }
  | irq {reserved : UInt8} {src : Nat} {k : Kernel} (h : s.request = true)
    (hk : s.kernel.normalIrqHandler (irqNumber a.ide) reserved src = some k) :
    Step a s (.irq reserved src) { s with kernel := k, request := false }
  | send {thread : Nat} {msgno : MsgnoId} {reserved : UInt8} {src size : Nat} {k : Kernel} {b : Bool}
    (hk : (s.kernel.withCurrent thread).__sendMsg msgno reserved src size a.pid = some (k, b)) :
    Step a s (.send thread msgno reserved src size) { s with kernel := k }
  | others {k : Kernel} (hk : Spares a s.kernel k) : Step a s .others { s with kernel := k }

/-- The stack of the interrupt handler holds the number, outside the mailbox. No task has the
pid `DUMMY_TASK`, and in front of the first `set_allow` nobody sends who is allowed to. -/
def Fits (a : Reading) (s : System) : Event → Prop
  | .irq _ src =>
    span (getPhysicalAddress s.kernel.pt s.kernel.kernelPml4) src 4 s.kernel.mem =
        toBytes 4 (irqNumber a.ide) ∧
      ∀ v ∈ addresses src 4,
        ¬ InMailbox s.kernel a.p (getPhysicalAddress s.kernel.pt s.kernel.kernelPml4 v)
  | .send thread .. => (s.kernel.task (s.kernel.owner thread)).pid ≠ -2 ∧
    (s.point = .allow 0 → (s.kernel.ipc a.p).allowPid ≠ -1 ∧
      (s.kernel.ipc a.p).allowPid ≠ (s.kernel.task (s.kernel.owner thread)).pid)
  | _ => True

/-- The task can take the interrupt as a message. -/
structure Registered (a : Reading) (k : Kernel) : Prop where
  owner : k.owner a.t = a.p
  target : k.getTaskByPid a.pid = some a.p
  irq : k.irqHandleTasks (irqNumber a.ide) = a.pid
  pid : a.pid ≠ 0
  mail : (k.ipc a.p).mail ≠ 0
  room : 12 ≤ (k.ipc a.p).mailSize
  handler : (k.ipc a.p).msgHandlerThread = some a.t
  nodup : ((addresses a.irqVar 4).map (k.pa a.p)).Nodup
  outside : ∀ v ∈ addresses a.irqVar 4, ¬ InMailbox k a.p (k.pa a.p v)

/-- The driver is called with the mailbox empty and the channel idle. -/
def Started (a : Reading) (s : System) : Prop :=
  Registered a s.kernel ∧ (∃ r, Holds s.kernel a.p r []) ∧ Awake a s ∧ s.channel.phase = .idle ∧
    s.request = false ∧ s.point = .allow 0 ∧ s.sectors = []

/-! ### The kernel's part -/

variable {a : Reading} {k k' : Kernel} {s s' : System} {r i : Nat} {c c' : Channel}

/-- What the driver's own calls and the messages leave alone. -/
structure Keeps (a : Reading) (k k' : Kernel) : Prop where
  owner : k'.owner a.t = k.owner a.t
  target : k'.getTaskByPid a.pid = k.getTaskByPid a.pid
  irq : k'.irqHandleTasks (irqNumber a.ide) = k.irqHandleTasks (irqNumber a.ide)
  pa : k'.pa a.p = k.pa a.p
  mail : (k'.ipc a.p).mail = (k.ipc a.p).mail
  mailSize : (k'.ipc a.p).mailSize = (k.ipc a.p).mailSize
  handler : (k'.ipc a.p).msgHandlerThread = (k.ipc a.p).msgHandlerThread

theorem Registered.keeps (h : Registered a k) (hk : Keeps a k k') : Registered a k' := by
  refine ⟨hk.owner.trans h.owner, hk.target.trans h.target, hk.irq.trans h.irq, h.pid, ?_, ?_,
    hk.handler.trans h.handler, ?_, ?_⟩
  · rw [hk.mail]
    exact h.mail
  · rw [hk.mailSize]
    exact h.room
  · rw [hk.pa]
    exact h.nodup
  · have hbox : InMailbox k' a.p = InMailbox k a.p := by
      funext v
      rw [InMailbox, InMailbox, hk.pa, hk.mail, hk.mailSize]
    rw [hbox, hk.pa]
    exact h.outside

theorem Keeps.of_ipc (howner : k'.owner = k.owner) (hlist : k'.taskList = k.taskList)
    (htask : k'.task = k.task) (hirq : k'.irqHandleTasks = k.irqHandleTasks) (hpt : k'.pt = k.pt)
    (hipc : (k'.ipc a.p).mail = (k.ipc a.p).mail ∧
      (k'.ipc a.p).mailSize = (k.ipc a.p).mailSize ∧
        (k'.ipc a.p).msgHandlerThread = (k.ipc a.p).msgHandlerThread) : Keeps a k k' := by
  refine ⟨congrFun howner _, ?_, congrFun hirq _, ?_, hipc.1, hipc.2.1, hipc.2.2⟩
  · rw [Kernel.getTaskByPid, Kernel.getTaskByPid, hlist, htask]
  · funext v
    rw [Kernel.pa, Kernel.pa, hpt, htask]

theorem Keeps.delivered {pack : Msgpack} {paSrc : Nat → Nat} {src size : Nat} {wakes : Bool}
    (hd : k.deliver a.p pack paSrc src size wakes = some k') : Keeps a k k' := by
  obtain ⟨state, freeNext, level0, rfl⟩ := Kernel.deliver_frame hd
  refine .of_ipc rfl rfl rfl rfl rfl ?_
  simp only [Kernel.delivered, Function.update_self, and_self]

/-- A message wakes the thread of the mailbox, if it may. -/
theorem deliver_wakes {pack : Msgpack} {paSrc : Nat → Nat} {src size p t : Nat}
    (ht : (k.ipc p).msgHandlerThread = some t)
    (hd : k.deliver p pack paSrc src size true = some k') : k'.state t ≠ .waitingIpc := by
  rw [Kernel.deliver_eq, ht, Option.map_some, Option.some.injEq] at hd
  subst hd
  split
  · rw [Kernel.enqueueThread_state, Kernel.setState_state_self]
    simp
  · next hn => exact fun he => hn ⟨he, rfl⟩

theorem normalIrqHandler_eq {irq : Nat} (reserved : UInt8) (src : Nat)
    (hne : k.irqHandleTasks irq ≠ 0) : ∃ msgno n, k.normalIrqHandler irq reserved src =
      ((k.withMsgid n).dummySendMsg msgno reserved src 4 (k.irqHandleTasks irq)).map Prod.fst := by
  refine ⟨⟨3, .ofNat (getMsgid k.msgidCounter).1⟩, (getMsgid k.msgidCounter).2, ?_⟩
  unfold Kernel.normalIrqHandler
  rw [if_neg hne]
  rfl

/-- The interrupt becomes the one message in the mailbox. -/
theorem irq_mailed (reserved : UInt8) {src : Nat} (h : Registered a k) (hholds : Holds k a.p r [])
    (hallow : (k.ipc a.p).allowPid = -2)
    (hspan : span (getPhysicalAddress k.pt k.kernelPml4) src 4 k.mem = toBytes 4 (irqNumber a.ide))
    (hout : ∀ v ∈ addresses src 4, ¬ InMailbox k a.p (getPhysicalAddress k.pt k.kernelPml4 v)) :
    ∃ k' pack, k.normalIrqHandler (irqNumber a.ide) reserved src = some k' ∧ Keeps a k k' ∧
      (k'.ipc a.p).allowPid = -2 ∧ k'.state a.t ≠ .waitingIpc ∧
        Holds k' a.p r [(pack, toBytes 4 (irqNumber a.ide))] := by
  have hne : k.irqHandleTasks (irqNumber a.ide) ≠ 0 := by
    rw [h.irq]
    exact h.pid
  have hused : (k.ipc a.p).usedSize = 0 := hholds.used
  have hroom : Kernel.HasRoom (k.ipc a.p) 4 := by
    have := h.room
    unfold Kernel.HasRoom
    rw [hused]
    omega
  obtain ⟨msgno, n, hirq⟩ := normalIrqHandler_eq reserved src hne
  generalize hk1 : k.withMsgid n = k1 at hirq
  have hholds1 : Holds k1 a.p r [] := hk1 ▸ hholds.congr rfl rfl ⟨_, rfl⟩
  have hkeeps1 : Keeps a k k1 := hk1 ▸ ⟨rfl, rfl, rfl, rfl, rfl, rfl, rfl⟩
  have hsame : k1.ipc = k.ipc ∧ k1.pt = k.pt ∧ k1.kernelPml4 = k.kernelPml4 ∧ k1.mem = k.mem :=
    hk1 ▸ ⟨rfl, rfl, rfl, rfl⟩
  obtain ⟨hipc, hpt, hpml4, hmem⟩ := hsame
  have htarget : k1.getTaskByPid (k.irqHandleTasks (irqNumber a.ide)) = some a.p := by
    rw [h.irq, hkeeps1.target, h.target]
  have hadmits : Kernel.Admits k1 Kernel.dummyAllowed 4 (k.irqHandleTasks (irqNumber a.ide)) a.p :=
    ⟨htarget, by rw [hipc]; exact hroom, by rw [hipc]; exact .inl hallow⟩
  rw [Kernel.dummySendMsg_admitted hadmits] at hirq
  obtain ⟨k', hd⟩ : ∃ k', k1.deliver a.p (Kernel.header msgno reserved 4 (-2))
      (getPhysicalAddress k1.pt k1.kernelPml4) src 4 true = some k' :=
    Kernel.deliver_isSome (by rw [hipc, h.handler]; simp)
  have hout1 : ∀ v ∈ addresses src 4, ¬ InMailbox k1 a.p (getPhysicalAddress k1.pt k1.kernelPml4 v) := by
    intro v hv
    rw [hpt, hpml4, InMailbox, hkeeps1.pa, hipc]
    exact hout v hv
  have hafter := hholds1.deliver (by omega) rfl (by rw [hipc]; exact hroom) hout1 hd
  rw [List.nil_append, hpt, hpml4, hmem, hspan] at hafter
  have hkeeps := Keeps.delivered (a := a) hd
  refine ⟨k', Kernel.header msgno reserved 4 (-2), ?_, ?_, ?_, ?_, hafter⟩
  · rw [hirq, hd]
    rfl
  · exact ⟨hkeeps.owner.trans hkeeps1.owner, hkeeps.target.trans hkeeps1.target,
      hkeeps.irq.trans hkeeps1.irq, hkeeps.pa.trans hkeeps1.pa, hkeeps.mail.trans hkeeps1.mail,
      hkeeps.mailSize.trans hkeeps1.mailSize, hkeeps.handler.trans hkeeps1.handler⟩
  · obtain ⟨state, freeNext, level0, rfl⟩ := Kernel.deliver_frame hd
    simp only [Kernel.delivered, Function.update_self, hipc]
    exact hallow
  · exact deliver_wakes (by rw [hipc]; exact h.handler) hd

theorem Keeps.withCurrent (k : Kernel) (t : Nat) : Keeps a k (k.withCurrent t) :=
  ⟨rfl, rfl, rfl, rfl, rfl, rfl, rfl⟩

theorem Keeps.trans {k1 : Kernel} (h : Keeps a k k1) (h' : Keeps a k1 k') : Keeps a k k' :=
  ⟨h'.owner.trans h.owner, h'.target.trans h.target, h'.irq.trans h.irq, h'.pa.trans h.pa,
    h'.mail.trans h.mail, h'.mailSize.trans h.mailSize, h'.handler.trans h.handler⟩

/-- The message comes out of the mailbox, and its number is in the variable. -/
theorem recv_mailed {pack : Msgpack} {irq : Nat} (h : Registered a k) (hirq : irq < 256 ^ 4)
    (hholds : Holds k a.p r [(pack, toBytes 4 irq)]) :
    ∃ k', (k.withCurrent a.t).__recvMsg a.irqVar = some (k', pack) ∧ Keeps a k k' ∧
      k'.state = k.state ∧ (k'.ipc a.p).allowPid = (k.ipc a.p).allowPid ∧ irqValue a k' = irq ∧
        ∃ r', Holds k' a.p r' [] := by
  have hcur : (k.withCurrent a.t).currentTask = a.p := h.owner
  have hlen : (toBytes 4 irq).length = 4 := length_toBytes 4 irq
  have hpack : pack.length.toNat = 4 := by
    rw [← hlen]
    exact (hholds.lengths _ (List.mem_singleton_self _)).symm
  have hholds' : Holds (k.withCurrent a.t) (k.withCurrent a.t).currentTask r [(pack, toBytes 4 irq)] := by
    rw [hcur]
    exact hholds.congr rfl rfl ⟨_, rfl⟩
  have hnodup : ((addresses a.irqVar (toBytes 4 irq).length).map
      ((k.withCurrent a.t).pa (k.withCurrent a.t).currentTask)).Nodup := by
    rw [hcur, hlen]
    exact h.nodup
  obtain ⟨k', hk, hne, hlist, htask, hpt, hspan, r', hafter⟩ := hholds'.recv hnodup
    (by rw [hcur, hlen]; exact h.outside)
  rw [hcur] at hne hspan hafter
  obtain ⟨mem, readPtr, size, rfl⟩ : ∃ mem readPtr size, k' = (k.withCurrent a.t).taken mem readPtr size := by
    rcases Kernel.recvMsg_frame hk with rfl | ht
    · have h0 := hafter.used
      exact absurd h0 hne
    · exact ht
  have hipc : ((k.withCurrent a.t).taken mem readPtr size).ipc a.p = { k.ipc a.p with
      readPtr := readPtr, usedSize := (k.ipc a.p).usedSize - size } := by
    simp only [Kernel.taken, hcur, Function.update_self]
    rfl
  refine ⟨_, hk, (Keeps.withCurrent k a.t).trans (.of_ipc rfl rfl rfl rfl rfl ?_), rfl, ?_, ?_, r', hafter⟩
  · rw [hipc]
    exact ⟨rfl, rfl, rfl⟩
  · rw [hipc]
  · rw [hpack] at hspan
    rw [irqValue, hspan, ofBytes_toBytes_of_lt hirq]

/-- `check_ipc` lets the thread sleep just when the mailbox is empty. -/
theorem check_spec (h : Registered a k) (hawake : k.state a.t ≠ .waitingIpc) :
    Keeps a k (k.withCurrent a.t).__checkIpc ∧ (k.withCurrent a.t).__checkIpc.ipc = k.ipc ∧
      (k.withCurrent a.t).__checkIpc.mem = k.mem ∧
        ((k.withCurrent a.t).__checkIpc.state a.t = .waitingIpc ↔ (k.ipc a.p).usedSize = 0) := by
  have hcur : (k.withCurrent a.t).currentTask = a.p := h.owner
  have hmail : ((k.withCurrent a.t).ipc (k.withCurrent a.t).currentTask).mail ≠ 0 := by
    rw [hcur]
    exact h.mail
  have hused : ((k.withCurrent a.t).ipc (k.withCurrent a.t).currentTask).usedSize =
      (k.ipc a.p).usedSize := by
    rw [hcur]
    rfl
  rw [Kernel.__checkIpc, if_neg hmail, hused]
  split
  · next hpos =>
    exact ⟨.withCurrent k a.t, rfl, rfl, fun he => absurd he hawake, fun he => by omega⟩
  · next hzero =>
    have h0 : (k.ipc a.p).usedSize = 0 := by omega
    refine ⟨(Keeps.withCurrent k a.t).trans ⟨rfl, rfl, rfl, rfl, rfl, rfl, rfl⟩, rfl, rfl,
      fun _ => h0, fun _ => ?_⟩
    exact Kernel.setState_state_self ..

theorem Keeps.setAllow (h : Registered a k) : Keeps a k ((k.withCurrent a.t).__setAllow (-2)) ∧
    ((k.withCurrent a.t).__setAllow (-2)).ipc a.p = { k.ipc a.p with allowPid := -2 } := by
  have hcur : (k.withCurrent a.t).currentTask = a.p := h.owner
  have hipc : ((k.withCurrent a.t).__setAllow (-2)).ipc a.p = { k.ipc a.p with allowPid := -2 } := by
    simp only [Kernel.__setAllow, hcur, Function.update_self]
    rfl
  refine ⟨(Keeps.withCurrent k a.t).trans (.of_ipc rfl rfl rfl rfl rfl ?_), hipc⟩
  rw [hipc]
  exact ⟨rfl, rfl, rfl⟩

/-- Nobody else gets a message into the mailbox. -/
theorem send_refused {thread : Nat} {msgno : MsgnoId} {reserved : UInt8} {src size : Nat} {b : Bool}
    (h : Registered a k) (hallow : (k.ipc a.p).allowPid ≠ (k.task (k.owner thread)).pid ∧
      (k.ipc a.p).allowPid ≠ -1)
    (hk : (k.withCurrent thread).__sendMsg msgno reserved src size a.pid = some (k', b)) :
    k' = k.withCurrent thread := by
  rcases Kernel.sendMsg_cases hk with ⟨-, he⟩ | ⟨-, q, hq, -, hallowed, -⟩
  · exact he
  · obtain rfl := Option.some.inj (hq.symm.trans h.target)
    rcases hallowed with he | he
    · exact absurd he hallow.1
    · exact absurd he hallow.2

/-! ### The channel's part -/

def sectorAt (a : Reading) (i : Nat) : Block :=
  blockOf (a.disks (Fat32.deviceOf a.selector) (Fat32.address (a.lba + .ofNat i).toNat))

theorem length_sectorAt (a : Reading) (i : Nat) : (sectorAt a i).length = 256 := by
  rw [sectorAt, blockOf, List.length_map, List.length_range]

/-- A command to an idle channel: one sector, and the interrupt as it was asked for. -/
theorem command_spec (a : Reading) (i : Nat) (h : c.phase = .idle) : ∃ c',
    Settles (fun fuel => command a i fuel c) c' ∧
      c'.phase = .busy (c.delay c.waits) [sectorAt a i] ∧
        c'.reg .deviceControl = control a.ide := by
  let device := makeDeviceReg 1 (ofBool a.slave) ((a.lba + .ofNat i) >>> 24)
  have houtb := outb_idle (drivesOf a.disks a.identity a.disturbed a.ide) h
    (show Port.device ≠ .command by decide) device
  have hidle : (c.outb (drivesOf a.disks a.identity a.disturbed a.ide) .device device).phase = .idle := by
    rw [houtb]
    exact h
  have hdevice : (c.outb (drivesOf a.disks a.identity a.disturbed a.ide) .device device).reg .device = device := by
    rw [houtb]
    simp
  have hdelay : (c.outb (drivesOf a.disks a.identity a.disturbed a.ide) .device device).delay
      (c.outb (drivesOf a.disks a.identity a.disturbed a.ide) .device device).waits = c.delay c.waits := by
    rw [houtb]
  have hset : Settles (fun fuel => waitForFree fuel (relax
      (c.outb (drivesOf a.disks a.identity a.disturbed a.ide) .device device)))
      (c.outb (drivesOf a.disks a.identity a.disturbed a.ide) .device device) := by
    rw [relax_idle hidle]
    exact waitForFree_idle hidle
  have hwanted := wanted_read a.disks a.identity a.disturbed (control a.ide) a.ide
    (a.lba + .ofNat i) 1 a.slave
  have hone : (List.range (if ((1 : Int) % 256).toNat = 0 then 256 else ((1 : Int) % 256).toNat)).map
      (fun j => blockOf (a.disks (a.ide, a.slave)
        (Fat32.address (Fat32.address (a.lba + .ofNat i).toNat + j)))) = [sectorAt a i] := by
    have haddress : Fat32.address (Fat32.address (a.lba + .ofNat i).toNat + 0) =
        Fat32.address (a.lba + .ofNat i).toNat := by
      rw [Nat.add_zero, Fat32.address, Fat32.address, Nat.mod_mod]
    change [blockOf _] = _
    rw [haddress]
    rfl
  have hbyte : UInt8.ofNat ((1 : Int) % 256).toNat = 1 := rfl
  rw [hone, hbyte] at hwanted
  have hselect := select_idle_busy (drivesOf a.disks a.identity a.disturbed a.ide) hidle
    (control a.ide) 1 ((a.lba + .ofNat i) &&& 0xFF).toUInt8
    (((a.lba + .ofNat i) >>> 8) &&& 0xFF).toUInt8 (((a.lba + .ofNat i) >>> 16) &&& 0xFF).toUInt8 0x20
  rw [hdevice, hwanted, hdelay] at hselect
  obtain ⟨hphase, hcontrol⟩ := hselect (by simp)
  exact ⟨_, hset.map _, hphase, hcontrol⟩

theorem inWords_spec {ws : Block} (hne : ws ≠ []) (h : c.phase = .data ws []) : ∃ c',
    inWords ws.length c = (ws, c') ∧ c'.phase = .idle := by
  induction ws generalizing c with
  | nil => exact absurd rfl hne
  | cons w ws ih =>
    cases ws with
    | nil =>
      refine ⟨c.fetch [], ?_, rfl⟩
      have hdata : c.inData = (w, c.fetch []) := by simp [Channel.inData, h]
      simp only [List.length_cons, List.length_nil, inWords, hdata]
    | cons w' ws =>
      have hdata : c.inData = (w, { c with phase := .data (w' :: ws) [] }) := by
        simp [Channel.inData, h]
      obtain ⟨c', hrun, hidle⟩ := ih (c := { c with phase := .data (w' :: ws) [] }) nofun rfl
      refine ⟨c', ?_, hidle⟩
      rw [List.length_cons, inWords, hdata, hrun]

/-! ### Where the interrupt is -/

/-- With the drive, on its way, or in the mailbox. On the second channel it does not come. -/
inductive Flight (a : Reading) (i : Nat) (s : System) : Prop
  | busy (n r : Nat) (h : s.channel.phase = .busy n [sectorAt a i]) (hrequest : s.request = false)
    (hholds : Holds s.kernel a.p r [])
  | raised (r : Nat) (hide : a.ide = false) (h : s.channel.phase = .data (sectorAt a i) [])
    (hrequest : s.request = true) (hholds : Holds s.kernel a.p r [])
  | mailed (r : Nat) (pack : Msgpack) (hide : a.ide = false)
    (h : s.channel.phase = .data (sectorAt a i) []) (hrequest : s.request = false)
    (hholds : Holds s.kernel a.p r [(pack, toBytes 4 (irqNumber a.ide))])
  | masked (r : Nat) (hide : a.ide = true) (h : s.channel.phase = .data (sectorAt a i) [])
    (hrequest : s.request = false) (hholds : Holds s.kernel a.p r [])

/-- The first `i` sectors are there. -/
def Done (a : Reading) (s : System) (i : Nat) : Prop :=
  s.sectors = (List.range i).map (fun j => some (sectorAt a j)) ∧ (i : Int) ≤ max a.num 0 ∧
    (a.ide = true → i = 0)

structure Resting (a : Reading) (s : System) : Prop where
  idle : s.channel.phase = .idle
  request : s.request = false
  holds : ∃ r, Holds s.kernel a.p r []
  awake : Awake a s

inductive Stage (a : Reading) (s : System) : Prop
  | allow (i : Nat) (h : s.point = .allow i) (rests : Resting a s) (done : Done a s i)
    (allowed : i ≠ 0 → (s.kernel.ipc a.p).allowPid = -2)
  | command (i : Nat) (h : s.point = .command i) (rests : Resting a s) (done : Done a s i)
    (hi : (i : Int) < a.num) (allowed : (s.kernel.ipc a.p).allowPid = -2)
  | check (i : Nat) (h : s.point = .check i) (flight : Flight a i s) (awake : Awake a s)
    (control : s.channel.reg .deviceControl = control a.ide) (done : Done a s i)
    (hi : (i : Int) < a.num) (allowed : (s.kernel.ipc a.p).allowPid = -2)
  | recv (i : Nat) (h : s.point = .recv i) (flight : Flight a i s)
    (asleep : s.kernel.state a.t = .waitingIpc ↔ (s.kernel.ipc a.p).usedSize = 0)
    (control : s.channel.reg .deviceControl = control a.ide) (done : Done a s i)
    (hi : (i : Int) < a.num) (allowed : (s.kernel.ipc a.p).allowPid = -2)

structure Ok (a : Reading) (s : System) : Prop where
  registered : Registered a s.kernel
  stage : Stage a s

/-! ### The steps -/

theorem Holds.spares {l : List (Msgpack × List UInt8)} (h : Holds k a.p r l) (hk : Spares a k k') :
    Holds k' a.p r l := by
  refine h.frame (fun i _ => by rw [hk.pa]) ?_ ⟨(k.ipc a.p).allowPid, hk.ipc⟩
  rintro x ⟨i, hi, rfl⟩
  exact hk.cells i hi

theorem Spares.keeps (h : Spares a k k') : Keeps a k k' :=
  ⟨h.owner, h.target, h.irq, h.pa, by rw [h.ipc], by rw [h.ipc], by rw [h.ipc]⟩

/-- The kernel moves on, and the mailbox stays as it is. -/
theorem Stage.moves (h : Stage a s)
    (hholds : ∀ r l, Holds s.kernel a.p r l → Holds k a.p r l)
    (hipc : (k.ipc a.p).allowPid = (s.kernel.ipc a.p).allowPid ∧
      (k.ipc a.p).usedSize = (s.kernel.ipc a.p).usedSize)
    (hstate : k.state a.t = .waitingIpc ↔ s.kernel.state a.t = .waitingIpc) :
    Stage a { s with kernel := k } := by
  have hflight : ∀ {i}, Flight a i s → Flight a i { s with kernel := k } := by
    intro i hf
    cases hf with
    | busy n r h hr hh => exact .busy n r h hr (hholds _ _ hh)
    | raised r hi h hr hh => exact .raised r hi h hr (hholds _ _ hh)
    | mailed r pack hi h hr hh => exact .mailed r pack hi h hr (hholds _ _ hh)
    | masked r hi h hr hh => exact .masked r hi h hr (hholds _ _ hh)
  have hrests : Resting a s → Resting a { s with kernel := k } := fun hr =>
    ⟨hr.idle, hr.request, hr.holds.imp fun r hh => hholds r _ hh, fun he => hr.awake (hstate.mp he)⟩
  cases h with
  | allow i hp hr hd ha => exact .allow i hp (hrests hr) hd fun hi => hipc.1.trans (ha hi)
  | command i hp hr hd hi ha => exact .command i hp (hrests hr) hd hi (hipc.1.trans ha)
  | check i hp hf hw hc hd hi ha =>
    exact .check i hp (hflight hf) (fun he => hw (hstate.mp he)) hc hd hi (hipc.1.trans ha)
  | recv i hp hf hs hc hd hi ha =>
    refine .recv i hp (hflight hf) (hstate.trans (hs.trans ?_)) hc hd hi (hipc.1.trans ha)
    change _ ↔ (k.ipc a.p).usedSize = 0
    rw [hipc.2]

theorem Ok.others (h : Ok a s) (hk : Spares a s.kernel k) : Ok a { s with kernel := k } :=
  ⟨h.registered.keeps hk.keeps, h.stage.moves (fun _ _ hh => Holds.spares hh hk)
    ⟨by rw [hk.ipc], by rw [hk.ipc]⟩ hk.state⟩

theorem Ok.send {thread : Nat} {msgno : MsgnoId} {reserved : UInt8} {src size : Nat} {b : Bool}
    (h : Ok a s) (hfits : Fits a s (.send thread msgno reserved src size))
    (hk : (s.kernel.withCurrent thread).__sendMsg msgno reserved src size a.pid = some (k, b)) :
    Ok a { s with kernel := k } := by
  obtain ⟨hpid, hfirst⟩ := hfits
  have hallow : (s.kernel.ipc a.p).allowPid ≠ (s.kernel.task (s.kernel.owner thread)).pid ∧
      (s.kernel.ipc a.p).allowPid ≠ -1 := by
    have hminus : (s.kernel.ipc a.p).allowPid = -2 →
        (s.kernel.ipc a.p).allowPid ≠ (s.kernel.task (s.kernel.owner thread)).pid ∧
          (s.kernel.ipc a.p).allowPid ≠ -1 := fun he => by
      rw [he]
      exact ⟨hpid.symm, by decide⟩
    cases h.stage with
    | allow i hp _ _ ha =>
      by_cases hi : i = 0
      · subst hi
        exact (hfirst hp).symm
      · exact hminus (ha hi)
    | command i _ _ _ _ ha => exact hminus ha
    | check i _ _ _ _ _ _ ha => exact hminus ha
    | recv i _ _ _ _ _ _ ha => exact hminus ha
  obtain rfl := send_refused h.registered hallow hk
  exact ⟨h.registered.keeps (.withCurrent _ _), h.stage.moves
    (fun _ _ hh => hh.congr rfl rfl ⟨_, rfl⟩) ⟨rfl, rfl⟩ Iff.rfl⟩

theorem Ok.irq {reserved : UInt8} {src : Nat} (h : Ok a s) (hfits : Fits a s (.irq reserved src))
    (hrequest : s.request = true)
    (hk : s.kernel.normalIrqHandler (irqNumber a.ide) reserved src = some k) :
    Ok a { s with kernel := k, request := false } := by
  obtain ⟨hspan, hout⟩ := hfits
  have hfalse : ∀ {P : Prop}, s.request = false → P := fun hf =>
    absurd (hf.symm.trans hrequest) Bool.false_ne_true
  have hmail : ∀ {i}, Flight a i s → (s.kernel.ipc a.p).allowPid = -2 →
      Registered a k ∧ (k.ipc a.p).allowPid = -2 ∧ k.state a.t ≠ .waitingIpc ∧
        (k.ipc a.p).usedSize ≠ 0 ∧ Flight a i { s with kernel := k, request := false } := by
    intro i hf ha
    cases hf with
    | raised r hi hphase hr hh =>
      obtain ⟨k1, pack, hk1, hkeeps, hallow, hstate, hafter⟩ :=
        irq_mailed reserved h.registered hh ha hspan hout
      obtain rfl := Option.some.inj (hk1.symm.trans hk)
      have hused : (k1.ipc a.p).usedSize ≠ 0 := by
        rw [hafter.used]
        simp [raw]
      exact ⟨h.registered.keeps hkeeps, hallow, hstate, hused, .mailed r pack hi hphase rfl hafter⟩
    | busy n r _ hr _ => exact hfalse hr
    | mailed r pack _ _ hr _ => exact hfalse hr
    | masked r _ _ hr _ => exact hfalse hr
  cases h.stage with
  | allow i _ hr _ _ => exact hfalse hr.request
  | command i _ hr _ _ _ => exact hfalse hr.request
  | check i hp hf hw hc hd hi ha =>
    obtain ⟨hreg, hallow, hstate, hused, hflight⟩ := hmail hf ha
    exact ⟨hreg, .check i hp hflight hstate hc hd hi hallow⟩
  | recv i hp hf hs hc hd hi ha =>
    obtain ⟨hreg, hallow, hstate, hused, hflight⟩ := hmail hf ha
    exact ⟨hreg, .recv i hp hflight ⟨fun he => absurd he hstate, fun he => absurd he hused⟩ hc hd hi
      hallow⟩

theorem Flight.tick (h : Flight a i s) (hcontrol : s.channel.reg .deviceControl = control a.ide)
    (hbusy : looks s.channel ≠ 0) :
    Flight a i { s with channel := s.channel.look, request := s.request || raises s.channel } := by
  have hrest : ∀ {P : Prop} {ws left}, s.channel.phase = .data ws left → P := by
    intro P ws left hp
    simp [looks, hp] at hbusy
  cases h with
  | raised r hi hp hr hh => exact hrest hp
  | mailed r pack hi hp hr hh => exact hrest hp
  | masked r hi hp hr hh => exact hrest hp
  | busy n r hp hr hh =>
    cases n with
    | succ n =>
      refine .busy n r ?_ ?_ hh
      · simp [Channel.look, hp]
      · simp [hr, raises, hp]
    | zero =>
      have hlook : s.channel.look.phase = .data (sectorAt a i) [] := by simp [Channel.look, hp]
      have hraises : raises s.channel = !a.ide := by
        simp only [raises, hp, hcontrol, control]
        cases a.ide <;> decide
      cases hide : a.ide with
      | true => exact .masked r hide hlook (by simp [hr, hraises, hide]) hh
      | false => exact .raised r hide hlook (by simp [hr, hraises, hide]) hh

theorem Ok.tick (h : Ok a s) (hbusy : looks s.channel ≠ 0) :
    Ok a { s with channel := s.channel.look, request := s.request || raises s.channel } := by
  have hreg : s.channel.look.reg = s.channel.reg := look_reg s.channel
  have hidle : ∀ {P : Prop}, s.channel.phase = .idle → P := fun hp => by simp [looks, hp] at hbusy
  refine ⟨h.registered, ?_⟩
  cases h.stage with
  | allow i _ hr _ _ => exact hidle hr.idle
  | command i _ hr _ _ _ => exact hidle hr.idle
  | check i hp hf hw hc hd hi ha =>
    exact .check i hp (hf.tick hc hbusy) hw (by rw [hreg]; exact hc) hd hi ha
  | recv i hp hf hs hc hd hi ha =>
    exact .recv i hp (hf.tick hc hbusy) hs (by rw [hreg]; exact hc) hd hi ha

/-- The driver gets up only for the interrupt. -/
theorem Flight.received (h : Flight a i s) (hused : (s.kernel.ipc a.p).usedSize ≠ 0) :
    a.ide = false ∧ s.channel.phase = .data (sectorAt a i) [] ∧ s.request = false ∧
      ∃ r pack, Holds s.kernel a.p r [(pack, toBytes 4 (irqNumber a.ide))] := by
  cases h with
  | mailed r pack hi hp hr hh => exact ⟨hi, hp, hr, r, pack, hh⟩
  | busy n r _ _ hh => exact absurd hh.used hused
  | raised r _ _ _ hh => exact absurd hh.used hused
  | masked r _ _ _ hh => exact absurd hh.used hused

/-- What the driver does with the message that it gets. -/
theorem Ok.received (h : Ok a s) (hp : s.point = .recv i) (hawake : Awake a s) : ∃ k pack c,
    (s.kernel.withCurrent a.t).__recvMsg a.irqVar = some (k, pack) ∧
      irqValue a k = irqNumber a.ide ∧ inWords 256 s.channel = (sectorAt a i, c) ∧
        Ok a { s with
          kernel := k
          channel := c
          point := .allow (i + 1)
          sectors := s.sectors ++ [some (sectorAt a i)] } := by
  cases h.stage with
  | allow j hp' => exact absurd (hp.symm.trans hp') nofun
  | command j hp' => exact absurd (hp.symm.trans hp') nofun
  | check j hp' => exact absurd (hp.symm.trans hp') nofun
  | recv j hp' hf hs hc hd hi ha =>
    obtain rfl := Point.recv.inj (hp.symm.trans hp')
    obtain ⟨hide, hdata, hrequest, r, pack, hholds⟩ := hf.received fun he => hawake (hs.mpr he)
    have hirq : irqNumber a.ide < 256 ^ 4 := by
      unfold irqNumber
      split <;> decide
    obtain ⟨k, hk, hkeeps, hstate, hallow, hvalue, r', hafter⟩ := recv_mailed h.registered hirq hholds
    obtain ⟨c, hwords, hidle⟩ := inWords_spec (by
      refine List.ne_nil_of_length_pos ?_
      rw [length_sectorAt]
      decide) hdata
    rw [length_sectorAt] at hwords
    refine ⟨k, pack, c, hk, hvalue, hwords, h.registered.keeps hkeeps, .allow (i + 1) rfl
      ⟨hidle, hrequest, ⟨r', hafter⟩, ?_⟩ ⟨?_, ?_, ?_⟩ fun _ => hallow.trans ha⟩
    · change k.state a.t ≠ .waitingIpc
      rw [hstate]
      exact hawake
    · change s.sectors ++ _ = _
      rw [hd.1, List.range_succ, List.map_append]
      rfl
    · push_cast
      omega
    · exact fun ht => absurd (ht.symm.trans hide) nofun

theorem Ok.driver (h : Ok a s) (hs : Step a s .driver s') : Ok a s' := by
  cases hs with
  | @allow j hp hj hawake =>
    obtain ⟨hkeeps, hipc⟩ := Keeps.setAllow h.registered
    cases h.stage with
    | allow i hp' hr hd ha =>
      obtain rfl := Point.allow.inj (hp.symm.trans hp')
      obtain ⟨r, hh⟩ := hr.holds
      exact ⟨h.registered.keeps hkeeps, .command j rfl ⟨hr.idle, hr.request,
        ⟨r, hh.congr rfl rfl ⟨-2, hipc⟩⟩, hawake⟩ hd hj (by rw [hipc])⟩
    | command i hp' => exact absurd (hp.symm.trans hp') nofun
    | check i hp' => exact absurd (hp.symm.trans hp') nofun
    | recv i hp' => exact absurd (hp.symm.trans hp') nofun
  | @command j c hp hawake hc =>
    cases h.stage with
    | allow i hp' => exact absurd (hp.symm.trans hp') nofun
    | command i hp' hr hd hi ha =>
      obtain rfl := Point.command.inj (hp.symm.trans hp')
      obtain ⟨c', hset, hphase, hcontrol⟩ := command_spec a j hr.idle
      obtain rfl := hc.eq hset
      obtain ⟨r, hh⟩ := hr.holds
      exact ⟨h.registered, .check j rfl (.busy _ r hphase hr.request hh) hawake hcontrol hd hi ha⟩
    | check i hp' => exact absurd (hp.symm.trans hp') nofun
    | recv i hp' => exact absurd (hp.symm.trans hp') nofun
  | @check j hp hawake =>
    obtain ⟨hkeeps, hipc, hmem, hasleep⟩ := check_spec h.registered hawake
    cases h.stage with
    | allow i hp' => exact absurd (hp.symm.trans hp') nofun
    | command i hp' => exact absurd (hp.symm.trans hp') nofun
    | check i hp' hf hw hc hd hi ha =>
      obtain rfl := Point.check.inj (hp.symm.trans hp')
      have hholds : ∀ {r l}, Holds s.kernel a.p r l →
          Holds (s.kernel.withCurrent a.t).__checkIpc a.p r l := fun hh =>
        hh.congr hkeeps.pa hmem ⟨_, by rw [hipc]⟩
      refine ⟨h.registered.keeps hkeeps, .recv j rfl ?_ ?_ hc hd hi (by rw [hipc]; exact ha)⟩
      · cases hf with
        | busy n r h hr hh => exact .busy n r h hr (hholds hh)
        | raised r hi h hr hh => exact .raised r hi h hr (hholds hh)
        | mailed r pack hi h hr hh => exact .mailed r pack hi h hr (hholds hh)
        | masked r hi h hr hh => exact .masked r hi h hr (hholds hh)
      · change _ ↔ ((s.kernel.withCurrent a.t).__checkIpc.ipc a.p).usedSize = 0
        rw [hipc]
        exact hasleep
    | recv i hp' => exact absurd (hp.symm.trans hp') nofun
  | @recv j k pack hp hawake hk hirq =>
    obtain ⟨k1, pack1, c, hk1, -, hwords, hok⟩ := h.received hp hawake
    obtain ⟨rfl, rfl⟩ := Prod.mk.inj (Option.some.inj (hk1.symm.trans hk))
    rw [hwords]
    exact hok
  | @wrong j k pack hp hawake hk hirq =>
    obtain ⟨k1, pack1, c, hk1, hvalue, -, -⟩ := h.received hp hawake
    obtain ⟨rfl, rfl⟩ := Prod.mk.inj (Option.some.inj (hk1.symm.trans hk))
    exact absurd hvalue hirq

theorem Ok.step {e : Event} (h : Ok a s) (hfits : Fits a s e) (hs : Step a s e s') : Ok a s' := by
  cases e with
  | driver => exact h.driver hs
  | tick =>
    cases hs with
    | tick hbusy => exact h.tick hbusy
  | irq reserved src =>
    cases hs with
    | irq hrequest hk => exact h.irq hfits hrequest hk
  | send thread msgno reserved src size =>
    cases hs with
    | send hk => exact h.send hfits hk
  | others =>
    cases hs with
    | others hk => exact h.others hk

theorem Ok.start (h : Started a s) : Ok a s := by
  obtain ⟨hreg, hholds, hawake, hidle, hrequest, hpoint, hsectors⟩ := h
  exact ⟨hreg, .allow 0 hpoint ⟨hidle, hrequest, hholds, hawake⟩
    ⟨hsectors, by simp, fun _ => rfl⟩ fun hi => absurd rfl hi⟩

theorem Ok.run {es : List Event} (h : Run (Started a) (Guarded (Fits a) (Step a)) es s) : Ok a s :=
  h.invariant (I := fun _ s => Ok a s) (fun _ => .start) fun _ _ _ _ hok hs => hok.step hs.1 hs.2

/-- `read_sector` returns. -/
def Finished (a : Reading) (s : System) : Prop := ∃ n : Nat, s.point = .allow n ∧ a.num ≤ n

theorem Ok.done (h : Ok a s) : ∃ i, Done a s i ∧ (Finished a s → i = a.num.toNat) := by
  have hnot : ∀ {p : Point}, s.point = p → (∀ n, p ≠ .allow n) → ∀ i, Finished a s → i = a.num.toNat :=
    fun hp hn i hf => by
      obtain ⟨n, hfin, -⟩ := hf
      exact absurd (hp.symm.trans hfin) (hn n)
  cases h.stage with
  | allow i hp hr hd ha =>
    refine ⟨i, hd, fun hf => ?_⟩
    obtain ⟨n, hfin, hle⟩ := hf
    obtain rfl := Point.allow.inj (hp.symm.trans hfin)
    have := hd.2.1
    omega
  | command i hp hr hd hi ha => exact ⟨i, hd, hnot hp nofun i⟩
  | check i hp hf hw hc hd hi ha => exact ⟨i, hd, hnot hp nofun i⟩
  | recv i hp hf hs hc hd hi ha => exact ⟨i, hd, hnot hp nofun i⟩

/-- The sectors of a call that have come, as the drive has them. -/
def came (a : Reading) (i : Nat) : List (Option Block) :=
  (Fat32.Setup.readSector a.lba i a.selector).map fun r => some (blockOf (a.disks r.device r.sector))

theorem came_eq (a : Reading) (i : Nat) :
    (List.range i).map (fun j => some (sectorAt a j)) = came a i := by
  rw [came, Fat32.Setup.readSector, List.map_map]
  rfl

/-- In whichever order the steps come: the driver takes the interrupt for nothing else, gives no
sector up, and gets the sectors that it asks for. -/
theorem sectors_delivered {es : List Event} (h : Run (Started a) (Guarded (Fits a) (Step a)) es s) :
    ∃ i, i ≤ a.num.toNat ∧ s.sectors = came a i ∧ (Finished a s → i = a.num.toNat) := by
  obtain ⟨i, ⟨hsectors, hle, -⟩, hfin⟩ := (Ok.run h).done
  exact ⟨i, by omega, by rw [hsectors, came_eq], hfin⟩

/-- With `IDE1` the driver forbids the interrupt that it sleeps for. -/
theorem second_channel_sleeps {es : List Event}
    (h : Run (Started a) (Guarded (Fits a) (Step a)) es s) (hide : a.ide = true) (hnum : 0 < a.num) :
    s.sectors = [] ∧ ¬ Finished a s := by
  obtain ⟨i, ⟨hsectors, -, hzero⟩, hfin⟩ := (Ok.run h).done
  obtain rfl := hzero hide
  refine ⟨hsectors, fun hf => ?_⟩
  have := hfin hf
  omega

/-! ### The driver comes to an end -/

/-- The driver, the drive and its interrupt, as opposed to the other tasks. -/
def Event.Own : Event → Prop
  | .driver | .tick | .irq .. => True
  | .send .. | .others => False

def Point.rank (num : Nat) : Point → Nat × Nat
  | .allow i => (num - i, 3)
  | .command i => (num - i, 2)
  | .check i => (num - i, 1)
  | .recv i => (num - i, 0)

/-- What is left to do for the call. -/
def rank (a : Reading) (s : System) : Nat × Nat × Nat :=
  ((s.point.rank a.num.toNat).1, (s.point.rank a.num.toNat).2, 2 * looks s.channel + s.request.toNat)

def Closer : Nat × Nat × Nat → Nat × Nat × Nat → Prop :=
  Prod.Lex (· < ·) (Prod.Lex (· < ·) (· < ·))

theorem closer_wf : WellFounded Closer :=
  WellFounded.prod_lex Nat.lt_wfRel.wf (WellFounded.prod_lex Nat.lt_wfRel.wf Nat.lt_wfRel.wf)

theorem rank_step {e : Event} (h : Ok a s) (hs : Step a s e s') :
    (e.Own → Closer (rank a s') (rank a s)) ∧ (¬ e.Own → rank a s' = rank a s) := by
  have hlater : ∀ {p : Point} {i : Nat}, s.point = p → p = .recv i → (i : Int) < a.num := by
    intro p i hp hpi
    cases h.stage with
    | allow j hp' => exact absurd (hp'.symm.trans (hp.trans hpi)) nofun
    | command j hp' => exact absurd (hp'.symm.trans (hp.trans hpi)) nofun
    | check j hp' => exact absurd (hp'.symm.trans (hp.trans hpi)) nofun
    | recv j hp' _ _ _ _ hi =>
      obtain rfl := Point.recv.inj (hp'.symm.trans (hp.trans hpi))
      exact hi
  cases hs with
  | allow hp | command hp | check hp =>
    refine ⟨fun _ => ?_, fun hn => absurd trivial hn⟩
    simp only [rank, hp, Point.rank]
    exact .right _ (.left _ _ (by omega))
  | recv hp | wrong hp =>
    refine ⟨fun _ => ?_, fun hn => absurd trivial hn⟩
    have hi := hlater hp rfl
    simp only [rank, hp, Point.rank]
    exact .left _ _ (by omega)
  | tick hbusy =>
    refine ⟨fun _ => ?_, fun hn => absurd trivial hn⟩
    have hlt : looks s.channel.look < looks s.channel := by
      cases hp : s.channel.phase with
      | busy n left => exact look_of_busy hp
      | idle => simp [looks, hp] at hbusy
      | data ws left => simp [looks, hp] at hbusy
    have hbit := Bool.toNat_le (s.request || raises s.channel)
    refine .right _ (.right _ ?_)
    change 2 * looks s.channel.look + (s.request || raises s.channel).toNat < _
    omega
  | irq hrequest hk =>
    refine ⟨fun _ => ?_, fun hn => absurd trivial hn⟩
    refine .right _ (.right _ ?_)
    simp [hrequest]
  | send hk => exact ⟨fun hf => hf.elim, fun _ => rfl⟩
  | others hk => exact ⟨fun hf => hf.elim, fun _ => rfl⟩

/-- The driver goes on, or the drive does, or the interrupt waits for the processor. -/
def CanMove (a : Reading) (s : System) : Prop :=
  (∃ s', Step a s .driver s') ∨ (∃ s', Step a s .tick s') ∨ s.request = true

/-- On the first channel the driver never waits for nothing. -/
theorem Ok.canMove (h : Ok a s) (hide : a.ide = false) (hfin : ¬ Finished a s) : CanMove a s := by
  cases h.stage with
  | allow i hp hr hd ha =>
    have hi : (i : Int) < a.num := by
      by_contra hle
      exact hfin ⟨i, hp, by omega⟩
    exact .inl ⟨_, .allow hp hi hr.awake⟩
  | command i hp hr hd hi ha =>
    obtain ⟨c', hset, -⟩ := command_spec a i hr.idle
    exact .inl ⟨_, .command hp hr.awake hset⟩
  | check i hp hf hw hc hd hi ha => exact .inl ⟨_, .check hp hw⟩
  | recv i hp hf hs hc hd hi ha =>
    cases hf with
    | busy n r hphase hr hh => exact .inr (.inl ⟨_, .tick (by simp [looks, hphase])⟩)
    | raised r hi hphase hr hh => exact .inr (.inr hr)
    | masked r hi hphase hr hh => exact absurd (hi.symm.trans hide) (by decide)
    | mailed r pack hi' hphase hr hh =>
      have hawake : Awake a s := by
        intro he
        have hused := hh.used
        rw [hs.mp he] at hused
        simp [raw] at hused
      obtain ⟨k, pack', c, hk, hvalue, -⟩ := h.received hp hawake
      exact .inl ⟨_, .recv hp hawake hk hvalue⟩

/-- An endless run, in which what can move does so some time. -/
structure FairRun (a : Reading) (run : Nat → System) (event : Nat → Event) : Prop where
  start : Started a (run 0)
  step : ∀ n, Guarded (Fits a) (Step a) (run n) (event n) (run (n + 1))
  fair : ∀ n, CanMove a (run n) → ∃ m, n ≤ m ∧ (event m).Own

theorem FairRun.ok {run : Nat → System} {event : Nat → Event} (h : FairRun a run event) (n : Nat) :
    Ok a (run n) := by
  induction n with
  | zero => exact .start h.start
  | succ n ih => exact ih.step (h.step n).1 (h.step n).2

/-- The next step of the driver's own. -/
theorem FairRun.next {run : Nat → System} {event : Nat → Event} (h : FairRun a run event) {n m : Nat}
    (hnm : n ≤ m) (hown : (event m).Own) :
    ∃ m', n ≤ m' ∧ Closer (rank a (run m')) (rank a (run n)) := by
  induction m using Nat.strong_induction_on with
  | _ m ih =>
    by_cases hearlier : ∃ j, n ≤ j ∧ j < m ∧ (event j).Own
    · obtain ⟨j, hnj, hjm, hj⟩ := hearlier
      exact ih j hjm hnj hj
    · have hsame : ∀ j, n ≤ j → j ≤ m → rank a (run j) = rank a (run n) := by
        intro j hnj hjm
        induction j, hnj using Nat.le_induction with
        | base => rfl
        | succ j hnj ihj =>
          have hnot : ¬ (event j).Own := fun ho => hearlier ⟨j, hnj, by omega, ho⟩
          rw [(rank_step (h.ok j) (h.step j).2).2 hnot, ihj (by omega)]
      refine ⟨m + 1, by omega, ?_⟩
      rw [← hsame m hnm (Nat.le_refl m)]
      exact (rank_step (h.ok m) (h.step m).2).1 hown

/-- `read_sector` returns, whatever the other tasks do. -/
theorem read_sector_returns {run : Nat → System} {event : Nat → Event} (h : FairRun a run event)
    (hide : a.ide = false) : ∃ n, Finished a (run n) ∧ (run n).sectors = came a a.num.toNat := by
  have hend : ∀ x n, rank a (run n) = x → ∃ m, Finished a (run m) := by
    intro x
    induction x using closer_wf.induction with
    | _ x ih =>
      rintro n rfl
      by_cases hfin : Finished a (run n)
      · exact ⟨n, hfin⟩
      · obtain ⟨m, hnm, hown⟩ := h.fair n ((h.ok n).canMove hide hfin)
        obtain ⟨m', -, hcloser⟩ := h.next hnm hown
        exact ih _ hcloser m' rfl
  obtain ⟨n, hfin⟩ := hend _ 0 rfl
  obtain ⟨i, ⟨hsectors, -, -⟩, hdone⟩ := (h.ok n).done
  exact ⟨n, hfin, by rw [hsectors, came_eq, hdone hfin]⟩

/-! ### One sector of a quiet machine -/

/-- The number of the interrupt is at 24576. -/
def diskKernel (irq : UInt8) : Kernel :=
  { mailKernel with mem := fun x => if x = 24576 then irq else 0, irqHandleTasks := fun _ => 7 }

/-- Sector 9, whose bytes are all 9. -/
def reading (selector : UInt32) : Reading where
  p := 0
  t := 0
  pid := 7
  disks := fun _ sector _ => .ofNat sector
  identity := fun _ => []
  disturbed := fun _ c _ _ => c
  lba := 9
  num := 1
  selector := selector
  irqVar := 32768

def diskStart (irq : UInt8) : System where
  kernel := (diskKernel irq).__setMailbuffer 28672 32
  channel := ⟨fun _ => 0, .idle, fun _ => 0, 0⟩
  request := false
  point := .allow 0
  sectors := []

theorem started_diskStart (irq : UInt8) (selector : UInt32) :
    Started (reading selector) (diskStart irq) := by
  have hinj : ∀ i < 32, ∀ j < 32, mailKernel.pa 0 (28672 + i) = mailKernel.pa 0 (28672 + j) → i = j := by
    decide +kernel
  have hstart : mailStart 0 7 ⟨(diskKernel irq).__setMailbuffer 28672 32, [], []⟩ :=
    ⟨diskKernel irq, 28672, 32, rfl, by omega, by omega, rfl,
      ⟨by omega, by omega, fun i j hi hj he => hinj i hi j hj he⟩, rfl⟩
  have hnodup : ((addresses 32768 4).map (mailKernel.pa 0)).Nodup := by decide +kernel
  have hout : ∀ v ∈ addresses 32768 4, ¬ ∃ i, i < 32 ∧ mailKernel.pa 0 v = mailKernel.pa 0 (28672 + i) := by
    decide +kernel
  have hmail : (28672 : Nat) ≠ 0 ∧ 12 ≤ 32 ∧ (7 : Int) ≠ 0 := by decide
  exact ⟨⟨rfl, rfl, rfl, hmail.2.2, hmail.1, hmail.2.1, rfl, hnodup, hout⟩,
    ⟨0, (MailOk.start hstart).holds⟩, nofun, rfl, rfl, rfl, rfl⟩

/-- Three steps of the driver: it sleeps, and the drive still works. -/
theorem sleep_diskStart (irq : UInt8) (selector : UInt32) : ∃ s1 s2 s3,
    Step (reading selector) (diskStart irq) .driver s1 ∧ Step (reading selector) s1 .driver s2 ∧
      Step (reading selector) s2 .driver s3 ∧ s3.point = .recv 0 ∧
        s3.channel.phase = .busy 0 [sectorAt (reading selector) 0] ∧
          s3.channel.reg .deviceControl = control (reading selector).ide ∧ s3.request = false ∧
            s3.kernel = ((((diskStart irq).kernel.withCurrent 0).__setAllow (-2)).withCurrent
              0).__checkIpc := by
  obtain ⟨c, hset, hphase, hcontrol⟩ := command_spec (c := (diskStart irq).channel)
    (reading selector) 0 rfl
  exact ⟨_, _, _, .allow rfl (by decide : (0 : Int) < 1) nofun, .command rfl nofun hset,
    .check rfl nofun, rfl, hphase, hcontrol, rfl, rfl⟩

theorem Ok.still (h : Ok a s) (hfin : Finished a s) : ¬ CanMove a s := by
  obtain ⟨n, hpoint, hle⟩ := hfin
  have hrests : Resting a s := by
    cases h.stage with
    | allow i hp hr hd ha => exact hr
    | command i hp => exact absurd (hpoint.symm.trans hp) nofun
    | check i hp => exact absurd (hpoint.symm.trans hp) nofun
    | recv i hp => exact absurd (hpoint.symm.trans hp) nofun
  rintro (⟨s', hs⟩ | ⟨s', hs⟩ | hr)
  · cases hs with
    | allow hp hi =>
      obtain rfl := Point.allow.inj (hp.symm.trans hpoint)
      omega
    | command hp => exact absurd (hp.symm.trans hpoint) nofun
    | check hp => exact absurd (hp.symm.trans hpoint) nofun
    | recv hp => exact absurd (hp.symm.trans hpoint) nofun
    | wrong hp => exact absurd (hp.symm.trans hpoint) nofun
  · cases hs with
    | tick hbusy => simp [looks, hrests.idle] at hbusy
  · exact Bool.false_ne_true (hrests.request.symm.trans hr)

/-- The kernel can take the interrupt. -/
theorem Ok.mailed {reserved : UInt8} {src : Nat} (h : Ok a s) (hfits : Fits a s (.irq reserved src))
    (hrequest : s.request = true) : ∃ k, s.kernel.normalIrqHandler (irqNumber a.ide) reserved src =
      some k := by
  have hmail : ∀ {i}, Flight a i s → (s.kernel.ipc a.p).allowPid = -2 →
      ∃ k, s.kernel.normalIrqHandler (irqNumber a.ide) reserved src = some k := by
    intro i hf ha
    have hsome : ∀ {r}, Holds s.kernel a.p r [] →
        ∃ k, s.kernel.normalIrqHandler (irqNumber a.ide) reserved src = some k := fun hh => by
      obtain ⟨k, -, hk, -⟩ := irq_mailed reserved h.registered hh ha hfits.1 hfits.2
      exact ⟨k, hk⟩
    cases hf with
    | busy n r _ _ hh => exact hsome hh
    | raised r _ _ _ hh => exact hsome hh
    | mailed r pack _ _ hr _ => exact absurd (hr.symm.trans hrequest) Bool.false_ne_true
    | masked r _ _ _ hh => exact hsome hh
  cases h.stage with
  | allow i _ hr _ _ => exact absurd (hr.request.symm.trans hrequest) Bool.false_ne_true
  | command i _ hr _ _ _ => exact absurd (hr.request.symm.trans hrequest) Bool.false_ne_true
  | check i hp hf hw hc hd hi ha => exact hmail hf ha
  | recv i hp hf hs hc hd hi ha => exact hmail hf ha

/-- The whole way of one sector of the first channel. -/
theorem read_diskStart : ∃ s1 s2 s3 s4 s5 s6, Step (reading 0) (diskStart 14) .driver s1 ∧
    Step (reading 0) s1 .driver s2 ∧ Step (reading 0) s2 .driver s3 ∧ Step (reading 0) s3 .tick s4 ∧
      Guarded (Fits (reading 0)) (Step (reading 0)) s4 (.irq 0 24576) s5 ∧
        Step (reading 0) s5 .driver s6 ∧ Finished (reading 0) s6 := by
  obtain ⟨s1, s2, s3, h1, h2, h3, hpoint, hphase, hcontrol, hrequest, hkernel⟩ :=
    sleep_diskStart 14 0
  have hok3 : Ok (reading 0) s3 :=
    (((Ok.start (started_diskStart 14 0)).driver h1).driver h2).driver h3
  have hbusy : looks s3.channel ≠ 0 := by simp [looks, hphase]
  have hraises : raises s3.channel = true := by
    simp only [raises, hphase, hcontrol]
    decide
  have hdata : looks s3.channel.look = 0 := by simp [looks, Channel.look, hphase]
  generalize hs4 : ({ s3 with
    channel := s3.channel.look, request := s3.request || raises s3.channel } : System) = s4
  have h4 : Step (reading 0) s3 .tick s4 := hs4 ▸ .tick hbusy
  have hok4 : Ok (reading 0) s4 := hs4 ▸ hok3.tick hbusy
  have hrequest4 : s4.request = true := by
    rw [← hs4]
    exact (congrArg _ hraises).trans (Bool.or_true _)
  have hlooks4 : looks s4.channel = 0 := by
    rw [← hs4]
    exact hdata
  have hpoint4 : s4.point = .recv 0 := by
    rw [← hs4]
    exact hpoint
  have hfits : Fits (reading 0) s4 (.irq 0 24576) := by
    have hkernel4 : s4.kernel = ((((diskStart 14).kernel.withCurrent 0).__setAllow (-2)).withCurrent
        0).__checkIpc := by
      rw [← hs4]
      exact hkernel
    rw [Fits, hkernel4]
    unfold InMailbox InBox
    decide +kernel
  obtain ⟨k, hk⟩ := hok4.mailed hfits hrequest4
  have h5 : Step (reading 0) s4 (.irq 0 24576) { s4 with kernel := k, request := false } :=
    .irq hrequest4 hk
  have hok5 := hok4.irq hfits hrequest4 hk
  have hunfinished : ¬ Finished (reading 0) { s4 with kernel := k, request := false } := by
    rintro ⟨n, hn, -⟩
    simp [hpoint4] at hn
  obtain ⟨s6, h6⟩ : ∃ s6, Step (reading 0) { s4 with kernel := k, request := false } .driver s6 := by
    rcases hok5.canMove rfl hunfinished with hmove | ⟨s6, htick⟩ | hr
    · exact hmove
    · cases htick with
      | tick hlooks => exact absurd hlooks4 hlooks
    · exact absurd hr Bool.false_ne_true
  refine ⟨s1, s2, s3, s4, _, s6, h1, h2, h3, h4, ⟨hfits, h5⟩, h6, 1, ?_, Int.le_refl 1⟩
  cases h6 with
  | allow hp => simp [hpoint4] at hp
  | command hp => simp [hpoint4] at hp
  | check hp => simp [hpoint4] at hp
  | recv hp =>
    obtain rfl := Point.recv.inj (hpoint4.symm.trans hp)
    rfl
  | wrong hp =>
    obtain rfl := Point.recv.inj (hpoint4.symm.trans hp)
    rfl

theorem Step.fits {b : Reading} (h : Step b s .driver s') : Guarded (Fits b) (Step b) s .driver s' :=
  ⟨trivial, h⟩

theorem sectors_delivered_diskStart : ∃ s, Finished (reading 0) s ∧ s.sectors = came (reading 0) 1 := by
  obtain ⟨s1, s2, s3, s4, s5, s6, h1, h2, h3, h4, h5, h6, hfin⟩ := read_diskStart
  have htick : Guarded (Fits (reading 0)) (Step (reading 0)) s3 .tick s4 := ⟨trivial, h4⟩
  have hrun := ((((((Run.start (started_diskStart 14 0)).snoc h1.fits).snoc h2.fits).snoc
    h3.fits).snoc htick).snoc h5).snoc h6.fits
  obtain ⟨i, -, hsectors, hall⟩ := sectors_delivered hrun
  obtain rfl := hall hfin
  exact ⟨s6, hfin, hsectors⟩

theorem second_channel_sleeps_diskStart : ∃ s, s.point = .recv 0 ∧ s.sectors = [] ∧
    ¬ Finished (reading 1) s := by
  obtain ⟨s1, s2, s3, h1, h2, h3, hpoint, -⟩ := sleep_diskStart 15 1
  have hrun := (((Run.start (started_diskStart 15 1)).snoc h1.fits).snoc h2.fits).snoc h3.fits
  exact ⟨s3, hpoint, second_channel_sleeps hrun rfl (by decide)⟩

theorem read_sector_returns_diskStart : ∃ run event, FairRun (reading 0) run event ∧
    ∃ n, Finished (reading 0) (run n) ∧ (run n).sectors = came (reading 0) 1 := by
  obtain ⟨s1, s2, s3, s4, s5, s6, h1, h2, h3, h4, h5, h6, hfin⟩ := read_diskStart
  have hok6 : Ok (reading 0) s6 := ((((((Ok.start (started_diskStart 14 0)).driver h1).driver
    h2).driver h3).step (e := .tick) trivial h4).step h5.1 h5.2).driver h6
  have hrest : Step (reading 0) s6 .others s6 := .others ⟨rfl, fun _ _ => rfl, rfl, rfl, rfl, rfl, .rfl⟩
  let run : Nat → System
    | 0 => diskStart 14
    | 1 => s1
    | 2 => s2
    | 3 => s3
    | 4 => s4
    | 5 => s5
    | _ + 6 => s6
  let event : Nat → Event
    | 0 | 1 | 2 => .driver
    | 3 => .tick
    | 4 => .irq 0 24576
    | 5 => .driver
    | _ + 6 => .others
  have hfair : FairRun (reading 0) run event := by
    refine ⟨started_diskStart 14 0, fun n => ?_, fun n hn => ?_⟩
    · match n with
      | 0 => exact ⟨trivial, h1⟩
      | 1 => exact ⟨trivial, h2⟩
      | 2 => exact ⟨trivial, h3⟩
      | 3 => exact ⟨trivial, h4⟩
      | 4 => exact h5
      | 5 => exact ⟨trivial, h6⟩
      | _ + 6 => exact ⟨trivial, hrest⟩
    · by_cases hlt : n ≤ 5
      · exact ⟨5, hlt, trivial⟩
      · obtain ⟨m, rfl⟩ := Nat.exists_eq_add_of_le' (show 6 ≤ n by omega)
        exact absurd hn (hok6.still hfin)
  exact ⟨run, event, hfair, read_sector_returns hfair rfl⟩

end SetupDisk

end TayHuang
