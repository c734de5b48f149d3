import TayHuang.KernelFrames
import TayHuang.KernelRuns
import TayHuang.MailboxRuns

/-! Which messages a mailbox takes. The test adds sizes in 64 bits, and the header keeps
16 bits of the size. -/

namespace TayHuang

open Function (update)
open Ring Runs

section Loops

variable {pa next : Nat → Nat} {mem : Nat → UInt8} {ptr a : Nat}

theorem pushBytes_ptr (bs : List UInt8) :
    (pushBytes pa next bs (mem, ptr)).2 = next^[bs.length] ptr := by
  induction bs generalizing mem ptr with
  | nil => rfl
  | cons b bs ih => exact ih

theorem copyIn_ptr {paSrc : Nat → Nat} (as : List Nat) :
    (copyIn pa next paSrc as (mem, ptr)).2 = next^[as.length] ptr := by
  induction as generalizing mem ptr with
  | nil => rfl
  | cons b as ih => exact ih

theorem popBytes_ptr (n : Nat) : (popBytes pa next mem n ptr).2 = next^[n] ptr := by
  induction n generalizing ptr with
  | zero => rfl
  | succ n ih => exact ih

theorem copyOut_ptr {paDst : Nat → Nat} (as : List Nat) :
    (copyOut pa next paDst as (mem, ptr)).2 = next^[as.length] ptr := by
  induction as generalizing mem ptr with
  | nil => rfl
  | cons b as ih => exact ih

theorem pushBytes_frame (bs : List UInt8) (h : ∀ i < bs.length, a ≠ pa (next^[i] ptr)) :
    (pushBytes pa next bs (mem, ptr)).1 a = mem a := by
  induction bs generalizing mem ptr with
  | nil => rfl
  | cons b bs ih =>
    rw [List.length_cons] at h
    have hfirst : a ≠ pa ptr := h 0 (by omega)
    rw [pushBytes, ih fun i hi => h (i + 1) (by omega), Function.update_of_ne hfirst]

theorem copyIn_frame {paSrc : Nat → Nat} (as : List Nat)
    (h : ∀ i < as.length, a ≠ pa (next^[i] ptr)) : (copyIn pa next paSrc as (mem, ptr)).1 a = mem a := by
  induction as generalizing mem ptr with
  | nil => rfl
  | cons b as ih =>
    rw [List.length_cons] at h
    have hfirst : a ≠ pa ptr := h 0 (by omega)
    rw [copyIn, ih fun i hi => h (i + 1) (by omega), Function.update_of_ne hfirst]

theorem copyOut_frame {paDst : Nat → Nat} (as : List Nat)
    (h : a ∉ as.map paDst) : (copyOut pa next paDst as (mem, ptr)).1 a = mem a := by
  induction as generalizing mem ptr with
  | nil => rfl
  | cons b as ih =>
    rw [List.map_cons, List.mem_cons, not_or] at h
    rw [copyOut, ih h.2, Function.update_of_ne h.1]

end Loops

section Buffer

variable {pa paSrc : Nat → Nat} {ipc : IpcInfo} {pack : Msgpack} {src a : Nat} {mem : Nat → UInt8}

theorem writeToBuffer_ptr : (writeToBuffer pa paSrc ipc pack src mem).2 =
    (increasePtr ipc.mail ipc.mailSize)^[8 + pack.length.toNat] ipc.writePtr := by
  simp only [writeToBuffer]
  rw [← Prod.mk.eta (p := pushBytes pa (increasePtr ipc.mail ipc.mailSize) pack.bytes
      (mem, ipc.writePtr)), copyIn_ptr, pushBytes_ptr, length_addresses, Msgpack.length_bytes,
    ← Function.iterate_add_apply, Nat.add_comm]

theorem writeToBuffer_frame (h : ∀ i < 8 + pack.length.toNat,
    a ≠ pa ((increasePtr ipc.mail ipc.mailSize)^[i] ipc.writePtr)) :
    (writeToBuffer pa paSrc ipc pack src mem).1 a = mem a := by
  simp only [writeToBuffer]
  rw [← Prod.mk.eta (p := pushBytes pa (increasePtr ipc.mail ipc.mailSize) pack.bytes
      (mem, ipc.writePtr)), copyIn_frame _ fun i hi => ?_, pushBytes_frame _ fun i hi => ?_]
  · rw [Msgpack.length_bytes] at hi
    exact h i (by omega)
  · rw [length_addresses] at hi
    rw [pushBytes_ptr, Msgpack.length_bytes, ← Function.iterate_add_apply]
    exact h (i + 8) (by omega)

theorem readFromBuffer_ptr {dst : Nat} : (readFromBuffer pa ipc dst mem).2.2 =
    (increasePtr ipc.mail ipc.mailSize)^[8 + (readFromBuffer pa ipc dst mem).1.length.toNat]
      ipc.readPtr := by
  simp only [readFromBuffer]
  rw [copyOut_ptr, popBytes_ptr, length_addresses, ← Function.iterate_add_apply, Nat.add_comm]

theorem Box.iterate {mail size : Nat} (h : Box pa mail size) (i j : Nat) :
    (increasePtr mail size)^[i] (mail + j % size) = mail + (j + i) % size := by
  induction i with
  | zero => rfl
  | succ i ih =>
    have hlt : (j + i) % size < size := Nat.mod_lt _ h.pos
    rw [Function.iterate_succ_apply', ih, h.next hlt, advance_mod h.pos, Nat.add_assoc]

theorem Box.apart {mail size : Nat} (h : Box pa mail size) {r i j : Nat} (hi : i < size)
    (hj : j < size) (hne : i ≠ j) : pa (mail + (r + i) % size) ≠ pa (mail + (r + j) % size) :=
  fun he => hne (slot_injective hi hj (h.inj _ _ (Nat.mod_lt _ h.pos) (Nat.mod_lt _ h.pos) he))

theorem writeToBuffer_header (h : Box pa ipc.mail ipc.mailSize) {w : Nat}
    (hptr : ipc.writePtr = ipc.mail + w % ipc.mailSize)
    (hfit : 8 + pack.length.toNat ≤ ipc.mailSize) :
    (popBytes pa (increasePtr ipc.mail ipc.mailSize) (writeToBuffer pa paSrc ipc pack src mem).1 8
      ipc.writePtr).1 = pack.bytes := by
  have hlt : w % ipc.mailSize < ipc.mailSize := Nat.mod_lt _ h.pos
  have hstart : ipc.mail + (w % ipc.mailSize + 0) % ipc.mailSize = ipc.writePtr := by
    rw [Nat.add_zero, Nat.mod_mod, hptr]
  have hbytes : pack.bytes.length = 8 := Msgpack.length_bytes pack
  obtain ⟨-, hwin, -⟩ := pushBytes_spec (r := w % ipc.mailSize) (k := 0) h pack.bytes
    (by rw [hbytes]; omega)
  rw [hstart, hbytes, window_zero, List.nil_append, Nat.zero_add] at hwin
  rw [hptr, popBytes_spec h hlt]
  refine Eq.trans (window_congr fun i hi => ?_) hwin
  simp only [cells, writeToBuffer]
  rw [← Prod.mk.eta (p := pushBytes pa (increasePtr ipc.mail ipc.mailSize) pack.bytes
    (mem, ipc.writePtr))]
  refine copyIn_frame _ fun j hj => ?_
  rw [length_addresses] at hj
  rw [pushBytes_ptr, hbytes, ← Function.iterate_add_apply, hptr, h.iterate, Nat.mod_add_mod]
  exact h.apart (by omega) (by omega) (by omega)

theorem writeToBuffer_kept (h : Box pa ipc.mail ipc.mailSize) {r : Nat}
    (hread : ipc.readPtr = ipc.mail + r % ipc.mailSize)
    (hptr : ipc.writePtr = ipc.mail + (r + ipc.usedSize) % ipc.mailSize)
    (hfit : ipc.usedSize + (8 + pack.length.toNat) ≤ ipc.mailSize) {i : Nat} (hi : i < ipc.usedSize) :
    (writeToBuffer pa paSrc ipc pack src mem).1
        (pa ((increasePtr ipc.mail ipc.mailSize)^[i] ipc.readPtr)) =
      mem (pa ((increasePtr ipc.mail ipc.mailSize)^[i] ipc.readPtr)) := by
  refine writeToBuffer_frame fun j hj => ?_
  rw [hread, hptr, h.iterate, h.iterate, Nat.add_assoc]
  exact h.apart (by omega) (by omega) (by omega)

end Buffer

/-! ### The pointers of a mailbox -/

/-- The write pointer is `used_size` bytes behind the read pointer. -/
def Aligned (ipc : IpcInfo) (r : Nat) : Prop :=
  ipc.readPtr = ipc.mail + r % ipc.mailSize ∧
    ipc.writePtr = ipc.mail + (r + ipc.usedSize) % ipc.mailSize ∧
    ipc.usedSize ≤ ipc.mailSize ∧ (ipc.usedSize ≠ 0 → ipc.mail + ipc.mailSize < 2 ^ 64) ∧
    (ipc.mailSize ≠ 0 → ipc.msgHandlerThread ≠ none)

namespace Kernel

/-- The memory and the page tables when an event comes. -/
def withMemory (k : Kernel) (mem : Nat → UInt8) (pt : PTMem) : Kernel :=
  { k with
    mem := mem
    pt := pt }

/-- An event, and the memory and the page tables that the programs and the system have
left before it. -/
structure Turn where
  mem : Nat → UInt8
  pt : PTMem
  regs : Frame
  event : KernelEvent

def Turn.kernel (k : Kernel) (x : Turn) : Kernel := k.withMemory x.mem x.pt

def turn (k : Kernel) (x : Turn) : Option Kernel := (x.kernel k).step (x.regs, x.event)

def TurnStep (k : Kernel) (x : Turn) (k' : Kernel) : Prop := k.turn x = some k'

def sendAllowed (k : Kernel) (allow : Int) : Prop :=
  allow = (k.task k.currentTask).pid ∨ allow = -1

def dummyAllowed (allow : Int) : Prop := allow = -2 ∨ allow < 0

/-- The message passes the test as the code computes it. -/
def Admits (k : Kernel) (allowed : Int → Prop) (size : Nat) (dst : Int) (p : Nat) : Prop :=
  k.getTaskByPid dst = some p ∧ HasRoom (k.ipc p) size ∧ allowed (k.ipc p).allowPid

/-- Neither the sum nor the size overflows. -/
def Fits (ipc : IpcInfo) (size : Nat) : Prop :=
  ipc.usedSize + size + 8 < 2 ^ 64 ∧ size < 2 ^ 16

/-- Every message that is accepted fits. -/
def Fitting (k : Kernel) (allowed : Int → Prop) (size : Nat) (dst : Int) : Prop :=
  ∀ p, Admits k allowed size dst p → Fits (k.ipc p) size

/-- Every mailbox that accepts the message is made of different bytes of memory. -/
def Boxed (k : Kernel) (allowed : Int → Prop) (size : Nat) (dst : Int) : Prop :=
  ∀ p, Admits k allowed size dst p → Box (k.pa p) (k.ipc p).mail (k.ipc p).mailSize

/-- What an accepted message does to the mailbox. -/
structure Admission (k k' : Kernel) (p size : Nat) : Prop where
  room : (k.ipc p).usedSize + size + 8 ≤ (k.ipc p).mailSize
  accounted : (k'.ipc p).usedSize = (k.ipc p).usedSize + size + 8
  header : (Msgpack.ofBytes (popBytes (k.pa p) (increasePtr (k.ipc p).mail (k.ipc p).mailSize) k'.mem
    8 (k.ipc p).writePtr).1).length.toNat = size
  kept : ∀ i < (k.ipc p).usedSize,
    k'.mem (k.pa p ((increasePtr (k.ipc p).mail (k.ipc p).mailSize)^[i] (k.ipc p).readPtr)) =
      k.mem (k.pa p ((increasePtr (k.ipc p).mail (k.ipc p).mailSize)^[i] (k.ipc p).readPtr))

/-- The call returns; what it accepts is stored whole, and what it refuses has no effect. -/
def Sound (k : Kernel) (size : Nat) (dst : Int) (r : Option (Kernel × Bool)) : Prop :=
  ∃ k' b, r = some (k', b) ∧
    if b then ∃ p, k.getTaskByPid dst = some p ∧ Admission k k' p size else k' = k

variable {k k' : Kernel} {p r src size : Nat} {pack : Msgpack} {paSrc : Nat → Nat} {wakes : Bool}
  {allowed : Int → Prop} {dst : Int} {msgno : MsgnoId} {reserved : UInt8}

theorem Admission.of_deliver (hal : Aligned (k.ipc p) r)
    (hbox : Box (k.pa p) (k.ipc p).mail (k.ipc p).mailSize) (hroom : HasRoom (k.ipc p) size)
    (hfits : Fits (k.ipc p) size) (hpack : pack.length = UInt16.ofNat size)
    (hd : k.deliver p pack paSrc src size wakes = some k') : Admission k k' p size := by
  obtain ⟨hread, hwrite, hle, -, -⟩ := hal
  obtain ⟨hsum, hsize⟩ := hfits
  have hlen : pack.length.toNat = size := by
    rw [hpack, UInt16.toNat_ofNat_of_lt' (by simpa using hsize)]
  rw [HasRoom, Nat.mod_eq_of_lt hsum] at hroom
  obtain ⟨state, freeNext, level0, rfl⟩ := deliver_frame hd
  refine ⟨hroom, ?_, ?_, fun i hi => ?_⟩
  · simp only [delivered, Function.update_self]
    omega
  · change (Msgpack.ofBytes (popBytes _ _ (writeToBuffer _ _ _ _ _ _).1 8 _).1).length.toNat = size
    rw [writeToBuffer_header hbox hwrite (by omega), Msgpack.ofBytes_bytes, hlen]
  · exact writeToBuffer_kept hbox hread hwrite (by omega) hi

theorem sendMsg_admitted (h : Admits k k.sendAllowed size dst p) :
    k.__sendMsg msgno reserved src size dst =
      (k.deliver p (Kernel.header msgno reserved size (k.task k.currentTask).pid) (k.pa k.currentTask) src size
        ((k.ipc p).allowPid ≠ -2)).map fun k => (k, true) := by
  obtain ⟨hp, hroom, hallow⟩ := h
  have hpass : ¬ ((k.ipc p).mailSize < ((k.ipc p).usedSize + size + 8) % 2 ^ 64 ∨
      ((k.ipc p).allowPid ≠ (k.task k.currentTask).pid ∧ (k.ipc p).allowPid ≠ -1)) := by
    rw [not_or, not_and_or, not_not, not_not]
    exact ⟨Nat.not_lt.mpr hroom, hallow⟩
  simp only [__sendMsg, hp, if_neg hpass]
  rfl

theorem sendMsg_refused (h : ∀ p, ¬ Admits k k.sendAllowed size dst p) :
    k.__sendMsg msgno reserved src size dst = some (k, false) := by
  unfold __sendMsg
  cases hp : k.getTaskByPid dst with
  | none => rfl
  | some p =>
    simp only
    refine if_pos ?_
    by_contra hpass
    rw [not_or, not_and_or, not_not, not_not] at hpass
    exact h p ⟨hp, Nat.le_of_not_lt hpass.1, hpass.2⟩

theorem dummySendMsg_admitted (h : Admits k dummyAllowed size dst p) :
    k.dummySendMsg msgno reserved src size dst =
      (k.deliver p (Kernel.header msgno reserved size (-2)) (getPhysicalAddress k.pt k.kernelPml4) src size
        true).map fun k => (k, true) := by
  obtain ⟨hp, hroom, hallow⟩ := h
  have hpass : ¬ ((k.ipc p).mailSize < ((k.ipc p).usedSize + size + 8) % 2 ^ 64 ∨
      ((k.ipc p).allowPid ≠ -2 ∧ 0 ≤ (k.ipc p).allowPid)) := by
    rw [not_or, not_and_or, not_not, Int.not_le]
    exact ⟨Nat.not_lt.mpr hroom, hallow⟩
  simp only [dummySendMsg, hp, if_neg hpass]
  rfl

theorem dummySendMsg_refused (h : ∀ p, ¬ Admits k dummyAllowed size dst p) :
    k.dummySendMsg msgno reserved src size dst = some (k, false) := by
  unfold dummySendMsg
  cases hp : k.getTaskByPid dst with
  | none => rfl
  | some p =>
    simp only
    refine if_pos ?_
    by_contra hpass
    rw [not_or, not_and_or, not_not, Int.not_le] at hpass
    exact h p ⟨hp, Nat.le_of_not_lt hpass.1, hpass.2⟩

def AllAligned (k : Kernel) : Prop := ∀ p ∈ k.taskList, ∃ r, Aligned (k.ipc p) r

theorem sound_iff {result : Option (Kernel × Bool)} (hk : AllAligned k)
    (hdel : ∀ p, Admits k allowed size dst p → ∃ pack paSrc wakes,
      pack.length = UInt16.ofNat size ∧
        result = (k.deliver p pack paSrc src size wakes).map fun k => (k, true))
    (hrefuse : (∀ p, ¬ Admits k allowed size dst p) → result = some (k, false))
    (hbox : Boxed k allowed size dst) : Sound k size dst result ↔ Fitting k allowed size dst := by
  constructor
  · rintro ⟨k', b, hresult, hsound⟩ p hp
    obtain ⟨pack, paSrc, wakes, -, hdeliver⟩ := hdel p hp
    obtain ⟨k1, -, he⟩ := Option.map_eq_some_iff.mp (hdeliver.symm.trans hresult)
    obtain ⟨-, rfl⟩ := Prod.mk.inj he
    obtain ⟨q, hq, hadm⟩ := hsound
    obtain rfl := Option.some.inj (hq.symm.trans hp.1)
    have htop := (hbox _ hp).top
    have hroom := hadm.room
    refine ⟨by omega, ?_⟩
    rw [← hadm.header]
    exact UInt16.toNat_lt _
  · intro hfits
    by_cases hp : ∃ p, Admits k allowed size dst p
    · obtain ⟨p, hp⟩ := hp
      obtain ⟨pack, paSrc, wakes, hpack, hdeliver⟩ := hdel p hp
      obtain ⟨r, hal⟩ := hk p (getTaskByPid_mem hp.1)
      have hb := hbox p hp
      have hpos := hb.pos
      obtain ⟨k', hk'⟩ : ∃ k', k.deliver p pack paSrc src size wakes = some k' :=
        deliver_isSome (hal.2.2.2.2 (by omega))
      refine ⟨k', true, ?_, p, hp.1, .of_deliver hal hb hp.2.1 (hfits p hp) hpack hk'⟩
      rw [hdeliver, hk', Option.map_some]
    · exact ⟨k, false, hrefuse fun p hh => hp ⟨p, hh⟩, rfl⟩

end Kernel

/-! ### The pointers over runs -/

theorem Aligned.start {ipc : IpcInfo} (hread : ipc.readPtr = ipc.mail)
    (hwrite : ipc.writePtr = ipc.mail) (hused : ipc.usedSize = 0)
    (hhandler : ipc.mailSize ≠ 0 → ipc.msgHandlerThread ≠ none) : Aligned ipc 0 := by
  refine ⟨?_, ?_, by omega, fun hh => absurd hused hh, hhandler⟩
  · rw [hread, Nat.zero_mod, Nat.add_zero]
  · rw [hwrite, hused, Nat.add_zero, Nat.zero_mod, Nat.add_zero]

theorem Aligned.accept {ipc : IpcInfo} {pa : Nat → Nat} {r n : Nat} (h : Aligned ipc r)
    (hbox : Box pa ipc.mail ipc.mailSize) (hroom : ipc.usedSize + n ≤ ipc.mailSize) :
    Aligned { ipc with
      usedSize := ipc.usedSize + n
      writePtr := (increasePtr ipc.mail ipc.mailSize)^[n] ipc.writePtr } r := by
  obtain ⟨hread, hwrite, -, -, hhandler⟩ := h
  refine ⟨hread, ?_, hroom, fun _ => hbox.top, hhandler⟩
  simp only
  rw [hwrite, hbox.iterate, Nat.add_assoc]

theorem Aligned.take {ipc : IpcInfo} {r n : Nat} (h : Aligned ipc r) (hused : ipc.usedSize ≠ 0)
    (hle : n ≤ ipc.usedSize) :
    Aligned { ipc with
      readPtr := (increasePtr ipc.mail ipc.mailSize)^[n] ipc.readPtr
      usedSize := ipc.usedSize - n } (r + n) := by
  obtain ⟨hread, hwrite, hsize, htop, hhandler⟩ := h
  have hbox : Box (fun v => v) ipc.mail ipc.mailSize :=
    ⟨by omega, htop hused, fun i j _ _ he => Nat.add_left_cancel he⟩
  refine ⟨?_, ?_, ?_, fun _ => htop hused, hhandler⟩
  · simp only
    rw [hread, hbox.iterate]
  · simp only
    rw [hwrite, Nat.add_assoc, Nat.add_sub_of_le hle]
  · simp only
    omega

namespace Kernel

variable {k k' : Kernel}

theorem AllAligned.congr (h : AllAligned k) (hlist : k'.taskList = k.taskList)
    (hipc : k'.ipc = k.ipc) : AllAligned k' := by
  intro p hp
  rw [hipc]
  exact h p (hlist ▸ hp)

theorem AllAligned.kept (h : AllAligned k) (hk : Kept k k') : AllAligned k' :=
  h.congr hk.2.1 hk.2.2.2.2.1

theorem AllAligned.update (h : AllAligned k) {q : Nat} {x : IpcInfo}
    (hlist : k'.taskList = k.taskList) (hipc : k'.ipc = update k.ipc q x)
    (hx : ∀ r, Aligned (k.ipc q) r → ∃ r', Aligned x r') : AllAligned k' := by
  intro p hp
  rw [hipc]
  rw [hlist] at hp
  obtain ⟨r, hr⟩ := h p hp
  by_cases hq : p = q
  · subst hq
    rw [Function.update_self]
    exact hx r hr
  · rw [Function.update_of_ne hq]
    exact ⟨r, hr⟩

/-- What a call or an interrupt sends fits, and goes to a mailbox of different bytes. -/
def SendsFit (k : Kernel) : KernelEvent → Prop
  | .syscall _ (.sendMsg _ _ _ size dst) =>
    Fitting k k.sendAllowed size dst ∧ Boxed k k.sendAllowed size dst
  | .irq irq _ _ => k.irqHandleTasks irq ≠ 0 →
    Fitting k dummyAllowed 4 (k.irqHandleTasks irq) ∧ Boxed k dummyAllowed 4 (k.irqHandleTasks irq)
  | _ => True

theorem AllAligned.deliver {p src size : Nat} {pack : Msgpack} {paSrc : Nat → Nat} {wakes : Bool}
    (h : AllAligned k) (hroom : HasRoom (k.ipc p) size) (hfits : Fits (k.ipc p) size)
    (hbox : Box (k.pa p) (k.ipc p).mail (k.ipc p).mailSize) (hpack : pack.length = UInt16.ofNat size)
    (hd : k.deliver p pack paSrc src size wakes = some k') : AllAligned k' := by
  obtain ⟨hsum, hsize⟩ := hfits
  have hlen : pack.length.toNat = size := by
    rw [hpack, UInt16.toNat_ofNat_of_lt' (by simpa using hsize)]
  rw [HasRoom, Nat.mod_eq_of_lt hsum] at hroom
  obtain ⟨state, freeNext, level0, rfl⟩ := deliver_frame hd
  refine h.update rfl rfl fun r hr => ⟨r, ?_⟩
  have hmod : ((k.ipc p).usedSize + (8 + size)) % 2 ^ 64 = (k.ipc p).usedSize + (8 + size) :=
    Nat.mod_eq_of_lt (by omega)
  rw [hmod, writeToBuffer_ptr, hlen]
  exact hr.accept hbox (by omega)

theorem AllAligned.recvMsg {dst : Nat} {pack : Msgpack} (h : AllAligned k)
    (hk : k.__recvMsg dst = some (k', pack)) : AllAligned k' := by
  simp only [__recvMsg] at hk
  split at hk
  · obtain ⟨rfl, -⟩ := Prod.mk.inj (Option.some.inj hk)
    exact h
  · next hused =>
    split at hk
    · next hle =>
      obtain ⟨rfl, -⟩ := Prod.mk.inj (Option.some.inj hk)
      refine h.update rfl rfl fun r hr => ?_
      rw [readFromBuffer_ptr, Nat.add_comm 8]
      exact ⟨_, hr.take hused hle⟩
    · simp at hk

theorem AllAligned.syscall (h : AllAligned k) {fuel : Nat} {call : Syscall} {r : UInt64}
    (hfits : SendsFit k (.syscall fuel call)) (hs : k.syscall fuel call = some (k', r)) :
    AllAligned k' := by
  cases syscall_effect hs with
  | idle => exact h
  | @sent _ _ _ _ _ p _ hp hroom hallow hd =>
    have hp' : Admits k k.sendAllowed _ _ p := ⟨hp, hroom, hallow⟩
    exact h.deliver hroom (hfits.1 p hp') (hfits.2 p hp') rfl hd
  | received hk => exact h.recvMsg hk
  | mails buffer size => exact h.update rfl rfl fun _ _ => ⟨0, .start rfl rfl rfl fun _ => by simp⟩
  | allows pid => exact h.update rfl rfl fun r hr => ⟨r, hr⟩
  | @ups id _ hk =>
    obtain ⟨s, s', -, ⟨-, rfl⟩ | ⟨t, -, rfl⟩⟩ := upSignal_effect hk
    · exact h.congr rfl rfl
    · obtain ⟨freeNext, level0, he⟩ := enqueueThread_eq ((k.setSignal id s').setState t .ready) t
      rw [he]
      exact h.congr rfl rfl
  | downs hk =>
    obtain ⟨s, s', -, ⟨-, rfl⟩ | ⟨-, rfl⟩⟩ := downSignal_effect hk
    · exact h.congr rfl rfl
    · exact h.congr rfl rfl
  | @spawns t entry _ _ hk =>
    obtain ⟨parent, -, rfl⟩ := createThread_eq hk
    obtain ⟨freeNext, level0, he⟩ :=
      enqueueThread_eq ((k.spawnThread t entry k.currentTask).linkThread parent t) t
    rw [he]
    exact h.congr rfl rfl
  | waits | locks | creates | registers | exits => exact h.congr rfl rfl

theorem AllAligned.createTask (h : AllAligned k) (p t : Nat) (a : TaskParams) :
    AllAligned (k.createTask p t a) := by
  have hadded : AllAligned ((k.__createTask p t a).addTask p) := by
    intro q hq
    by_cases hqp : q = p
    · refine ⟨0, ?_⟩
      subst hqp
      simp only [addTask, __createTask, Function.update_self]
      exact .start rfl rfl rfl fun hh => absurd rfl hh
    · obtain ⟨r, hr⟩ := h q (List.mem_of_ne_of_mem hqp hq)
      refine ⟨r, ?_⟩
      simp only [addTask, __createTask, Function.update_of_ne hqp]
      exact hr
  unfold Kernel.createTask
  obtain ⟨freeNext, level0, he⟩ := enqueueThread_eq ((k.__createTask p t a).addTask p)
    (((k.__createTask p t a).addTask p).task p).threads
  simp only
  rw [he]
  exact hadded.congr rfl rfl

theorem AllAligned.step {regs : Frame} {e : KernelEvent} (h : AllAligned k) (hfits : SendsFit k e)
    (hs : Step k (regs, e) k') : AllAligned k' := by
  cases e with
  | syscall fuel call =>
    obtain ⟨k1, r, hk, rfl⟩ := hs.syscall
    exact (h.syscall hfits hk).kept (afterSyscall_kept k1 _)
  | clock =>
    obtain rfl := hs.clock
    exact h.kept (clock_kept k regs)
  | switch =>
    obtain rfl := hs.switch
    exact h.kept (doSwitch_kept k regs)
  | irq irq reserved src =>
    have hirq := hs.irq
    simp only [normalIrqHandler] at hirq
    split at hirq
    · obtain rfl := Option.some.inj hirq
      exact h
    · next hset =>
      have hid : AllAligned (k.withMsgid (getMsgid k.msgidCounter).2) := h.congr rfl rfl
      obtain ⟨⟨k1, b⟩, hk, rfl⟩ := Option.map_eq_some_iff.mp hirq
      rcases dummySendMsg_cases hk with ⟨-, he⟩ | ⟨-, p, hp, hroom, hallow, hd⟩
      · rw [he]
        exact hid
      · have hp' : Admits k dummyAllowed 4 (k.irqHandleTasks irq) p := ⟨hp, hroom, hallow⟩
        exact hid.deliver hroom ((hfits hset).1 p hp') ((hfits hset).2 p hp') rfl hd
  | exception =>
    obtain rfl := hs.exception
    have h1 : AllAligned (k.setState k.current .exception) := h.congr rfl rfl
    exact h1.kept (afterSyscall_kept _ _)
  | createTask p t a kmod =>
    obtain rfl := hs.createTask
    split
    · exact (h.createTask p t a).congr rfl rfl
    · exact h.createTask p t a

theorem AllAligned.booted (h : Started k) : AllAligned k := by
  obtain ⟨k0, b, hz, htask, hthread, rfl⟩ := h
  intro p hp
  simp only [boot, createEmptyTask, __createTask, createThreadInfo, addTask, withCurrent,
    setState, __setMailbuffer, kernelTaskParams, currentTask, hz.taskList, List.mem_singleton,
    Function.update_self] at hp ⊢
  rw [hp, Function.update_self]
  exact ⟨0, .start rfl rfl rfl fun _ => by simp⟩

theorem AllAligned.turn {x : Turn} (h : AllAligned k) (hfits : SendsFit (x.kernel k) x.event)
    (hs : TurnStep k x k') : AllAligned k' := by
  have hmoved : AllAligned (x.kernel k) := h.congr rfl rfl
  exact hmoved.step hfits hs

theorem AllAligned.run {es : List Turn}
    (h : Run Started (Guarded (fun k x => SendsFit (x.kernel k) x.event) TurnStep) es k) :
    AllAligned k :=
  h.invariant (I := fun _ k => AllAligned k) (fun _ h0 => .booted h0)
    fun _ _ _ _ hk hstep => hk.turn hstep.1 hstep.2

/-- In every state that is reached without an overflow, with whatever memory and page
tables, a call is sound if and only if what it accepts fits. -/
theorem admission {es : List Turn}
    (h : Run Started (Guarded (fun k x => SendsFit (x.kernel k) x.event) TurnStep) es k)
    (x : Turn) (msgno : MsgnoId) (reserved : UInt8) (src size : Nat) (dst : Int) :
    (Boxed (x.kernel k) k.sendAllowed size dst →
      (Sound (x.kernel k) size dst ((x.kernel k).__sendMsg msgno reserved src size dst) ↔
        Fitting (x.kernel k) k.sendAllowed size dst)) ∧
    (Boxed (x.kernel k) dummyAllowed size dst →
      (Sound (x.kernel k) size dst ((x.kernel k).dummySendMsg msgno reserved src size dst) ↔
        Fitting (x.kernel k) dummyAllowed size dst)) := by
  have hk : AllAligned (x.kernel k) := (AllAligned.run h).congr rfl rfl
  refine ⟨fun hbox => sound_iff hk (fun p hp => ⟨_, _, _, ?_, sendMsg_admitted hp⟩)
    sendMsg_refused hbox, fun hbox => sound_iff hk
      (fun p hp => ⟨_, _, _, ?_, dummySendMsg_admitted hp⟩) dummySendMsg_refused hbox⟩
  · rfl
  · rfl

/-! ### The mailbox of `init` -/

def mailTurn (call : Syscall) : Turn := ⟨fun _ => 0, mailTables, fun _ => 0, .syscall 5 call⟩

/-- `init` takes messages from everyone, into 32 bytes. -/
def mailTurns : List Turn := [mailTurn (.setAllow (-1)), mailTurn (.setMailbuffer 28672 32)]

def initMail : Kernel := (mailTurns.foldlM turn blankBoot).get (by decide +kernel)

theorem initMail_run :
    Run Started (Guarded (fun k x => SendsFit (x.kernel k) x.event) TurnStep) mailTurns initMail := by
  have hfold : mailTurns.foldlM turn blankBoot = some initMail := (Option.some_get _).symm
  rw [mailTurns, List.foldlM_cons] at hfold
  obtain ⟨k1, h1, hfold⟩ := Option.bind_eq_some_iff.mp hfold
  rw [List.foldlM_cons] at hfold
  obtain ⟨k2, h2, hfold⟩ := Option.bind_eq_some_iff.mp hfold
  obtain rfl := Option.some.inj hfold
  exact .snoc (.snoc (.start started_blankBoot) ⟨trivial, h1⟩) ⟨trivial, h2⟩

theorem initMail_target : initMail.getTaskByPid 1 = some 200 := by decide +kernel

theorem initMail_box : Box (((mailTurn .moo).kernel initMail).pa 200)
    (initMail.ipc 200).mail (initMail.ipc 200).mailSize := by
  have hmail : (initMail.ipc 200).mail = 28672 ∧ (initMail.ipc 200).mailSize = 32 := by
    decide +kernel
  have hinj : ∀ i < 32, ∀ j < 32, ((mailTurn .moo).kernel initMail).pa 200 (28672 + i) =
      ((mailTurn .moo).kernel initMail).pa 200 (28672 + j) → i = j := by decide +kernel
  rw [hmail.1, hmail.2]
  exact ⟨by omega, by omega, fun i j hi hj he => hinj i hi j hj he⟩

theorem initMail_boxed (size : Nat) :
    Boxed ((mailTurn .moo).kernel initMail) initMail.sendAllowed size 1 := by
  rintro p ⟨hp, -⟩
  obtain rfl := Option.some.inj (initMail_target.symm.trans hp)
  exact initMail_box

theorem admission_init : Sound ((mailTurn .moo).kernel initMail) 4 1
    (((mailTurn .moo).kernel initMail).__sendMsg ⟨3, 9⟩ 5 24576 4 1) := by
  refine ((admission initMail_run (mailTurn .moo) ⟨3, 9⟩ 5 24576 4 1).1 (initMail_boxed 4)).mpr ?_
  rintro p ⟨hp, -⟩
  obtain rfl := Option.some.inj (initMail_target.symm.trans hp)
  exact ⟨by decide +kernel, by decide⟩

theorem initMail_sound (size : Nat) (h : Sound ((mailTurn .moo).kernel initMail) size 1
    (((mailTurn .moo).kernel initMail).__sendMsg ⟨3, 9⟩ 5 24576 size 1)) :
    Fitting ((mailTurn .moo).kernel initMail) initMail.sendAllowed size 1 :=
  (sound_iff ((AllAligned.run initMail_run).congr rfl rfl)
    (fun _ hp => ⟨_, _, _, rfl, sendMsg_admitted hp⟩) sendMsg_refused (initMail_boxed size)).mp h

/-- A size of eight bytes less than none. -/
theorem admission_wraps : ¬ ∀ (es : List Turn) (k : Kernel), Run Started TurnStep es k →
    ∀ (x : Turn) (msgno : MsgnoId) (reserved : UInt8) (src size : Nat) (dst : Int), size < 2 ^ 64 →
      Sound (x.kernel k) size dst ((x.kernel k).__sendMsg msgno reserved src size dst) := by
  intro hall
  have hsound := hall mailTurns initMail initMail_run.unguarded (mailTurn .moo) ⟨3, 9⟩ 5 24576
    18446744073709551608 1 (by decide)
  have hroom : HasRoom (initMail.ipc 200) 18446744073709551608 := by
    unfold HasRoom
    decide +kernel
  have hallow : (initMail.ipc 200).allowPid = -1 := by decide +kernel
  have hfits := initMail_sound _ hsound 200 ⟨initMail_target, hroom, .inr hallow⟩
  exact absurd hfits.2 (by decide)

end Kernel

end TayHuang
