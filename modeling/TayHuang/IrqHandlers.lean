import TayHuang.InterruptController
import TayHuang.KernelRuns

/-! From the line of a device to its handler in the kernel: the controllers as
`init_pic` sets them up, the gates of `init_idt`, and `general_irq_handler`. Devices
raise their lines at any time; the gates keep the processor from further interrupts
until the handler returns. -/

namespace TayHuang

namespace Irqs

open Function (update)
open Pic Runs

/-! ### The controllers -/

def initPic (p : Pics) : Pics :=
  let p : Pics := ⟨p.master.outControl 0x11, p.slave.outControl 0x11⟩
  let p : Pics := ⟨p.master.outData 0x20, p.slave.outData 0x28⟩
  let p : Pics := ⟨p.master.outData 0x4, p.slave.outData 0x2⟩
  let p : Pics := ⟨p.master.outData 0x1, p.slave.outData 0x1⟩
  ⟨p.master.outData 0xFF, p.slave.outData 0xFF⟩

def disableIrq (irq : Nat) (p : Pics) : Pics :=
  if irq < 8 then { p with master := p.master.outData (p.master.inData ||| 1#8 <<< irq) }
  else { p with slave := p.slave.outData (p.slave.inData ||| 1#8 <<< (irq - 8)) }

def enableIrq (irq : Nat) (p : Pics) : Pics :=
  if irq < 8 then { p with master := p.master.outData (p.master.inData &&& ~~~(1#8 <<< irq)) }
  else { p with slave := p.slave.outData (p.slave.inData &&& ~~~(1#8 <<< (irq - 8))) }

def sendEoi (irq : Nat) (p : Pics) : Pics :=
  let p := if irq > 8 then { p with slave := p.slave.outControl 0x20 } else p
  { p with master := p.master.outControl 0x20 }

/-! ### The interrupt descriptor table -/

/-- `gate_desc`. -/
structure Gate where
  offsetLow : BitVec 16
  segment : BitVec 16
  ist : BitVec 3
  type : BitVec 5
  dpl : BitVec 2
  p : Bool
  offsetMiddle : BitVec 16
  offsetHigh : BitVec 32

abbrev Idt := BitVec 8 → Option Gate

/-- The entry points of `int_handlers.S`, by their numbers. -/
inductive Entry
  | exception (vector : Nat)
  | irq (n : Nat)
  | syscall
  deriving DecidableEq

def gateInterrupt : BitVec 5 := 0xE

/-- `init_idt_desc` has no `ist`. -/
def initIdtDescIst (cs : BitVec 16) (idt : Idt) (vector : BitVec 8) (type : BitVec 5)
    (handler : BitVec 64) (privilege : BitVec 2) (ist : BitVec 3) : Idt :=
  update idt vector (some {
    offsetLow := handler.setWidth 16
    segment := cs
    ist := ist
    type := type
    dpl := privilege
    p := true
    offsetMiddle := (handler >>> 16).setWidth 16
    offsetHigh := (handler >>> 32).setWidth 32 })

def initIdtDesc (cs : BitVec 16) (idt : Idt) (vector : BitVec 8) (type : BitVec 5)
    (handler : BitVec 64) (privilege : BitVec 2) : Idt :=
  initIdtDescIst cs idt vector type handler privilege 0

/-- `CALC_IRQ`. -/
def calcIrq (n : Nat) : BitVec 8 := BitVec.ofNat 8 (0x20 + n)

/-- `__init_descs`, with the addresses of the entry points. -/
def initDescs (cs : BitVec 16) (address : Entry → BitVec 64) (idt : Idt) : Idt :=
  let idt := (List.range 32).foldl
    (fun idt v => initIdtDesc cs idt (.ofNat 8 v) gateInterrupt (address (.exception v)) 0) idt
  let idt := (List.range 16).foldl
    (fun idt n => initIdtDescIst cs idt (calcIrq n) gateInterrupt (address (.irq n)) 0 1) idt
  initIdtDescIst cs idt 0x40 gateInterrupt (address .syscall) 3 1

/-- Where the processor goes on through a gate. -/
def Gate.offset (g : Gate) : BitVec 64 := g.offsetHigh ++ g.offsetMiddle ++ g.offsetLow

/-! ### The handlers -/

inductive Handler
  | clockIntHandler
  | normalIrqHandler
  deriving DecidableEq

/-- What `initialize` registers, of `IRQ_HANDLERS`. -/
def irqHandlers : Nat → Option Handler
  | 0 => some .clockIntHandler
  | n => if n < 16 then some .normalIrqHandler else none

/-- Where `general_irq_handler` is, with its `irq` and `flag`. -/
inductive Point
  | idle
  | disable (irq : Nat) (flag : Bool)
  | eoi (irq : Nat) (flag : Bool)
  | handle (irq : Nat) (flag : Bool)
  | enable (irq : Nat) (flag : Bool)
  deriving DecidableEq

/-- `requests` counts how often the request of a line was new; `taken` and `handled` are
the interrupts that the processor has taken and those whose handler has run, in order. -/
structure System where
  pics : Pics
  idt : Idt
  address : Entry → BitVec 64
  handlers : Nat → Option Handler
  kernel : Kernel
  enteredHandler : Bool
  point : Point
  requests : Nat → Nat
  taken : List Nat
  handled : List Nat

inductive Event
  | raise (n : Nat)
  | interrupt (irq : Nat)
  | disable
  | eoi
  | handle (irq : Nat) (regs : Frame) (reserved : UInt8) (src : Nat)
  | enable
  | other (e : Frame × KernelEvent)

/-- What the handler of a line is to the kernel. -/
def Handler.event (irq : Nat) (reserved : UInt8) (src : Nat) : Handler → KernelEvent
  | .clockIntHandler => .clock
  | .normalIrqHandler => .irq irq reserved src

def Interrupts : KernelEvent → Prop
  | .clock | .irq .. => True
  | _ => False

inductive Step : System → Event → System → Prop
  | raise {s : System} {n : Nat} (hn : n < 16) (h2 : n ≠ 2) :
    Step s (.raise n) { s with
      pics := s.pics.raise n
      requests := if s.pics.requested n then s.requests else update s.requests n (s.requests n + 1) }
  | interrupt {s : System} {n irq : Nat} {g : Gate} (hidle : s.point = .idle)
    (hpending : s.pics.pending = some n) (hgate : s.idt (s.pics.acknowledge n).2 = some g)
    (hirq : irq < 16) (hentry : g.offset = s.address (.irq irq)) :
    Step s (.interrupt irq) { s with
      pics := (s.pics.acknowledge n).1
      enteredHandler := true
      point := .disable irq s.enteredHandler
      taken := s.taken ++ [irq] }
  | disable {s : System} {irq : Nat} {flag : Bool} (hpoint : s.point = .disable irq flag) :
    Step s .disable { s with pics := disableIrq irq s.pics, point := .eoi irq flag }
  | eoi {s : System} {irq : Nat} {flag : Bool} (hpoint : s.point = .eoi irq flag) :
    Step s .eoi { s with pics := sendEoi irq s.pics, point := .handle irq flag }
  | handle {s : System} {irq : Nat} {flag : Bool} {h : Handler} {regs : Frame} {reserved : UInt8}
    {src : Nat} {k : Kernel} (hpoint : s.point = .handle irq flag) (hh : s.handlers irq = some h)
    (hk : Kernel.Step s.kernel (regs, h.event irq reserved src) k) :
    Step s (.handle irq regs reserved src) { s with
      kernel := k
      point := .enable irq flag
      handled := s.handled ++ [irq] }
  | unhandled {s : System} {irq : Nat} {flag : Bool} {regs : Frame} {reserved : UInt8} {src : Nat}
    (hpoint : s.point = .handle irq flag) (hh : s.handlers irq = none) :
    Step s (.handle irq regs reserved src) { s with point := .enable irq flag }
  | enable {s : System} {irq : Nat} {flag : Bool} (hpoint : s.point = .enable irq flag) :
    Step s .enable { s with
      pics := enableIrq irq s.pics
      enteredHandler := if flag then s.enteredHandler else false
      point := .idle }
  | other {s : System} {e : Frame × KernelEvent} {k : Kernel} (hidle : s.point = .idle)
    (he : ¬ Interrupts e.2) (hk : Kernel.Step s.kernel e k) :
    Step s (.other e) { s with kernel := k }

/-- The handlers of the interrupts are at different addresses. -/
def EntriesApart (address : Entry → BitVec 64) : Prop :=
  ∀ m < 16, ∀ n < 16, address (.irq m) = address (.irq n) → m = n

/-- After `initialize`: whatever the controllers and the table held before. -/
structure Started (s : System) : Prop where
  pics : ∃ p, s.pics = (List.range 16).foldl (fun p i => enableIrq i p) (initPic p)
  idt : ∃ cs idt, s.idt = initDescs cs s.address idt
  address : EntriesApart s.address
  handlers : s.handlers = irqHandlers
  kernel : Kernel.Started s.kernel
  entered : s.enteredHandler = false
  point : s.point = .idle
  requests : ∀ n, s.requests n = 0
  taken : s.taken = []
  handled : s.handled = []

/-! ### The table -/

variable {cs : BitVec 16} {address : Entry → BitVec 64} {idt : Idt}

theorem Gate.offset_eq (h : BitVec 64) (s : BitVec 16) (i : BitVec 3) (t : BitVec 5) (d : BitVec 2) :
    (Gate.mk (h.setWidth 16) s i t d true ((h >>> 16).setWidth 16) ((h >>> 32).setWidth 32)).offset =
      h := by
  refine BitVec.eq_of_getLsbD_eq fun i hi => ?_
  simp only [offset, BitVec.getLsbD_append, BitVec.getLsbD_setWidth, BitVec.getLsbD_ushiftRight]
  by_cases h16 : i < 16
  · simp [h16]
  · by_cases h32 : i < 32
    · have hlt : i - 16 < 16 := by omega
      have hadd : 16 + (i - 16) = i := by omega
      simp [h16, hlt, hadd]
    · have h1 : ¬ i - 16 < 16 := by omega
      have h2 : i - 16 - 16 < 32 := by omega
      have hadd : 32 + (i - 16 - 16) = i := by omega
      simp [h16, h1, h2, hadd]

/-- The gates of the interrupts, whatever stood in the table. -/
theorem irqGates (k : Nat) (hk : k ≤ 16) : ∀ n < k, ∃ g,
    (List.range k).foldl (fun idt n => initIdtDescIst cs idt (calcIrq n) gateInterrupt
      (address (.irq n)) 0 1) idt (calcIrq n) = some g ∧ g.offset = address (.irq n) := by
  induction k with
  | zero => nofun
  | succ k ih =>
    intro n hn
    rw [List.range_succ, List.foldl_append]
    by_cases he : n = k
    · subst he
      exact ⟨_, Function.update_self .., Gate.offset_eq ..⟩
    · obtain ⟨g, hg, hoff⟩ := ih (by omega) n (by omega)
      refine ⟨g, ?_, hoff⟩
      have hne : calcIrq n ≠ calcIrq k := by
        intro h
        have := congrArg BitVec.toNat h
        simp only [calcIrq, BitVec.toNat_ofNat] at this
        omega
      exact (Function.update_of_ne hne ..).trans hg

theorem initDescs_irq {n : Nat} (hn : n < 16) : ∃ g, initDescs cs address idt (calcIrq n) = some g ∧
    g.offset = address (.irq n) := by
  obtain ⟨g, hg, hoff⟩ := @irqGates cs address ((List.range 32).foldl
    (fun idt v => initIdtDesc cs idt (.ofNat 8 v) gateInterrupt (address (.exception v)) 0) idt)
      16 (Nat.le_refl 16) n hn
  refine ⟨g, ?_, hoff⟩
  have hne : calcIrq n ≠ 64#8 := by
    intro h
    have := congrArg BitVec.toNat h
    simp only [calcIrq, BitVec.toNat_ofNat] at this
    omega
  exact (Function.update_of_ne hne ..).trans hg

/-! ### The controllers between the steps of a handler -/

namespace Point

/-- Whether the end of interrupt is still to come, and for which line. -/
def inService : Point → Option Nat
  | .disable irq _ | .eoi irq _ => some irq
  | _ => none

def masked : Point → Option Nat
  | .eoi irq _ | .handle irq _ | .enable irq _ => some irq
  | _ => none

/-- The interrupt that the processor has taken and not yet handled. -/
def unhandled : Point → List Nat
  | .disable irq _ | .eoi irq _ | .handle irq _ => [irq]
  | _ => []

def busy : Point → Option (Nat × Bool)
  | .idle => none
  | .disable irq flag | .eoi irq flag | .handle irq flag | .enable irq flag => some (irq, flag)

end Point

/-- A line of the slave holds line 2 of the master. -/
def masterBit : Option Nat → BitVec 8
  | none => 0
  | some irq => line (if irq < 8 then irq else 2)

def slaveBit : Option Nat → BitVec 8
  | some irq => if irq < 8 then 0 else line (irq - 8)
  | none => 0

def masterMask : Option Nat → BitVec 8
  | some irq => if irq < 8 then line irq else 0
  | none => 0

/-- What stays in service in the slave: `send_eoi` passes over line 8. -/
def stale (taken : List Nat) : BitVec 8 := if 8 ∈ taken then line 0 else 0

structure Ok (s : System) : Prop where
  masterWords : s.pics.master.awaited = []
  slaveWords : s.pics.slave.awaited = []
  masterBase : s.pics.master.base = 0x20
  slaveBase : s.pics.slave.base = 0x28
  masterImr : s.pics.master.imr = masterMask s.point.masked
  slaveImr : s.pics.slave.imr = slaveBit s.point.masked
  masterIsr : s.pics.master.isr = masterBit s.point.inService
  slaveIsr : s.pics.slave.isr = slaveBit s.point.inService ||| stale s.taken
  cascade : s.pics.master.irr.getLsbD 2 = false
  entry : ∀ n < 16, ∃ g, s.idt (calcIrq n) = some g ∧ g.offset = s.address (.irq n)
  address : EntriesApart s.address
  handlers : s.handlers = irqHandlers
  line : ∀ irq flag, s.point.busy = some (irq, flag) → irq < 16 ∧ irq ≠ 2 ∧ flag = false ∧
    (8 < irq → 8 ∉ s.taken)
  entered : s.enteredHandler = s.point.busy.isSome
  taken : s.taken = s.handled ++ s.point.unhandled
  requests : ∀ n < 16, n ≠ 2 →
    s.requests n = s.taken.count n + if s.pics.requested n then 1 else 0

variable {s s' : System}

/-! #### The start -/

theorem initPic_eq (p : Pics) :
    initPic p = ⟨⟨0, 0, 0xFF, 0x20, []⟩, ⟨0, 0, 0xFF, 0x28, []⟩⟩ := by
  simp [initPic, Chip.outControl, Chip.outData]

theorem initPic_enabled (p : Pics) : (List.range 16).foldl (fun p i => enableIrq i p) (initPic p) =
    ⟨⟨0, 0, 0, 0x20, []⟩, ⟨0, 0, 0, 0x28, []⟩⟩ := by
  rw [initPic_eq]
  decide

theorem Ok.start (h : Started s) : Ok s := by
  obtain ⟨p, hp⟩ := h.pics
  rw [initPic_enabled] at hp
  refine {
    masterWords := by rw [hp]
    slaveWords := by rw [hp]
    masterBase := by rw [hp]
    slaveBase := by rw [hp]
    masterImr := by rw [hp, h.point]; rfl
    slaveImr := by rw [hp, h.point]; rfl
    masterIsr := by rw [hp, h.point]; rfl
    slaveIsr := by rw [hp, h.point, h.taken]; rfl
    cascade := by rw [hp]; rfl
    entry := ?_
    address := h.address
    handlers := h.handlers
    line := by rw [h.point]; nofun
    entered := by rw [h.entered, h.point]; rfl
    taken := by rw [h.taken, h.handled, h.point]; rfl
    requests := ?_ }
  · obtain ⟨cs, idt, hidt⟩ := h.idt
    intro n hn
    rw [hidt]
    exact initDescs_irq hn
  · intro n hn h2
    rw [h.requests, h.taken, hp, Pics.requested]
    simp

/-! #### The steps -/

theorem Ok.raise {n : Nat} (h : Ok s) (hn : n < 16) (h2 : n ≠ 2) : Ok { s with
    pics := s.pics.raise n
    requests := if s.pics.requested n then s.requests else update s.requests n (s.requests n + 1) } := by
  have hmaster : ∃ irr, (s.pics.raise n).master = { s.pics.master with irr := irr } ∧
      irr.getLsbD 2 = false := by
    unfold Pics.raise
    by_cases hn8 : n < 8
    · rw [if_pos hn8]
      refine ⟨_, rfl, ?_⟩
      rw [BitVec.getLsbD_or, getLsbD_line hn8, h.cascade]
      exact decide_eq_false h2.symm
    · rw [if_neg hn8]
      exact ⟨_, rfl, h.cascade⟩
  have hslave : ∃ irr, (s.pics.raise n).slave = { s.pics.slave with irr := irr } := by
    unfold Pics.raise
    split
    · exact ⟨_, rfl⟩
    · exact ⟨_, rfl⟩
  obtain ⟨irr, hm, hirr⟩ := hmaster
  obtain ⟨irr', hs⟩ := hslave
  refine {
    h with
    masterWords := by rw [hm]; exact h.masterWords
    slaveWords := by rw [hs]; exact h.slaveWords
    masterBase := by rw [hm]; exact h.masterBase
    slaveBase := by rw [hs]; exact h.slaveBase
    masterImr := by rw [hm]; exact h.masterImr
    slaveImr := by rw [hs]; exact h.slaveImr
    masterIsr := by rw [hm]; exact h.masterIsr
    slaveIsr := by rw [hs]; exact h.slaveIsr
    cascade := by rw [hm]; exact hirr
    requests := fun m hm hm2 => ?_ }
  have hcount := h.requests m hm hm2
  rw [Pics.requested_raise hn hm]
  by_cases he : m = n
  · subst he
    by_cases hr : s.pics.requested m = true
    · simp [hr, hcount]
    · simp [hr, hcount]
  · by_cases hr : s.pics.requested n = true
    · simp [hr, hcount, he]
    · simp [hr, hcount, he]

theorem masterVector : ∀ n < 8, 0x20#8 ||| BitVec.ofNat 8 n = calcIrq n := by decide

theorem slaveVector : ∀ n < 8, 0x28#8 ||| BitVec.ofNat 8 n = calcIrq (8 + n) := by decide

/-- What the processor takes is the line that it finds the gate of. -/
theorem Ok.irq_eq {n irq : Nat} {g : Gate} (h : Ok s) (hn : n < 16) (hirq : irq < 16)
    (hgate : s.idt (s.pics.acknowledge n).2 = some g) (hentry : g.offset = s.address (.irq irq)) :
    irq = n := by
  have hvector : (s.pics.acknowledge n).2 = calcIrq n := by
    by_cases hn8 : n < 8
    · rw [Pics.acknowledge, if_pos hn8]
      exact (congrArg (· ||| _) h.masterBase).trans (masterVector n hn8)
    · have hsum : 8 + (n - 8) = n := by omega
      rw [Pics.acknowledge, if_neg hn8, ← hsum, Nat.add_sub_cancel_left]
      exact (congrArg (· ||| _) h.slaveBase).trans (slaveVector _ (by omega))
  obtain ⟨g', hg', hoff⟩ := h.entry n hn
  rw [hvector, hg'] at hgate
  obtain rfl := Option.some.inj hgate
  exact (h.address n hn irq hirq (hoff.symm.trans hentry)).symm

theorem stale_of_not_mem {l : List Nat} (h : 8 ∉ l) : stale l = 0 := if_neg h

theorem stale_snoc (l : List Nat) (n : Nat) :
    stale (l ++ [n]) = if n = 8 then line 0 else stale l := by
  unfold stale
  by_cases hn : n = 8
  · simp [hn]
  · simp [hn, Ne.symm hn]

/-- What the processor takes of an idle machine: lines of the slave only as long as line 8
has not come. -/
theorem Ok.pending {n : Nat} (h : Ok s) (hidle : s.point = .idle) (hp : s.pics.pending = some n) :
    n < 16 ∧ n ≠ 2 ∧ s.pics.requested n = true ∧ (8 ≤ n → 8 ∉ s.taken) := by
  rcases Pics.pending_spec hp with ⟨hn, h2, hset⟩ | ⟨hn, hlt, hset, m, hm⟩
  · refine ⟨by omega, h2, ?_, fun _ => by omega⟩
    rw [Pics.requested, if_pos hn]
    exact hset
  · refine ⟨hlt, by omega, ?_, fun _ hmem => ?_⟩
    · rw [Pics.requested, if_neg (by omega)]
      exact hset
    · have hzero : s.pics.slave.isr.getLsbD 0 = true := by
        rw [h.slaveIsr, hidle, stale, if_pos hmem]
        rfl
      rw [Chip.asserted_of_zero hzero] at hm
      exact Option.some_ne_none m hm.symm

theorem Ok.interrupt {n : Nat} (h : Ok s) (hidle : s.point = .idle)
    (hp : s.pics.pending = some n) : Ok { s with
      pics := (s.pics.acknowledge n).1
      enteredHandler := true
      point := .disable n s.enteredHandler
      taken := s.taken ++ [n] } := by
  obtain ⟨hn, h2, hrequested, hslave⟩ := h.pending hidle hp
  have hentered : s.enteredHandler = false := by
    rw [h.entered, hidle]
    rfl
  have hmasterIsr : s.pics.master.isr = 0 := by
    rw [h.masterIsr, hidle]
    rfl
  have hslaveIsr : s.pics.slave.isr = stale s.taken := by
    rw [h.slaveIsr, hidle]
    exact BitVec.zero_or
  have hisr : (s.pics.acknowledge n).1.slave.isr = slaveBit (some n) ||| stale (s.taken ++ [n]) := by
    rw [Pics.acknowledge_slave, stale_snoc, slaveBit]
    by_cases hn8 : n < 8
    · have hne : n ≠ 8 := by omega
      rw [if_pos hn8, if_pos hn8, if_neg hne, hslaveIsr]
      exact BitVec.zero_or.symm
    · rw [if_neg hn8, if_neg hn8, Chip.take, hslaveIsr, stale_of_not_mem (hslave (by omega))]
      by_cases he : n = 8
      · subst he
        rfl
      · rw [if_neg he]
        exact BitVec.or_comm ..
  refine {
    h with
    masterWords := by rw [Pics.acknowledge_master]; exact h.masterWords
    slaveWords := by rw [Pics.acknowledge_slave]; split <;> exact h.slaveWords
    masterBase := by rw [Pics.acknowledge_master]; exact h.masterBase
    slaveBase := by rw [Pics.acknowledge_slave]; split <;> exact h.slaveBase
    masterImr := by rw [Pics.acknowledge_master]; exact h.masterImr.trans (by rw [hidle]; rfl)
    slaveImr := by
      rw [Pics.acknowledge_slave]
      split <;> exact h.slaveImr.trans (by rw [hidle]; rfl)
    masterIsr := by
      rw [Pics.acknowledge_master, Chip.take, hmasterIsr]
      exact BitVec.zero_or
    slaveIsr := hisr
    cascade := by
      rw [Pics.acknowledge_master, Chip.take, BitVec.getLsbD_and, h.cascade, Bool.false_and]
    line := ?_
    entered := rfl
    taken := ?_
    requests := ?_ }
  · rintro irq flag hbusy
    obtain ⟨rfl, rfl⟩ := Prod.mk.inj (Option.some.inj hbusy)
    refine ⟨hn, h2, hentered, fun hlt hmem => ?_⟩
    rcases List.mem_append.mp hmem with hmem | hmem
    · exact hslave (by omega) hmem
    · have := List.mem_singleton.mp hmem
      omega
  · have htaken := h.taken
    rw [hidle] at htaken
    rw [htaken]
    simp [Point.unhandled]
  · intro m hm hm2
    rw [h.requests m hm hm2, Pics.requested_acknowledge hn hm hm2, List.count_append]
    by_cases he : m = n
    · subst he
      simp [hrequested]
    · simp [he, Ne.symm he]

theorem masterMask_of_lt {irq : Nat} (h : irq < 8) : masterMask (some irq) = line irq := if_pos h

theorem masterMask_of_ge {irq : Nat} (h : ¬ irq < 8) : masterMask (some irq) = 0#8 := if_neg h

theorem slaveBit_of_lt {irq : Nat} (h : irq < 8) : slaveBit (some irq) = 0#8 := if_pos h

theorem slaveBit_of_ge {irq : Nat} (h : ¬ irq < 8) : slaveBit (some irq) = line (irq - 8) := if_neg h

theorem disableIrq_master {p : Pics} (h : p.master.awaited = []) (irq : Nat) :
    (disableIrq irq p).master = ⟨p.master.irr, p.master.isr, p.master.imr ||| masterMask (some irq),
      p.master.base, p.master.awaited⟩ := by
  unfold disableIrq
  by_cases hlt : irq < 8
  · rw [if_pos hlt, Chip.outData_mask h, masterMask_of_lt hlt]
    rfl
  · rw [if_neg hlt, masterMask_of_ge hlt, BitVec.or_zero]

theorem disableIrq_slave {p : Pics} (h : p.slave.awaited = []) (irq : Nat) :
    (disableIrq irq p).slave = ⟨p.slave.irr, p.slave.isr, p.slave.imr ||| slaveBit (some irq),
      p.slave.base, p.slave.awaited⟩ := by
  unfold disableIrq
  by_cases hlt : irq < 8
  · rw [if_pos hlt, slaveBit_of_lt hlt, BitVec.or_zero]
  · rw [if_neg hlt, Chip.outData_mask h, slaveBit_of_ge hlt]
    rfl

theorem enableIrq_master {p : Pics} (h : p.master.awaited = []) (irq : Nat) :
    (enableIrq irq p).master = ⟨p.master.irr, p.master.isr,
      p.master.imr &&& ~~~(masterMask (some irq)), p.master.base, p.master.awaited⟩ := by
  unfold enableIrq
  by_cases hlt : irq < 8
  · rw [if_pos hlt, Chip.outData_mask h, masterMask_of_lt hlt]
    rfl
  · rw [if_neg hlt, masterMask_of_ge hlt, BitVec.not_zero, BitVec.and_allOnes]

theorem enableIrq_slave {p : Pics} (h : p.slave.awaited = []) (irq : Nat) :
    (enableIrq irq p).slave = ⟨p.slave.irr, p.slave.isr,
      p.slave.imr &&& ~~~(slaveBit (some irq)), p.slave.base, p.slave.awaited⟩ := by
  unfold enableIrq
  by_cases hlt : irq < 8
  · rw [if_pos hlt, slaveBit_of_lt hlt, BitVec.not_zero, BitVec.and_allOnes]
  · rw [if_neg hlt, Chip.outData_mask h, slaveBit_of_ge hlt]
    rfl

theorem sendEoi_master (p : Pics) (irq : Nat) : (sendEoi irq p).master = p.master.eoi := by
  unfold sendEoi
  split <;> exact Chip.outControl_eoi

theorem sendEoi_slave (p : Pics) (irq : Nat) :
    (sendEoi irq p).slave = if irq > 8 then p.slave.eoi else p.slave := by
  unfold sendEoi
  split
  · exact Chip.outControl_eoi
  · rfl

/-- A step of the handler that leaves the requests alone. -/
theorem Ok.move {q : Pics} {pt : Point} {e : Bool} (h : Ok s)
    (hm : q.master = ⟨s.pics.master.irr, masterBit pt.inService, masterMask pt.masked,
      s.pics.master.base, s.pics.master.awaited⟩)
    (hs : q.slave = ⟨s.pics.slave.irr, slaveBit pt.inService ||| stale s.taken, slaveBit pt.masked,
      s.pics.slave.base, s.pics.slave.awaited⟩)
    (hbusy : ∀ b, pt.busy = some b → s.point.busy = some b) (he : e = pt.busy.isSome)
    (hun : pt.unhandled = s.point.unhandled) :
    Ok { s with pics := q, enteredHandler := e, point := pt } where
  masterWords := by rw [hm]; exact h.masterWords
  slaveWords := by rw [hs]; exact h.slaveWords
  masterBase := by rw [hm]; exact h.masterBase
  slaveBase := by rw [hs]; exact h.slaveBase
  masterImr := by rw [hm]
  slaveImr := by rw [hs]
  masterIsr := by rw [hm]
  slaveIsr := by rw [hs]
  cascade := by rw [hm]; exact h.cascade
  entry := h.entry
  address := h.address
  handlers := h.handlers
  line := fun i f hb => h.line i f (hbusy _ hb)
  entered := he
  taken := h.taken.trans (by rw [hun])
  requests := fun n hn h2 => by
    have hirr : q.requested n = s.pics.requested n := by rw [Pics.requested, Pics.requested, hm, hs]
    rw [hirr]
    exact h.requests n hn h2

theorem Ok.disable {irq : Nat} {flag : Bool} (h : Ok s) (hpoint : s.point = .disable irq flag) :
    Ok { s with pics := disableIrq irq s.pics, point := .eoi irq flag } := by
  have himr : s.pics.master.imr = 0#8 := by
    rw [h.masterImr, hpoint]
    rfl
  have himr' : s.pics.slave.imr = 0#8 := by
    rw [h.slaveImr, hpoint]
    rfl
  refine h.move ?_ ?_ (by rw [hpoint]; exact fun _ hb => hb) (by rw [h.entered, hpoint]; rfl)
    (by rw [hpoint]; rfl)
  · rw [disableIrq_master h.masterWords, himr, BitVec.zero_or, h.masterIsr, hpoint]
    rfl
  · rw [disableIrq_slave h.slaveWords, himr', BitVec.zero_or, h.slaveIsr, hpoint]
    rfl

theorem Ok.eoi {irq : Nat} {flag : Bool} (h : Ok s) (hpoint : s.point = .eoi irq flag) :
    Ok { s with pics := sendEoi irq s.pics, point := .handle irq flag } := by
  obtain ⟨hirq, -, -, hfirst⟩ := h.line irq flag (by rw [hpoint]; rfl)
  have hbit : (if irq < 8 then irq else 2) < 8 := by
    by_cases hlt : irq < 8
    · rwa [if_pos hlt]
    · rw [if_neg hlt]
      decide
  have hisr : s.pics.master.isr = Pic.line (if irq < 8 then irq else 2) := by
    rw [h.masterIsr, hpoint]
    rfl
  have himr : s.pics.master.imr = masterMask (some irq) := by
    rw [h.masterImr, hpoint]
    rfl
  have hisr' : s.pics.slave.isr = slaveBit (some irq) ||| stale s.taken := by
    rw [h.slaveIsr, hpoint]
    rfl
  have himr' : s.pics.slave.imr = slaveBit (some irq) := by
    rw [h.slaveImr, hpoint]
    rfl
  refine h.move ?_ ?_ (by rw [hpoint]; exact fun _ hb => hb) (by rw [h.entered, hpoint]; rfl)
    (by rw [hpoint]; rfl)
  · rw [sendEoi_master, Chip.eoi_of_line hbit hisr, himr]
    rfl
  · have hzero : slaveBit (Point.handle irq flag).inService = 0#8 := rfl
    have hmask : slaveBit (Point.handle irq flag).masked = slaveBit (some irq) := rfl
    rw [sendEoi_slave, hzero, hmask, BitVec.zero_or]
    by_cases hgt : irq > 8
    · rw [slaveBit_of_ge (by omega), stale_of_not_mem (hfirst hgt)] at hisr'
      rw [if_pos hgt, Chip.eoi_of_line (by omega) (hisr'.trans BitVec.or_zero), himr',
        stale_of_not_mem (hfirst hgt)]
    · have hstale : s.pics.slave.isr = stale s.taken := by
        by_cases hlt : irq < 8
        · rw [hisr', slaveBit_of_lt hlt, BitVec.zero_or]
        · obtain rfl : irq = 8 := by omega
          have hmem : 8 ∈ s.taken := by
            rw [h.taken, hpoint]
            exact List.mem_append_right _ (List.mem_singleton_self 8)
          rw [hisr', stale, if_pos hmem]
          rfl
      rw [if_neg hgt, ← hstale, ← himr']

theorem Ok.handle {irq : Nat} {flag : Bool} (h : Ok s) (hpoint : s.point = .handle irq flag)
    (k : Kernel) :
    Ok { s with kernel := k, point := .enable irq flag, handled := s.handled ++ [irq] } where
  masterWords := h.masterWords
  slaveWords := h.slaveWords
  masterBase := h.masterBase
  slaveBase := h.slaveBase
  masterImr := h.masterImr.trans (by rw [hpoint]; rfl)
  slaveImr := h.slaveImr.trans (by rw [hpoint]; rfl)
  masterIsr := h.masterIsr.trans (by rw [hpoint]; rfl)
  slaveIsr := h.slaveIsr.trans (by rw [hpoint]; rfl)
  cascade := h.cascade
  entry := h.entry
  address := h.address
  handlers := h.handlers
  line := fun i f hb => h.line i f (by rw [hpoint]; exact hb)
  entered := h.entered.trans (by rw [hpoint]; rfl)
  taken := h.taken.trans (by rw [hpoint]; exact (List.append_nil _).symm)
  requests := h.requests

theorem Ok.enable {irq : Nat} {flag : Bool} (h : Ok s) (hpoint : s.point = .enable irq flag) :
    Ok { s with
      pics := enableIrq irq s.pics
      enteredHandler := if flag then s.enteredHandler else false
      point := .idle } := by
  obtain ⟨-, -, rfl, -⟩ := h.line irq flag (by rw [hpoint]; rfl)
  have himr : s.pics.master.imr = masterMask (some irq) := by
    rw [h.masterImr, hpoint]
    rfl
  have himr' : s.pics.slave.imr = slaveBit (some irq) := by
    rw [h.slaveImr, hpoint]
    rfl
  have hclear : ∀ b : BitVec 8, b &&& ~~~b = 0 := fun b => BitVec.and_not_self b
  refine h.move ?_ ?_ nofun rfl (by rw [hpoint]; rfl)
  · rw [enableIrq_master h.masterWords, himr, hclear, h.masterIsr, hpoint]
    rfl
  · rw [enableIrq_slave h.slaveWords, himr', hclear, h.slaveIsr, hpoint]
    rfl

theorem Ok.step {e : Event} (h : Ok s) (hs : Step s e s') : Ok s' := by
  cases hs with
  | raise hn h2 => exact h.raise hn h2
  | interrupt hidle hpending hgate hirq hentry =>
    obtain rfl := h.irq_eq (h.pending hidle hpending).1 hirq hgate hentry
    exact h.interrupt hidle hpending
  | disable hpoint => exact h.disable hpoint
  | eoi hpoint => exact h.eoi hpoint
  | handle hpoint => exact h.handle hpoint _
  | unhandled hpoint hh =>
    obtain ⟨hirq, -⟩ := h.line _ _ (by rw [hpoint]; rfl)
    rw [h.handlers] at hh
    unfold irqHandlers at hh
    split at hh
    · exact absurd hh (Option.some_ne_none _)
    · rw [if_pos hirq] at hh
      exact absurd hh (Option.some_ne_none _)
  | enable hpoint => exact h.enable hpoint
  | other hidle he hk => exact { h with }

theorem Ok.run {es : List Event} (h : Run Started Step es s) : Ok s := by
  induction h with
  | start h => exact .start h
  | snoc _ hs ih => exact ih.step hs

/-! ### Results -/

/-- What an event is to the kernel. -/
def Event.kernel : Event → Option (Frame × KernelEvent)
  | .handle irq regs reserved src => (irqHandlers irq).map fun h => (regs, h.event irq reserved src)
  | .other e => some e
  | _ => none

theorem Ok.kernel {e : Event} (h : Ok s) (hs : Step s e s') :
    (e.kernel = none ∧ s'.kernel = s.kernel) ∨
      ∃ ke, e.kernel = some ke ∧ Kernel.Step s.kernel ke s'.kernel := by
  cases hs with
  | raise | interrupt | disable | eoi | enable => exact .inl ⟨rfl, rfl⟩
  | handle hpoint hh hk =>
    rw [h.handlers] at hh
    exact .inr ⟨_, congrArg (Option.map _) hh, hk⟩
  | unhandled hpoint hh =>
    rw [h.handlers] at hh
    exact .inl ⟨congrArg (Option.map _) hh, rfl⟩
  | other hidle he hk => exact .inr ⟨_, rfl, hk⟩

/-- The interrupts of the kernel's runs are those that the controllers give it. -/
theorem kernel_run {es : List Event} (h : Run Started Step es s) :
    Run Kernel.Started Kernel.Step (es.filterMap Event.kernel) s.kernel := by
  induction h with
  | start h => exact .start h.kernel
  | snoc run hs ih =>
    rw [List.filterMap_append]
    rcases (Ok.run run).kernel hs with ⟨hnone, hk⟩ | ⟨ke, hsome, hk⟩
    · rw [List.filterMap_cons_none hnone, List.filterMap_nil, List.append_nil, hk]
      exact ih
    · rw [List.filterMap_cons_some hsome]
      exact ih.snoc hk

/-- Every request of a line comes to its handler in the kernel, once: it has been handled, or
is being handled, or waits at the controllers; and as long as no interrupt of line 8 has come,
an idle processor is interrupted whenever a request waits. -/
theorem requests_handled {es : List Event} (h : Run Started Step es s) :
    Run Kernel.Started Kernel.Step (es.filterMap Event.kernel) s.kernel ∧
      (∀ n < 16, n ≠ 2 → s.requests n = s.handled.count n + s.point.unhandled.count n +
        if s.pics.requested n then 1 else 0) ∧
      (s.point = .idle → s.enteredHandler = false ∧ s.pics.master.imr = 0 ∧ s.pics.slave.imr = 0 ∧
        (8 ∉ s.handled → ∀ n, s.pics.requested n = true → s.pics.pending.isSome)) := by
  have hok := Ok.run h
  refine ⟨kernel_run h, fun n hn h2 => ?_, fun hidle => ?_⟩
  · rw [hok.requests n hn h2, hok.taken, List.count_append]
  · have hmasterImr : s.pics.master.imr = 0 := by
      rw [hok.masterImr, hidle]
      rfl
    have hslaveImr : s.pics.slave.imr = 0 := by
      rw [hok.slaveImr, hidle]
      rfl
    have hentered : s.enteredHandler = false := by
      rw [hok.entered, hidle]
      rfl
    refine ⟨hentered, hmasterImr, hslaveImr, fun h8 n hr => ?_⟩
    have hmasterIsr : s.pics.master.isr = 0 := by
      rw [hok.masterIsr, hidle]
      rfl
    have hslaveIsr : s.pics.slave.isr = 0 := by
      have htaken : s.taken = s.handled := by
        rw [hok.taken, hidle]
        exact List.append_nil _
      rw [hok.slaveIsr, hidle, htaken, stale_of_not_mem h8]
      rfl
    exact Pics.pending_isSome ⟨hmasterIsr, hmasterImr⟩ ⟨hslaveIsr, hslaveImr⟩ hok.cascade hr

@[simp] theorem requested_disableIrq (p : Pics) (irq n : Nat) :
    (disableIrq irq p).requested n = p.requested n := by
  unfold disableIrq
  split <;> simp only [Pics.requested, Chip.irr_outData]

@[simp] theorem requested_enableIrq (p : Pics) (irq n : Nat) :
    (enableIrq irq p).requested n = p.requested n := by
  unfold enableIrq
  split <;> simp only [Pics.requested, Chip.irr_outData]

@[simp] theorem requested_sendEoi (p : Pics) (irq n : Nat) :
    (sendEoi irq p).requested n = p.requested n := by
  have hslave : (sendEoi irq p).slave.irr = p.slave.irr := by
    rw [sendEoi_slave]
    split
    · exact Chip.irr_eoi
    · rfl
  rw [Pics.requested, Pics.requested, sendEoi_master, hslave, Chip.irr_eoi]

/-- What one step takes after line 8. -/
theorem Ok.silent {e : Event} (h : Ok s) (h8 : 8 ∈ s.taken) (hs : Step s e s') :
    (∃ l, s'.taken = s.taken ++ l ∧ ∀ n ∈ l, n < 8) ∧
      ∀ n < 16, 8 ≤ n → s.pics.requested n = true → s'.pics.requested n = true := by
  cases hs with
  | raise hn h2 =>
    refine ⟨⟨[], (List.append_nil _).symm, nofun⟩, fun n hlt _ hr => ?_⟩
    rw [Pics.requested_raise hn hlt, hr, Bool.true_or]
  | interrupt hidle hpending hgate hirq hentry =>
    obtain ⟨hn, -, -, hslave⟩ := h.pending hidle hpending
    obtain rfl := h.irq_eq hn hirq hgate hentry
    have hlt : _ < 8 := Nat.lt_of_not_le fun hle => hslave hle h8
    refine ⟨⟨[_], rfl, fun m hm => List.mem_singleton.mp hm ▸ hlt⟩, fun n hn16 hge hr => ?_⟩
    rw [Pics.requested_acknowledge hn hn16 (by omega), hr, Bool.true_and, decide_eq_true_eq]
    omega
  | disable => exact ⟨⟨[], (List.append_nil _).symm, nofun⟩, fun n _ _ hr => by simpa using hr⟩
  | eoi => exact ⟨⟨[], (List.append_nil _).symm, nofun⟩, fun n _ _ hr => by simpa using hr⟩
  | enable => exact ⟨⟨[], (List.append_nil _).symm, nofun⟩, fun n _ _ hr => by simpa using hr⟩
  | handle | unhandled | other => exact ⟨⟨[], (List.append_nil _).symm, nofun⟩, fun _ _ _ hr => hr⟩

/-- `send_eoi` ends line 8 at the master only: from the first interrupt of line 8 on, no line
of the slave comes to the processor, and what these lines request waits for ever. -/
theorem slave_silent {es es' : List Event} {s s' : System} (h : Run Started Step es s)
    (h8 : 8 ∈ s.taken) (h' : Run (· = s) Step es' s') :
    (∃ l, s'.taken = s.taken ++ l ∧ ∀ n ∈ l, n < 8) ∧
      ∀ n < 16, 8 ≤ n → s.pics.requested n = true → s'.pics.requested n = true := by
  have hall : Ok s' ∧ (∃ l, s'.taken = s.taken ++ l ∧ ∀ n ∈ l, n < 8) ∧
      ∀ n < 16, 8 ≤ n → s.pics.requested n = true → s'.pics.requested n = true := by
    induction h' with
    | start he =>
      subst he
      exact ⟨.run h, ⟨[], (List.append_nil _).symm, nofun⟩, fun _ _ _ hr => hr⟩
    | snoc _ hs ih =>
      obtain ⟨hok, ⟨l, hl, hlow⟩, hwait⟩ := ih
      have hmem : 8 ∈ _ := hl ▸ List.mem_append_left l h8
      obtain ⟨⟨l', hl', hlow'⟩, hwait'⟩ := hok.silent hmem hs
      refine ⟨hok.step hs, ⟨l ++ l', by rw [hl', hl, List.append_assoc], fun n hn => ?_⟩,
        fun n hn hge hr => hwait' n hn hge (hwait n hn hge hr)⟩
      rcases List.mem_append.mp hn with hn | hn
      · exact hlow n hn
      · exact hlow' n hn
  exact hall.2

/-! ### An example -/

def entryAddress : Entry → BitVec 64
  | .exception v => .ofNat 64 (0x1000 + 16 * v)
  | .irq n => .ofNat 64 (0x2000 + 16 * n)
  | .syscall => 0x3000

/-- `initialize` has run, and every line is quiet. -/
def quietSystem : System where
  pics := ⟨⟨0, 0, 0, 0x20, []⟩, ⟨0, 0, 0, 0x28, []⟩⟩
  idt := initDescs 56 entryAddress fun _ => none
  address := entryAddress
  handlers := irqHandlers
  kernel := Kernel.blankBoot
  enteredHandler := false
  point := .idle
  requests := fun _ => 0
  taken := []
  handled := []

theorem started_quietSystem : Started quietSystem where
  pics := ⟨⟨⟨0, 0, 0, 0, []⟩, ⟨0, 0, 0, 0, []⟩⟩, (initPic_enabled _).symm⟩
  idt := ⟨_, _, rfl⟩
  address := by
    intro m hm n hn he
    have := congrArg BitVec.toNat he
    simp only [quietSystem, entryAddress, BitVec.toNat_ofNat] at this
    omega
  handlers := rfl
  kernel := Kernel.started_blankBoot
  entered := rfl
  point := rfl
  requests := fun _ => rfl
  taken := rfl
  handled := rfl

/-- Line 8, and line 14 with it. -/
theorem rtc_quietSystem : ∃ s, Run Started Step [.raise 8, .raise 14, .interrupt 8] s ∧
    s.taken = [8] ∧ s.handled = [] ∧ s.point = .disable 8 false ∧ s.pics.requested 8 = false ∧
      s.pics.requested 14 = true := by
  obtain ⟨g, hg, hoff⟩ := @initDescs_irq 56 entryAddress (fun _ => none) 8 (by decide)
  have hrun : Run Started Step [.raise 8, .raise 14] _ :=
    ((Run.start started_quietSystem).snoc (.raise (by decide) (by decide))).snoc
      (.raise (by decide) (by decide))
  exact ⟨_, hrun.snoc (.interrupt rfl (show Pics.pending _ = some 8 by decide) hg (by decide) hoff),
    rfl, rfl, rfl, by decide, by decide⟩

theorem slave_silent_rtc : ∃ s s', Run Started Step [.raise 8, .raise 14, .interrupt 8] s ∧
    Run (· = s) Step [.disable, .eoi] s' ∧ s'.taken = [8] ∧ s'.pics.requested 14 = true := by
  obtain ⟨s, hrun, htaken, -, hpoint, -, hr⟩ := rtc_quietSystem
  have h0 : Run (· = s) Step [] s := .start rfl
  have h' := (h0.snoc (.disable hpoint)).snoc (.eoi rfl)
  obtain ⟨-, hwait⟩ := slave_silent hrun (by rw [htaken]; exact List.mem_singleton_self 8) h'
  exact ⟨s, _, hrun, h', htaken, hwait 14 (by decide) (by decide) hr⟩

/-- Line 8 is being handled, line 14 waits. -/
theorem requests_handled_rtc : ∃ s, Run Started Step [.raise 8, .raise 14, .interrupt 8] s ∧
    s.requests 8 = 1 ∧ s.requests 14 = 1 := by
  obtain ⟨s, hrun, -, hhandled, hpoint, hr8, hr14⟩ := rtc_quietSystem
  obtain ⟨-, hcount, -⟩ := requests_handled hrun
  have h8 := hcount 8 (by decide) (by decide)
  have h14 := hcount 14 (by decide) (by decide)
  rw [hhandled, hpoint] at h8 h14
  exact ⟨s, hrun, h8.trans (by rw [hr8]; rfl), h14.trans (by rw [hr14]; rfl)⟩

end Irqs

end TayHuang
