import Mathlib.Tactic.IntervalCases
import TayHuang.AtaChannels
import TayHuang.Polling

/-! What disk.c of the loader and disk.c of the setup module have in common: the registers
of a command, and the loops in front of it. -/

namespace TayHuang

open Function (update)
open Fuel Polling

namespace Ata

/-- `MAKE_DEVICE_REG`. -/
def makeDeviceReg (mode device lba : UInt32) : UInt8 :=
  (mode <<< 6 ||| device <<< 4 ||| (lba &&& 0xF) ||| 0xA0).toUInt8

/-- `(x != 0)`, a `bool` in an expression. -/
def ofBool (b : Bool) : UInt32 := if b then 1 else 0

/-- `wait_for_ide0_free` and `wait_for_ide1_free`. -/
def waitForFree (fuel : Nat) (c : Channel) : Option Channel :=
  poll (fun c => c.status &&& 0x80 == 0) Channel.look fuel c

/-- `wait_ide0_drq` and `wait_ide1_drq`. -/
def waitDrq (fuel : Nat) (c : Channel) : Option Channel :=
  poll (fun c => c.status &&& 0x8 != 0) Channel.look fuel c

/-- `relax_ide0` and `relax_ide1`. -/
def relax (c : Channel) : Channel := c.look.look.look.look.look

/-! ### Waiting -/

variable {c c' : Channel} {b : Block} {blocks left : List Block} {drives : Drives}

/-- The looks that a channel still needs. -/
def looks (c : Channel) : Nat :=
  match c.phase with
  | .busy n _ => n + 1
  | _ => 0

theorem look_of_busy {n : Nat} (h : c.phase = .busy n left) : looks c.look < looks c := by
  cases n with
  | zero => cases left <;> simp [looks, Channel.look, h]
  | succ n => simp [looks, Channel.look, h]

theorem look_of_rest (h : ∀ n left, c.phase ≠ .busy n left) : c.look = c := by
  unfold Channel.look
  split
  · next hp => exact absurd hp (h _ _)
  · next hp => exact absurd hp (h _ _)
  · next hp => exact absurd hp (h _ _)
  · rfl

/-- Whatever a loop waits for, it leaves the blocks and the registers. -/
theorem wait_settles (ready : Channel → Bool) (h : Offers c blocks)
    (hready : ∀ c n left, c.phase = .busy n left → ready c = false)
    (hrest : ∀ c, Offers c blocks → ready c = false → ∃ n left, c.phase = .busy n left) :
    ∃ c', Settles (fun fuel => poll ready Channel.look fuel c) c' ∧ Offers c' blocks ∧
      c'.reg = c.reg ∧ ∀ n left, c'.phase ≠ .busy n left := by
  obtain ⟨c', ⟨hoffers, hreg⟩, hr, hset⟩ := poll_settles ready Channel.look
    (I := fun x => Offers x blocks ∧ x.reg = c.reg) looks ⟨h, rfl⟩ fun x hx hr => by
      obtain ⟨n, left, hp⟩ := hrest x hx.1 hr
      exact ⟨⟨hx.1.look, (look_reg x).trans hx.2⟩, look_of_busy hp⟩
  have hnot : ∀ n left, c'.phase ≠ .busy n left := fun n left hp =>
    Bool.false_ne_true ((hready c' n left hp).symm.trans hr)
  rw [look_of_rest hnot] at hset
  exact ⟨c', hset, hoffers, hreg, hnot⟩

theorem relax_idle (h : c.phase = .idle) : relax c = c := by
  have hlook : c.look = c := look_of_rest fun n left hp => by simp [h] at hp
  simp only [relax, hlook]

theorem waitForFree_idle (h : c.phase = .idle) : Settles (fun fuel => waitForFree fuel c) c := by
  have hlook : c.look = c := look_of_rest fun n left hp => by simp [h] at hp
  have hready : (c.status &&& 0x80 == 0) = true := by
    simp only [Channel.status, h]
    decide
  refine settles_succ rfl ?_
  simp only [waitForFree, poll, hready, if_true, hlook]
  exact settles_const c

theorem waitDrq_settles (h : Offers c (b :: left)) : ∃ c',
    Settles (fun fuel => waitDrq fuel c) c' ∧ c'.reg = c.reg ∧ c'.phase = .data b left := by
  obtain ⟨c', hset, hoffers, hreg, hnot⟩ := wait_settles (fun c => c.status &&& 0x8 != 0) h
    (fun c n left hp => by
      simp only [Channel.status, hp]
      decide)
    fun c hc hr => by
      cases hc with
      | busy n hp => exact ⟨n, _, hp⟩
      | data hp =>
        simp only [Channel.status, hp] at hr
        exact absurd hr (by decide)
  refine ⟨c', hset, hreg, ?_⟩
  cases hoffers with
  | busy n hp => exact absurd hp (hnot _ _)
  | data hp => exact hp

/-- A channel without blocks never has one. -/
theorem waitDrq_diverges (h : c.phase = .idle) : Diverges (fun fuel => waitDrq fuel c) := by
  refine poll_diverges (I := fun c => c.phase = .idle) h fun c h => ⟨?_, ?_⟩
  · simp only [Channel.status, h]
    decide
  · rw [look_of_rest fun n left hp => by simp [h] at hp]
    exact h

/-! ### Commands -/

theorem outb_idle (drives : Drives) (h : c.phase = .idle) {p : Port} (hp : p ≠ .command) (x : UInt8) :
    c.outb drives p x = { c with reg := update c.reg p x } := by
  simp [Channel.outb, h, hp]

theorem outb_command_idle (h : c.phase = .idle) (x : UInt8) :
    c.outb drives .command x = c.fetch (c.answer drives x) := by
  simp [Channel.outb, h]

/-- The channel after `MAKE_DEVICE_REG` and the other registers. -/
def commanded (control device count low mid high : UInt8) : Port → UInt8
  | .features => 0
  | .sectorCounter => count
  | .lbaLow => low
  | .lbaMid => mid
  | .lbaHigh => high
  | .device => device
  | .command => 0
  | .deviceControl => control

/-- The blocks of a command that is written behind these registers. -/
def wanted (drives : Drives) (reg : Port → UInt8) (command : UInt8) : List Block :=
  (Channel.mk reg .idle (fun _ => 0) 0).answer drives command

theorem answer_congr {c' : Channel} {x : UInt8} (h : ∀ p, p ≠ .command → c.reg p = c'.reg p) :
    c.answer drives x = c'.answer drives x := by
  simp [Channel.answer, Channel.count, Channel.slave, Channel.lba, h]

theorem relax_reg (c : Channel) : (relax c).reg = c.reg := by
  simp only [relax, look_reg]

/-- The registers that are written behind the first wait. -/
def select (drives : Drives) (control count low mid high command : UInt8) (c : Channel) : Channel :=
  let c := c.outb drives .deviceControl control
  let c := c.outb drives .features 0
  let c := c.outb drives .sectorCounter count
  let c := c.outb drives .lbaLow low
  let c := c.outb drives .lbaMid mid
  let c := c.outb drives .lbaHigh high
  c.outb drives .command command

theorem outs_idle (ws : List (Port × UInt8)) (hws : ∀ w ∈ ws, w.1 ≠ .command) (h : c.phase = .idle) :
    ws.foldl (fun c w => c.outb drives w.1 w.2) c =
      { c with reg := ws.foldl (fun reg w => update reg w.1 w.2) c.reg } := by
  induction ws generalizing c with
  | nil => rfl
  | cons w ws ih =>
    rw [List.foldl_cons, outb_idle drives h (hws w List.mem_cons_self)]
    exact ih (fun w hw => hws w (List.mem_cons_of_mem _ hw)) h

theorem select_eq (control count low mid high command : UInt8) (c : Channel) :
    select drives control count low mid high command c =
      ([(Port.deviceControl, control), (.features, 0), (.sectorCounter, count), (.lbaLow, low),
        (.lbaMid, mid), (.lbaHigh, high)].foldl (fun c w => c.outb drives w.1 w.2) c).outb drives
          .command command := rfl

theorem select_idle (drives : Drives) (h : c.phase = .idle)
    (control count low mid high command : UInt8) :
    Offers (select drives control count low mid high command c)
      (wanted drives (commanded control (c.reg .device) count low mid high) command) := by
  rw [select_eq, outs_idle _ (by simp) h, outb_command_idle (by exact h)]
  rw [wanted, ← answer_congr (c := { c with
    reg := [(Port.deviceControl, control), (.features, 0), (.sectorCounter, count), (.lbaLow, low),
      (.lbaMid, mid), (.lbaHigh, high)].foldl (fun reg w => update reg w.1 w.2) c.reg }) ?_]
  · exact offers_fetch _ _
  · intro p hp
    cases p with
    | command => exact absurd rfl hp
    | device | features | sectorCounter | lbaLow | lbaMid | lbaHigh | deviceControl => rfl

/-- An idle channel is busy with its command. -/
theorem select_idle_busy (drives : Drives) (h : c.phase = .idle)
    (control count low mid high command : UInt8)
    (hne : wanted drives (commanded control (c.reg .device) count low mid high) command ≠ []) :
    (select drives control count low mid high command c).phase = .busy (c.delay c.waits)
        (wanted drives (commanded control (c.reg .device) count low mid high) command) ∧
      (select drives control count low mid high command c).reg .deviceControl = control := by
  have hoffers := select_idle drives h control count low mid high command
  rw [select_eq, outs_idle _ (by simp) h, outb_command_idle (by exact h)] at hoffers ⊢
  generalize wanted drives (commanded control (c.reg .device) count low mid high) command = w
    at hne hoffers ⊢
  refine ⟨?_, ?_⟩
  · generalize Channel.answer _ _ _ = answer at hoffers ⊢
    obtain rfl := hoffers.unique (offers_fetch _ answer)
    obtain ⟨b, left, rfl⟩ := List.exists_cons_of_ne_nil hne
    rfl
  · rw [fetch_reg]
    rfl

/-! ### Sector numbers -/

/-- Only the low four bits of the number get into the register. -/
theorem makeDeviceReg_eq (slave : Bool) (x : UInt32) : makeDeviceReg 1 (ofBool slave) x =
    (0xE0 ||| (if slave then 0x10 else 0) ||| UInt8.ofNat (x.toNat % 16)) := by
  have hx : x &&& 0xF = UInt32.ofNat (x.toNat % 16) := by
    have h15 : (15 : UInt32).toNat = 2 ^ 4 - 1 := rfl
    refine UInt32.toNat_inj.mp ?_
    rw [UInt32.toNat_and, UInt32.toNat_ofNat', h15, Nat.and_two_pow_sub_one_eq_mod]
    omega
  rw [makeDeviceReg, hx]
  have hlt : x.toNat % 16 < 16 := Nat.mod_lt _ (by omega)
  generalize x.toNat % 16 = n at hlt
  interval_cases n <;> cases slave <;> rfl

theorem makeDeviceReg_fields (slave : Bool) (x : UInt32) :
    (makeDeviceReg 1 (ofBool slave) x &&& 0x10 != 0) = slave ∧
      makeDeviceReg 1 (ofBool slave) x &&& 0x40 ≠ 0 ∧
        (makeDeviceReg 1 (ofBool slave) x).toNat % 16 = x.toNat % 16 := by
  rw [makeDeviceReg_eq]
  have hlt : x.toNat % 16 < 16 := Nat.mod_lt _ (by omega)
  generalize x.toNat % 16 = n at hlt
  interval_cases n <;> cases slave <;> decide

theorem toNat_lbaByte (lba : UInt32) (k : UInt32) (hk : k.toNat < 32) :
    ((lba >>> k) &&& 0xFF).toUInt8.toNat = lba.toNat / 2 ^ k.toNat % 256 := by
  have h255 : (255 : UInt32).toNat = 2 ^ 8 - 1 := rfl
  rw [UInt32.toNat_toUInt8, UInt32.toNat_and, UInt32.toNat_shiftRight, h255,
    Nat.and_two_pow_sub_one_eq_mod, Nat.shiftRight_eq_div_pow, Nat.mod_eq_of_lt hk]
  omega

/-- The drive that a command goes to, and the number of its first sector. -/
theorem commanded_read (control : UInt8) (lba : UInt32) (count : UInt8) (slave : Bool) (c : Channel)
    (hc : c.reg = commanded control (makeDeviceReg 1 (ofBool slave) (lba >>> 24)) count
      (lba &&& 0xFF).toUInt8 ((lba >>> 8) &&& 0xFF).toUInt8 ((lba >>> 16) &&& 0xFF).toUInt8) :
    c.slave = slave ∧ c.lba = Fat32.address lba.toNat ∧ c.reg .device &&& 0x40 ≠ 0 := by
  obtain ⟨hslave, hmode, hhigh⟩ := makeDeviceReg_fields slave (lba >>> 24)
  have hlow := toNat_lbaByte lba 0 (by decide)
  have hmid := toNat_lbaByte lba 8 (by decide)
  have htop := toNat_lbaByte lba 16 (by decide)
  have h24 : (lba >>> 24).toNat = lba.toNat / 2 ^ 24 := by
    rw [UInt32.toNat_shiftRight, Nat.shiftRight_eq_div_pow]
    rfl
  have hzero : lba >>> 0 = lba := by
    refine UInt32.toNat_inj.mp ?_
    rw [UInt32.toNat_shiftRight, Nat.shiftRight_eq_div_pow]
    exact Nat.div_one _
  rw [hzero] at hlow
  rw [Channel.slave, Channel.lba, hc]
  refine ⟨hslave, ?_, hmode⟩
  have h0 : (0 : UInt32).toNat = 0 := rfl
  have h8 : (8 : UInt32).toNat = 8 := rfl
  have h16 : (16 : UInt32).toNat = 16 := rfl
  simp only [commanded, hhigh, hlow, hmid, htop, h24, h0, h8, h16, Fat32.address]
  omega

/-- What becomes of a register that is written too early, on either channel. -/
abbrev Disturbed := Bool → Channel → Port → UInt8 → Channel

/-- What the drives of a channel have, of all disks. -/
def drivesOf (disks : Fat32.Disks) (identity : Fat32.Device → Block) (disturbed : Disturbed)
    (ide : Bool) : Drives :=
  ⟨fun slave n => blockOf (disks (ide, slave) n), fun slave => identity (ide, slave), disturbed ide⟩

variable {disks : Fat32.Disks} {identity : Fat32.Device → Block}

theorem wanted_identify (control : UInt8) (slave : Bool) : wanted drives
    (commanded control (makeDeviceReg 0 (ofBool slave) 0) 1 0 0 0) 0xEC = [drives.identity slave] := by
  have hslave : (Channel.mk (commanded control (makeDeviceReg 0 (ofBool slave) 0) 1 0 0 0) .idle
      (fun _ => 0) 0).slave = slave := by
    have hreg : (makeDeviceReg 0 (ofBool slave) 0 &&& 0x10 != 0) = slave := by
      cases slave <;> decide
    exact hreg
  rw [wanted, Channel.answer, if_neg fun h => absurd h.1 (by decide),
    if_pos rfl, hslave]

theorem wanted_read (disks : Fat32.Disks) (identity : Fat32.Device → Block) (disturbed : Disturbed)
    (control : UInt8) (ide : Bool) (lba : UInt32) (num : Int) (slave : Bool) :
    wanted (drivesOf disks identity disturbed ide)
      (commanded control (makeDeviceReg 1 (ofBool slave) (lba >>> 24)) (.ofNat (num % 256).toNat)
        (lba &&& 0xFF).toUInt8 ((lba >>> 8) &&& 0xFF).toUInt8 ((lba >>> 16) &&& 0xFF).toUInt8) 0x20 =
    (List.range (if (num % 256).toNat = 0 then 256 else (num % 256).toNat)).map fun i =>
      blockOf (disks (ide, slave) (Fat32.address (Fat32.address lba.toNat + i))) := by
  obtain ⟨hslave, hlba, hmode⟩ := commanded_read control lba (.ofNat (num % 256).toNat) slave
    ⟨commanded control (makeDeviceReg 1 (ofBool slave) (lba >>> 24)) (.ofNat (num % 256).toNat)
      (lba &&& 0xFF).toUInt8 ((lba >>> 8) &&& 0xFF).toUInt8 ((lba >>> 16) &&& 0xFF).toUInt8,
      .idle, fun _ => 0, 0⟩ rfl
  have hlt : (num % 256).toNat < 256 := by omega
  have hnat : (UInt8.ofNat (num % 256).toNat).toNat = (num % 256).toNat := by
    rw [UInt8.toNat_ofNat']
    omega
  have hzero : UInt8.ofNat (num % 256).toNat = 0 ↔ (num % 256).toNat = 0 := by
    rw [← UInt8.toNat_inj, hnat]
    rfl
  rw [wanted, Channel.answer, if_pos ⟨rfl, hmode⟩, hslave, hlba, Channel.count]
  simp only [commanded, hnat, hzero]
  rfl

end Ata

end TayHuang
