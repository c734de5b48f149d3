import TayHuang.AtaCommands
import TayHuang.Runs

/-! The disk driver of the loader, disk.c of grub_loader, which looks at the status until a
channel is ready. -/

namespace TayHuang

open Function (update)
open Fuel Runs Polling

namespace LoaderDisk

open Ata

/-- `*(((word *)dst) + i) = w`. -/
def storeWord (mem : Bytes) (dst i : Nat) (w : UInt16) : Bytes :=
  placeBytes mem (dst + 2 * i) (wordBytes w)

/-- The loop over the words of sector `i`, with `n` of 256 left. -/
def readWords (dst i : Nat) : Nat → Channel × Bytes → Channel × Bytes
  | 0, s => s
  | n + 1, s =>
    let r := s.1.inData
    readWords dst i n (r.2, storeWord s.2 dst (i * 256 + (256 - (n + 1))) r.1)

/-- The loop over the sectors, from `i` on with `n` left. -/
def readBlocks (fuel dst : Nat) : Nat → Nat → Channel × Bytes → Option (Channel × Bytes)
  | 0, _, s => some s
  | n + 1, i, s =>
    (waitDrq fuel s.1).bind fun c => readBlocks fuel dst n (i + 1) (readWords dst i 256 (c, s.2))

/-- The registers of a command, and `n` sectors of 256 words. -/
def transfer (drives : Drives) (fuel : Nat) (device count low mid high command : UInt8) (n dst : Nat)
    (s : Channel × Bytes) : Option (Channel × Bytes) :=
  let c := relax (s.1.outb drives .device device)
  (waitForFree fuel c).bind fun c =>
    readBlocks fuel dst n 0 (select drives 2 count low mid high command c, s.2)

/-- `identify_ide0_disk` and `identify_ide1_disk`. -/
def identifyIdeDisk (drives : Drives) (fuel : Nat) (slave : Bool) (dst : Nat) (s : Channel × Bytes) :
    Option (Channel × Bytes) :=
  transfer drives fuel (makeDeviceReg 0 (ofBool slave) 0) 1 0 0 0 0xEC 1 dst s

/-- `read_ide0_sector` and `read_ide1_sector`; `num` is an `int`. -/
def readIdeSector (drives : Drives) (fuel : Nat) (lba : UInt32) (num : Int) (slave : Bool) (dst : Nat)
    (s : Channel × Bytes) : Option (Channel × Bytes) :=
  transfer drives fuel (makeDeviceReg 1 (ofBool slave) (lba >>> 24)) (.ofNat (num % 256).toNat)
    (lba &&& 0xFF).toUInt8 ((lba >>> 8) &&& 0xFF).toUInt8 ((lba >>> 16) &&& 0xFF).toUInt8 0x20
    num.toNat dst s

/-! ### Taking blocks -/

variable {c c' : Channel} {b : Block} {blocks left : List Block} {drives : Drives} {mem : Bytes}

theorem readWords_block (mem : Bytes) (dst i : Nat) (ws : List UInt16) (hne : ws ≠ [])
    (hlen : ws.length ≤ 256) (h : c.phase = .data ws left) : ∃ c', Offers c' left ∧ c'.reg = c.reg ∧
      readWords dst i ws.length (c, mem) =
        (c', placeBytes mem (dst + 2 * (i * 256 + (256 - ws.length))) (blockBytes ws)) := by
  induction ws generalizing c mem with
  | nil => exact absurd rfl hne
  | cons w ws ih =>
    rw [List.length_cons] at hlen
    cases ws with
    | nil =>
      have hdata : c.inData = (w, c.fetch left) := by simp [Channel.inData, h]
      refine ⟨c.fetch left, offers_fetch c left, fetch_reg c left, ?_⟩
      simp only [List.length_cons, List.length_nil, readWords, hdata, storeWord]
      rfl
    | cons w' ws =>
      have hdata : c.inData = (w, { c with phase := .data (w' :: ws) left }) := by
        simp [Channel.inData, h]
      rw [List.length_cons] at hlen
      obtain ⟨c', hoffers, hreg, hrun⟩ := ih (c := { c with phase := .data (w' :: ws) left })
        (storeWord mem dst (i * 256 + (256 - (w :: w' :: ws).length)) w) nofun
        (by rw [List.length_cons]; omega) rfl
      refine ⟨c', hoffers, hreg, ?_⟩
      have hnext : dst + 2 * (i * 256 + (256 - (w' :: ws).length)) =
          dst + 2 * (i * 256 + (256 - (w :: w' :: ws).length)) + (wordBytes w).length := by
        have hword : (wordBytes w).length = 2 := rfl
        rw [hword, List.length_cons, List.length_cons, List.length_cons]
        omega
      have hstep : readWords dst i (w :: w' :: ws).length (c, mem) =
          readWords dst i (w' :: ws).length ({ c with phase := .data (w' :: ws) left },
            storeWord mem dst (i * 256 + (256 - (w :: w' :: ws).length)) w) := by
        rw [List.length_cons, readWords, hdata]
      rw [hstep, hrun, hnext, storeWord, ← placeBytes_append]
      rfl

/-- Sector after sector, as long as the channel has blocks. -/
theorem readBlocks_settles (mem : Bytes) (dst : Nat) {n : Nat} (hn : n ≤ blocks.length)
    (hlen : ∀ b ∈ blocks, b.length = 256) (h : Offers c blocks) (i : Nat) : ∃ c',
    Settles (fun fuel => readBlocks fuel dst n i (c, mem))
        (c', placeBytes mem (dst + 512 * i) ((blocks.take n).flatMap blockBytes)) ∧
      Offers c' (blocks.drop n) := by
  induction n generalizing c mem blocks i with
  | zero => exact ⟨c, settles_const _, h⟩
  | succ n ih =>
    cases blocks with
    | nil => simp at hn
    | cons b left =>
      have hb : b.length = 256 := hlen b List.mem_cons_self
      obtain ⟨c1, hwait, -, hdata⟩ := waitDrq_settles h
      obtain ⟨c2, hoffers, -, hwords⟩ := readWords_block mem dst i b
        (by rintro rfl; simp at hb) (by omega) hdata
      obtain ⟨c', hset, hdone⟩ := ih (c := c2) (placeBytes mem (dst + 512 * i) (blockBytes b))
        (by rw [List.length_cons] at hn; omega) (fun b hb => hlen b (List.mem_cons_of_mem _ hb))
        hoffers (i + 1)
      refine ⟨c', ?_, hdone⟩
      have hat : dst + 512 * (i + 1) = dst + 512 * i + (blockBytes b).length := by
        rw [length_blockBytes, hb]
        omega
      have hfirst : dst + 2 * (i * 256 + (256 - 256)) = dst + 512 * i := by omega
      rw [hb, hfirst] at hwords
      rw [List.take_succ_cons, List.flatMap_cons, placeBytes_append, ← hat]
      refine hwait.bind (g := fun fuel c => readBlocks fuel dst n (i + 1)
        (readWords dst i 256 (c, mem))) ?_
      simp only [hwords]
      exact hset

/-- It waits for more blocks than there are. -/
theorem readBlocks_diverges (dst : Nat) {n : Nat} (hn : blocks.length < n)
    (hlen : ∀ b ∈ blocks, b.length = 256) (h : Offers c blocks) (i : Nat) :
    Diverges (fun fuel => readBlocks fuel dst n i (c, mem)) := by
  induction n generalizing c mem blocks i with
  | zero => simp at hn
  | succ n ih =>
    cases blocks with
    | nil =>
      cases h with
      | idle hp => exact (waitDrq_diverges hp).bind _
    | cons b left =>
      have hb : b.length = 256 := hlen b List.mem_cons_self
      obtain ⟨c1, hwait, -, hdata⟩ := waitDrq_settles h
      obtain ⟨c2, hoffers, -, hwords⟩ := readWords_block mem dst i b
        (by rintro rfl; simp at hb) (by omega) hdata
      refine settles_bind_diverges hwait (g := fun fuel c => readBlocks fuel dst n (i + 1)
        (readWords dst i 256 (c, mem))) ?_
      rw [hb] at hwords
      simp only [hwords]
      exact ih (by rw [List.length_cons] at hn; omega)
        (fun b hb => hlen b (List.mem_cons_of_mem _ hb)) hoffers (i + 1)

/-! ### Commands -/

/-- The part of a transfer up to the loop over the sectors. -/
theorem transfer_start (drives : Drives) (h : c.phase = .idle) (device count low mid high command : UInt8)
    (n dst : Nat) : ∃ c1, Offers c1
        (wanted drives (commanded 2 device count low mid high) command) ∧
      ∀ mem, (∀ r, Settles (fun fuel => readBlocks fuel dst n 0 (c1, mem)) r → Settles (fun fuel =>
          transfer drives fuel device count low mid high command n dst (c, mem)) r) ∧
        (Diverges (fun fuel => readBlocks fuel dst n 0 (c1, mem)) → Diverges (fun fuel =>
          transfer drives fuel device count low mid high command n dst (c, mem))) := by
  have hfirst : (c.outb drives .device device).phase = .idle := by
    rw [outb_idle drives h (by decide)]
    exact h
  have hrelax : (relax (c.outb drives .device device)).phase = .idle := by
    rw [relax_idle hfirst]
    exact hfirst
  refine ⟨select drives 2 count low mid high command (relax (c.outb drives .device device)), ?_,
    fun mem => ⟨fun r hr => (waitForFree_idle hrelax).bind hr,
      fun hd => settles_bind_diverges (waitForFree_idle hrelax) hd⟩⟩
  have hdevice : (relax (c.outb drives .device device)).reg .device = device := by
    rw [relax_reg, outb_idle drives h (by decide)]
    simp
  have hselect := select_idle drives hrelax 2 count low mid high command
  rwa [hdevice] at hselect

/-! ### The two channels -/

structure Pc where
  ide : Bool → Channel
  mem : Bytes

/-- The calls of the driver; `num` is an `int`. -/
inductive Call
  | identify (selector : UInt32) (dst : Nat)
  | read (lba : UInt32) (num : Int) (selector : UInt32) (dst : Nat)

section Drivers

variable (disks : Fat32.Disks) (identity : Fat32.Device → Block) (disturbed : Disturbed)

def identifyDisk (fuel : Nat) (selector : UInt32) (dst : Nat) (s : Pc) : Option Pc :=
  let d := Fat32.deviceOf selector
  (identifyIdeDisk (drivesOf disks identity disturbed d.1) fuel d.2 dst (s.ide d.1, s.mem)).map fun r =>
    ⟨update s.ide d.1 r.1, r.2⟩

def readSector (fuel : Nat) (lba : UInt32) (num : Int) (selector : UInt32) (dst : Nat) (s : Pc) :
    Option Pc :=
  let d := Fat32.deviceOf selector
  (readIdeSector (drivesOf disks identity disturbed d.1) fuel lba num d.2 dst (s.ide d.1, s.mem)).map fun r =>
    ⟨update s.ide d.1 r.1, r.2⟩

def call (fuel : Nat) (s : Pc) : Call → Option Pc
  | .identify selector dst => identifyDisk disks identity disturbed fuel selector dst s
  | .read lba num selector dst => readSector disks identity disturbed fuel lba num selector dst s

/-- The blocks that the drive sends for a call. -/
def Call.answer : Call → List Block
  | .identify selector _ => [identity (Fat32.deviceOf selector)]
  | .read lba num selector _ =>
    (Fat32.Loader.readSector lba (if (num % 256).toNat = 0 then 256 else (num % 256).toNat)
      selector).map fun r => blockOf (disks r.device r.sector)

end Drivers

/-- The blocks that the driver takes. -/
def Call.number : Call → Nat
  | .identify .. => 1
  | .read _ num _ _ => num.toNat

def Call.device : Call → Fat32.Device
  | .identify selector _ => Fat32.deviceOf selector
  | .read _ _ selector _ => Fat32.deviceOf selector

def Call.dst : Call → Nat
  | .identify _ dst => dst
  | .read _ _ _ dst => dst

variable {disks : Fat32.Disks} {identity : Fat32.Device → Block} {disturbed : Disturbed} {s s' : Pc}

theorem length_readBlocks (lba : UInt32) (n : Nat) (selector : UInt32) :
    (Fat32.Loader.readSector lba n selector).length = n := by
  rw [Fat32.Loader.readSector, List.length_map, List.length_range]

theorem length_answer (disks : Fat32.Disks) (hidentity : ∀ d, (identity d).length = 256) (c : Call) :
    ∀ b ∈ c.answer disks identity, List.length b = 256 := by
  intro b hb
  cases c with
  | identify selector dst =>
    rw [Call.answer, List.mem_singleton] at hb
    rw [hb, hidentity]
  | read lba num selector dst =>
    obtain ⟨r, -, rfl⟩ := List.mem_map.mp hb
    rw [blockOf, List.length_map, List.length_range]

theorem transfer_found (mem : Bytes) (h : c.phase = .idle) {device count low mid high command : UInt8}
    {found : List Block} (n dst : Nat)
    (hfound : wanted drives (commanded 2 device count low mid high) command = found)
    (hlen : ∀ b ∈ found, List.length b = 256) :
    (n ≤ found.length → ∃ c', Settles
        (fun fuel => transfer drives fuel device count low mid high command n dst (c, mem))
        (c', placeBytes mem dst ((found.take n).flatMap blockBytes)) ∧ Offers c' (found.drop n)) ∧
      (found.length < n → Diverges fun fuel =>
        transfer drives fuel device count low mid high command n dst (c, mem)) := by
  obtain ⟨c1, hoffers, hthen⟩ := transfer_start drives h device count low mid high
    command n dst
  rw [hfound] at hoffers
  refine ⟨fun hn => ?_, fun hn => (hthen mem).2 (readBlocks_diverges dst hn hlen hoffers 0)⟩
  obtain ⟨c', hset, hdone⟩ := readBlocks_settles mem dst hn hlen hoffers 0
  exact ⟨c', (hthen mem).1 _ hset, hdone⟩

/-- On an idle channel a call takes blocks that the drive sends for it, and waits forever for
those that it does not send. -/
theorem call_found (disks : Fat32.Disks) (disturbed : Disturbed)
    (hidentity : ∀ d, (identity d).length = 256) (c : Call) (h : (s.ide c.device.1).phase = .idle) :
    (c.number ≤ (c.answer disks identity).length → ∃ ch, Settles
        (fun fuel => call disks identity disturbed fuel s c)
        ⟨update s.ide c.device.1 ch, placeBytes s.mem c.dst
          (((c.answer disks identity).take c.number).flatMap blockBytes)⟩ ∧
        Offers ch ((c.answer disks identity).drop c.number)) ∧
      ((c.answer disks identity).length < c.number →
        Diverges fun fuel => call disks identity disturbed fuel s c) := by
  have hall := length_answer disks hidentity c
  have hmap : ∀ {f : Nat → Option (Channel × Bytes)} {ide : Bool}, Diverges f →
      Diverges fun n => (f n).map fun r => Pc.mk (update s.ide ide r.1) r.2 := by
    intro f ide hd n
    simp only [hd n, Option.map_none]
  cases c with
  | identify selector dst =>
    have hfound : wanted (drivesOf disks identity disturbed (Fat32.deviceOf selector).1)
        (commanded 2 (makeDeviceReg 0 (ofBool (Fat32.deviceOf selector).2) 0) 1 0 0 0) 0xEC =
          (Call.identify selector dst).answer disks identity := wanted_identify ..
    obtain ⟨h1, h2⟩ := transfer_found s.mem h 1 dst hfound hall
    refine ⟨fun hn => ?_, fun hn => hmap (h2 hn)⟩
    obtain ⟨ch, hset, hdone⟩ := h1 hn
    exact ⟨ch, hset.map _, hdone⟩
  | read lba num selector dst =>
    have hfound : wanted (drivesOf disks identity disturbed (Fat32.deviceOf selector).1)
        (commanded 2 (makeDeviceReg 1 (ofBool (Fat32.deviceOf selector).2) (lba >>> 24))
          (.ofNat (num % 256).toNat) (lba &&& 0xFF).toUInt8 ((lba >>> 8) &&& 0xFF).toUInt8
          ((lba >>> 16) &&& 0xFF).toUInt8) 0x20 =
          (Call.read lba num selector dst).answer disks identity := by
      rw [wanted_read, Call.answer, Fat32.Loader.readSector, List.map_map]
      rfl
    obtain ⟨h1, h2⟩ := transfer_found s.mem h num.toNat dst hfound hall
    refine ⟨fun hn => ?_, fun hn => hmap (h2 hn)⟩
    obtain ⟨ch, hset, hdone⟩ := h1 hn
    exact ⟨ch, hset.map _, hdone⟩

/-! ### One call after the other -/

/-- The calls that ask for as many sectors as the drive sends. -/
def Call.Fair : Call → Prop
  | .identify .. => True
  | .read _ num _ _ => 1 ≤ num ∧ num ≤ 256

/-- The bytes that a call is for. -/
def Call.result (disks : Fat32.Disks) (identity : Fat32.Device → Block) : Call → List UInt8
  | .identify selector _ => blockBytes (identity (Fat32.deviceOf selector))
  | .read lba num selector _ => Fat32.content disks (Fat32.Loader.readSector lba num.toNat selector)

theorem bytes_readSector (lba : UInt32) (n : Nat) (selector : UInt32) :
    ((Fat32.Loader.readSector lba n selector).map fun r =>
      blockOf (disks r.device r.sector)).flatMap blockBytes =
        Fat32.content disks (Fat32.Loader.readSector lba n selector) := by
  have hblock : ∀ r : Fat32.Read, blockBytes (blockOf (disks r.device r.sector)) =
      Fat32.sectorBytes disks r := fun r => blockBytes_blockOf (disks r.device r.sector) 256
  rw [Fat32.content, List.flatMap_map]
  simp only [hblock]

theorem Call.Fair.answer (disks : Fat32.Disks) (identity : Fat32.Device → Block) {c : Call}
    (h : c.Fair) :
    (c.answer disks identity).length = c.number ∧
      (c.answer disks identity).flatMap blockBytes = c.result disks identity := by
  cases c with
  | identify selector dst => exact ⟨rfl, List.append_nil _⟩
  | read lba num selector dst =>
    obtain ⟨h1, h2⟩ := h
    have hsent : (if (num % 256).toNat = 0 then 256 else (num % 256).toNat) = num.toNat := by
      split <;> omega
    simp only [Call.answer, Call.number, Call.result, hsent, bytes_readSector, List.length_map,
      length_readBlocks, and_self]

/-- Both channels are idle. -/
def Idle (s : Pc) : Prop := ∀ ide, (s.ide ide).phase = .idle

def CallStep (disks : Fat32.Disks) (identity : Fat32.Device → Block) (disturbed : Disturbed)
    (s : Pc) (c : Call) (s' : Pc) : Prop :=
  Settles (fun fuel => call disks identity disturbed fuel s c) s'

theorem Idle.call (disks : Fat32.Disks) (disturbed : Disturbed)
    (hidentity : ∀ d, (identity d).length = 256) (h : Idle s) {c : Call} (hc : c.Fair) :
    ∃ s', CallStep disks identity disturbed s c s' ∧ Idle s' ∧
      s'.mem = placeBytes s.mem c.dst (c.result disks identity) := by
  obtain ⟨hlen, hbytes⟩ := hc.answer disks identity
  obtain ⟨ch, hset, hoffers⟩ := (call_found disks disturbed hidentity c (h c.device.1)).1
    (Nat.le_of_eq hlen.symm)
  rw [← hlen, List.take_length, hbytes] at hset
  rw [← hlen, List.drop_length] at hoffers
  refine ⟨_, hset, fun ide => ?_, rfl⟩
  change (update s.ide c.device.1 ch ide).phase = .idle
  by_cases hide : ide = c.device.1
  · rw [hide, Function.update_self]
    cases hoffers with
    | idle hp => exact hp
  · rw [Function.update_of_ne hide]
    exact h ide

theorem Idle.run (hidentity : ∀ d, (identity d).length = 256) {cs : List Call}
    (h : Run Idle (Guarded (fun _ c => Call.Fair c) (CallStep disks identity disturbed)) cs s) : Idle s := by
  refine h.invariant (I := fun _ s => Idle s) (fun _ h => h) ?_
  rintro cs s c s' hidle ⟨hc, hs⟩
  obtain ⟨s1, hs1, hidle1, -⟩ := hidle.call disks disturbed hidentity hc
  rwa [← hs.eq hs1] at hidle1

/-- The first block takes one look, the second two, and so on. -/
def quietChannel : Channel := ⟨fun _ => 0, .idle, fun n => n + 1, 0⟩

def quietPc : Pc := ⟨fun _ => quietChannel, fun _ => 0⟩

/-- Every byte of a sector is the number of the sector. -/
def numbered : Fat32.Disks := fun _ sector _ => .ofNat sector

def plainIdentity : Fat32.Device → Block := fun _ => List.replicate 256 7

/-- A register that is written too early is written. -/
def plainDisturbed : Disturbed := fun _ c p x => { c with reg := update c.reg p x }

/-- The first call after the start reads one sector. -/
theorem quiet_read : ∃ s, CallStep numbered plainIdentity plainDisturbed quietPc (.read 9 1 0 100) s ∧
    s.mem = placeBytes quietPc.mem 100 (Fat32.content numbered (Fat32.Loader.readSector 9 1 0)) ∧
      Run Idle (Guarded (fun _ c => Call.Fair c) (CallStep numbered plainIdentity plainDisturbed))
        [.read 9 1 0 100] s := by
  have hidle : Idle quietPc := fun _ => rfl
  have hfair : (Call.read 9 1 0 100).Fair := ⟨by decide, by decide⟩
  have hidentity : ∀ d, (plainIdentity d).length = 256 := fun _ => List.length_replicate
  obtain ⟨s, hs, -, hmem⟩ := hidle.call numbered plainDisturbed hidentity hfair
  exact ⟨s, hs, hmem, .snoc (.start hidle) ⟨hfair, hs⟩⟩

/-- However long the drives take, and in whichever order they are asked: each call returns
with the sectors that it is for. -/
theorem calls_answered (hidentity : ∀ d, (identity d).length = 256) {cs : List Call} {c : Call}
    (h : Run Idle (Guarded (fun _ c => Call.Fair c) (CallStep disks identity disturbed)) cs s)
    (hc : c.Fair) : ∃ s', CallStep disks identity disturbed s c s' ∧
      s'.mem = placeBytes s.mem c.dst (c.result disks identity) := by
  obtain ⟨s', hs, -, hmem⟩ := (Idle.run hidentity h).call disks disturbed hidentity hc
  exact ⟨s', hs, hmem⟩

theorem calls_answered_quiet : ∃ s s',
    CallStep numbered plainIdentity plainDisturbed quietPc (.read 9 1 0 100) s ∧
      CallStep numbered plainIdentity plainDisturbed s (.read 5 2 3 1000) s' ∧
        s'.mem 100 = 9 ∧ s'.mem 1600 = 6 := by
  obtain ⟨s, hs, hmem0, hrun⟩ := quiet_read
  obtain ⟨s', hs', hmem⟩ := calls_answered (c := .read 5 2 3 1000) (fun _ => List.length_replicate)
    hrun ⟨by decide, by decide⟩
  refine ⟨s, s', hs, hs', ?_⟩
  rw [hmem, hmem0]
  decide +kernel

theorem length_answer_read (lba : UInt32) (num : Int) (selector : UInt32) (dst : Nat) :
    ((Call.read lba num selector dst).answer disks identity).length =
      if (num % 256).toNat = 0 then 256 else (num % 256).toNat := by
  rw [Call.answer, List.length_map, length_readBlocks]

/-- The driver waits for more sectors than the drive was told to send, if there are more
than 256. -/
theorem read_returns_iff (hidentity : ∀ d, (identity d).length = 256) {cs : List Call}
    (h : Run Idle (Guarded (fun _ c => Call.Fair c) (CallStep disks identity disturbed)) cs s)
    (lba : UInt32) (num : Int) (selector : UInt32) (dst : Nat) :
    (∃ s', CallStep disks identity disturbed s (.read lba num selector dst) s') ↔ num ≤ 256 := by
  have hidle := Idle.run hidentity h
  obtain ⟨hend, hwait⟩ := call_found (s := s) disks disturbed hidentity (.read lba num selector dst)
    (hidle _)
  rw [length_answer_read] at hend hwait
  have hnumber : (Call.read lba num selector dst).number = num.toNat := rfl
  constructor
  · rintro ⟨s', hs⟩
    by_contra hlt
    refine Settles.not_diverges hs (hwait ?_)
    rw [hnumber]
    split <;> omega
  · intro hle
    obtain ⟨ch, hset, -⟩ := hend (by rw [hnumber]; split <;> omega)
    exact ⟨_, hset⟩

theorem read_returns_iff_quiet : ∃ s,
    CallStep numbered plainIdentity plainDisturbed quietPc (.read 9 1 0 100) s ∧
      ¬ ∃ s', CallStep numbered plainIdentity plainDisturbed s (.read 5 257 3 1000) s' := by
  obtain ⟨s, hs, -, hrun⟩ := quiet_read
  have hidentity : ∀ d, (plainIdentity d).length = 256 := fun _ => List.length_replicate
  have hiff := read_returns_iff hidentity hrun 5 257 3 1000
  refine ⟨s, hs, ?_⟩
  rw [hiff]
  decide

/-- A call for no sectors returns and leaves the sectors that it has commanded with the
drive. -/
theorem unread_left (hidentity : ∀ d, (identity d).length = 256) {cs : List Call}
    (h : Run Idle (Guarded (fun _ c => Call.Fair c) (CallStep disks identity disturbed)) cs s)
    (lba : UInt32) {num : Int} (selector : UInt32) (dst : Nat) (hnum : num ≤ 0) :
    ∃ s' blocks, CallStep disks identity disturbed s (.read lba num selector dst) s' ∧
      s'.mem = s.mem ∧ Offers (s'.ide (Fat32.deviceOf selector).1) blocks ∧
        (blocks.length : Int) = (num - 1) % 256 + 1 ∧ blocks.flatMap blockBytes =
          Fat32.content disks (Fat32.Loader.readSector lba blocks.length selector) := by
  have hidle := Idle.run hidentity h
  obtain ⟨hend, -⟩ := call_found (s := s) disks disturbed hidentity (.read lba num selector dst)
    (hidle _)
  have hnumber : (Call.read lba num selector dst).number = 0 := by
    change num.toNat = 0
    omega
  rw [hnumber] at hend
  obtain ⟨ch, hset, hoffers⟩ := hend (Nat.zero_le _)
  have hat : update s.ide (Call.read lba num selector dst).device.1 ch (Fat32.deviceOf selector).1 =
      ch := Function.update_self ..
  refine ⟨_, (Call.read lba num selector dst).answer disks identity, hset, rfl, ?_, ?_, ?_⟩
  · change Offers (update s.ide (Call.read lba num selector dst).device.1 ch _) _
    rw [hat]
    exact hoffers
  · rw [length_answer_read]
    split <;> omega
  · rw [length_answer_read, Call.answer, bytes_readSector]

/-- 256 sectors wait after a call for none. -/
theorem unread_left_quiet : ∃ s s' blocks,
    CallStep numbered plainIdentity plainDisturbed quietPc (.read 9 1 0 100) s ∧
      CallStep numbered plainIdentity plainDisturbed s (.read 5 0 3 1000) s' ∧ s'.mem = s.mem ∧
        Offers (s'.ide true) blocks ∧ (blocks.length : Int) = 256 := by
  obtain ⟨s, hs, -, hrun⟩ := quiet_read
  obtain ⟨s', blocks, hs', hmem, hoffers, hlen, -⟩ := unread_left (fun _ => List.length_replicate)
    hrun 5 3 1000 (le_refl 0)
  exact ⟨s, s', blocks, hs, hs', hmem, hoffers, hlen⟩

end LoaderDisk

end TayHuang
