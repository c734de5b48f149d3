import Mathlib.Logic.Function.Basic
import TayHuang.Fat32
import TayHuang.StringCopies

/-! What a program sees of an ATA channel with two drives: the registers, and one command
after the other that has blocks of 256 words for the host. Both drives are there, report
no error and have every sector. How long a drive takes for a block is up to the channel,
and so is what becomes of a register that is written while a command is at work. -/

namespace TayHuang

open Function (update)

namespace Ata

abbrev Block := List UInt16

/-- `busy`: so many looks at the status are still to come before the next block. `data`:
the words of a block that the host has not taken yet. -/
inductive Phase
  | idle
  | busy (looks : Nat) (left : List Block)
  | data (words : Block) (left : List Block)

/-- The ports of a channel that are written. -/
inductive Port
  | features | sectorCounter | lbaLow | lbaMid | lbaHigh | device | command | deviceControl
  deriving DecidableEq

structure Channel where
  reg : Port → UInt8
  phase : Phase
  delay : Nat → Nat
  waits : Nat

/-- The drives of a channel: their sectors, their parameters, and what they make of a
register that is written while a command is at work, which the standard leaves open. -/
structure Drives where
  sector : Bool → Nat → Block
  identity : Bool → Block
  disturbed : Channel → Port → UInt8 → Channel

namespace Channel

/-- The status has `BSY` in bit 7 and `DRQ` in bit 3. -/
def status (c : Channel) : UInt8 :=
  match c.phase with
  | .idle => 0x50
  | .busy .. => 0x80
  | .data .. => 0x58

/-- Time passes with a look at the status. -/
def look (c : Channel) : Channel :=
  match c.phase with
  | .busy 0 (b :: left) => { c with phase := .data b left }
  | .busy 0 [] => { c with phase := .idle }
  | .busy (n + 1) left => { c with phase := .busy n left }
  | _ => c

/-- The drive goes on to the next block. -/
def fetch (c : Channel) (left : List Block) : Channel :=
  match left with
  | [] => { c with phase := .idle }
  | b :: left => { c with phase := .busy (c.delay c.waits) (b :: left), waits := c.waits + 1 }

/-- `inw` of the data port; without `DRQ` nothing drives the bus. -/
def inData (c : Channel) : UInt16 × Channel :=
  match c.phase with
  | .data (w :: w' :: ws) left => (w, { c with phase := .data (w' :: ws) left })
  | .data [w] left => (w, c.fetch left)
  | _ => (0xFFFF, c)

def slave (c : Channel) : Bool := c.reg .device &&& 0x10 != 0

/-- The 28 bits of a sector number. -/
def lba (c : Channel) : Nat :=
  (c.reg .device).toNat % 16 * 2 ^ 24 + (c.reg .lbaHigh).toNat * 2 ^ 16 +
    (c.reg .lbaMid).toNat * 2 ^ 8 + (c.reg .lbaLow).toNat

/-- Zero stands for 256 sectors. -/
def count (c : Channel) : Nat := if c.reg .sectorCounter = 0 then 256 else (c.reg .sectorCounter).toNat

/-- The blocks of a command: READ SECTORS, by sector number, and IDENTIFY DEVICE. Other
commands have none. -/
def answer (drives : Drives) (c : Channel) (command : UInt8) : List Block :=
  if command = 0x20 ∧ c.reg .device &&& 0x40 ≠ 0 then
    (List.range c.count).map fun i => drives.sector c.slave (Fat32.address (c.lba + i))
  else if command = 0xEC then [drives.identity c.slave]
  else []

def outb (drives : Drives) (c : Channel) (p : Port) (x : UInt8) : Channel :=
  if p = .deviceControl then { c with reg := update c.reg p x }
  else
    match c.phase with
    | .idle => if p = .command then c.fetch (c.answer drives x) else { c with reg := update c.reg p x }
    | _ => drives.disturbed c p x

end Channel

/-! ### Blocks that wait for the host -/

/-- The channel has these blocks for the host, and has not given a part of the first. -/
inductive Offers (c : Channel) : List Block → Prop
  | idle (h : c.phase = .idle) : Offers c []
  | busy {b : Block} {left : List Block} (looks : Nat) (h : c.phase = .busy looks (b :: left)) :
    Offers c (b :: left)
  | data {b : Block} {left : List Block} (h : c.phase = .data b left) : Offers c (b :: left)

variable {c c' : Channel} {b : Block} {blocks left : List Block} {drives : Drives}

theorem offers_fetch (c : Channel) (left : List Block) : Offers (c.fetch left) left := by
  cases left with
  | nil => exact .idle rfl
  | cons b left => exact .busy _ rfl

theorem Offers.look (h : Offers c blocks) : Offers c.look blocks := by
  cases h with
  | idle h => exact .idle (by simp [Channel.look, h])
  | busy looks h =>
    cases looks with
    | zero => exact .data (by simp [Channel.look, h])
    | succ n => exact .busy n (by simp [Channel.look, h])
  | data h => exact .data (by simp [Channel.look, h])

theorem Offers.congr (h : Offers c blocks) (he : c'.phase = c.phase) : Offers c' blocks := by
  cases h with
  | idle h => exact .idle (he.trans h)
  | busy n h => exact .busy n (he.trans h)
  | data h => exact .data (he.trans h)

theorem Offers.unique (h : Offers c blocks) (h' : Offers c left) : blocks = left := by
  cases h with
  | idle hp =>
    cases h' with
    | idle hp' => rfl
    | busy n hp' => simp [hp] at hp'
    | data hp' => simp [hp] at hp'
  | busy n hp =>
    cases h' with
    | idle hp' => simp [hp] at hp'
    | busy n' hp' =>
      obtain ⟨-, he⟩ := Phase.busy.inj (hp.symm.trans hp')
      exact he
    | data hp' => simp [hp] at hp'
  | data hp =>
    cases h' with
    | idle hp' => simp [hp] at hp'
    | busy n hp' => simp [hp] at hp'
    | data hp' =>
      obtain ⟨rfl, rfl⟩ := Phase.data.inj (hp.symm.trans hp')
      rfl

theorem look_reg (c : Channel) : c.look.reg = c.reg := by
  unfold Channel.look
  split <;> rfl

theorem fetch_reg (c : Channel) (left : List Block) : (c.fetch left).reg = c.reg := by
  cases left <;> rfl

/-- The bytes of a word in memory. -/
def wordBytes (w : UInt16) : List UInt8 := [w.toUInt8, (w >>> 8).toUInt8]

def blockBytes (b : Block) : List UInt8 := List.flatMap wordBytes b

theorem length_blockBytes (b : Block) : (blockBytes b).length = 2 * b.length := by
  induction b with
  | nil => rfl
  | cons w b ih =>
    have hcons : blockBytes (w :: b) = wordBytes w ++ blockBytes b := rfl
    have hword : (wordBytes w).length = 2 := rfl
    rw [hcons, List.length_append, ih, hword, List.length_cons]
    omega

/-! ### What the host takes -/

/-- The word that the bytes of a sector have at `2 * j`. -/
def wordAt (sector : Nat → UInt8) (j : Nat) : UInt16 :=
  (sector (2 * j + 1)).toUInt16 <<< 8 ||| (sector (2 * j)).toUInt16

/-- The words of a sector. -/
def blockOf (sector : Nat → UInt8) : Block := (List.range 256).map (wordAt sector)

theorem toNat_wordAt (sector : Nat → UInt8) (j : Nat) :
    (wordAt sector j).toNat = (sector (2 * j + 1)).toNat * 256 + (sector (2 * j)).toNat := by
  have hx := (sector (2 * j)).toNat_lt
  have hy := (sector (2 * j + 1)).toNat_lt
  have hshift : ((sector (2 * j + 1)).toUInt16 <<< 8).toNat =
      2 ^ 8 * (sector (2 * j + 1)).toNat := by
    have h8 : (8 : UInt16).toNat % 16 = 8 := rfl
    rw [UInt16.toNat_shiftLeft, UInt8.toNat_toUInt16, Nat.shiftLeft_eq, h8]
    omega
  rw [wordAt, UInt16.toNat_or, hshift, UInt8.toNat_toUInt16, ← Nat.two_pow_add_eq_or_of_lt hx]
  omega

theorem wordBytes_wordAt (sector : Nat → UInt8) (j : Nat) :
    wordBytes (wordAt sector j) = [sector (2 * j), sector (2 * j + 1)] := by
  have hx := (sector (2 * j)).toNat_lt
  have hy := (sector (2 * j + 1)).toNat_lt
  have hw := toNat_wordAt sector j
  have hlow : (wordAt sector j).toUInt8 = sector (2 * j) := by
    refine UInt8.toNat_inj.mp ?_
    rw [UInt16.toNat_toUInt8, hw]
    omega
  have hhigh : (wordAt sector j >>> 8).toUInt8 = sector (2 * j + 1) := by
    refine UInt8.toNat_inj.mp ?_
    have h8 : (8 : UInt16).toNat % 16 = 8 := rfl
    rw [UInt16.toNat_toUInt8, UInt16.toNat_shiftRight, Nat.shiftRight_eq_div_pow, h8, hw]
    omega
  rw [wordBytes, hlow, hhigh]

theorem blockBytes_blockOf (sector : Nat → UInt8) (n : Nat) :
    blockBytes ((List.range n).map (wordAt sector)) = (List.range (2 * n)).map sector := by
  induction n with
  | zero => rfl
  | succ n ih =>
    have happ : ∀ a b : Block, blockBytes (a ++ b) = blockBytes a ++ blockBytes b := fun a b =>
      List.flatMap_append
    have hone : blockBytes ([n].map (wordAt sector)) = wordBytes (wordAt sector n) :=
      List.append_nil _
    rw [List.range_succ, List.map_append, happ, ih, hone, wordBytes_wordAt,
      show 2 * (n + 1) = 2 * n + 1 + 1 by omega, List.range_succ, List.range_succ, List.map_append,
      List.map_append, List.append_assoc]
    rfl

end Ata

end TayHuang
