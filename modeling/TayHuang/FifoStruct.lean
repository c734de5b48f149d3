import TayHuang.PageSharing
import TayHuang.Ring
import TayHuang.SharedMemory
import TayHuang.Signals
import TayHuang.UserMalloc

/-! The queue of fifo.c as `create_fifo` lays it out in shared memory, and the calls on it
when each runs to its end before the next. -/

namespace TayHuang

open Ring
open Function (update)

/-- `fifo_struct`, with the semaphores in the place of their ids. -/
structure FifoStruct where
  mutex : Signal Unit
  empty : Signal Unit
  full : Signal Unit
  writeOffset : Nat
  readOffset : Nat
  fifoSize : Nat
  usedSize : Nat
  buffer : Nat → UInt8

/-- `sizeof(fifo_struct)`: three `dword`, four bytes of padding and four `size_t`. -/
def fifoHeader : Nat := 48

/-- The pages of `create_fifo`. -/
def fifoPages (fifoSize : Nat) : Int := asInt ((fifoSize + 4096 - 1 : Nat) % 2 ^ 64 / 4096)

/-- The fields that `create_fifo` writes. -/
def newFifo (fifoSize : Nat) (buffer : Nat → UInt8) : FifoStruct where
  mutex := createSignal 1 1 false
  empty := createSignal (asInt fifoSize) (asInt fifoSize) false
  full := createSignal (asInt fifoSize) 0 false
  writeOffset := 0
  readOffset := 0
  fifoSize := ((asInt (fifoPages fifoSize * 4096) - fifoHeader) % 2 ^ 64).toNat
  usedSize := 0
  buffer := buffer

/-- `create_fifo` by the task `caller`: what `create_share_memory` answers, and the queue
that then stands at its address, in memory with the bytes `buffer`. -/
def createFifo (fuel : Nat) (s : Shm.TaskMem) (caller : Int) (fifoSize : Nat)
    (buffer : Nat → UInt8) : Option ((Shm.TaskMem × Nat × List (Nat × Nat)) × FifoStruct) :=
  (Shm.perform fuel s (.create (fifoPages fifoSize) caller)).map fun x => (x, newFifo fifoSize buffer)

/-- The pages of `share_fifo`. -/
def FifoStruct.pages (f : FifoStruct) : Int := asInt ((f.fifoSize + fifoHeader) % 2 ^ 64 / 4096)

/-- `share_fifo` by the task `caller` of the queue at `addr`. -/
def shareFifo (fuel : Nat) (s : Shm.TaskMem) (addr : Nat) (f : FifoStruct) (caller target : Int) :
    Option (Shm.TaskMem × Nat × List (Nat × Nat)) :=
  Shm.perform fuel s (.share addr f.pages caller target)

/-- `down_signal` of a thread that does not have to wait. -/
def pass (s : Signal Unit) : Option (Signal Unit) :=
  if (downSignal s ()).2 then none else some (downSignal s ()).1

/-- `up_signal` where no other thread runs. -/
def leave (s : Signal Unit) : Option (Signal Unit) := (upSignal s).map Prod.fst

/-- `fifo_read_byte`, no result where the thread would wait. -/
def fifoReadByte (f : FifoStruct) : Option (UInt8 × FifoStruct) :=
  (pass f.full).bind fun full => (pass f.mutex).bind fun mutex =>
    (leave mutex).bind fun mutex => (leave f.empty).map fun empty =>
      (f.buffer f.readOffset,
        { f with full, mutex, empty, readOffset := advance f.fifoSize f.readOffset })

def fifoWriteByte (f : FifoStruct) (data : UInt8) : Option FifoStruct :=
  (pass f.empty).bind fun empty => (pass f.mutex).bind fun mutex =>
    (leave mutex).bind fun mutex => (leave f.full).map fun full =>
      { f with
        empty, mutex, full
        buffer := update f.buffer f.writeOffset data
        writeOffset := advance f.fifoSize f.writeOffset }

def fifoWriteBytes : FifoStruct → List UInt8 → Option FifoStruct
  | f, [] => some f
  | f, d :: data => (fifoWriteByte f d).bind fun f => fifoWriteBytes f data

def fifoReadBytes : FifoStruct → Nat → Option (List UInt8 × FifoStruct)
  | f, 0 => some ([], f)
  | f, size + 1 =>
    (fifoReadByte f).bind fun r => (fifoReadBytes r.2 size).map fun x => (r.1 :: x.1, x.2)

/-- `fifo_read_all`, the bytes and the size that it returns. -/
def fifoReadAll (f : FifoStruct) : Option (List UInt8 × Nat × FifoStruct) :=
  (fifoReadBytes f f.usedSize).map fun x => (x.1, f.usedSize, x.2)

def fifoGetSize (f : FifoStruct) : Nat := f.fifoSize

def fifoGetUsedSize (f : FifoStruct) : Nat := f.usedSize

def fifoGetFreeSize (f : FifoStruct) : Nat :=
  (fifoGetSize f + 2 ^ 64 - fifoGetUsedSize f) % 2 ^ 64

/-! ### The ring of a new queue -/

/-- The permits for free places fit the ring and the count of the bytes in it, and header
and ring fill the pages. -/
structure RingFits (pages : Int) (f : FifoStruct) : Prop where
  room : f.empty.signals ≤ f.fifoSize
  filled : (fifoHeader + f.fifoSize : Int) = 4096 * pages
  count : f.empty.signals ≤ f.full.maxSignals

/-- The queue `f` that stands where `create_share_memory` has given `x` is a ring that fits
the pages it was given, and `share_fifo` shares these pages. -/
def RingInvariant (fuel : Nat) (s : Shm.TaskMem) (caller : Int)
    (x : Shm.TaskMem × Nat × List (Nat × Nat)) (f : FifoStruct) : Prop :=
  ∃ pages, Shm.perform fuel s (.create pages caller) = some x ∧ RingFits pages f ∧
    ∀ fuel s target, shareFifo fuel s x.2.1 f caller target =
      Shm.perform fuel s (.share x.2.1 pages caller target)

section Sizes

variable {size : Nat}

theorem fifoPages_eq (h : size ≤ 2 ^ 31 - 4096) : fifoPages size = ((size + 4095) / 4096 : Nat) := by
  have hfit : (size + 4096 - 1) % 2 ^ 64 = size + 4095 := Nat.mod_eq_of_lt (by omega)
  unfold fifoPages
  rw [asInt_eq (by omega) (by omega)]
  omega

theorem newFifo_permits (size : Nat) (buffer : Nat → UInt8) :
    (newFifo size buffer).empty.signals = asInt size ∧
      (newFifo size buffer).full.maxSignals = asInt size := by
  simp only [newFifo, createSignal, and_self]

theorem newFifo_fifoSize (h1 : 1 ≤ size) (h : size ≤ 2 ^ 31 - 4096) (buffer : Nat → UInt8) :
    fifoHeader + (newFifo size buffer).fifoSize = 4096 * ((size + 4095) / 4096) := by
  have hint : asInt (fifoPages size * 4096) = ((size + 4095) / 4096 * 4096 : Nat) := by
    rw [fifoPages_eq h, asInt_eq (by omega) (by omega)]
    omega
  simp only [newFifo, hint, fifoHeader]
  omega

theorem newFifo_pages (h1 : 1 ≤ size) (h : size ≤ 2 ^ 31 - 4096) (buffer : Nat → UInt8) :
    (newFifo size buffer).pages = fifoPages size := by
  have hsize := newFifo_fifoSize h1 h buffer
  have hheader : fifoHeader = 48 := rfl
  rw [fifoPages_eq h, FifoStruct.pages, asInt_eq (by omega) (by omega)]
  omega

theorem newFifo_room (h1 : 1 ≤ size) (h : size ≤ 2 ^ 31 - 4096) (buffer : Nat → UInt8) :
    (newFifo size buffer).empty.signals ≤ (newFifo size buffer).fifoSize ↔
      1 ≤ size % 4096 ∧ size % 4096 ≤ 4048 := by
  have hsize := newFifo_fifoSize h1 h buffer
  have hheader : fifoHeader = 48 := rfl
  rw [(newFifo_permits size buffer).1, asInt_eq (by omega) (by omega)]
  omega

theorem newFifo_fits (h1 : 1 ≤ size) (h : size ≤ 2 ^ 31 - 4096) (buffer : Nat → UInt8) :
    RingFits (fifoPages size) (newFifo size buffer) ↔ 1 ≤ size % 4096 ∧ size % 4096 ≤ 4048 := by
  rw [← newFifo_room h1 h buffer]
  obtain ⟨hempty, hfull⟩ := newFifo_permits size buffer
  refine ⟨RingFits.room, fun hroom => ⟨hroom, ?_, by rw [hempty, hfull]⟩⟩
  have hsize := newFifo_fifoSize h1 h buffer
  rw [fifoPages_eq h]
  omega

variable {fuel : Nat} {s : Shm.TaskMem} {caller : Int}
  {x : Shm.TaskMem × Nat × List (Nat × Nat)} {buffer : Nat → UInt8} {f : FifoStruct}

/-- `create_fifo` establishes the ring if and only if what is asked for beyond whole pages
leaves room for the header in its page. -/
theorem createFifo_ring (h1 : 1 ≤ size) (h : size ≤ 2 ^ 31 - 4096)
    (hs : createFifo fuel s caller size buffer = some (x, f)) :
    RingInvariant fuel s caller x f ↔ 1 ≤ size % 4096 ∧ size % 4096 ≤ 4048 := by
  obtain ⟨x', hx, he⟩ := Option.map_eq_some_iff.mp hs
  obtain ⟨rfl, rfl⟩ := Prod.mk.inj he
  rw [← newFifo_fits h1 h buffer]
  constructor
  · rintro ⟨pages, -, hfits, -⟩
    have hpages : pages = fifoPages size := by
      have hfilled := hfits.filled
      have hsize := newFifo_fifoSize h1 h buffer
      rw [fifoPages_eq h]
      omega
    rwa [← hpages]
  · intro hfits
    refine ⟨fifoPages size, hx, hfits, fun fuel s target => ?_⟩
    rw [shareFifo, newFifo_pages h1 h]

/-- A key buffer has room for 8144 bytes and lets 8192 in. -/
theorem createFifo_overfull : ∃ fuel s caller size buffer x f, 1 ≤ size ∧ size ≤ 2 ^ 31 - 4096 ∧
    createFifo fuel s caller size buffer = some (x, f) ∧ f.empty.signals = 8192 ∧
      f.fifoSize = 8144 ∧ ¬ RingInvariant fuel s caller x f := by
  have hrun : (createFifo 40 Shm.oneTask.mem 1 8192 fun _ => 0).map (fun r => decide
      (r.2.empty.signals = 8192 ∧ r.2.fifoSize = 8144)) = some true := by
    decide +kernel
  obtain ⟨⟨x, f⟩, hr, hd⟩ := Option.map_eq_some_iff.mp hrun
  obtain ⟨hempty, hsize⟩ := of_decide_eq_true hd
  refine ⟨40, Shm.oneTask.mem, 1, 8192, fun _ => 0, x, f, by decide, by decide, hr, hempty, hsize, ?_⟩
  rintro ⟨pages, -, hfits, -⟩
  have hroom := hfits.room
  simp only at hempty hsize
  omega

theorem createFifo_ring_small : ∃ x f,
    createFifo 40 Shm.oneTask.mem 1 4000 (fun _ => 0) = some (x, f) ∧
      (RingInvariant 40 Shm.oneTask.mem 1 x f ↔ 1 ≤ 4000 % 4096 ∧ 4000 % 4096 ≤ 4048) := by
  obtain ⟨⟨x, f⟩, hr⟩ := Option.isSome_iff_exists.mp
    (show (createFifo 40 Shm.oneTask.mem 1 4000 fun _ => 0).isSome by decide +kernel)
  exact ⟨x, f, hr, createFifo_ring (by decide) (by decide) hr⟩

/-! ### Sharing -/

open Vm in
/-- What the target of `share_fifo` gets: behind its new address the pages of the queue. -/
theorem shareFifo_shares {l : List Seg} {L : Nat → List (Nat × Nat)} {R : List Nat}
    {t u : Shm.MmInfo} {y : Shm.TaskMem × Nat × List (Nat × Nat)} {addr : Nat} {target : Int}
    (h1 : 1 ≤ size) (h : size ≤ 2 ^ 31 - 4096) (hv : DirsOk s.vm l L R)
    (ht : s.task caller = some t) (hu : s.task target = some u) (htR : t.pgd ∈ R)
    (huR : u.pgd ∈ R) (hne : t.pgd ≠ u.pgd)
    (hmapped : ∀ i < (size + 4095) / 4096,
      translation s.vm.tables t.pgd (addr / 4096 * 4096 + 4096 * i) ≠ none)
    (hs : shareFifo fuel s addr (newFifo size buffer) caller target = some y) :
    ∃ ok, Shares s.vm y.1.vm t.pgd (addr / 4096 * 4096) u.pgd (u.shmPtr / 4096 * 4096)
      ((size + 4095) / 4096) ok y.2.2 := by
  rw [shareFifo, newFifo_pages h1 h, fifoPages_eq h] at hs
  obtain ⟨t', ht', hs⟩ := Option.bind_eq_some_iff.mp hs
  obtain rfl := Option.some.inj (ht'.symm.trans ht)
  obtain ⟨u', hu', hs⟩ := Option.bind_eq_some_iff.mp hs
  obtain rfl := Option.some.inj (hu'.symm.trans hu)
  obtain ⟨⟨v', ok, m⟩, hm, rfl⟩ := Option.map_eq_some_iff.mp hs
  refine ⟨ok, (copyPages_shares hv htR huR (Nat.dvd_mul_left _ _) (Nat.dvd_mul_left _ _)
    (by omega) hm).mpr ?_⟩
  exact ⟨fun i hi _ => hmapped i hi, fun _ hsame => absurd hsame hne⟩

end Sizes

end TayHuang
