import TayHuang.Buffers

/-! The two readers of FAT32 volumes, of the loader and of the setup module. The loader
counts sectors from the start of the partition, the setup module from the start of the
disk. A search for a name also reads what the heap holds where the root directory was not
filled and behind it, which is given. What stands around the buffer of the FAT is not
modelled: a reader that needs it has no result. -/

namespace TayHuang

namespace Fat32

open Buffers LittleEndian

/-- The channel, and whether the drive is the slave. -/
abbrev Device := Bool × Bool

/-- One sector that is read. -/
structure Read where
  device : Device
  sector : Nat
  deriving DecidableEq

/-- The bytes of the sectors of the drives. -/
abbrev Disks := Device → Nat → Nat → UInt8

/-- `selector & IDE_MASK`, `selector & SLAVE_MASK`. -/
def deviceOf (selector : UInt32) : Device := (selector &&& 1 != 0, selector &&& 2 != 0)

/-- The drive takes 28 bits of a sector number. -/
def address (lba : Nat) : Nat := lba % 2 ^ 28

def sectorBytes (disks : Disks) (r : Read) : List UInt8 :=
  (List.range 512).map (disks r.device r.sector)

def content (disks : Disks) (reads : List Read) : List UInt8 := reads.flatMap (sectorBytes disks)

/-- The little-endian number of `count` bytes at `offset`. -/
def field (bytes : List UInt8) (offset count : Nat) : Nat := ofBytes ((bytes.drop offset).take count)

/-- `start_lba` of an entry of the partition table. -/
def partitionStart (table : List UInt8) (number : Nat) : UInt32 :=
  UInt32.ofNat (field table (0x1BE + number * 16 + 8) 4)

/-- `fat32_info_struct`. -/
structure Info where
  bytesPerSector : Nat
  sectorsPerClus : Nat
  reversedSectors : Nat
  numFats : Nat
  totalSectors : UInt32
  fatSectors : UInt32
  rootDirectoryStartClus : UInt32
  deriving DecidableEq

def Info.ofBytes (superblock : List UInt8) : Info where
  bytesPerSector := field superblock 0x0B 2
  sectorsPerClus := field superblock 0x0D 1
  reversedSectors := field superblock 0x0E 2
  numFats := field superblock 0x10 1
  totalSectors := UInt32.ofNat (field superblock 0x20 4)
  fatSectors := UInt32.ofNat (field superblock 0x24 4)
  rootDirectoryStartClus := UInt32.ofNat (field superblock 0x2C 4)

/-- `FAT32_CONTEXT`. -/
structure Context where
  selector : UInt32
  startLba : UInt32
  info : Info
  fat1Start : UInt32
  dataStart : UInt32
  rootDirectory : Buffer
  fatBuffer : Buffer
  bufferStart : Int

/-! ### What the two files have in common -/

section Reader

variable (read : Context → UInt32 → Nat → List Read) (disks : Disks)

/-- The sectors of the FAT from `num` on, unless they are in the buffer or before it. -/
def refill (c : Context) (num : Nat) : Option (Context × List Read) :=
  if (num : Int) ≥ c.bufferStart + 4 then
    let reads := read c (UInt32.ofNat num + c.fat1Start) 4
    (c.fatBuffer.store 0 (content disks reads)).map fun b =>
      ({ c with fatBuffer := b, bufferStart := num }, reads)
  else some (c, [])

def getFat32Entry (c : Context) (last : UInt32) : Option (Context × UInt32 × List Read) :=
  (refill read disks c (last.toNat / 128)).bind fun r =>
    let numOff : Int := ((last.toNat / 128 : Nat) : Int) - r.1.bufferStart
    let offset : Int := numOff * r.1.info.bytesPerSector + ((last.toNat % 128 * 4 : Nat) : Int)
    (r.1.fatBuffer.load offset 4).map fun bytes => (r.1, UInt32.ofNat (ofBytes bytes), r.2)

/-- `__load_file`, with what is written behind `dst`. -/
def loadFile : Nat → Context → UInt32 → Nat →
    Option (Context × List Read × List (Nat × List UInt8))
  | 0, _, _, _ => none
  | fuel + 1, c, clus, dst =>
    if clus < 0x0FFFFFF0 then
      let startSector := c.dataStart + (clus - 2) * UInt32.ofNat c.info.sectorsPerClus
      let reads := read c startSector c.info.sectorsPerClus
      (getFat32Entry read disks c clus).bind fun r =>
        (loadFile fuel r.1 r.2.1 (dst + c.info.sectorsPerClus * c.info.bytesPerSector)).map fun f =>
          (f.1, reads ++ r.2.2 ++ f.2.1, (dst, content disks reads) :: f.2.2)
    else some (c, [], [])

/-- The end of `load_fat32_fs`, from the first read of the FAT on. -/
def loadBuffers (fuel : Nat) (c : Context) : Option (Context × List Read) :=
  let reads := read c c.fat1Start 4
  (c.fatBuffer.store 0 (content disks reads)).bind fun b =>
    (loadFile read disks fuel { c with fatBuffer := b, bufferStart := 0 }
        c.info.rootDirectoryStartClus 0).bind fun f =>
      (f.1.rootDirectory.storeAll f.2.2).map fun root =>
        ({ f.1 with rootDirectory := root }, reads ++ f.2.1)

end Reader

def cstring (s : List UInt8) : List UInt8 := s.takeWhile (· ≠ 0)

/-- The places from number `i` on, of `n` that are left; `FAT32_ENTRY_SIZE` is the size of
an entry of the FAT. -/
def findEntry (memory : Nat → UInt8) (name : List UInt8) : Nat → Nat → UInt32
  | 0, _ => 0xFFFFFFFF
  | n + 1, i =>
    let rdname := bytesAt memory (i * 4) 11
    if cstring name = cstring rdname then
      let lowWord := UInt32.ofNat (ofBytes (bytesAt memory (i * 4 + 0x1A) 2))
      let highWord := UInt32.ofNat (ofBytes (bytesAt memory (i * 4 + 0x14) 2))
      (highWord <<< 16) + lowWord
    else findEntry memory name n (i + 1)

/-- `FAT32_ENTRIES_PER_SECTOR` counts the entries of the FAT. `heap` is what memory holds
from the root directory on where nothing was read. -/
def getFileStartClus (c : Context) (heap : Nat → UInt8) (name : List UInt8) : UInt32 :=
  if (cstring name).length ≠ 11 then 0xFFFFFFFF
  else findEntry (c.rootDirectory.memory heap) name (16 * 128) 0

def toupper (ch : UInt8) : UInt8 := if 97 ≤ ch ∧ ch ≤ 122 then ch - 97 + 65 else ch

/-- `some none` is `NULL`. What follows the terminator of the name is left out: it comes
behind the terminator of the result. -/
def convert (name : List UInt8) : Option (Option (List UInt8)) :=
  if 46 ∈ name then
    let base := name.takeWhile (· ≠ 46)
    let ext := (name.drop (base.length + 1) ++ [0, 0, 0]).take 3
    if base.length > 8 then some none
    else some (some (base.map toupper ++ List.replicate (8 - base.length) 32 ++ ext.map toupper ++
      [0]))
  else none

def loadFat32File (read : Context → UInt32 → Nat → List Read) (disks : Disks) (fuel : Nat)
    (c : Context) (heap : Nat → UInt8) (name : List UInt8) :
    Option (Context × List Read × Bool × List (Nat × List UInt8)) :=
  (convert name).bind fun converted =>
    match converted with
    | none => some (c, [], false, [])
    | some buffer =>
      let clus := getFileStartClus c heap buffer
      if clus = 0xFFFFFFFF then some (c, [], false, [])
      else (loadFile read disks fuel c clus 0).map fun f => (f.1, f.2.1, true, f.2.2)

/-! ### The loader -/

namespace Loader

/-- One command: the drive counts on from the sector it was given. -/
def readSector (lba : UInt32) (num : Nat) (selector : UInt32) : List Read :=
  (List.range num).map fun i => ⟨deviceOf selector, address (address lba.toNat + i)⟩

/-- `__read_sector`. -/
def read (c : Context) (lba : UInt32) (num : Nat) : List Read :=
  readSector (c.startLba + lba) num c.selector

/-- `garbage` is what the heap holds where `context->selector` is. -/
def loadFat32Fs (disks : Disks) (fuel : Nat) (diskSelector garbage : UInt32) (partitionId : Nat) :
    Option (Context × List Read) :=
  let table := readSector 0 1 diskSelector
  let startLba := partitionStart (content disks table) partitionId
  let superblock := readSector (startLba + 0) 1 garbage
  let info := Info.ofBytes (content disks superblock)
  let fat1Start := UInt32.ofNat info.reversedSectors
  let dataStart := fat1Start + UInt32.ofNat info.numFats * info.fatSectors
  let root := alloc (16 * info.bytesPerSector)
  let fat := alloc (4 * info.bytesPerSector)
  (loadBuffers read disks fuel
      ⟨diskSelector, startLba, info, fat1Start, dataStart, root, fat, 0⟩).map fun r =>
    (r.1, table ++ superblock ++ r.2)

end Loader

/-! ### The setup module -/

namespace Setup

/-- One command for each sector. -/
def readSector (lba : UInt32) (num : Nat) (selector : UInt32) : List Read :=
  (List.range num).map fun i => ⟨deviceOf selector, address (lba + UInt32.ofNat i).toNat⟩

def read (c : Context) (lba : UInt32) (num : Nat) : List Read := readSector lba num c.selector

def loadFat32Fs (disks : Disks) (fuel : Nat) (diskSelector startLba : UInt32) :
    Option (Context × List Read) :=
  let superblock := readSector startLba 1 diskSelector
  let info := Info.ofBytes (content disks superblock)
  let fat1Start := UInt32.ofNat info.reversedSectors + startLba
  let dataStart := fat1Start + UInt32.ofNat info.numFats * info.fatSectors
  let root := alloc (16 * info.bytesPerSector)
  let fat := alloc (4 * info.bytesPerSector)
  (loadBuffers read disks fuel
      ⟨diskSelector, startLba, info, fat1Start, dataStart, root, fat, 0⟩).map fun r =>
    (r.1, superblock ++ r.2)

end Setup

end Fat32

end TayHuang
