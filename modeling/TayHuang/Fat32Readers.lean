import TayHuang.Fat32

/-! The two readers side by side. Where the loader asks the drive it was given, every
step of one is a step of the other on the same sectors. -/

namespace TayHuang

namespace Fat32

open Buffers LittleEndian

variable {disks : Disks}

theorem readSector_eq (lba : UInt32) (num : Nat) (selector : UInt32) :
    Loader.readSector lba num selector = Setup.readSector lba num selector := by
  refine List.map_congr_left fun i _ => ?_
  have hlt := lba.toNat_lt
  have hsector : address (address lba.toNat + i) = address (lba + UInt32.ofNat i).toNat := by
    rw [address, address, address, UInt32.toNat_add, UInt32.toNat_ofNat']
    omega
  rw [hsector]

theorem readSector_congr {selector selector' : UInt32} (h : deviceOf selector = deviceOf selector')
    (lba : UInt32) (num : Nat) :
    Setup.readSector lba num selector = Setup.readSector lba num selector' := by
  rw [Setup.readSector, Setup.readSector, h]

/-- The setup module's context for the loader's. -/
def absolute (c : Context) : Context :=
  { c with fat1Start := c.fat1Start + c.startLba, dataStart := c.dataStart + c.startLba }

theorem read_absolute (c : Context) (lba : UInt32) (num : Nat) :
    Setup.read (absolute c) (lba + c.startLba) num = Loader.read c lba num := by
  rw [Setup.read, Loader.read, readSector_eq, UInt32.add_comm]
  rfl

theorem readClus_absolute (c : Context) (clus : UInt32) :
    Setup.read (absolute c) ((absolute c).dataStart + (clus - 2) *
        UInt32.ofNat (absolute c).info.sectorsPerClus) (absolute c).info.sectorsPerClus =
      Loader.read c (c.dataStart + (clus - 2) * UInt32.ofNat c.info.sectorsPerClus)
        c.info.sectorsPerClus := by
  have hcomm (x : UInt32) : c.dataStart + c.startLba + x = c.dataStart + x + c.startLba := by
    ac_rfl
  rw [← read_absolute, ← hcomm]
  rfl

/-! ### In lockstep -/

theorem refill_absolute (c : Context) (num : Nat) :
    refill Setup.read disks (absolute c) num =
      (refill Loader.read disks c num).map fun r => (absolute r.1, r.2) := by
  have hread : Setup.read (absolute c) (UInt32.ofNat num + (absolute c).fat1Start) 4 =
      Loader.read c (UInt32.ofNat num + c.fat1Start) 4 := by
    rw [← read_absolute, UInt32.add_assoc]
    rfl
  unfold refill
  by_cases h : (num : Int) ≥ c.bufferStart + 4
  · rw [if_pos h, if_pos (show (num : Int) ≥ (absolute c).bufferStart + 4 from h), hread,
      Option.map_map]
    rfl
  · rw [if_neg h, if_neg (show ¬ (num : Int) ≥ (absolute c).bufferStart + 4 from h)]
    rfl

theorem getFat32Entry_absolute (c : Context) (last : UInt32) :
    getFat32Entry Setup.read disks (absolute c) last =
      (getFat32Entry Loader.read disks c last).map fun r => (absolute r.1, r.2) := by
  unfold getFat32Entry
  rw [refill_absolute, Option.bind_map, Option.map_bind]
  refine Option.bind_congr fun r _ => ?_
  simp only [Function.comp_apply, Option.map_map]
  rfl

theorem loadFile_absolute (disks : Disks) (fuel : Nat) (c : Context) (clus : UInt32) (dst : Nat) :
    loadFile Setup.read disks fuel (absolute c) clus dst =
      (loadFile Loader.read disks fuel c clus dst).map fun r => (absolute r.1, r.2) := by
  induction fuel generalizing c clus dst with
  | zero => rfl
  | succ fuel ih =>
    simp only [loadFile]
    by_cases h : clus < 0x0FFFFFF0
    · rw [if_pos h, if_pos h, getFat32Entry_absolute, Option.bind_map, Option.map_bind,
        readClus_absolute]
      refine Option.bind_congr fun r _ => ?_
      simp only [Function.comp_apply]
      rw [show (absolute c).info = c.info from rfl, ih, Option.map_map, Option.map_map]
      rfl
    · rw [if_neg h, if_neg h]
      rfl

theorem loadBuffers_absolute (disks : Disks) (fuel : Nat) (c : Context) :
    loadBuffers Setup.read disks fuel (absolute c) =
      (loadBuffers Loader.read disks fuel c).map fun r => (absolute r.1, r.2) := by
  unfold loadBuffers
  rw [show (absolute c).fat1Start = c.fat1Start + c.startLba from rfl, read_absolute, Option.map_bind]
  refine Option.bind_congr fun b _ => ?_
  have hfile := loadFile_absolute disks fuel { c with fatBuffer := b, bufferStart := 0 }
    c.info.rootDirectoryStartClus 0
  rw [Function.comp_apply, Option.map_bind]
  change (loadFile Setup.read disks fuel
    (absolute { c with fatBuffer := b, bufferStart := 0 }) c.info.rootDirectoryStartClus 0).bind _ = _
  rw [hfile, Option.bind_map]
  refine Option.bind_congr fun f _ => ?_
  simp only [Function.comp_apply, Option.map_map]
  rfl

theorem loadFat32File_absolute (disks : Disks) (fuel : Nat) (c : Context) (heap : Nat → UInt8)
    (name : List UInt8) :
    loadFat32File Setup.read disks fuel (absolute c) heap name =
      (loadFat32File Loader.read disks fuel c heap name).map fun r => (absolute r.1, r.2) := by
  unfold loadFat32File
  rw [Option.map_bind]
  refine Option.bind_congr fun converted _ => ?_
  cases converted with
  | none => rfl
  | some buffer =>
    have hclus : getFileStartClus (absolute c) heap buffer = getFileStartClus c heap buffer := rfl
    simp only [Function.comp_apply, hclus]
    by_cases hno : getFileStartClus c heap buffer = 0xFFFFFFFF
    · rw [if_pos hno, if_pos hno]
      rfl
    · rw [if_neg hno, if_neg hno, loadFile_absolute, Option.map_map, Option.map_map]
      rfl

/-- A volume mounted and a file read: the sectors, the status and what is written behind
`dst`. -/
def Loader.loadNamed (disks : Disks) (fuel : Nat) (diskSelector garbage : UInt32)
    (partitionId : Nat) (heap : Nat → UInt8) (name : List UInt8) :
    Option (List Read × Bool × List (Nat × List UInt8)) :=
  (Loader.loadFat32Fs disks fuel diskSelector garbage partitionId).bind fun r =>
    (loadFat32File Loader.read disks fuel r.1 heap name).map fun f => (r.2 ++ f.2.1, f.2.2)

def Setup.loadNamed (disks : Disks) (fuel : Nat) (diskSelector startLba : UInt32)
    (heap : Nat → UInt8) (name : List UInt8) :
    Option (List Read × Bool × List (Nat × List UInt8)) :=
  (Setup.loadFat32Fs disks fuel diskSelector startLba).bind fun r =>
    (loadFat32File Setup.read disks fuel r.1 heap name).map fun f => (r.2 ++ f.2.1, f.2.2)

/-- The entry of the partition table that the setup module is handed. -/
def startOf (disks : Disks) (diskSelector : UInt32) (partitionId : Nat) : UInt32 :=
  partitionStart (content disks (Setup.readSector 0 1 diskSelector)) partitionId

/-- Both readers come to the same result, each with its own heap from its root directory on.
The loader also reads the partition table. -/
def Agree (disks : Disks) (diskSelector garbage : UInt32) (partitionId : Nat)
    (heap heap' : Nat → UInt8) (name : List UInt8) : Prop :=
  ∃ fuel reads status written,
    Loader.loadNamed disks fuel diskSelector garbage partitionId heap name =
      some (⟨deviceOf diskSelector, 0⟩ :: reads, status, written) ∧
    Setup.loadNamed disks fuel diskSelector (startOf disks diskSelector partitionId) heap' name =
      some (reads, status, written)

theorem loadFat32Fs_absolute (disks : Disks) (fuel : Nat) {diskSelector garbage : UInt32} (partitionId : Nat)
    (h : deviceOf garbage = deviceOf diskSelector) :
    ∃ m : Option (Context × List Read),
      Loader.loadFat32Fs disks fuel diskSelector garbage partitionId =
        m.map (fun r => (r.1, ⟨deviceOf diskSelector, 0⟩ :: r.2)) ∧
      Setup.loadFat32Fs disks fuel diskSelector (startOf disks diskSelector partitionId) =
        m.map fun r => (absolute r.1, r.2) := by
  have hstart : partitionStart (content disks (Loader.readSector 0 1 diskSelector)) partitionId =
      startOf disks diskSelector partitionId := by
    rw [readSector_eq]
    rfl
  have hsuper : Loader.readSector (startOf disks diskSelector partitionId + 0) 1 garbage =
      Setup.readSector (startOf disks diskSelector partitionId) 1 diskSelector := by
    rw [readSector_eq, readSector_congr h, UInt32.add_zero]
  unfold Loader.loadFat32Fs Setup.loadFat32Fs
  simp only [hstart, hsuper]
  generalize startOf disks diskSelector partitionId = startLba
  generalize Setup.readSector startLba 1 diskSelector = superblock
  generalize Info.ofBytes (content disks superblock) = info
  refine ⟨(loadBuffers Loader.read disks fuel ⟨diskSelector, startLba, info,
    UInt32.ofNat info.reversedSectors,
    UInt32.ofNat info.reversedSectors + UInt32.ofNat info.numFats * info.fatSectors,
    alloc (16 * info.bytesPerSector), alloc (4 * info.bytesPerSector), 0⟩).map fun r =>
      (r.1, superblock ++ r.2), ?_, ?_⟩
  · rw [Option.map_map]
    rfl
  · have hcomm (x y : UInt32) : x + startLba + y = x + y + startLba := by ac_rfl
    rw [hcomm, Option.map_map]
    change (loadBuffers Setup.read disks fuel (absolute ⟨diskSelector, startLba, info, _, _, _, _, _⟩)).map
      _ = _
    rw [loadBuffers_absolute, Option.map_map]
    rfl

/-- With the drive it was given and the same heap, the loader reads what the setup module
reads. -/
theorem loadNamed_eq (fuel : Nat) {diskSelector garbage : UInt32} (partitionId : Nat)
    (heap : Nat → UInt8) (name : List UInt8) (h : deviceOf garbage = deviceOf diskSelector) :
    Loader.loadNamed disks fuel diskSelector garbage partitionId heap name =
      (Setup.loadNamed disks fuel diskSelector (startOf disks diskSelector partitionId) heap name).map
        fun r => (⟨deviceOf diskSelector, 0⟩ :: r.1, r.2) := by
  obtain ⟨m, hloader, hsetup⟩ := loadFat32Fs_absolute disks fuel partitionId h
  unfold Loader.loadNamed Setup.loadNamed
  rw [hloader, hsetup, Option.bind_map, Option.bind_map, Option.map_bind]
  refine Option.bind_congr fun r _ => ?_
  simp only [Function.comp_apply, Option.map_map, loadFat32File_absolute]
  rfl

section Reads

variable {fuel : Nat} {heap : Nat → UInt8} {name : List UInt8}
  {r : List Read × Bool × List (Nat × List UInt8)}

theorem Loader.loadNamed_reads {diskSelector garbage : UInt32} {partitionId : Nat}
    (h : Loader.loadNamed disks fuel diskSelector garbage partitionId heap name = some r) :
    ∃ sector rest, r.1 = ⟨deviceOf diskSelector, 0⟩ :: ⟨deviceOf garbage, sector⟩ :: rest := by
  unfold Loader.loadNamed at h
  obtain ⟨m, hm, h⟩ := Option.bind_eq_some_iff.mp h
  obtain ⟨f, -, rfl⟩ := Option.map_eq_some_iff.mp h
  unfold Loader.loadFat32Fs at hm
  obtain ⟨b, -, rfl⟩ := Option.map_eq_some_iff.mp hm
  simp only [Loader.readSector, List.range_one, List.map_cons, List.map_nil, List.cons_append,
    List.nil_append]
  exact ⟨_, _, rfl⟩

theorem Setup.loadNamed_reads {diskSelector startLba : UInt32}
    (h : Setup.loadNamed disks fuel diskSelector startLba heap name = some r) :
    ∃ sector rest, r.1 = ⟨deviceOf diskSelector, sector⟩ :: rest := by
  unfold Setup.loadNamed at h
  obtain ⟨m, hm, h⟩ := Option.bind_eq_some_iff.mp h
  obtain ⟨f, -, rfl⟩ := Option.map_eq_some_iff.mp h
  unfold Setup.loadFat32Fs at hm
  obtain ⟨b, -, rfl⟩ := Option.map_eq_some_iff.mp hm
  simp only [Setup.readSector, List.range_one, List.map_cons, List.map_nil, List.cons_append,
    List.nil_append]
  exact ⟨_, _, rfl⟩

end Reads

/-- The drive apart, two heaps of the setup module are compared. -/
theorem agree_iff (disks : Disks) (diskSelector garbage : UInt32) (partitionId : Nat)
    (heap heap' : Nat → UInt8) (name : List UInt8) :
    Agree disks diskSelector garbage partitionId heap heap' name ↔
      deviceOf garbage = deviceOf diskSelector ∧ ∃ fuel r,
        Setup.loadNamed disks fuel diskSelector (startOf disks diskSelector partitionId) heap name =
          some r ∧
        Setup.loadNamed disks fuel diskSelector (startOf disks diskSelector partitionId) heap' name =
          some r := by
  constructor
  · rintro ⟨fuel, reads, status, written, hloader, hsetup⟩
    obtain ⟨s, rest, hl⟩ := Loader.loadNamed_reads hloader
    obtain ⟨s', rest', hr⟩ := Setup.loadNamed_reads hsetup
    have hdevice : deviceOf garbage = deviceOf diskSelector := by
      simp only [List.cons.injEq, true_and] at hl
      simp only [hl, List.cons.injEq, Read.mk.injEq] at hr
      exact hr.1.1
    rw [loadNamed_eq fuel partitionId heap name hdevice] at hloader
    obtain ⟨r, hsame, hr⟩ := Option.map_eq_some_iff.mp hloader
    obtain rfl : r = (reads, status, written) := by
      simp only [Prod.mk.injEq, List.cons.injEq, true_and] at hr
      exact Prod.ext hr.1 hr.2
    exact ⟨hdevice, fuel, _, hsame, hsetup⟩
  · rintro ⟨h, fuel, ⟨reads, status, written⟩, hsame, hsetup⟩
    refine ⟨fuel, reads, status, written, ?_, hsetup⟩
    rw [loadNamed_eq fuel partitionId heap name h, hsame]
    rfl

end Fat32

end TayHuang
