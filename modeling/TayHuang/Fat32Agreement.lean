import TayHuang.Fat32Directory

/-! When the two readers agree. The loader reads the superblock before it has set the
drive in the context. -/

namespace TayHuang

namespace Fat32

open Buffers LittleEndian

/-- The readers agree on a volume if and only if the heap happens to name the drive, the
root directory can be read, and the name is the same file in both memories. -/
theorem readers_agree (disks : Disks) (diskSelector garbage : UInt32) (partitionId : Nat)
    (heap heap' : Nat → UInt8) (name : List UInt8) :
    Agree disks diskSelector garbage partitionId heap heap' name ↔
      deviceOf garbage = deviceOf diskSelector ∧
        Readable disks (volume disks diskSelector (startOf disks diskSelector partitionId)) heap heap'
          name := by
  rw [agree_iff, loadNamed_iff]

/-! ### Well-formed volumes -/

/-- The sectors before the clusters. -/
def dataSectors (v : Context) : Nat :=
  v.info.reversedSectors + v.info.numFats * v.info.fatSectors.toNat

def clusters (v : Context) : Nat :=
  (v.info.totalSectors.toNat - dataSectors v) / v.info.sectorsPerClus

/-- A chain of clusters of the volume. -/
def Allocated (disks : Disks) (v : Context) (clus : UInt32) : Prop :=
  ∃ cs, Chain (fatEntry disks v) clus cs ∧ cs ≠ [] ∧
    ∀ d ∈ cs, 2 ≤ d.toNat ∧ d.toNat < clusters v + 2

/-- A file or a directory, neither deleted nor a piece of a long name. -/
def InUse (dir : List UInt8) (i : Nat) : Prop :=
  field dir (i * 32) 1 ≠ 0 ∧ field dir (i * 32) 1 ≠ 0xE5 ∧ field dir (i * 32 + 11) 1 % 64 ≠ 15

instance (dir : List UInt8) : DecidablePred (InUse dir) :=
  fun _ => inferInstanceAs (Decidable (_ ∧ _ ∧ _))

structure WellFormed (disks : Disks) (v : Context) : Prop where
  bytes : v.info.bytesPerSector = 512
  sectors : 0 < v.info.sectorsPerClus
  reserved : 0 < v.info.reversedSectors
  fats : 0 < v.info.numFats
  count : 65525 ≤ clusters v
  fat : clusters v + 2 ≤ v.info.fatSectors.toNat * 128
  inside : v.startLba.toNat + v.info.totalSectors.toNat ≤ 2 ^ 28
  root : Allocated disks v v.info.rootDirectoryStartClus
  files : ∀ cs i, Chain (fatEntry disks v) v.info.rootDirectoryStartClus cs →
    i * 32 + 32 ≤ (chainBytes disks v cs).length → InUse (chainBytes disks v cs) i →
      entryClus (chainBytes disks v cs) (i * 32) = 0 ∨
        Allocated disks v (entryClus (chainBytes disks v cs) (i * 32))

def EightThree (name : List UInt8) : Prop :=
  ∃ base ext, name = base ++ 46 :: ext ∧ 0 < base.length ∧ base.length ≤ 8 ∧ ext.length ≤ 3 ∧
    ∀ ch ∈ base ++ ext, ch ≠ 0 ∧ ch ≠ 46

theorem Chain.unique {next : UInt32 → UInt32} {clus : UInt32} {cs cs' : List UInt32}
    (h : Chain next clus cs) (h' : Chain next clus cs') : cs = cs' := by
  induction h generalizing cs' with
  | done h =>
    cases h' with
    | done => rfl
    | next hlt => exact absurd hlt h
  | next hlt _ ih =>
    cases h' with
    | done h => exact absurd hlt h
    | next _ hrest => rw [ih hrest]

/-! ### A volume with one file -/

def sampleSuperblock : List UInt8 :=
  List.replicate 11 0 ++ [0, 2, 1, 32, 0, 2] ++ List.replicate 15 0 ++
    [0x15, 4, 1, 0, 0, 2, 0, 0, 0, 0, 0, 0, 2, 0, 0, 0]

def sampleFat : List UInt8 :=
  [0xF8, 0xFF, 0xFF, 0x0F, 0xFF, 0xFF, 0xFF, 0x0F, 0xFF, 0xFF, 0xFF, 0x0F, 0xFF, 0xFF, 0xFF, 0x0F]

/-- `KERNEL.BIN`, at cluster 3. -/
def sampleRoot : List UInt8 :=
  [75, 69, 82, 78, 69, 76, 32, 32, 66, 73, 78, 0x20] ++ List.replicate 14 0 ++ [3]

/-- The partition starts at sector 64, its FAT at 96 and its clusters at 1120. -/
def sample : Disks := fun _ sector i =>
  if sector = 0 then if i = 0x1BE + 8 then 64 else 0
  else if sector = 64 then sampleSuperblock.getD i 0
  else if sector = 96 then sampleFat.getD i 0
  else if sector = 1120 then sampleRoot.getD i 0
  else 0

def kernelBin : List UInt8 := [107, 101, 114, 110, 101, 108, 46, 98, 105, 110]

def sampleVolume : Context := volume sample 0 (startOf sample 0 0)

theorem sampleVolume_info : sampleVolume.info = ⟨512, 1, 32, 2, 66581, 512, 2⟩ := by
  decide +kernel

theorem sampleVolume_chain {clus : UInt32} (h : clus = 2 ∨ clus = 3) :
    Chain (fatEntry sample sampleVolume) clus [clus] := by
  rcases h with rfl | rfl
  · exact .next (by decide) (.done (by decide +kernel))
  · exact .next (by decide) (.done (by decide +kernel))

theorem sampleVolume_allocated {clus : UInt32} (h : clus = 2 ∨ clus = 3) :
    Allocated sample sampleVolume clus := by
  refine ⟨[clus], sampleVolume_chain h, by simp, fun d hd => ?_⟩
  rw [List.mem_singleton.mp hd, clusters, dataSectors, sampleVolume_info]
  rcases h with rfl | rfl
  · decide
  · decide

theorem sampleVolume_wellFormed : WellFormed sample sampleVolume := by
  have hinfo := sampleVolume_info
  have hroot : sampleVolume.info.rootDirectoryStartClus = 2 := by rw [hinfo]
  have hone : ∀ i < 16, InUse (chainBytes sample sampleVolume [2]) i →
      entryClus (chainBytes sample sampleVolume [2]) (i * 32) = 3 := by
    decide +kernel
  refine ⟨by rw [hinfo], ?_, ?_, ?_, ?_, ?_, by decide +kernel, ?_, fun cs i hcs hi huse => ?_⟩
  · simp [hinfo]
  · simp [hinfo]
  · simp [hinfo]
  · rw [clusters, dataSectors, hinfo]
    decide
  · rw [clusters, dataSectors, hinfo]
    decide
  · rw [hroot]
    exact sampleVolume_allocated (.inl rfl)
  · rw [hroot] at hcs
    obtain rfl := hcs.unique (sampleVolume_chain (.inl rfl))
    have hlen : (chainBytes sample sampleVolume [2]).length = 512 := by
      rw [length_chainBytes, hinfo]
      rfl
    rw [hlen] at hi
    rw [hone i (by omega) huse]
    exact .inr (sampleVolume_allocated (.inr rfl))

/-- The heap holds the number of another drive. -/
theorem readers_disagree : ¬ ∀ (disks : Disks) (diskSelector garbage : UInt32) (partitionId : Nat)
    (heap heap' : Nat → UInt8) (name : List UInt8), partitionId < 4 → EightThree name →
      WellFormed disks (volume disks diskSelector (startOf disks diskSelector partitionId)) →
        Agree disks diskSelector garbage partitionId heap heap' name := by
  intro hall
  have hname : EightThree kernelBin :=
    ⟨[107, 101, 114, 110, 101, 108], [98, 105, 110], rfl, by decide, by decide, by decide, by decide +kernel⟩
  have hagree := hall sample 0 1 0 (fun _ => 0) (fun _ => 0) kernelBin (by decide) hname
    sampleVolume_wellFormed
  obtain ⟨hdevice, -⟩ := (agree_iff sample 0 1 0 _ _ kernelBin).mp hagree
  exact absurd hdevice (by decide)

end Fat32

end TayHuang
