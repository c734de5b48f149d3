import TayHuang.Fat32Windows

/-! Where `load_fat32_fs` writes, also when it does not come to an end or reads the next
cluster from outside of its buffer. -/

namespace TayHuang

namespace Fat32

open Buffers

inductive Target
  | rootDirectory
  | fatBuffer
  deriving DecidableEq, Repr

structure Write where
  target : Target
  offset : Nat
  length : Nat
  deriving DecidableEq, Repr

/-- The `dword` that stands outside of the buffer of the FAT, at an offset from it, after
so many turns. -/
abbrev Around := Nat → Int → UInt32

section Reader

variable (read : Context → UInt32 → Nat → List Read) (disks : Disks) (around : Around)

/-- `get_fat32_entry` in the turn `n`, wherever it reads. -/
def lookupEntry (n : Nat) (c : Context) (last : UInt32) : Context × UInt32 :=
  match getFat32Entry read disks c last with
  | some r => (r.1, r.2.1)
  | none => (c, around n ((((last.toNat / 128 : Nat) : Int) - c.bufferStart) * c.info.bytesPerSector +
      ((last.toNat % 128 * 4 : Nat) : Int)))

/-- The write of `get_fat32_entry` to its buffer. -/
def refillWrites (c : Context) (num : Nat) : List Write :=
  if (num : Int) ≥ c.bufferStart + 4 then
    [⟨.fatBuffer, 0, (content disks (read c (UInt32.ofNat num + c.fat1Start) 4)).length⟩]
  else []

/-- The writes of the first turns of `__load_file`, the next being turn `n`. -/
def loadWrites : Nat → Nat → Context → UInt32 → Nat → List Write
  | 0, _, _, _, _ => []
  | fuel + 1, n, c, clus, dst =>
    if clus < 0x0FFFFFF0 then
      let startSector := c.dataStart + (clus - 2) * UInt32.ofNat c.info.sectorsPerClus
      let next := lookupEntry read disks around n c clus
      ⟨.rootDirectory, dst, (content disks (read c startSector c.info.sectorsPerClus)).length⟩ ::
        refillWrites read disks c (clus.toNat / 128) ++
          loadWrites fuel (n + 1) next.1 next.2 (dst + c.info.sectorsPerClus * c.info.bytesPerSector)
    else []

/-- The writes of `load_fat32_fs` up to some turn of the loop. -/
def mountWrites (fuel : Nat) (c : Context) : List Write :=
  let bytes := content disks (read c c.fat1Start 4)
  ⟨.fatBuffer, 0, bytes.length⟩ :: (c.fatBuffer.store 0 bytes).elim [] fun b =>
    loadWrites read disks around fuel 0 { c with fatBuffer := b, bufferStart := 0 }
      c.info.rootDirectoryStartClus 0

end Reader

def Write.Inside (c : Context) (w : Write) : Prop :=
  match w.target with
  | .rootDirectory => w.offset + w.length ≤ c.rootDirectory.size
  | .fatBuffer => w.offset + w.length ≤ c.fatBuffer.size

/-- Whatever is around the buffer of the FAT, all writes are inside the two buffers. -/
def StaysInside (read : Context → UInt32 → Nat → List Read) (disks : Disks) (c : Context) : Prop :=
  ∀ around fuel, ∀ w ∈ mountWrites read disks around fuel c, w.Inside c

/-- The clusters are empty, or the root directory has at most 16 sectors and its chain
never goes back behind the buffer of the FAT. -/
def RootFits (disks : Disks) (c : Context) : Prop :=
  c.info.sectorsPerClus = 0 ∨ ∃ cs stop,
    Follows disks c 0 c.info.rootDirectoryStartClus cs stop ∧ cs.length * c.info.sectorsPerClus ≤ 16

/-! ### The two readers -/

section Lockstep

variable {disks : Disks} {around : Around}

theorem lookupEntry_absolute (n : Nat) (c : Context) (last : UInt32) :
    lookupEntry Setup.read disks around n (absolute c) last =
      (absolute (lookupEntry Loader.read disks around n c last).1,
        (lookupEntry Loader.read disks around n c last).2) := by
  unfold lookupEntry
  rw [getFat32Entry_absolute]
  cases getFat32Entry Loader.read disks c last <;> rfl

theorem refillWrites_absolute (c : Context) (num : Nat) :
    refillWrites Setup.read disks (absolute c) num = refillWrites Loader.read disks c num := by
  have hread : Setup.read (absolute c) (UInt32.ofNat num + (absolute c).fat1Start) 4 =
      Loader.read c (UInt32.ofNat num + c.fat1Start) 4 := by
    rw [← read_absolute, UInt32.add_assoc]
    rfl
  rw [refillWrites, hread]
  rfl

theorem loadWrites_absolute (disks : Disks) (around : Around) (fuel n : Nat) (c : Context) (clus : UInt32) (dst : Nat) :
    loadWrites Setup.read disks around fuel n (absolute c) clus dst =
      loadWrites Loader.read disks around fuel n c clus dst := by
  induction fuel generalizing n c clus dst with
  | zero => rfl
  | succ fuel ih =>
    simp only [loadWrites]
    rw [readClus_absolute, refillWrites_absolute, lookupEntry_absolute, ih]
    rfl

theorem staysInside_absolute (disks : Disks) (c : Context) :
    StaysInside Setup.read disks (absolute c) ↔ StaysInside Loader.read disks c := by
  have hread : Setup.read (absolute c) (absolute c).fat1Start 4 = Loader.read c c.fat1Start 4 :=
    read_absolute c c.fat1Start 4
  have hwrites : ∀ around fuel, mountWrites Setup.read disks around fuel (absolute c) =
      mountWrites Loader.read disks around fuel c := by
    intro around fuel
    have hbuffer : (absolute c).fatBuffer = c.fatBuffer := rfl
    simp only [mountWrites, hread, hbuffer]
    generalize content disks (Loader.read c c.fat1Start 4) = bytes
    cases c.fatBuffer.store 0 bytes with
    | none => rfl
    | some b =>
      have hloop := loadWrites_absolute disks around fuel 0
        { c with fatBuffer := b, bufferStart := 0 } c.info.rootDirectoryStartClus 0
      simp only [Option.elim_some]
      rw [← hloop]
      rfl
  refine forall₂_congr fun around fuel => ?_
  rw [hwrites]
  rfl

end Lockstep

/-! ### The loop of the setup module -/

section Loop

variable {disks : Disks} {around : Around} {c : Context} {clus : UInt32} {start fuel n dst m : Nat}

theorem length_read (disks : Disks) (c : Context) (lba : UInt32) (num : Nat) :
    (content disks (Setup.read c lba num)).length = 512 * num := by
  rw [Setup.read, length_content_readSector]

theorem lookupEntry_spec (around : Around) (h : BufferOk disks c start) (n : Nat) (last : UInt32) :
    match slide start last with
    | some stop => ∃ c', lookupEntry Setup.read disks around n c last = (c', fatEntry disks c last) ∧
        SameVolume c c' ∧ BufferOk disks c' stop
    | none => ∃ offset, lookupEntry Setup.read disks around n c last = (c, around n offset) := by
  have hentry := getFat32Entry_spec h last
  cases hs : slide start last with
  | some stop =>
    rw [hs] at hentry
    obtain ⟨c', reads, hentry, hsame, hok⟩ := hentry
    exact ⟨c', by rw [lookupEntry, hentry], hsame, hok⟩
  | none =>
    rw [hs] at hentry
    exact ⟨_, by rw [lookupEntry, hentry]⟩

theorem refillWrites_fat {num : Nat} :
    ∀ w ∈ refillWrites Setup.read disks c num, w = ⟨.fatBuffer, 0, 2048⟩ := by
  intro w hw
  rw [refillWrites] at hw
  split at hw
  · rw [List.mem_singleton.mp hw, length_read]
  · simp at hw

theorem lookupEntry_info (n : Nat) (c : Context) (last : UInt32) :
    (lookupEntry Setup.read disks around n c last).1.info = c.info := by
  unfold lookupEntry
  cases hs : getFat32Entry Setup.read disks c last with
  | none => rfl
  | some r =>
    obtain ⟨m, hm, hs⟩ := Option.bind_eq_some_iff.mp hs
    obtain ⟨bytes, -, rfl⟩ := Option.map_eq_some_iff.mp hs
    exact refill_info hm

/-- Without sectors in a cluster nothing is written to the root directory. -/
theorem loadWrites_empty (h : c.info.sectorsPerClus = 0) :
    ∀ w ∈ loadWrites Setup.read disks around fuel n c clus dst,
      w = ⟨.rootDirectory, dst, 0⟩ ∨ w = ⟨.fatBuffer, 0, 2048⟩ := by
  induction fuel generalizing n c clus with
  | zero => simp [loadWrites]
  | succ fuel ih =>
    intro w hw
    rw [loadWrites] at hw
    split at hw
    · rcases List.mem_append.mp hw with hw | hw
      · rcases List.mem_cons.mp hw with he | hw
        · left
          rw [he, length_read, h]
        · exact .inr (refillWrites_fat w hw)
      · rw [h, Nat.zero_mul, Nat.add_zero] at hw
        exact ih (by rw [lookupEntry_info, h]) w hw
    · simp at hw

/-- On a chain that can be followed the clusters are written one behind the other. -/
theorem loadWrites_follows {stop : Nat} {cs : List UInt32} (h : BufferOk disks c start)
    (hf : Follows disks c start clus cs stop) :
    ∀ w ∈ loadWrites Setup.read disks around fuel n c clus dst,
      w.target = .rootDirectory ∧
          w.offset + w.length ≤ dst + cs.length * (c.info.sectorsPerClus * 512) ∨
        w = ⟨.fatBuffer, 0, 2048⟩ := by
  obtain ⟨hchain, hwindow⟩ := hf
  generalize hnext : fatEntry disks c = next at hchain
  induction hchain generalizing c start fuel n dst with
  | done hend =>
    cases fuel with
    | zero => simp [loadWrites]
    | succ fuel =>
      rw [loadWrites, if_neg hend]
      simp
  | @next clus cs hlt hrest ih =>
    cases fuel with
    | zero => simp [loadWrites]
    | succ fuel =>
      rw [window, List.foldlM_cons] at hwindow
      obtain ⟨mid, hmid, hwindow⟩ := Option.bind_eq_some_iff.mp hwindow
      have hentry := lookupEntry_spec around h n clus
      rw [hmid] at hentry
      obtain ⟨c1, hentry, hsame, hok⟩ := hentry
      intro w hw
      rw [loadWrites, if_pos hlt] at hw
      simp only [hentry, hnext, h.bytes] at hw
      rw [List.length_cons, Nat.succ_mul]
      rcases List.mem_append.mp hw with hw | hw
      · rcases List.mem_cons.mp hw with he | hw
        · left
          rw [he, length_read]
          exact ⟨rfl, by simp only; omega⟩
        · exact .inr (refillWrites_fat w hw)
      · rcases ih hok hwindow (hsame.fatEntry.trans hnext) w hw with ⟨htarget, hle⟩ | he
        · left
          rw [hsame.info] at hle
          exact ⟨htarget, by omega⟩
        · exact .inr he

theorem loadWrites_succ (hlt : clus < 0x0FFFFFF0) (hbytes : c.info.bytesPerSector = 512) :
    loadWrites Setup.read disks around (fuel + 1) n c clus dst =
      ⟨.rootDirectory, dst, c.info.sectorsPerClus * 512⟩ ::
        refillWrites Setup.read disks c (clus.toNat / 128) ++
          loadWrites Setup.read disks around fuel (n + 1) (lookupEntry Setup.read disks around n c clus).1
            (lookupEntry Setup.read disks around n c clus).2 (dst + c.info.sectorsPerClus * 512) := by
  rw [loadWrites, if_pos hlt, hbytes]
  simp only [length_read, Nat.mul_comm 512]

/-- Outside of the buffer stands 0: the loop goes on for ever at cluster 0. -/
theorem loadWrites_stuck (h : BufferOk disks c start) (hstart : 1 ≤ start) :
    ⟨.rootDirectory, dst + m * (c.info.sectorsPerClus * 512), c.info.sectorsPerClus * 512⟩ ∈
      loadWrites Setup.read disks (fun _ _ => 0) (m + 1) n c 0 dst := by
  induction m generalizing n dst with
  | zero =>
    rw [loadWrites_succ (by decide) h.bytes, Nat.zero_mul, Nat.add_zero]
    exact List.mem_append_left _ (List.mem_cons_self ..)
  | succ m ih =>
    have hslide : slide start 0 = none := by
      rw [slide, if_neg (by simp), if_pos (by simpa using Nat.pos_of_ne_zero (by omega))]
    have hentry := lookupEntry_spec (fun _ _ => 0) h n 0
    rw [hslide] at hentry
    obtain ⟨offset, hentry⟩ := hentry
    rw [loadWrites_succ (by decide) h.bytes, hentry]
    refine List.mem_append_right _ ?_
    have hsum : dst + (m + 1) * (c.info.sectorsPerClus * 512) =
        dst + c.info.sectorsPerClus * 512 + m * (c.info.sectorsPerClus * 512) := by
      rw [Nat.succ_mul]
      omega
    rw [hsum]
    exact ih

/-- A chain that does not end within `m` clusters, or goes back, writes one more. -/
theorem loadWrites_long (n dst : Nat) (h : BufferOk disks c start)
    (hno : ¬ ∃ cs stop, Follows disks c start clus cs stop ∧ cs.length ≤ m) :
    ⟨.rootDirectory, dst + m * (c.info.sectorsPerClus * 512), c.info.sectorsPerClus * 512⟩ ∈
      loadWrites Setup.read disks (fun _ _ => 0) (m + 1) n c clus dst := by
  induction m generalizing c start clus n dst with
  | zero =>
    have hlt : clus < 0x0FFFFFF0 := by
      by_contra hend
      exact hno ⟨[], start, ⟨.done hend, rfl⟩, le_rfl⟩
    rw [loadWrites_succ hlt h.bytes, Nat.zero_mul, Nat.add_zero]
    exact List.mem_append_left _ (List.mem_cons_self ..)
  | succ m ih =>
    have hlt : clus < 0x0FFFFFF0 := by
      by_contra hend
      exact hno ⟨[], start, ⟨.done hend, rfl⟩, Nat.zero_le _⟩
    have hsum : dst + (m + 1) * (c.info.sectorsPerClus * 512) =
        dst + c.info.sectorsPerClus * 512 + m * (c.info.sectorsPerClus * 512) := by
      rw [Nat.succ_mul]
      omega
    have hentry := lookupEntry_spec (fun _ _ => 0) h n clus
    rw [loadWrites_succ hlt h.bytes, hsum]
    refine List.mem_append_right _ ?_
    cases hs : slide start clus with
    | some mid =>
      rw [hs] at hentry
      obtain ⟨c1, hentry, hsame, hok⟩ := hentry
      rw [hentry, ← hsame.info]
      refine ih _ _ hok ?_
      rintro ⟨cs, stop, ⟨hchain, hwindow⟩, hle⟩
      rw [hsame.fatEntry] at hchain
      refine hno ⟨clus :: cs, stop, ⟨.next hlt hchain, ?_⟩, Nat.succ_le_succ hle⟩
      rw [window, List.foldlM_cons, hs]
      exact hwindow
    | none =>
      rw [hs] at hentry
      obtain ⟨offset, hentry⟩ := hentry
      rw [hentry]
      refine loadWrites_stuck h ?_
      rw [slide] at hs
      split at hs
      · simp at hs
      · split at hs
        · omega
        · simp at hs

/-- The context stays in the buffers if and only if its root directory fits. -/
theorem staysInside_iff (hbytes : c.info.bytesPerSector = 512) (hroot : c.rootDirectory.size = 8192)
    (hfat : c.fatBuffer.size = 2048) : StaysInside Setup.read disks c ↔ RootFits disks c := by
  obtain ⟨b, hb, hok⟩ := BufferOk.filled disks hbytes hfat 0
  rw [show UInt32.ofNat 0 = 0 from rfl, UInt32.zero_add] at hb
  have hsame : SameVolume c { c with fatBuffer := b, bufferStart := 0 } := rfl
  have hwrites : ∀ around fuel, mountWrites Setup.read disks around fuel c =
      ⟨.fatBuffer, 0, 2048⟩ :: loadWrites Setup.read disks around fuel 0
        { c with fatBuffer := b, bufferStart := 0 } c.info.rootDirectoryStartClus 0 := by
    intro around fuel
    simp only [mountWrites, hb, Option.elim_some, length_read]
  have hfatWrite : Write.Inside c ⟨.fatBuffer, 0, 2048⟩ := by
    simp only [Write.Inside, hfat]
    exact le_rfl
  constructor
  · intro h
    by_contra hno
    obtain ⟨hspc, hchain⟩ := not_or.mp hno
    have hlong : ¬ ∃ cs stop, Follows disks { c with fatBuffer := b, bufferStart := 0 } 0
        c.info.rootDirectoryStartClus cs stop ∧ cs.length ≤ 16 / c.info.sectorsPerClus := by
      rintro ⟨cs, stop, hf, hle⟩
      refine hchain ⟨cs, stop, hf, ?_⟩
      exact (Nat.mul_le_mul_right _ hle).trans (Nat.div_mul_le_self _ _)
    have hmem := loadWrites_long 0 0 hok hlong
    have hin := h _ _ _ (by rw [hwrites]; exact List.mem_cons_of_mem _ hmem)
    simp only [Write.Inside, hroot, Nat.zero_add] at hin
    have hover : 16 < (16 / c.info.sectorsPerClus + 1) * c.info.sectorsPerClus :=
      Nat.lt_mul_of_div_lt (Nat.lt_succ_self _) (Nat.pos_of_ne_zero hspc)
    rw [Nat.add_mul, Nat.one_mul] at hover
    rw [← Nat.mul_assoc] at hin
    omega
  · intro h around fuel w hw
    rw [hwrites] at hw
    rcases List.mem_cons.mp hw with rfl | hw
    · exact hfatWrite
    rcases h with hspc | ⟨cs, stop, hf, hfits⟩
    · rcases loadWrites_empty (c := { c with fatBuffer := b, bufferStart := 0 }) hspc w hw with
        rfl | rfl
      · exact Nat.zero_le _
      · exact hfatWrite
    · rcases loadWrites_follows hok hf w hw with ⟨htarget, hle⟩ | rfl
      · have hle : w.offset + w.length ≤ 0 + cs.length * (c.info.sectorsPerClus * 512) := hle
        simp only [Write.Inside, htarget, hroot]
        rw [Nat.zero_add, ← Nat.mul_assoc] at hle
        omega
      · exact hfatWrite

end Loop

/-! ### Mounting -/

/-- The context of the loader before it reads the FAT. -/
def Loader.volume (disks : Disks) (diskSelector garbage : UInt32) (partitionId : Nat) : Context :=
  let startLba := partitionStart (content disks (Loader.readSector 0 1 diskSelector)) partitionId
  let info := Info.ofBytes (content disks (Loader.readSector (startLba + 0) 1 garbage))
  let fat1Start := UInt32.ofNat info.reversedSectors
  ⟨diskSelector, startLba, info, fat1Start,
    fat1Start + UInt32.ofNat info.numFats * info.fatSectors, alloc (16 * info.bytesPerSector),
    alloc (4 * info.bytesPerSector), 0⟩

theorem Loader.loadFat32Fs_eq (disks : Disks) (fuel : Nat) (diskSelector garbage : UInt32)
    (partitionId : Nat) : ∃ reads, Loader.loadFat32Fs disks fuel diskSelector garbage partitionId =
      (loadBuffers Loader.read disks fuel
        (Loader.volume disks diskSelector garbage partitionId)).map fun r => (r.1, reads ++ r.2) := by
  unfold Loader.loadFat32Fs Loader.volume
  exact ⟨_, rfl⟩

theorem volume_buffers (disks : Disks) (diskSelector startLba : UInt32) :
    (volume disks diskSelector startLba).rootDirectory.size =
        16 * (volume disks diskSelector startLba).info.bytesPerSector ∧
      (volume disks diskSelector startLba).fatBuffer.size =
        4 * (volume disks diskSelector startLba).info.bytesPerSector :=
  ⟨rfl, rfl⟩

theorem Loader.volume_buffers (disks : Disks) (diskSelector garbage : UInt32) (partitionId : Nat) :
    (absolute (Loader.volume disks diskSelector garbage partitionId)).rootDirectory.size =
        16 * (Loader.volume disks diskSelector garbage partitionId).info.bytesPerSector ∧
      (absolute (Loader.volume disks diskSelector garbage partitionId)).fatBuffer.size =
        4 * (Loader.volume disks diskSelector garbage partitionId).info.bytesPerSector :=
  ⟨rfl, rfl⟩

/-- A volume with sectors of 512 bytes is mounted inside the buffers if and only if its
root directory fits, by the setup module and by the loader. -/
theorem mount_inside (disks : Disks) (diskSelector garbage startLba : UInt32) (partitionId : Nat) :
    ((volume disks diskSelector startLba).info.bytesPerSector = 512 →
      (StaysInside Setup.read disks (volume disks diskSelector startLba) ↔
        RootFits disks (volume disks diskSelector startLba))) ∧
    ((Loader.volume disks diskSelector garbage partitionId).info.bytesPerSector = 512 →
      (StaysInside Loader.read disks (Loader.volume disks diskSelector garbage partitionId) ↔
        RootFits disks (absolute (Loader.volume disks diskSelector garbage partitionId)))) := by
  constructor
  · intro hbytes
    obtain ⟨hroot, hfat⟩ := volume_buffers disks diskSelector startLba
    exact staysInside_iff hbytes (by rw [hroot, hbytes]) (by rw [hfat, hbytes])
  · intro hbytes
    obtain ⟨hroot, hfat⟩ := Loader.volume_buffers disks diskSelector garbage partitionId
    rw [← staysInside_absolute]
    exact staysInside_iff hbytes (by rw [hroot, hbytes]) (by rw [hfat, hbytes])

theorem mount_inside_sample :
    (StaysInside Setup.read sample sampleVolume ↔ RootFits sample sampleVolume) ∧
      (StaysInside Loader.read sample (Loader.volume sample 0 0 0) ↔
        RootFits sample (absolute (Loader.volume sample 0 0 0))) :=
  ⟨(mount_inside sample 0 0 (startOf sample 0 0) 0).1
      (congrArg Info.bytesPerSector sampleVolume_info),
    (mount_inside sample 0 0 (startOf sample 0 0) 0).2 (by decide +kernel)⟩

/-- The sample with clusters of 32 sectors. -/
def largeClusters : Disks := fun device sector i =>
  if sector = 64 ∧ i = 13 then 32 else sample device sector i

/-- One cluster of the root directory is more than the buffer. -/
theorem mount_overflow : ¬ ∀ disks diskSelector startLba,
    (volume disks diskSelector startLba).info.bytesPerSector = 512 →
      StaysInside Setup.read disks (volume disks diskSelector startLba) := by
  intro h
  have hinfo : (volume largeClusters 0 64).info = ⟨512, 32, 32, 2, 66581, 512, 2⟩ := by
    decide +kernel
  have hbytes : (volume largeClusters 0 64).info.bytesPerSector = 512 :=
    congrArg Info.bytesPerSector hinfo
  obtain ⟨hroot, hfat⟩ := volume_buffers largeClusters 0 64
  rcases (staysInside_iff hbytes (by rw [hroot, hbytes]) (by rw [hfat, hbytes])).mp
    (h largeClusters 0 64 hbytes) with hzero | ⟨cs, stop, ⟨hchain, -⟩, hle⟩
  · rw [hinfo] at hzero
    exact absurd hzero (by decide)
  · rw [hinfo] at hchain hle
    cases hchain with
    | done hend => exact hend (by decide)
    | next hlt hrest =>
      simp only [List.length_cons] at hle
      omega

end Fat32

end TayHuang
