import TayHuang.Fat32Agreement

/-! Entries of the FAT looked up in any order. The test for the buffer only looks ahead, so
the entries before it are not found. -/

namespace TayHuang

namespace Fat32

open Buffers LittleEndian

/-- One entry after the other, each from the buffer that the one before has left. -/
def getEntries (read : Context → UInt32 → Nat → List Read) (disks : Disks) :
    Context → List UInt32 → Option (List UInt32)
  | _, [] => some []
  | c, clus :: qs =>
    (getFat32Entry read disks c clus).bind fun r => (getEntries read disks r.1 qs).map (r.2.1 :: ·)

/-- No entry lies before the sectors in the buffer, from the first cluster of the root
directory on. -/
def Forwards (root qs : List UInt32) : Prop := ∃ stop, window 0 (root ++ qs) = some stop

/-- The entries that are found are those of the FAT if and only if the reader never has to
go back. -/
def OnlyForwards (read : Context → UInt32 → Nat → List Read) (disks : Disks)
    (entry : UInt32 → UInt32) (c : Context) : Prop :=
  ∃ root, Chain entry c.info.rootDirectoryStartClus root ∧
    ∀ qs, getEntries read disks c qs = some (qs.map entry) ↔ Forwards root qs

variable {disks : Disks} {c v : Context} {fuel : Nat}

theorem getEntries_iff {start : Nat} (h : BufferOk disks c start) (qs : List UInt32) :
    getEntries Setup.read disks c qs = some (qs.map (fatEntry disks c)) ↔
      ∃ stop, window start qs = some stop := by
  induction qs generalizing c start with
  | nil => exact ⟨fun _ => ⟨start, rfl⟩, fun _ => rfl⟩
  | cons clus qs ih =>
    have hentry := getFat32Entry_spec h clus
    rw [getEntries, window, List.foldlM_cons]
    cases hs : slide start clus with
    | none =>
      rw [hs] at hentry
      simp only at hentry
      rw [hentry, Option.bind_none]
      constructor
      · intro hh
        exact absurd hh (by simp)
      · rintro ⟨stop, hh⟩
        exact absurd hh (by simp)
    | some mid =>
      rw [hs] at hentry
      obtain ⟨c', reads, hentry, hsame, hok⟩ := hentry
      have hrest := ih hok
      rw [hsame.fatEntry] at hrest
      have hcons : (getEntries Setup.read disks c' qs).map (fatEntry disks c clus :: ·) =
            some ((clus :: qs).map (fatEntry disks c)) ↔
          getEntries Setup.read disks c' qs = some (qs.map (fatEntry disks c)) := by
        rw [Option.map_eq_some_iff, List.map_cons]
        constructor
        · rintro ⟨l, hl, heq⟩
          rw [hl, (List.cons.inj heq).2]
        · intro hl
          exact ⟨_, hl, rfl⟩
      rw [hentry, Option.bind_some, hcons, hrest]
      rfl

theorem getEntries_absolute (c : Context) (qs : List UInt32) :
    getEntries Setup.read disks (absolute c) qs = getEntries Loader.read disks c qs := by
  induction qs generalizing c with
  | nil => rfl
  | cons clus qs ih =>
    rw [getEntries, getEntries, getFat32Entry_absolute, Option.bind_map]
    refine Option.bind_congr fun r _ => ?_
    rw [Function.comp_apply, ih]

section Info

variable {read : Context → UInt32 → Nat → List Read}

theorem refill_info {num : Nat} {r : Context × List Read} (h : refill read disks c num = some r) :
    r.1.info = c.info := by
  unfold refill at h
  split at h
  · obtain ⟨b, -, rfl⟩ := Option.map_eq_some_iff.mp h
    rfl
  · obtain rfl := Option.some.inj h
    rfl

theorem loadFile_info {clus : UInt32} {dst : Nat} {r : Context × List Read × List (Nat × List UInt8)}
    (h : loadFile read disks fuel c clus dst = some r) : r.1.info = c.info := by
  induction fuel generalizing c clus dst r with
  | zero => simp [loadFile] at h
  | succ fuel ih =>
    rw [loadFile] at h
    split at h
    · obtain ⟨e, he, h⟩ := Option.bind_eq_some_iff.mp h
      obtain ⟨f, hf, rfl⟩ := Option.map_eq_some_iff.mp h
      obtain ⟨m, hm, he⟩ := Option.bind_eq_some_iff.mp he
      obtain ⟨bytes, -, rfl⟩ := Option.map_eq_some_iff.mp he
      exact (ih hf).trans (refill_info hm)
    · obtain rfl := Option.some.inj h
      rfl

theorem loadBuffers_info {r : Context × List Read} (h : loadBuffers read disks fuel c = some r) :
    r.1.info = c.info := by
  obtain ⟨b, -, h⟩ := Option.bind_eq_some_iff.mp h
  obtain ⟨f, hf, h⟩ := Option.bind_eq_some_iff.mp h
  obtain ⟨dir, -, rfl⟩ := Option.map_eq_some_iff.mp h
  exact (loadFile_info hf).trans rfl

end Info

theorem loadBuffers_follows {r : Context × List Read} (hbytes : v.info.bytesPerSector = 512)
    (hsize : v.fatBuffer.size = 2048) (h : loadBuffers Setup.read disks fuel v = some r) :
    ∃ root stop, Follows disks r.1 0 r.1.info.rootDirectoryStartClus root stop ∧
      BufferOk disks r.1 stop := by
  obtain ⟨b, hb, hok⟩ := BufferOk.filled disks hbytes hsize 0
  rw [show UInt32.ofNat 0 = 0 from rfl, UInt32.zero_add] at hb
  have hmoved : SameVolume v { v with fatBuffer := b, bufferStart := 0 } := rfl
  have hfilled : Filled disks { v with fatBuffer := b, bufferStart := 0 } 0 := (bufferOk_iff.mp hok).2
  have hload := h
  unfold loadBuffers at hload
  simp only [hb, Option.bind_some] at hload
  obtain ⟨f, hfile, -⟩ := Option.bind_eq_some_iff.mp hload
  obtain ⟨root, stop, hwalk, hlen⟩ := walk_of_loadFile hmoved.alike hfilled hfile
  obtain ⟨c', hsame, hok', heq⟩ := loadBuffers_eq hb hfilled hwalk hlen
  rw [heq] at h
  obtain ⟨dir, -, rfl⟩ := Option.map_eq_some_iff.mp h
  have hf := (follows_iff_walk hbytes).mpr hwalk
  have hfat : fatEntry disks { c' with rootDirectory := dir } = fatEntry disks v := hsame.fatEntry
  have hok'' : BufferOk disks c' stop := bufferOk_iff.mpr ⟨by rw [hsame.info, hbytes], hok'⟩
  refine ⟨root, stop, ⟨?_, hf.2⟩, ⟨hok''.bytes, hok''.at_start, hok''.size, hok''.cells⟩⟩
  rw [hfat]
  change Chain _ c'.info.rootDirectoryStartClus root
  rw [hsame.info]
  exact hf.1

theorem onlyForwards_of_loaded {r : Context × List Read} (hbytes : v.info.bytesPerSector = 512)
    (hnew : v.fatBuffer = alloc (4 * v.info.bytesPerSector))
    (h : loadBuffers Setup.read disks fuel v = some r) :
    OnlyForwards Setup.read disks (fatEntry disks r.1) r.1 := by
  have hsize : v.fatBuffer.size = 2048 := by
    rw [hnew, hbytes]
    rfl
  obtain ⟨root, stop, ⟨hchain, hwindow⟩, hok⟩ := loadBuffers_follows hbytes hsize h
  refine ⟨root, hchain, fun qs => ?_⟩
  have hwindows : window 0 (root ++ qs) = window stop qs := by
    rw [window, List.foldlM_append]
    change (window 0 root).bind _ = _
    rw [hwindow]
    rfl
  rw [getEntries_iff hok, Forwards, hwindows]

theorem Loader.onlyForwards_of_loaded {r : Context × List Read}
    (hbytes : v.info.bytesPerSector = 512) (hnew : v.fatBuffer = alloc (4 * v.info.bytesPerSector))
    (h : loadBuffers Loader.read disks fuel v = some r) :
    OnlyForwards Loader.read disks (fatEntry disks (absolute r.1)) r.1 := by
  have habsolute : loadBuffers Setup.read disks fuel (absolute v) = some (absolute r.1, r.2) := by
    rw [loadBuffers_absolute, h]
    rfl
  obtain ⟨root, hchain, hqs⟩ := Fat32.onlyForwards_of_loaded (v := absolute v) hbytes hnew habsolute
  refine ⟨root, hchain, fun qs => ?_⟩
  rw [← hqs qs, getEntries_absolute]

theorem Setup.loaded {diskSelector startLba : UInt32} {r : Context × List Read}
    (hr : Setup.loadFat32Fs disks fuel diskSelector startLba = some r)
    (hbytes : r.1.info.bytesPerSector = 512) :
    OnlyForwards Setup.read disks (fatEntry disks r.1) r.1 := by
  unfold Setup.loadFat32Fs at hr
  obtain ⟨m, hm, rfl⟩ := Option.map_eq_some_iff.mp hr
  rw [loadBuffers_info hm] at hbytes
  have hforwards := onlyForwards_of_loaded hbytes rfl hm
  exact hforwards

theorem Loader.loaded {diskSelector garbage : UInt32} {partitionId : Nat} {r : Context × List Read}
    (hr : Loader.loadFat32Fs disks fuel diskSelector garbage partitionId = some r)
    (hbytes : r.1.info.bytesPerSector = 512) :
    OnlyForwards Loader.read disks (fatEntry disks (absolute r.1)) r.1 := by
  unfold Loader.loadFat32Fs at hr
  obtain ⟨m, hm, rfl⟩ := Option.map_eq_some_iff.mp hr
  rw [loadBuffers_info hm] at hbytes
  have hforwards := Loader.onlyForwards_of_loaded hbytes rfl hm
  exact hforwards

/-- With sectors of 512 bytes, either reader finds the entries of a FAT if and only if it
never has to go back. -/
theorem getEntries_forwards (disks : Disks) (fuel : Nat) (diskSelector : UInt32) :
    (∀ startLba r, Setup.loadFat32Fs disks fuel diskSelector startLba = some r →
      r.1.info.bytesPerSector = 512 → OnlyForwards Setup.read disks (fatEntry disks r.1) r.1) ∧
    ∀ garbage partitionId r,
      Loader.loadFat32Fs disks fuel diskSelector garbage partitionId = some r →
        r.1.info.bytesPerSector = 512 →
          OnlyForwards Loader.read disks (fatEntry disks (absolute r.1)) r.1 :=
  ⟨fun _ _ hr hbytes => Setup.loaded hr hbytes, fun _ _ _ hr hbytes => Loader.loaded hr hbytes⟩

/-! ### Back to the first sector -/

theorem sampleVolume_loaded : ∃ r, Setup.loadFat32Fs sample 2 0 (startOf sample 0 0) = some r ∧
    r.1.info = ⟨512, 1, 32, 2, 66581, 512, 2⟩ := by
  have hbytes : (volume sample 0 (startOf sample 0 0)).info.bytesPerSector = 512 :=
    congrArg Info.bytesPerSector sampleVolume_info
  have hwalk : Walk sample sampleVolume 0 sampleVolume.info.rootDirectoryStartClus [2] 0 := by
    refine (follows_iff_walk hbytes).mp ⟨?_, by decide⟩
    rw [sampleVolume_info]
    exact sampleVolume_chain (.inl rfl)
  have hfits : Fits sampleVolume (16 * sampleVolume.info.bytesPerSector) [2] := by
    unfold Fits stride
    rw [sampleVolume_info]
    decide
  have hroot : RootDirectory sample sampleVolume [2] 0 := ⟨hbytes.ge, hwalk, hfits⟩
  have hread : ∃ r, Setup.loadFat32Fs sample 2 0 (startOf sample 0 0) = some r :=
    Setup.mount hroot (by decide)
  obtain ⟨r, hr⟩ := hread
  refine ⟨r, hr, ?_⟩
  unfold Setup.loadFat32Fs at hr
  obtain ⟨m, hm, rfl⟩ := Option.map_eq_some_iff.mp hr
  exact (loadBuffers_info hm).trans sampleVolume_info

theorem getEntries_forwards_sample : ∃ r r',
    Setup.loadFat32Fs sample 2 0 (startOf sample 0 0) = some r ∧
      Loader.loadFat32Fs sample 2 0 0 0 = some r' ∧
        OnlyForwards Setup.read sample (fatEntry sample r.1) r.1 ∧
          OnlyForwards Loader.read sample (fatEntry sample (absolute r'.1)) r'.1 := by
  obtain ⟨r, hr, hinfo⟩ := sampleVolume_loaded
  have hdevice : deviceOf 0 = deviceOf 0 := rfl
  obtain ⟨m, hloader, hsetup⟩ := loadFat32Fs_absolute sample 2 0 hdevice
  obtain ⟨m, rfl, rfl⟩ := Option.map_eq_some_iff.mp (hsetup.symm.trans hr)
  have hbytes : m.1.info.bytesPerSector = 512 := congrArg Info.bytesPerSector hinfo
  have hboth := getEntries_forwards sample 2 0
  exact ⟨_, _, hr, hloader, hboth.1 _ _ hr hbytes, hboth.2 _ _ _ hloader hbytes⟩

theorem window_back (start : Nat) : window start [512, 0] = none := by
  have hnum : (512 : UInt32).toNat / 128 = 4 := by decide
  have hzero : (0 : UInt32).toNat / 128 = 0 := by decide
  have hback {mid : Nat} (h : 0 < mid) : window mid [0] = none := by
    rw [window, List.foldlM_cons, slide, hzero, if_neg (by omega), if_pos h]
    rfl
  rw [window, List.foldlM_cons, slide, hnum]
  by_cases hfar : start + 4 ≤ 4
  · rw [if_pos hfar]
    exact hback (by decide : 0 < 4)
  · rw [if_neg hfar]
    by_cases hlow : 4 < start
    · rw [if_pos hlow]
      rfl
    · rw [if_neg hlow]
      have hpos : 0 < start := by omega
      exact hback hpos

/-- An entry of the fifth sector is looked up, and then the first entry. -/
theorem getEntries_back : ¬ ∀ (disks : Disks) (fuel : Nat) (diskSelector startLba : UInt32)
    (r : Context × List Read) (qs : List UInt32),
    Setup.loadFat32Fs disks fuel diskSelector startLba = some r → r.1.info.bytesPerSector = 512 →
      (∀ clus ∈ qs, clus.toNat < r.1.info.fatSectors.toNat * 128) →
        getEntries Setup.read disks r.1 qs = some (qs.map (fatEntry disks r.1)) := by
  intro hall
  obtain ⟨r, hr, hinfo⟩ := sampleVolume_loaded
  have hbytes : r.1.info.bytesPerSector = 512 := by rw [hinfo]
  have hinside : ∀ clus ∈ [(512 : UInt32), 0], clus.toNat < r.1.info.fatSectors.toNat * 128 := by
    rw [hinfo]
    intro clus hclus
    rcases List.mem_cons.mp hclus with rfl | hclus
    · decide
    · rw [List.mem_singleton.mp hclus]
      decide
  have hentries := hall sample 2 0 (startOf sample 0 0) r [512, 0] hr hbytes hinside
  obtain ⟨root, -, hqs⟩ := Setup.loaded hr hbytes
  obtain ⟨stop, hstop⟩ := (hqs [512, 0]).mp hentries
  rw [window, List.foldlM_append] at hstop
  obtain ⟨mid, -, hstop⟩ := Option.bind_eq_some_iff.mp hstop
  rw [← window, window_back] at hstop
  exact absurd hstop (by simp)

end Fat32

end TayHuang
