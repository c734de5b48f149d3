import TayHuang.Fat32Chains
import TayHuang.Fat32Searching

/-! What a reader needs of the volume. It has room for 16 sectors of the root directory
and looks for a name there and, behind what it has read of it, in the heap. -/

namespace TayHuang

namespace Fat32

open Buffers LittleEndian

def chainBytes (disks : Disks) (c : Context) (cs : List UInt32) : List UInt8 :=
  cs.flatMap (clusterBytes disks c)

/-- From one cluster to the next in memory. -/
def stride (c : Context) : Nat := c.info.sectorsPerClus * c.info.bytesPerSector

/-- All clusters are written inside of `size` bytes. -/
def Fits (c : Context) (size : Nat) (cs : List UInt32) : Prop :=
  ∀ i < cs.length, i * stride c + c.info.sectorsPerClus * 512 ≤ size

/-- The byte `i` of the clusters as they stand in memory. -/
def dirByte (disks : Disks) (c : Context) : List UInt32 → Nat → Option UInt8
  | [], _ => none
  | clus :: cs, i =>
    if i < stride c then (clusterBytes disks c clus)[i]? else dirByte disks c cs (i - stride c)

/-- What a search for a name can read: the root directory, and what the heap holds where no
cluster of it stands. -/
def rootBytes (disks : Disks) (c : Context) (cs : List UInt32) (heap : Nat → UInt8) : List UInt8 :=
  (List.range 8216).map fun i => (dirByte disks c cs i).getD (heap i)

/-- The root directory of a volume, and where the buffer of the FAT then is. -/
structure RootDirectory (disks : Disks) (v : Context) (cs : List UInt32) (start : Nat) : Prop where
  room : 512 ≤ v.info.bytesPerSector
  walk : Walk disks v 0 v.info.rootDirectoryStartClus cs start
  fits : Fits v (16 * v.info.bytesPerSector) cs

/-- The two clusters lead through the same sectors to the same bytes. -/
def ReadAlike (disks : Disks) (v : Context) (start : Nat) (clus clus' : UInt32) : Prop :=
  ∃ ds stop ds' stop', Walk disks v start clus ds stop ∧ Walk disks v start clus' ds' stop' ∧
    walkReads v start ds = walkReads v start ds' ∧ walkWrites disks v 0 ds = walkWrites disks v 0 ds'

/-- The name, if it has a dot and can be a name of eleven characters, is found in both
memories or in neither, and what is found can be read alike. -/
def SameFile (disks : Disks) (v : Context) (start : Nat) (mem mem' name : List UInt8) : Prop :=
  ∃ converted, convert name = some converted ∧ ∀ buffer, converted = some buffer →
    ((∃ clus, LeadsTo mem buffer clus) ↔ ∃ clus, LeadsTo mem' buffer clus) ∧
      ∀ clus clus', LeadsTo mem buffer clus → LeadsTo mem' buffer clus' →
        ReadAlike disks v start clus clus'

/-- The root directory can be read, and the name is the same file with either heap. -/
def Readable (disks : Disks) (v : Context) (heap heap' : Nat → UInt8) (name : List UInt8) : Prop :=
  ∃ cs start, RootDirectory disks v cs start ∧
    SameFile disks v start (rootBytes disks v cs heap) (rootBytes disks v cs heap') name

variable {disks : Disks} {c c' v : Context} {cs : List UInt32} {start stop fuel : Nat}

/-! ### The clusters in memory -/

theorem length_clusterBytes (disks : Disks) (c : Context) (clus : UInt32) :
    (clusterBytes disks c clus).length = c.info.sectorsPerClus * 512 := by
  rw [clusterBytes, Setup.read, length_content_readSector, Nat.mul_comm]

theorem length_chainBytes (cs : List UInt32) :
    (chainBytes disks c cs).length = cs.length * (c.info.sectorsPerClus * 512) := by
  induction cs with
  | nil => simp [chainBytes]
  | cons clus cs ih =>
    rw [chainBytes, List.flatMap_cons, List.length_append, length_clusterBytes, ← chainBytes, ih,
      List.length_cons, Nat.succ_mul, Nat.add_comm]

theorem le_stride (h : 512 ≤ c.info.bytesPerSector) : c.info.sectorsPerClus * 512 ≤ stride c :=
  Nat.mul_le_mul_left _ h

/-- The writes fit if and only if the clusters do. -/
theorem inside_iff {size : Nat} (dst : Nat) (cs : List UInt32) :
    (∀ w ∈ walkWrites disks c dst cs, w.1 + w.2.length ≤ size) ↔
      ∀ i < cs.length, dst + i * stride c + c.info.sectorsPerClus * 512 ≤ size := by
  induction cs generalizing dst with
  | nil => simp [walkWrites]
  | cons clus cs ih =>
    rw [walkWrites, List.forall_mem_cons, ih, length_clusterBytes, ← stride]
    constructor
    · rintro ⟨hfirst, hrest⟩ i hi
      cases i with
      | zero => rwa [Nat.zero_mul, Nat.add_zero]
      | succ i =>
        have hi' := hrest i (Nat.lt_of_succ_lt_succ hi)
        rw [Nat.succ_mul]
        omega
    · intro h
      refine ⟨by simpa using h 0 (Nat.succ_pos _), fun i hi => ?_⟩
      have hi' := h (i + 1) (Nat.succ_lt_succ hi)
      rw [Nat.succ_mul] at hi'
      omega

theorem storeAll_isSome {b : Buffer} {ws : List (Nat × List UInt8)}
    (h : ∀ w ∈ ws, w.1 + w.2.length ≤ b.size) : ∃ b', b.storeAll ws = some b' := by
  induction ws generalizing b with
  | nil => exact ⟨b, rfl⟩
  | cons w ws ih =>
    obtain ⟨hfirst, hrest⟩ := List.forall_mem_cons.mp h
    obtain ⟨b1, hb1⟩ := store_isSome hfirst
    obtain ⟨-, hsize, -⟩ := store_some hb1
    obtain ⟨b2, hb2⟩ := ih (b := b1) (by rwa [hsize])
    refine ⟨b2, ?_⟩
    rw [Buffer.storeAll, List.foldlM_cons, hb1]
    exact hb2

theorem storeAll_inside {b b' : Buffer} {ws : List (Nat × List UInt8)} (h : b.storeAll ws = some b') :
    ∀ w ∈ ws, w.1 + w.2.length ≤ b.size := by
  induction ws generalizing b with
  | nil => simp
  | cons w ws ih =>
    rw [Buffer.storeAll, List.foldlM_cons] at h
    obtain ⟨b1, hb1, h⟩ := Option.bind_eq_some_iff.mp h
    obtain ⟨hfits, hsize, -⟩ := store_some hb1
    have hrest := ih h
    rw [hsize] at hrest
    exact List.forall_mem_cons.mpr ⟨hfits, hrest⟩

theorem storeAll_cells (hroom : 512 ≤ c.info.bytesPerSector) {b b' : Buffer} {dst : Nat}
    (h : b.storeAll (walkWrites disks c dst cs) = some b') (i : Nat) :
    b'.cell i = if dst ≤ i then (dirByte disks c cs (i - dst)).or (b.cell i) else b.cell i := by
  induction cs generalizing b dst with
  | nil =>
    obtain rfl := Option.some.inj h
    simp [dirByte]
  | cons clus cs ih =>
    rw [walkWrites, Buffer.storeAll, List.foldlM_cons, ← stride] at h
    obtain ⟨b1, hb1, h⟩ := Option.bind_eq_some_iff.mp h
    obtain ⟨-, -, hcells⟩ := store_some hb1
    have hle := le_stride hroom
    simp only [length_clusterBytes] at hcells
    have hlen := length_clusterBytes disks c clus
    rw [ih h, dirByte]
    by_cases h1 : dst + stride c ≤ i
    · rw [if_pos h1, if_pos (by omega), if_neg (by omega), hcells, if_neg (by omega), Nat.sub_add_eq]
    · rw [if_neg h1, hcells]
      by_cases h2 : dst ≤ i
      · rw [if_pos h2, if_pos (show i - dst < stride c by omega)]
        by_cases h3 : i < dst + c.info.sectorsPerClus * 512
        · rw [if_pos ⟨h2, h3⟩, List.getElem?_eq_getElem (by omega), Option.some_or]
        · rw [if_neg (by omega), List.getElem?_eq_none (by omega), Option.none_or]
      · rw [if_neg (by omega), if_neg h2]

/-! ### A volume mounted and a file read -/

/-- The context of the setup module before it reads the FAT. -/
def volume (disks : Disks) (diskSelector startLba : UInt32) : Context :=
  let info := Info.ofBytes (content disks (Setup.readSector startLba 1 diskSelector))
  let fat1Start := UInt32.ofNat info.reversedSectors + startLba
  ⟨diskSelector, startLba, info, fat1Start,
    fat1Start + UInt32.ofNat info.numFats * info.fatSectors, alloc (16 * info.bytesPerSector),
    alloc (4 * info.bytesPerSector), 0⟩

/-- After `load_fat32_fs`, with the clusters of the root directory. -/
structure Mounted (disks : Disks) (v c : Context) (cs : List UInt32) (stop : Nat) : Prop where
  alike : Alike v c
  buffer : Filled disks c stop
  root : ∀ i, c.rootDirectory.cell i = dirByte disks v cs i

theorem Mounted.searched (h : Mounted disks v c cs stop) (heap : Nat → UInt8) :
    searched c heap = rootBytes disks v cs heap := by
  refine List.map_congr_left fun i _ => ?_
  rw [Buffer.memory, Nat.zero_add, h.root]

theorem loadBuffers_eq {b : Buffer}
    (hstore : v.fatBuffer.store 0 (content disks (Setup.read v v.fat1Start 4)) = some b)
    (hok : Filled disks { v with fatBuffer := b, bufferStart := 0 } 0)
    (hw : Walk disks v 0 v.info.rootDirectoryStartClus cs stop) (hfuel : cs.length < fuel) :
    ∃ c', SameVolume v c' ∧ Filled disks c' stop ∧
      loadBuffers Setup.read disks fuel v =
        (v.rootDirectory.storeAll (walkWrites disks v 0 cs)).map fun root =>
          ({ c' with rootDirectory := root }, Setup.read v v.fat1Start 4 ++ walkReads v 0 cs) := by
  have hmoved : SameVolume v { v with fatBuffer := b, bufferStart := 0 } := rfl
  obtain ⟨c', hfile, hsame', hok'⟩ := loadFile_walk hmoved.alike hok hw hfuel 0
  have hsame := hmoved.trans hsame'
  refine ⟨c', hsame, hok', ?_⟩
  have hroot : c'.rootDirectory = v.rootDirectory := by
    rw [SameVolume] at hsame
    rw [hsame]
  unfold loadBuffers
  simp only [hstore, Option.bind_some, hfile, hroot]

section Mount

variable (hroot : v.rootDirectory = alloc (16 * v.info.bytesPerSector))
  (hfat : v.fatBuffer = alloc (4 * v.info.bytesPerSector))

include hfat in
theorem filled_of_room (disks : Disks) (hroom : 512 ≤ v.info.bytesPerSector) :
    ∃ b, v.fatBuffer.store 0 (content disks (Setup.read v v.fat1Start 4)) = some b ∧
      Filled disks { v with fatBuffer := b, bufferStart := 0 } 0 := by
  have hfilled := Filled.store disks hroom (by rw [hfat]; rfl) (fun i _ => by rw [hfat]; rfl) 0
  rwa [show UInt32.ofNat 0 = 0 from rfl, UInt32.zero_add] at hfilled

include hroot hfat in
/-- A volume that is mounted has a root directory that is read whole. -/
theorem mounted_of_loadBuffers {r : Context × List Read}
    (h : loadBuffers Setup.read disks fuel v = some r) :
    ∃ cs stop, RootDirectory disks v cs stop ∧ cs.length < fuel ∧ Mounted disks v r.1 cs stop ∧
      r.2 = Setup.read v v.fat1Start 4 ++ walkReads v 0 cs := by
  have hload := h
  unfold loadBuffers at h
  obtain ⟨b, hb, h⟩ := Option.bind_eq_some_iff.mp h
  obtain ⟨f, hfile, -⟩ := Option.bind_eq_some_iff.mp h
  have hroom : 512 ≤ v.info.bytesPerSector := by
    obtain ⟨hfits, -, -⟩ := store_some hb
    have hsize : v.fatBuffer.size = 4 * v.info.bytesPerSector := by
      rw [hfat]
      rfl
    rw [Setup.read, length_content_readSector, hsize] at hfits
    omega
  obtain ⟨b', hb', hok⟩ := filled_of_room hfat disks hroom
  obtain rfl := Option.some.inj (hb.symm.trans hb')
  have hmoved : SameVolume v { v with fatBuffer := b, bufferStart := 0 } := rfl
  obtain ⟨cs, stop, hwalk, hlen⟩ := walk_of_loadFile hmoved.alike hok hfile
  obtain ⟨c', hsame, hok', heq⟩ := loadBuffers_eq hb hok hwalk hlen
  rw [heq] at hload
  obtain ⟨root, hstored, rfl⟩ := Option.map_eq_some_iff.mp hload
  have hfits : Fits v (16 * v.info.bytesPerSector) cs := by
    have hin := (inside_iff 0 cs).mp (storeAll_inside hstored)
    simp only [hroot, alloc, Nat.zero_add] at hin
    exact hin
  refine ⟨cs, stop, ⟨hroom, hwalk, hfits⟩, hlen,
    ⟨?_, ⟨hok'.room, hok'.at_start, hok'.size, hok'.cells⟩, fun i => ?_⟩, rfl⟩
  · rw [SameVolume] at hsame
    simp only [Alike]
    rw [hsame]
  · rw [storeAll_cells hroom hstored, if_pos (Nat.zero_le _), hroot, Nat.sub_zero]
    exact Option.or_none

include hroot hfat in
theorem loadBuffers_of_rootDirectory (h : RootDirectory disks v cs stop) (hfuel : cs.length < fuel) :
    ∃ r, loadBuffers Setup.read disks fuel v = some r := by
  obtain ⟨b, hb, hok⟩ := filled_of_room hfat disks h.room
  obtain ⟨c', -, -, heq⟩ := loadBuffers_eq hb hok h.walk hfuel
  have hin : ∀ w ∈ walkWrites disks v 0 cs, w.1 + w.2.length ≤ v.rootDirectory.size := by
    rw [inside_iff, hroot]
    intro i hi
    rw [Nat.zero_add]
    exact h.fits i hi
  obtain ⟨root, hstored⟩ := storeAll_isSome hin
  rw [heq, hstored]
  exact ⟨_, rfl⟩

end Mount

theorem Walk.unique {clus : UInt32} {ds : List UInt32} {stop' : Nat}
    (h : Walk disks c start clus cs stop) (h' : Walk disks c start clus ds stop') :
    cs = ds ∧ stop = stop' := by
  induction h generalizing ds stop' with
  | done h =>
    cases h' with
    | done => exact ⟨rfl, rfl⟩
    | next hlt => exact absurd hlt h
  | next hlt _ _ _ ih =>
    cases h' with
    | done h => exact absurd hlt h
    | next _ _ _ hrest =>
      obtain ⟨rfl, rfl⟩ := ih hrest
      exact ⟨rfl, rfl⟩

/-- What `load_fat32_file` comes to: nothing where the name leads nowhere, else the file. -/
def FileRead (disks : Disks) (v : Context) (start : Nat) (mem name : List UInt8) (stop : Nat)
    (r : List Read × Bool × List (Nat × List UInt8)) : Prop :=
  (∀ clus, ¬ LeadsTo mem name clus) ∧ stop = start ∧ r = ([], false, []) ∨
    ∃ clus ds, LeadsTo mem name clus ∧ Walk disks v start clus ds stop ∧
      r = (walkReads v start ds, true, walkWrites disks v 0 ds)

section File

variable {heap : Nat → UInt8} {name buffer : List UInt8}
  {r : List Read × Bool × List (Nat × List UInt8)}

theorem Mounted.moved (h : Mounted disks v c cs start) (hsame : SameVolume c c')
    (hok : Filled disks c' stop) : Mounted disks v c' cs stop := by
  refine ⟨h.alike.trans hsame.alike, hok, fun i => ?_⟩
  rw [SameVolume] at hsame
  rw [hsame]
  exact h.root i

theorem fileRead_of_loaded (h : Mounted disks v c cs start) (hconv : convert name = some (some buffer))
    (hr : loadFat32File Setup.read disks fuel c heap name = some (c', r)) :
    ∃ stop, FileRead disks v start (rootBytes disks v cs heap) buffer stop r ∧
      Mounted disks v c' cs stop := by
  unfold loadFat32File at hr
  rw [hconv, Option.bind_some] at hr
  by_cases hno : getFileStartClus c heap buffer = 0xFFFFFFFF
  · simp only [hno, if_true, Option.some.injEq, Prod.mk.injEq] at hr
    obtain ⟨rfl, rfl⟩ := hr
    refine ⟨start, .inl ⟨fun clus hclus => ?_, rfl, rfl⟩, h⟩
    have hsearch := hclus
    rw [← h.searched, leadsTo_iff hclus.2.1, hno] at hsearch
    exact hclus.2.1 hsearch.symm
  · simp only [hno, if_false] at hr
    obtain ⟨f, hfile, hf⟩ := Option.map_eq_some_iff.mp hr
    obtain ⟨ds, stop, hw, hlen⟩ := walk_of_loadFile h.alike h.buffer hfile
    obtain ⟨c1, hfile', hsame, hok⟩ := loadFile_walk h.alike h.buffer hw hlen 0
    obtain rfl := Option.some.inj (hfile.symm.trans hfile')
    simp only [Prod.mk.injEq] at hf
    obtain ⟨rfl, rfl⟩ := hf
    have hclus := (leadsTo_iff hno).mpr rfl
    rw [h.searched] at hclus
    exact ⟨stop, .inr ⟨_, ds, hclus, hw, rfl⟩, h.moved hsame hok⟩

theorem loaded_of_fileRead (h : FileRead disks v start (rootBytes disks v cs heap) buffer stop r)
    (hconv : convert name = some (some buffer)) :
    ∃ n, ∀ fuel, n ≤ fuel → ∀ c, Mounted disks v c cs start → ∃ c',
      loadFat32File Setup.read disks fuel c heap name = some (c', r) ∧ Mounted disks v c' cs stop := by
  rcases h with ⟨hno, rfl, rfl⟩ | ⟨clus, ds, hclus, hw, rfl⟩
  · refine ⟨0, fun fuel _ c hc => ⟨c, ?_, hc⟩⟩
    have hnone : getFileStartClus c heap buffer = 0xFFFFFFFF := by
      by_contra hne
      have hleads := (leadsTo_iff hne).mpr rfl
      rw [hc.searched] at hleads
      exact hno _ hleads
    rw [loadFat32File, hconv, Option.bind_some]
    simp only [hnone, if_true]
  · refine ⟨ds.length + 1, fun fuel hfuel c hc => ?_⟩
    have hfound : getFileStartClus c heap buffer = clus := by
      rw [← leadsTo_iff hclus.2.1, hc.searched]
      exact hclus
    obtain ⟨c', hfile, hsame, hok⟩ := loadFile_walk hc.alike hc.buffer hw hfuel 0
    refine ⟨c', ?_, hc.moved hsame hok⟩
    rw [loadFat32File, hconv, Option.bind_some]
    simp only [hfound, if_neg hclus.2.1, hfile, Option.map_some]

/-- Both heaps give the same result if and only if the name is the same file. -/
theorem fileRead_iff {mem mem' : List UInt8} :
    (∃ r stop stop', FileRead disks v start mem buffer stop r ∧
        FileRead disks v start mem' buffer stop' r) ↔
      ((∃ clus, LeadsTo mem buffer clus) ↔ ∃ clus, LeadsTo mem' buffer clus) ∧
        ∀ clus clus', LeadsTo mem buffer clus → LeadsTo mem' buffer clus' →
          ReadAlike disks v start clus clus' := by
  constructor
  · rintro ⟨r, stop, stop', h, h'⟩
    rcases h with ⟨hno, -, rfl⟩ | ⟨clus, ds, hclus, hw, rfl⟩
    · rcases h' with ⟨hno', -, -⟩ | ⟨clus', ds', -, -, hr⟩
      · exact ⟨⟨fun ⟨clus, hc⟩ => absurd hc (hno clus), fun ⟨clus, hc⟩ => absurd hc (hno' clus)⟩,
          fun clus _ hc => absurd hc (hno clus)⟩
      · simp at hr
    · rcases h' with ⟨-, -, hr⟩ | ⟨clus', ds', hclus', hw', hr⟩
      · simp at hr
      · simp only [Prod.mk.injEq, true_and] at hr
        refine ⟨⟨fun _ => ⟨clus', hclus'⟩, fun _ => ⟨clus, hclus⟩⟩, fun x x' hx hx' => ?_⟩
        obtain rfl := hx.unique hclus
        obtain rfl := hx'.unique hclus'
        exact ⟨ds, stop, ds', stop', hw, hw', hr.1, hr.2⟩
  · rintro ⟨hfound, halike⟩
    by_cases hclus : ∃ clus, LeadsTo mem buffer clus
    · obtain ⟨clus', hclus'⟩ := hfound.mp hclus
      obtain ⟨clus, hclus⟩ := hclus
      obtain ⟨ds, stop, ds', stop', hw, hw', hreads, hwritten⟩ := halike clus clus' hclus hclus'
      refine ⟨_, stop, stop', .inr ⟨clus, ds, hclus, hw, rfl⟩, .inr ⟨clus', ds', hclus', hw', ?_⟩⟩
      rw [hreads, hwritten]
    · have hclus' : ¬ ∃ clus, LeadsTo mem' buffer clus := fun h => hclus (hfound.mpr h)
      exact ⟨_, start, start, .inl ⟨not_exists.mp hclus, rfl, rfl⟩,
        .inl ⟨not_exists.mp hclus', rfl, rfl⟩⟩

end File

section Volume

variable {diskSelector startLba : UInt32}

theorem Setup.mounted {r : Context × List Read}
    (h : Setup.loadFat32Fs disks fuel diskSelector startLba = some r) :
    ∃ cs start, RootDirectory disks (volume disks diskSelector startLba) cs start ∧
      Mounted disks (volume disks diskSelector startLba) r.1 cs start := by
  unfold Setup.loadFat32Fs at h
  change (loadBuffers Setup.read disks fuel (volume disks diskSelector startLba)).map _ = _ at h
  obtain ⟨m, hm, rfl⟩ := Option.map_eq_some_iff.mp h
  obtain ⟨cs, start, hroot, -, hmounted, -⟩ := mounted_of_loadBuffers rfl rfl hm
  exact ⟨cs, start, hroot, hmounted⟩

theorem Setup.mount (h : RootDirectory disks (volume disks diskSelector startLba) cs start)
    (hfuel : cs.length < fuel) :
    ∃ r, Setup.loadFat32Fs disks fuel diskSelector startLba = some r := by
  obtain ⟨m, hm⟩ := loadBuffers_of_rootDirectory rfl rfl h hfuel
  unfold Setup.loadFat32Fs
  change ∃ r, (loadBuffers Setup.read disks fuel (volume disks diskSelector startLba)).map _ = some r
  rw [hm]
  exact ⟨_, rfl⟩

theorem RootDirectory.unique {ds : List UInt32} (h : RootDirectory disks v cs start)
    (h' : RootDirectory disks v ds stop) : cs = ds ∧ start = stop :=
  h.walk.unique h'.walk

/-- The setup module comes to the same result with two heaps. -/
theorem loadNamed_iff (heap heap' : Nat → UInt8) (name : List UInt8) :
    (∃ fuel r, Setup.loadNamed disks fuel diskSelector startLba heap name = some r ∧
        Setup.loadNamed disks fuel diskSelector startLba heap' name = some r) ↔
      Readable disks (volume disks diskSelector startLba) heap heap' name := by
  constructor
  · rintro ⟨fuel, r, h, h'⟩
    obtain ⟨m, hm, h⟩ := Option.bind_eq_some_iff.mp h
    obtain ⟨m', hm', h'⟩ := Option.bind_eq_some_iff.mp h'
    obtain rfl := Option.some.inj (hm.symm.trans hm')
    obtain ⟨⟨c, f⟩, hf, hr⟩ := Option.map_eq_some_iff.mp h
    obtain ⟨⟨c', f'⟩, hf', rfl⟩ := Option.map_eq_some_iff.mp h'
    obtain ⟨cs, start, hroot, hmounted⟩ := Setup.mounted hm
    obtain rfl : f = f' := by
      simp only [Prod.mk.injEq, List.append_cancel_left_eq] at hr
      exact Prod.ext hr.1 hr.2
    obtain ⟨converted, hconv, -⟩ := Option.bind_eq_some_iff.mp hf
    refine ⟨cs, start, hroot, converted, hconv, fun buffer hbuffer => ?_⟩
    subst hbuffer
    obtain ⟨stop, hread, -⟩ := fileRead_of_loaded hmounted hconv hf
    obtain ⟨stop', hread', -⟩ := fileRead_of_loaded hmounted hconv hf'
    exact fileRead_iff.mp ⟨f, stop, stop', hread, hread'⟩
  · rintro ⟨cs, start, hroot, converted, hconv, hsame⟩
    cases converted with
    | none =>
      obtain ⟨m, hm⟩ := Setup.mount hroot (Nat.lt_succ_self _)
      refine ⟨cs.length + 1, (m.2 ++ [], false, []), ?_, ?_⟩
      all_goals
        rw [Setup.loadNamed, hm, Option.bind_some, loadFat32File, hconv]
        rfl
    | some buffer =>
      obtain ⟨r, stop, stop', hread, hread'⟩ := fileRead_iff.mpr (hsame buffer rfl)
      obtain ⟨n, hn⟩ := loaded_of_fileRead hread hconv
      obtain ⟨n', hn'⟩ := loaded_of_fileRead hread' hconv
      obtain ⟨m, hm⟩ := Setup.mount hroot (show cs.length < max n n' + cs.length + 1 by omega)
      obtain ⟨ds, start', hroot', hmounted⟩ := Setup.mounted hm
      obtain ⟨rfl, rfl⟩ := hroot.unique hroot'
      obtain ⟨c, hf, -⟩ := hn (max n n' + cs.length + 1) (by omega) m.1 hmounted
      obtain ⟨c', hf', -⟩ := hn' (max n n' + cs.length + 1) (by omega) m.1 hmounted
      refine ⟨max n n' + cs.length + 1, (m.2 ++ r.1, r.2), ?_, ?_⟩
      · rw [Setup.loadNamed, hm, Option.bind_some, hf]
        rfl
      · rw [Setup.loadNamed, hm, Option.bind_some, hf']
        rfl

end Volume

end Fat32

end TayHuang
