import TayHuang.Fat32Readers

/-! The chains of clusters. A reader follows a chain only forwards, as its buffer has
four sectors of the FAT and only moves on. It takes a sector of the FAT for as long as the
volume says that sectors are; with 512 bytes it follows the chain of the FAT. -/

namespace TayHuang

namespace Fat32

open Buffers LittleEndian

/-- The clusters from `clus` to the end of the file. -/
inductive Chain (next : UInt32 → UInt32) : UInt32 → List UInt32 → Prop
  | done {clus : UInt32} (h : ¬ clus < 0x0FFFFFF0) : Chain next clus []
  | next {clus : UInt32} {cs : List UInt32} (h : clus < 0x0FFFFFF0)
    (rest : Chain next (next clus) cs) : Chain next clus (clus :: cs)

/-- Where the buffer starts after the entry of a cluster was looked up. -/
def slide (start : Nat) (clus : UInt32) : Option Nat :=
  if start + 4 ≤ clus.toNat / 128 then some (clus.toNat / 128)
  else if clus.toNat / 128 < start then none
  else some start

def window (start : Nat) (cs : List UInt32) : Option Nat := cs.foldlM slide start

def fatByte (disks : Disks) (c : Context) (k : Nat) : UInt8 :=
  disks (deviceOf c.selector) (address (c.fat1Start + UInt32.ofNat (k / 512)).toNat) (k % 512)

def fatEntry (disks : Disks) (c : Context) (clus : UInt32) : UInt32 :=
  UInt32.ofNat (ofBytes ((List.range 4).map fun j => fatByte disks c (4 * clus.toNat + j)))

/-- The chain ends, and the buffer never has to go back. -/
def Follows (disks : Disks) (c : Context) (start : Nat) (clus : UInt32) (cs : List UInt32)
    (stop : Nat) : Prop :=
  Chain (fatEntry disks c) clus cs ∧ window start cs = some stop

/-- Where the buffer starts once the entry of a cluster is in it, or before it. -/
def moved (start : Nat) (clus : UInt32) : Nat :=
  if start + 4 ≤ clus.toNat / 128 then clus.toNat / 128 else start

/-- Where the entry of a cluster is looked for in a buffer from sector `start` on. -/
def entryOffset (c : Context) (start : Nat) (clus : UInt32) : Nat :=
  (clus.toNat / 128 - start) * c.info.bytesPerSector + clus.toNat % 128 * 4

/-- The four bytes of the FAT from one on. -/
def fatWord (disks : Disks) (c : Context) (k : Nat) : UInt32 :=
  UInt32.ofNat (ofBytes ((List.range 4).map fun j => fatByte disks c (k + j)))

/-- What the reader takes for the chain: each entry is looked for in the four sectors. -/
inductive Walk (disks : Disks) (c : Context) : Nat → UInt32 → List UInt32 → Nat → Prop
  | done {start : Nat} {clus : UInt32} (h : ¬ clus < 0x0FFFFFF0) : Walk disks c start clus [] start
  | next {start stop : Nat} {clus : UInt32} {cs : List UInt32} (h : clus < 0x0FFFFFF0)
    (ahead : moved start clus ≤ clus.toNat / 128)
    (inside : entryOffset c (moved start clus) clus + 4 ≤ 2048)
    (rest : Walk disks c (moved start clus)
      (fatWord disks c (512 * moved start clus + entryOffset c (moved start clus) clus)) cs stop) :
    Walk disks c start clus (clus :: cs) stop

def clusterBytes (disks : Disks) (c : Context) (clus : UInt32) : List UInt8 :=
  content disks (Setup.read c (c.dataStart + (clus - 2) * UInt32.ofNat c.info.sectorsPerClus)
    c.info.sectorsPerClus)

variable {disks : Disks} {c c' : Context}

/-! ### The bytes of sectors -/

theorem content_readSector (lba : UInt32) (num : Nat) (selector : UInt32) :
    content disks (Setup.readSector lba num selector) = (List.range (512 * num)).map fun i =>
      disks (deviceOf selector) (address (lba + UInt32.ofNat (i / 512)).toNat) (i % 512) := by
  induction num with
  | zero => rfl
  | succ num ih =>
    have hlast : sectorBytes disks ⟨deviceOf selector, address (lba + UInt32.ofNat num).toNat⟩ =
        (List.range 512).map fun i => disks (deviceOf selector)
          (address (lba + UInt32.ofNat ((512 * num + i) / 512)).toNat) ((512 * num + i) % 512) := by
      refine List.map_congr_left fun i hi => ?_
      have hlt := List.mem_range.mp hi
      have h1 : (512 * num + i) / 512 = num := by omega
      have h2 : (512 * num + i) % 512 = i := by omega
      rw [h1, h2]
    have happ : content disks (Setup.readSector lba (num + 1) selector) =
        content disks (Setup.readSector lba num selector) ++
          sectorBytes disks ⟨deviceOf selector, address (lba + UInt32.ofNat num).toNat⟩ := by
      simp only [content, Setup.readSector, List.range_succ, List.map_append, List.flatMap_append,
        List.map_cons, List.map_nil, List.flatMap_cons, List.flatMap_nil, List.append_nil]
    rw [happ, ih, hlast, Nat.mul_succ, List.range_add, List.map_append, List.map_map]
    simp only [Function.comp_def]

theorem length_content_readSector (disks : Disks) (lba : UInt32) (num : Nat) (selector : UInt32) :
    (content disks (Setup.readSector lba num selector)).length = 512 * num := by
  rw [content_readSector, List.length_map, List.length_range]

/-! ### The buffer of the FAT -/

/-- The buffer holds the four sectors from `start` on and nothing else. -/
structure Filled (disks : Disks) (c : Context) (start : Nat) : Prop where
  room : 512 ≤ c.info.bytesPerSector
  at_start : c.bufferStart = start
  size : c.fatBuffer.size = 4 * c.info.bytesPerSector
  cells : ∀ i, c.fatBuffer.cell i =
    if i < 2048 then some (fatByte disks c (512 * start + i)) else none

/-- With sectors of 512 bytes it holds the four sectors from `start` on. -/
structure BufferOk (disks : Disks) (c : Context) (start : Nat) : Prop where
  bytes : c.info.bytesPerSector = 512
  at_start : c.bufferStart = start
  size : c.fatBuffer.size = 2048
  cells : ∀ i < 2048, c.fatBuffer.cell i = some (fatByte disks c (512 * start + i))

theorem bufferOk_iff {start : Nat} :
    BufferOk disks c start ↔ c.info.bytesPerSector = 512 ∧ Filled disks c start := by
  constructor
  · rintro ⟨hbytes, hstart, hsize, hcells⟩
    refine ⟨hbytes, hbytes.ge, hstart, by rw [hsize, hbytes], fun i => ?_⟩
    by_cases hi : i < 2048
    · rw [if_pos hi, hcells i hi]
    · rw [if_neg hi, c.fatBuffer.outside i (by omega)]
  · rintro ⟨hbytes, -, hstart, hsize, hcells⟩
    exact ⟨hbytes, hstart, by rw [hsize, hbytes], fun i hi => by rw [hcells, if_pos hi]⟩

/-- The same volume, perhaps with another part of the FAT in the buffer. -/
def SameVolume (c c' : Context) : Prop :=
  c' = { c with fatBuffer := c'.fatBuffer, bufferStart := c'.bufferStart }

theorem SameVolume.trans {c'' : Context} (h : SameVolume c c') (h' : SameVolume c' c'') :
    SameVolume c c'' := by
  rw [SameVolume] at h h' ⊢
  rw [h', h]

/-- The same volume, perhaps with other buffers. -/
def Alike (c c' : Context) : Prop :=
  c' = { c with rootDirectory := c'.rootDirectory, fatBuffer := c'.fatBuffer,
                bufferStart := c'.bufferStart }

theorem Alike.trans {c'' : Context} (h : Alike c c') (h' : Alike c' c'') : Alike c c'' := by
  rw [Alike] at h h' ⊢
  rw [h', h]

theorem Alike.info (h : Alike c c') : c'.info = c.info := by
  rw [Alike] at h
  rw [h]

theorem Alike.fatWord (h : Alike c c') : fatWord disks c' = fatWord disks c := by
  rw [Alike] at h
  rw [h]
  rfl

theorem SameVolume.alike (h : SameVolume c c') : Alike c c' := by
  rw [SameVolume] at h
  rw [Alike, h]

theorem SameVolume.info (h : SameVolume c c') : c'.info = c.info := h.alike.info

theorem SameVolume.fatEntry (h : SameVolume c c') : fatEntry disks c' = fatEntry disks c := by
  rw [SameVolume] at h
  rw [h]
  rfl

theorem Alike.entryOffset (h : Alike c c') (start : Nat) (clus : UInt32) :
    entryOffset c' start clus = entryOffset c start clus := by
  rw [Fat32.entryOffset, Fat32.entryOffset, h.info]

/-- A buffer that has nothing behind the four sectors, filled again. -/
theorem Filled.store (disks : Disks) (hroom : 512 ≤ c.info.bytesPerSector)
    (hsize : c.fatBuffer.size = 4 * c.info.bytesPerSector)
    (hrest : ∀ i, 2048 ≤ i → c.fatBuffer.cell i = none) (num : Nat) :
    ∃ b, c.fatBuffer.store 0
        (content disks (Setup.read c (UInt32.ofNat num + c.fat1Start) 4)) = some b ∧
      Filled disks { c with fatBuffer := b, bufferStart := num } num := by
  have hlen := length_content_readSector disks (UInt32.ofNat num + c.fat1Start) 4 c.selector
  have hfits : 0 + (content disks (Setup.read c (UInt32.ofNat num + c.fat1Start) 4)).length ≤
      c.fatBuffer.size := by
    rw [Setup.read, hlen]
    omega
  obtain ⟨b, hb⟩ := store_isSome hfits
  obtain ⟨-, hbsize, hcells⟩ := store_some hb
  refine ⟨b, hb, hroom, rfl, hbsize.trans hsize, fun i => ?_⟩
  by_cases hi : i < 2048
  · have hin : 0 ≤ i ∧ i < 0 + (content disks (Setup.read c (UInt32.ofNat num + c.fat1Start) 4)).length := by
      rw [Setup.read, hlen]
      omega
    have hsector : UInt32.ofNat num + c.fat1Start + UInt32.ofNat (i / 512) =
        c.fat1Start + UInt32.ofNat ((512 * num + i) / 512) := by
      have hdiv : (512 * num + i) / 512 = num + i / 512 := by omega
      rw [hdiv, UInt32.ofNat_add]
      ac_rfl
    have hmod : (512 * num + i) % 512 = i % 512 := by omega
    rw [hcells, if_pos hin, if_pos hi, Setup.read, content_readSector, Nat.sub_zero,
      List.getElem?_map, List.getElem?_range (by omega), Option.map_some, fatByte, hsector, hmod]
  · have hout : ¬ (0 ≤ i ∧ i < 0 + (content disks (Setup.read c (UInt32.ofNat num + c.fat1Start) 4)).length) := by
      rw [Setup.read, hlen]
      omega
    rw [hcells, if_neg hout, if_neg hi, hrest i (by omega)]

theorem BufferOk.filled (disks : Disks) (hbytes : c.info.bytesPerSector = 512) (hsize : c.fatBuffer.size = 2048)
    (num : Nat) : ∃ b, c.fatBuffer.store 0
        (content disks (Setup.read c (UInt32.ofNat num + c.fat1Start) 4)) = some b ∧
      BufferOk disks { c with fatBuffer := b, bufferStart := num } num := by
  obtain ⟨b, hb, hfilled⟩ := Filled.store disks hbytes.ge (by rw [hsize, hbytes])
    (fun i hi => c.fatBuffer.outside i (by omega)) num
  exact ⟨b, hb, bufferOk_iff.mpr ⟨hbytes, hfilled⟩⟩

/-- The sectors of the FAT that are read for an entry. -/
def entryReads (c : Context) (start : Nat) (clus : UInt32) : List Read :=
  if start + 4 ≤ clus.toNat / 128 then
    Setup.read c (UInt32.ofNat (clus.toNat / 128) + c.fat1Start) 4
  else []

theorem refill_spec {start : Nat} (h : Filled disks c start) (clus : UInt32) :
    ∃ c', refill Setup.read disks c (clus.toNat / 128) = some (c', entryReads c start clus) ∧
      SameVolume c c' ∧ Filled disks c' (moved start clus) := by
  unfold refill moved entryReads
  by_cases hnum : start + 4 ≤ clus.toNat / 128
  · obtain ⟨b, hb, hok⟩ := Filled.store disks h.room h.size
      (fun i hi => by rw [h.cells, if_neg (by omega)]) (clus.toNat / 128)
    rw [if_pos (by rw [h.at_start]; omega), if_pos hnum, if_pos hnum]
    simp only [hb, Option.map_some]
    exact ⟨_, rfl, rfl, hok⟩
  · rw [if_neg (by rw [h.at_start]; omega), if_neg hnum, if_neg hnum]
    exact ⟨_, rfl, rfl, h⟩

/-- The entry is found where it is looked for, if that is in the four sectors. -/
theorem getFat32Entry_filled {start : Nat} (h : Filled disks c start) {clus : UInt32}
    (hahead : moved start clus ≤ clus.toNat / 128)
    (hin : entryOffset c (moved start clus) clus + 4 ≤ 2048) :
    ∃ c', getFat32Entry Setup.read disks c clus = some (c', fatWord disks c
        (512 * moved start clus + entryOffset c (moved start clus) clus), entryReads c start clus) ∧
      SameVolume c c' ∧ Filled disks c' (moved start clus) := by
  obtain ⟨c', hrefill, hsame, hok⟩ := refill_spec h clus
  refine ⟨c', ?_, hsame, hok⟩
  have hoffset : (((clus.toNat / 128 : Nat) : Int) - c'.bufferStart) * c'.info.bytesPerSector +
      ((clus.toNat % 128 * 4 : Nat) : Int) = (entryOffset c (moved start clus) clus : Nat) := by
    rw [hok.at_start, hsame.info, entryOffset, Int.natCast_add, Int.natCast_mul (_ - _),
      Int.ofNat_sub hahead]
  unfold getFat32Entry
  rw [hrefill, Option.bind_some]
  simp only [hoffset]
  rw [load_eq_some (g := fun j => fatByte disks c'
    (512 * moved start clus + entryOffset c (moved start clus) clus + j)) ?_]
  · rw [Option.map_some, ← hsame.alike.fatWord]
    rfl
  · intro j hj
    rw [hok.cells, if_pos (by omega), Nat.add_assoc]

theorem getFat32Entry_inside {start : Nat} (h : Filled disks c start) {clus : UInt32}
    {r : Context × UInt32 × List Read} (hr : getFat32Entry Setup.read disks c clus = some r) :
    moved start clus ≤ clus.toNat / 128 ∧ entryOffset c (moved start clus) clus + 4 ≤ 2048 := by
  obtain ⟨c', hrefill, hsame, hok⟩ := refill_spec h clus
  unfold getFat32Entry at hr
  rw [hrefill, Option.bind_some] at hr
  obtain ⟨bytes, hbytes, -⟩ := Option.map_eq_some_iff.mp hr
  obtain ⟨hpos, hcells⟩ := load_inside hbytes
  obtain ⟨x, hx⟩ := hcells 3 (by decide)
  rw [hok.cells] at hx
  rw [hok.at_start, hsame.info] at hpos hx
  have hahead : moved start clus ≤ clus.toNat / 128 := by
    by_contra hback
    have hroom := h.room
    have hneg : (((clus.toNat / 128 : Nat) : Int) - (moved start clus : Nat)) *
        c.info.bytesPerSector ≤ (-1) * c.info.bytesPerSector :=
      Int.mul_le_mul_of_nonneg_right (by omega) (by omega)
    omega
  refine ⟨hahead, ?_⟩
  by_contra hout
  rw [← Int.ofNat_sub hahead, ← Int.natCast_mul, ← Int.natCast_add, Int.toNat_natCast, if_neg] at hx
  · simp at hx
  · rw [entryOffset] at hout
    omega

theorem moved_of_slide {start stop : Nat} {clus : UInt32} (h : slide start clus = some stop) :
    moved start clus = stop ∧ stop ≤ clus.toNat / 128 ∧ clus.toNat / 128 < stop + 4 := by
  unfold slide at h
  unfold moved
  split at h
  · rename_i hnum
    obtain rfl := Option.some.inj h
    rw [if_pos hnum]
    omega
  · split at h
    · simp at h
    · rename_i hnum hback
      obtain rfl := Option.some.inj h
      rw [if_neg hnum]
      omega

theorem entryOffset_eq (hbytes : c.info.bytesPerSector = 512) {start : Nat} {clus : UInt32}
    (h : start ≤ clus.toNat / 128) : 512 * start + entryOffset c start clus = 4 * clus.toNat := by
  rw [entryOffset, hbytes]
  omega

theorem getFat32Entry_spec {start : Nat} (h : BufferOk disks c start) (last : UInt32) :
    match slide start last with
    | some stop => ∃ c' reads, getFat32Entry Setup.read disks c last =
        some (c', fatEntry disks c last, reads) ∧ SameVolume c c' ∧ BufferOk disks c' stop
    | none => getFat32Entry Setup.read disks c last = none := by
  obtain ⟨hbytes, hfilled⟩ := bufferOk_iff.mp h
  cases hs : slide start last with
  | some stop =>
    obtain ⟨rfl, hlow, hhigh⟩ := moved_of_slide hs
    have hword := entryOffset_eq hbytes hlow
    obtain ⟨c', hentry, hsame, hok⟩ := getFat32Entry_filled hfilled hlow (by omega)
    rw [hword] at hentry
    exact ⟨c', _, hentry, hsame, bufferOk_iff.mpr ⟨by rw [hsame.info, hbytes], hok⟩⟩
  | none =>
    rw [Option.eq_none_iff_forall_ne_some]
    intro r hr
    obtain ⟨hahead, -⟩ := getFat32Entry_inside hfilled hr
    unfold moved at hahead
    unfold slide at hs
    split at hs
    · simp at hs
    · rename_i hnum
      rw [if_neg hnum] at hahead
      rw [if_neg (by omega)] at hs
      simp at hs

/-! ### Files -/

/-- The sectors that `__load_file` reads. -/
def walkReads (c : Context) : Nat → List UInt32 → List Read
  | _, [] => []
  | start, clus :: cs =>
    Setup.read c (c.dataStart + (clus - 2) * UInt32.ofNat c.info.sectorsPerClus)
        c.info.sectorsPerClus ++ entryReads c start clus ++ walkReads c (moved start clus) cs

/-- What `__load_file` writes from `dst` on. -/
def walkWrites (disks : Disks) (c : Context) : Nat → List UInt32 → List (Nat × List UInt8)
  | _, [] => []
  | dst, clus :: cs =>
    (dst, clusterBytes disks c clus) ::
      walkWrites disks c (dst + c.info.sectorsPerClus * c.info.bytesPerSector) cs

theorem Alike.walkReads (h : Alike c c') (start : Nat) (cs : List UInt32) :
    walkReads c' start cs = walkReads c start cs := by
  rw [Alike] at h
  rw [h]
  induction cs generalizing start with
  | nil => rfl
  | cons clus cs ih =>
    rw [Fat32.walkReads, ih]
    rfl

theorem Alike.walkWrites (h : Alike c c') (dst : Nat) (cs : List UInt32) :
    walkWrites disks c' dst cs = walkWrites disks c dst cs := by
  rw [Alike] at h
  rw [h]
  induction cs generalizing dst with
  | nil => rfl
  | cons clus cs ih =>
    rw [Fat32.walkWrites, ih]
    rfl

theorem loadFile_walk {v : Context} {start stop fuel : Nat} {clus : UInt32} {cs : List UInt32}
    (hv : Alike v c) (h : Filled disks c start) (hw : Walk disks v start clus cs stop)
    (hfuel : cs.length < fuel) (dst : Nat) :
    ∃ c', loadFile Setup.read disks fuel c clus dst =
        some (c', walkReads v start cs, walkWrites disks v dst cs) ∧
      SameVolume c c' ∧ Filled disks c' stop := by
  induction hw generalizing c fuel dst with
  | done hend =>
    obtain ⟨fuel, rfl⟩ := Nat.exists_eq_add_one_of_ne_zero (Nat.ne_of_gt hfuel)
    rw [loadFile, if_neg hend]
    exact ⟨c, rfl, rfl, h⟩
  | @next start stop clus cs hlt hahead hin _ ih =>
    obtain ⟨fuel, rfl⟩ := Nat.exists_eq_add_one_of_ne_zero (Nat.ne_of_gt (Nat.zero_lt_of_lt hfuel))
    have hfirst : walkReads c start [clus] = walkReads v start [clus] := hv.walkReads ..
    have hbytes : walkWrites disks c dst [clus] = walkWrites disks v dst [clus] := hv.walkWrites ..
    obtain ⟨c1, hentry, hsame1, hok1⟩ := getFat32Entry_filled h hahead (by rwa [hv.entryOffset])
    rw [hv.entryOffset, hv.fatWord] at hentry
    obtain ⟨c2, hfile, hsame2, hok2⟩ := ih (hv.trans hsame1.alike) hok1 (Nat.lt_of_succ_lt_succ hfuel)
      (dst + c.info.sectorsPerClus * c.info.bytesPerSector)
    refine ⟨c2, ?_, hsame1.trans hsame2, hok2⟩
    simp only [walkReads, List.append_nil] at hfirst
    simp only [walkWrites, List.cons.injEq, and_true] at hbytes
    rw [loadFile, if_pos hlt, hentry, Option.bind_some, hfile, Option.map_some, walkReads, walkWrites,
      ← hfirst, ← hbytes, ← hv.info]
    rfl

/-- A loop that has a result has followed a chain. -/
theorem walk_of_loadFile {v : Context} {start fuel : Nat} {clus : UInt32} {dst : Nat}
    {r : Context × List Read × List (Nat × List UInt8)} (hv : Alike v c) (h : Filled disks c start)
    (hr : loadFile Setup.read disks fuel c clus dst = some r) :
    ∃ cs stop, Walk disks v start clus cs stop ∧ cs.length < fuel := by
  induction fuel generalizing c start clus dst r with
  | zero => simp [loadFile] at hr
  | succ fuel ih =>
    rw [loadFile] at hr
    by_cases hlt : clus < 0x0FFFFFF0
    · rw [if_pos hlt] at hr
      obtain ⟨e, he, hr⟩ := Option.bind_eq_some_iff.mp hr
      obtain ⟨f, hf, -⟩ := Option.map_eq_some_iff.mp hr
      obtain ⟨hahead, hin⟩ := getFat32Entry_inside h he
      obtain ⟨c1, hentry, hsame, hok⟩ := getFat32Entry_filled h hahead hin
      obtain rfl := Option.some.inj (hentry.symm.trans he)
      obtain ⟨cs, stop, hw, hlen⟩ := ih (hv.trans hsame.alike) hok hf
      rw [hv.entryOffset] at hin hw
      rw [hv.fatWord] at hw
      exact ⟨clus :: cs, stop, .next hlt hahead hin hw, Nat.succ_lt_succ hlen⟩
    · exact ⟨[], start, .done hlt, Nat.succ_pos _⟩

/-! ### Sectors of 512 bytes -/

theorem follows_iff_walk (hbytes : c.info.bytesPerSector = 512) {start stop : Nat} {clus : UInt32}
    {cs : List UInt32} : Follows disks c start clus cs stop ↔ Walk disks c start clus cs stop := by
  have hword {start : Nat} {clus : UInt32} (h : start ≤ clus.toNat / 128) :
      fatWord disks c (512 * start + entryOffset c start clus) = fatEntry disks c clus := by
    rw [entryOffset_eq hbytes h]
    rfl
  constructor
  · rintro ⟨hchain, hwindow⟩
    generalize hnext : fatEntry disks c = next at hchain
    induction hchain generalizing start with
    | done hend =>
      obtain rfl := Option.some.inj hwindow
      exact .done hend
    | @next clus cs hlt _ ih =>
      rw [window, List.foldlM_cons] at hwindow
      obtain ⟨mid, hmid, hwindow⟩ := Option.bind_eq_some_iff.mp hwindow
      obtain ⟨rfl, hlow, hhigh⟩ := moved_of_slide hmid
      have hat := entryOffset_eq hbytes hlow
      refine .next hlt hlow (by omega) ?_
      rw [hword hlow, hnext]
      exact ih hwindow
  · intro hw
    induction hw with
    | done hend => exact ⟨.done hend, rfl⟩
    | @next start stop clus cs hlt hahead hin _ ih =>
      obtain ⟨hchain, hwindow⟩ := ih
      rw [hword hahead] at hchain
      have hslide : slide start clus = some (moved start clus) := by
        unfold slide moved
        unfold moved at hahead
        split
        · rfl
        · rename_i hnum
          rw [if_neg hnum] at hahead
          rw [if_neg (by omega)]
      refine ⟨.next hlt hchain, ?_⟩
      rw [window, List.foldlM_cons, hslide]
      exact hwindow

end Fat32

end TayHuang
