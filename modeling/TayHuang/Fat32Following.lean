import TayHuang.Fat32Chains
import Mathlib.Data.List.Basic

/-! `__load_file` over any `get_fat32_entry` that returns the entries of a FAT, against the
chains as FAT32 defines them. -/

namespace TayHuang

namespace Fat32

/-- The writes of the first turns of `__load_file`, and whether the loop has ended. -/
def loadTurns (get : Context → UInt32 → Option (Context × UInt32 × List Read))
    (read : Context → UInt32 → Nat → List Read) (disks : Disks) :
    Nat → Context → UInt32 → Nat → Bool × List (Nat × List UInt8)
  | 0, _, _, _ => (false, [])
  | fuel + 1, c, clus, dst =>
    if clus < 0x0FFFFFF0 then
      let startSector := c.dataStart + (clus - 2) * UInt32.ofNat c.info.sectorsPerClus
      let written := (dst, content disks (read c startSector c.info.sectorsPerClus))
      match get c clus with
      | none => (false, [written])
      | some r =>
        let rest := loadTurns get read disks fuel r.1 r.2.1
          (dst + c.info.sectorsPerClus * c.info.bytesPerSector)
        (rest.1, written :: rest.2)
    else (true, [])

/-! ### What FAT32 says -/

/-- The next cluster: the low 28 bits of the entry. -/
def nextCluster (entry : UInt32) : UInt32 := entry &&& 0x0FFFFFFF

def DataCluster (clus : UInt32) : Prop := 2 ≤ clus ∧ clus < 0x0FFFFFF7

def EndOfChain (clus : UInt32) : Prop := 0x0FFFFFF8 ≤ clus ∧ clus < 0x10000000

inductive FatChain (fat : UInt32 → UInt32) : UInt32 → List UInt32 → Prop
  | last {clus : UInt32} (h : EndOfChain clus) : FatChain fat clus []
  | next {clus : UInt32} {cs : List UInt32} (h : DataCluster clus)
    (rest : FatChain fat (nextCluster (fat clus)) cs) : FatChain fat clus (clus :: cs)

/-- The clusters of a file: none where it starts at cluster 0, else those of its chain. -/
def IsFile (fat : UInt32 → UInt32) (start : UInt32) (cs : List UInt32) : Prop :=
  start = 0 ∧ cs = [] ∨ FatChain fat start cs ∧ cs.Nodup

/-- What stands at `dst + k` after the writes. -/
def landed : List (Nat × List UInt8) → Nat → Option UInt8
  | [], _ => none
  | w :: ws, k => (landed ws k).or (if w.1 ≤ k then w.2[k - w.1]? else none)

/-- The same drive, partition and geometry. -/
def SameGeometry (c c' : Context) : Prop :=
  c'.selector = c.selector ∧ c'.startLba = c.startLba ∧ c'.info = c.info ∧ c'.dataStart = c.dataStart

/-- `get` returns the entries of `fat`, and changes nothing but the buffer. -/
def Returns (get : Context → UInt32 → Option (Context × UInt32 × List Read))
    (fat : UInt32 → UInt32) (c : Context) : Prop :=
  ∀ c' clus, SameGeometry c c' → ∃ c'' reads, get c' clus = some (c'', fat clus, reads) ∧
    SameGeometry c c''

/-- The bytes of the sectors of a cluster. -/
def clusterSectors (read : Context → UInt32 → Nat → List Read) (disks : Disks) (c : Context)
    (clus : UInt32) : List UInt8 :=
  content disks (read c (c.dataStart + (clus - 2) * UInt32.ofNat c.info.sectorsPerClus)
    c.info.sectorsPerClus)

/-- The loop ends with the bytes of the clusters at `dst`, one cluster behind the other,
and nothing else is written. For an empty file nothing is written in any turn. -/
structure FileLoaded (get : Context → UInt32 → Option (Context × UInt32 × List Read))
    (read : Context → UInt32 → Nat → List Read) (disks : Disks) (c : Context) (start : UInt32)
    (cs : List UInt32) : Prop where
  ends : start ≠ 0 → ∃ fuel, (loadTurns get read disks fuel c start 0).1 = true
  bytes : ∀ fuel, start = 0 ∨ (loadTurns get read disks fuel c start 0).1 = true →
    ∀ k, landed (loadTurns get read disks fuel c start 0).2 k =
      (cs.flatMap (clusterSectors read disks c))[k]?

/-! ### What the loop follows -/

section Follow

variable {get : Context → UInt32 → Option (Context × UInt32 × List Read)}
  {read : Context → UInt32 → Nat → List Read} {disks : Disks} {fat : UInt32 → UInt32} {c c' : Context}
  {clus entry start : UInt32} {cs : List UInt32} {fuel dst k : Nat}

/-- The part of a chain up to the first value that ends the loop. -/
def followed (fat : UInt32 → UInt32) : UInt32 → List UInt32 → List UInt32
  | _, [] => []
  | entry, clus :: cs => if entry < 0x0FFFFFF0 then clus :: followed fat (fat clus) cs else []

/-- Clusters `size` bytes apart. -/
def writesFrom (bytes : UInt32 → List UInt8) (size : Nat) : Nat → List UInt32 → List (Nat × List UInt8)
  | _, [] => []
  | dst, clus :: cs => (dst, bytes clus) :: writesFrom bytes size (dst + size) cs

theorem toNat_nextCluster (entry : UInt32) : (nextCluster entry).toNat = entry.toNat % 2 ^ 28 := by
  rw [nextCluster, UInt32.toNat_and]
  exact Nat.and_two_pow_sub_one_eq_mod _ 28

theorem nextCluster_eq (h : entry < 0x10000000) : nextCluster entry = entry := by
  have hlt : entry.toNat < 2 ^ 28 := UInt32.lt_iff_toNat_lt.mp h
  rw [← UInt32.toNat_inj, toNat_nextCluster, Nat.mod_eq_of_lt hlt]

theorem SameGeometry.refl (c : Context) : SameGeometry c c := ⟨rfl, rfl, rfl, rfl⟩

theorem followed_initial (fat : UInt32 → UInt32) (entry : UInt32) (cs : List UInt32) :
    followed fat entry cs <+: cs := by
  induction cs generalizing entry with
  | nil => exact List.prefix_rfl
  | cons clus cs ih =>
    rw [followed]
    split
    · exact List.cons_prefix_cons.mpr ⟨rfl, ih (fat clus)⟩
    · exact List.nil_prefix

theorem read_congr (hread : read = Setup.read ∨ read = Loader.read) (h : SameGeometry c c')
    (lba : UInt32) (num : Nat) : read c' lba num = read c lba num := by
  obtain ⟨hselector, hstart, -, -⟩ := h
  rcases hread with rfl | rfl
  · rw [Setup.read, Setup.read, hselector]
  · rw [Loader.read, Loader.read, hselector, hstart]

theorem length_clusterSectors (hread : read = Setup.read ∨ read = Loader.read) (disks : Disks)
    (c : Context) (clus : UInt32) :
    (clusterSectors read disks c clus).length = 512 * c.info.sectorsPerClus := by
  rcases hread with rfl | rfl
  · rw [clusterSectors, Setup.read, length_content_readSector]
  · rw [clusterSectors, Loader.read, readSector_eq, length_content_readSector]

theorem clusterSectors_congr (hread : read = Setup.read ∨ read = Loader.read) (h : SameGeometry c c')
    (clus : UInt32) : clusterSectors read disks c' clus = clusterSectors read disks c clus := by
  rw [clusterSectors, read_congr hread h, h.2.2.1, h.2.2.2]
  rfl

/-- On a chain the loop ends, having written what it follows of it. -/
theorem loadTurns_chain (disks : Disks) (hread : read = Setup.read ∨ read = Loader.read)
    (hget : Returns get fat c) (hc : SameGeometry c c') (dst : Nat) (hchain : FatChain fat (nextCluster entry) cs)
    (hfuel : cs.length < fuel) : loadTurns get read disks fuel c' entry dst =
      (true, writesFrom (clusterSectors read disks c) (c.info.sectorsPerClus * c.info.bytesPerSector)
        dst (followed fat entry cs)) := by
  generalize hclus : nextCluster entry = clus at hchain
  induction hchain generalizing c' entry fuel dst with
  | last hend =>
    obtain ⟨fuel, rfl⟩ := Nat.exists_eq_add_one_of_ne_zero (Nat.ne_of_gt hfuel)
    have hstop : ¬ entry < 0x0FFFFFF0 := by
      have hle := UInt32.le_iff_toNat_le.mp hend.1
      rw [← hclus, toNat_nextCluster] at hle
      intro hlt
      have hlt := UInt32.lt_iff_toNat_lt.mp hlt
      have hlow : (0x0FFFFFF0 : UInt32).toNat = 0x0FFFFFF0 := rfl
      have hhigh : (0x0FFFFFF8 : UInt32).toNat = 0x0FFFFFF8 := rfl
      omega
    rw [loadTurns, if_neg hstop]
    rfl
  | @next clus cs hdata hrest ih =>
    obtain ⟨fuel, rfl⟩ := Nat.exists_eq_add_one_of_ne_zero (Nat.ne_of_gt (Nat.zero_lt_of_lt hfuel))
    rw [loadTurns, followed]
    by_cases hlt : entry < 0x0FFFFFF0
    · have hsame : entry = clus := by
        rw [← hclus, nextCluster_eq]
        exact UInt32.lt_iff_toNat_lt.mpr
          ((UInt32.lt_iff_toNat_lt.mp hlt).trans (show 0x0FFFFFF0 < 0x10000000 by decide))
      obtain ⟨c'', reads, hentry, hgeometry⟩ := hget c' entry hc
      have hlen : cs.length < fuel := by
        rw [List.length_cons] at hfuel
        omega
      have hsectors : clusterSectors read disks c' entry = clusterSectors read disks c clus := by
        rw [clusterSectors_congr hread hc, hsame]
      have hinfo := hc.2.2.1
      have hnext : nextCluster (fat entry) = nextCluster (fat clus) := by rw [hsame]
      have hh := ih hgeometry (dst + c.info.sectorsPerClus * c.info.bytesPerSector) hlen hnext
      rw [if_pos hlt, if_pos hlt, hentry]
      simp only [hinfo, hh, writesFrom]
      rw [← hsame, ← hsectors.trans (congrArg _ hsame.symm), clusterSectors, hinfo]
    · rw [if_neg hlt, if_neg hlt]
      rfl

theorem loadTurns_ended {n : Nat} (h : (loadTurns get read disks fuel c clus dst).1 = true)
    (hle : fuel ≤ n) : loadTurns get read disks n c clus dst = loadTurns get read disks fuel c clus dst := by
  induction fuel generalizing n c clus dst with
  | zero => simp [loadTurns] at h
  | succ fuel ih =>
    obtain ⟨n, rfl⟩ := Nat.exists_eq_add_one_of_ne_zero (Nat.ne_of_gt (Nat.zero_lt_of_lt hle))
    rw [loadTurns] at h ⊢
    conv_rhs => rw [loadTurns]
    by_cases hlt : clus < 0x0FFFFFF0
    · rw [if_pos hlt] at h
      rw [if_pos hlt, if_pos hlt]
      cases hr : get c clus with
      | none => rfl
      | some r =>
        rw [hr] at h
        simp only at h ⊢
        rw [ih h (Nat.le_of_succ_le_succ hle)]
    · rw [if_neg hlt, if_neg hlt]

theorem length_loadTurns (hread : read = Setup.read ∨ read = Loader.read) (hget : Returns get fat c)
    (hc : SameGeometry c c') : ∀ w ∈ (loadTurns get read disks fuel c' clus dst).2,
      w.2.length = 512 * c.info.sectorsPerClus := by
  induction fuel generalizing c' clus dst with
  | zero => simp [loadTurns]
  | succ fuel ih =>
    intro w hw
    rw [loadTurns] at hw
    by_cases hlt : clus < 0x0FFFFFF0
    · obtain ⟨c'', reads, hentry, hgeometry⟩ := hget c' clus hc
      rw [if_pos hlt, hentry] at hw
      rcases List.mem_cons.mp hw with rfl | hw
      · rw [← hc.2.2.1]
        exact length_clusterSectors hread disks c' clus
      · exact ih hgeometry w hw
    · rw [if_neg hlt] at hw
      simp at hw

end Follow

/-! ### What the writes leave -/

section Landing

variable {bytes : UInt32 → List UInt8} {size width dst k : Nat} {cs ds : List UInt32}
  {ws : List (Nat × List UInt8)}

theorem landed_isSome : (landed ws k).isSome ↔ ∃ w ∈ ws, w.1 ≤ k ∧ k < w.1 + w.2.length := by
  induction ws with
  | nil => simp [landed]
  | cons w ws ih =>
    rw [landed, Option.isSome_or, Bool.or_eq_true, ih, List.exists_mem_cons_iff, or_comm]
    refine or_congr_left ?_
    by_cases hle : w.1 ≤ k
    · rw [if_pos hle, isSome_getElem?]
      omega
    · rw [if_neg hle]
      simp [hle]

theorem covered_iff (hwidth : ∀ clus, (bytes clus).length = width) (size dst k : Nat)
    (cs : List UInt32) :
    (∃ w ∈ writesFrom bytes size dst cs, w.1 ≤ k ∧ k < w.1 + w.2.length) ↔
      ∃ i < cs.length, dst + i * size ≤ k ∧ k < dst + i * size + width := by
  induction cs generalizing dst with
  | nil => simp [writesFrom]
  | cons clus cs ih =>
    rw [writesFrom, List.exists_mem_cons_iff, ih, hwidth]
    constructor
    · rintro (h | ⟨i, hi, h⟩)
      · exact ⟨0, Nat.succ_pos _, by simpa using h⟩
      · refine ⟨i + 1, Nat.succ_lt_succ hi, ?_⟩
        rw [Nat.succ_mul]
        omega
    · rintro ⟨i, hi, h⟩
      cases i with
      | zero => exact .inl (by simpa using h)
      | succ i =>
        rw [Nat.succ_mul] at h
        exact .inr ⟨i, Nat.lt_of_succ_lt_succ hi, by omega⟩

theorem length_flatMap (hwidth : ∀ clus, (bytes clus).length = width) (cs : List UInt32) :
    (cs.flatMap bytes).length = cs.length * width := by
  induction cs with
  | nil => simp
  | cons clus cs ih =>
    rw [List.flatMap_cons, List.length_append, hwidth, ih, List.length_cons, Nat.succ_mul, Nat.add_comm]

theorem landed_contiguous (hwidth : ∀ clus, (bytes clus).length = width) :
    landed (writesFrom bytes width dst cs) k = if dst ≤ k then (cs.flatMap bytes)[k - dst]? else none := by
  induction cs generalizing dst with
  | nil => simp [writesFrom, landed]
  | cons clus cs ih =>
    rw [writesFrom, landed, ih, List.flatMap_cons]
    by_cases hle : dst ≤ k
    · rw [if_pos hle, if_pos hle]
      by_cases hlater : dst + width ≤ k
      · have hsub : k - dst - (bytes clus).length = k - (dst + width) := by
          rw [hwidth]
          omega
        have hnone : (bytes clus)[k - dst]? = none :=
          List.getElem?_eq_none (by rw [hwidth]; omega)
        rw [if_pos hlater, hnone, Option.or_none, List.getElem?_append_right (by rw [hwidth]; omega), hsub]
      · rw [if_neg hlater, Option.none_or, List.getElem?_append_left (by rw [hwidth]; omega)]
    · rw [if_neg hle, if_neg hle, if_neg (by omega)]
      rfl

theorem landed_empty (h : ∀ w ∈ ws, w.2 = []) (k : Nat) : landed ws k = none := by
  have hno : ¬ (landed ws k).isSome := by
    rw [landed_isSome]
    rintro ⟨w, hw, hle, hlt⟩
    rw [h w hw, List.length_nil] at hlt
    omega
  exact Option.not_isSome_iff_eq_none.mp hno

/-- Places that cover exactly the first `n * width`, each `width` long. -/
theorem stride_of_cover {m n : Nat} (hwidth : 0 < width) (hm : m ≤ n)
    (h : ∀ k, (∃ i < m, i * size ≤ k ∧ k < i * size + width) ↔ k < n * width) :
    m = n ∧ (n ≤ 1 ∨ size = width) := by
  have hsecond : n ≤ 1 ∨ ∃ i < m, i * size ≤ width ∧ width < i * size + width := by
    rcases Nat.lt_or_ge 1 n with hn | hn
    · refine .inr ((h width).mpr ?_)
      have hh := Nat.mul_lt_mul_of_pos_right hn hwidth
      omega
    · exact .inl hn
  have hlast : n = 0 ∨ ∃ i < m, n * width ≤ i * size + width := by
    rcases Nat.eq_zero_or_pos n with hn | hn
    · exact .inl hn
    · have hpos := Nat.mul_pos hn hwidth
      obtain ⟨i, hi, -, hlt⟩ := (h (n * width - 1)).mpr (by omega)
      exact .inr ⟨i, hi, by omega⟩
  rcases hlast with rfl | ⟨i, hi, hend⟩
  · exact ⟨by omega, .inl (Nat.zero_le 1)⟩
  rcases hsecond with hn | ⟨j, hj, hfrom, hto⟩
  · exact ⟨by omega, .inl hn⟩
  -- the second place begins where the first ends, at the latest
  have hsize : size ≤ width := by
    cases j with
    | zero => omega
    | succ j =>
      rw [Nat.succ_mul] at hfrom
      omega
  have hlow : i * size ≤ i * width := Nat.mul_le_mul_left i hsize
  have hreach : n ≤ i + 1 := by
    refine Nat.le_of_mul_le_mul_right ?_ hwidth
    rw [Nat.succ_mul]
    omega
  obtain rfl : n = i + 1 := by omega
  rw [Nat.succ_mul] at hend
  rcases Nat.eq_zero_or_pos i with rfl | hpos
  · exact ⟨by omega, .inl le_rfl⟩
  · exact ⟨by omega, .inr (Nat.eq_of_mul_eq_mul_left hpos (by omega))⟩

/-- A part of the clusters, `size` apart, is the file if and only if the clusters are
empty, or it is all of them, and one behind the other if there are two. -/
theorem landed_iff (hwidth : ∀ clus, (bytes clus).length = width) (hinitial : ds <+: cs) :
    (∀ k, landed (writesFrom bytes size 0 ds) k = (cs.flatMap bytes)[k]?) ↔
      width = 0 ∨ ds = cs ∧ (cs.length ≤ 1 ∨ size = width) := by
  constructor
  · intro h
    have hcover : ∀ k, (∃ i < ds.length, i * size ≤ k ∧ k < i * size + width) ↔
        k < cs.length * width := by
      intro k
      have hsome := congrArg Option.isSome (h k)
      have hiff := covered_iff hwidth size 0 k ds
      rw [← landed_isSome, hsome, isSome_getElem?, length_flatMap hwidth] at hiff
      simpa using hiff.symm
    rcases Nat.eq_zero_or_pos width with hzero | hpos
    · exact .inl hzero
    · obtain ⟨hlen, hstride⟩ := stride_of_cover hpos hinitial.length_le hcover
      exact .inr ⟨hinitial.eq_of_length hlen, hstride⟩
  · rintro (rfl | ⟨rfl, hone | rfl⟩) k
    · have hnil : ∀ clus, bytes clus = [] := fun clus => List.length_eq_zero_iff.mp (hwidth clus)
      have hlen := length_flatMap hwidth cs
      rw [Nat.mul_zero] at hlen
      have hempty : ∀ (ds : List UInt32) dst, ∀ w ∈ writesFrom bytes size dst ds, w.2 = [] := by
        intro ds
        induction ds with
        | nil => simp [writesFrom]
        | cons clus ds ih =>
          intro dst w hw
          rcases List.mem_cons.mp hw with rfl | hw
          · exact hnil clus
          · exact ih _ w hw
      rw [landed_empty (hempty ds 0), List.length_eq_zero_iff.mp hlen]
      rfl
    · match ds, hone with
      | [], _ => simp [writesFrom, landed]
      | [clus], _ => simp [writesFrom, landed]
      | _ :: _ :: _, hone => simp at hone
    · rw [landed_contiguous hwidth, if_pos (Nat.zero_le k), Nat.sub_zero]

end Landing

/-! ### Whole files -/

section Files

variable {get : Context → UInt32 → Option (Context × UInt32 × List Read)}
  {read : Context → UInt32 → Nat → List Read} {disks : Disks} {fat : UInt32 → UInt32} {c : Context}
  {clus entry start : UInt32} {cs : List UInt32}

/-- No cluster is numbered like an end, and only the last entry has reserved bits. -/
def Straight (fat : UInt32 → UInt32) (cs : List UInt32) : Prop :=
  ∀ clus ∈ cs, clus < 0x0FFFFFF0 ∧
    (fat clus < 0x10000000 ∨ EndOfChain (nextCluster (fat clus)))

theorem lt_iff_nextCluster : entry < 0x0FFFFFF0 ↔ entry < 0x10000000 ∧ nextCluster entry < 0x0FFFFFF0 := by
  constructor
  · intro h
    have hlow : entry < 0x10000000 := UInt32.lt_iff_toNat_lt.mpr
      ((UInt32.lt_iff_toNat_lt.mp h).trans (show 0x0FFFFFF0 < 0x10000000 by decide))
    exact ⟨hlow, by rwa [nextCluster_eq hlow]⟩
  · rintro ⟨hlow, h⟩
    rwa [nextCluster_eq hlow] at h

theorem FatChain.low (h : FatChain fat clus cs) : clus < 0x10000000 := by
  cases h with
  | last hend => exact hend.2
  | next hdata =>
    exact UInt32.lt_iff_toNat_lt.mpr
      ((UInt32.lt_iff_toNat_lt.mp hdata.2).trans (show 0x0FFFFFF7 < 0x10000000 by decide))

theorem FatChain.nil_iff (h : FatChain fat clus cs) : cs = [] ↔ EndOfChain clus := by
  cases h with
  | last hend => exact ⟨fun _ => hend, fun _ => rfl⟩
  | next hdata hrest =>
    refine ⟨fun he => absurd he (List.cons_ne_nil _ _), fun hend => ?_⟩
    have hlt := UInt32.lt_iff_toNat_lt.mp hdata.2
    have hle := UInt32.le_iff_toNat_le.mp hend.1
    have hlow : (0x0FFFFFF7 : UInt32).toNat = 0x0FFFFFF7 := rfl
    have hhigh : (0x0FFFFFF8 : UInt32).toNat = 0x0FFFFFF8 := rfl
    omega

/-- The loop follows the whole chain if and only if the chain is straight. -/
theorem followed_eq_iff (h : FatChain fat (nextCluster entry) cs) :
    followed fat entry cs = cs ↔ cs = [] ∨ entry < 0x10000000 ∧ Straight fat cs := by
  generalize hclus : nextCluster entry = clus at h
  induction h generalizing entry with
  | last hend => exact ⟨fun _ => .inl rfl, fun _ => rfl⟩
  | @next clus cs hdata hrest ih =>
    have hnil := hrest.nil_iff
    have hlt : entry < 0x0FFFFFF0 ↔ entry < 0x10000000 ∧ clus < 0x0FFFFFF0 := by
      rw [lt_iff_nextCluster, hclus]
    have hstraight : Straight fat (clus :: cs) ↔ (clus < 0x0FFFFFF0 ∧
        (fat clus < 0x10000000 ∨ EndOfChain (nextCluster (fat clus)))) ∧ Straight fat cs :=
      List.forall_mem_cons
    rw [followed]
    by_cases hgo : entry < 0x0FFFFFF0
    · rw [if_pos hgo, List.cons_inj_right, ih rfl, hstraight, ← hnil]
      obtain ⟨hentry, hlow⟩ := hlt.mp hgo
      have hempty : cs = [] → Straight fat cs := by
        rintro rfl
        exact fun _ hmem => absurd hmem (List.not_mem_nil)
      constructor
      · rintro (he | ⟨hfat, hs⟩)
        · exact .inr ⟨hentry, ⟨hlow, .inr he⟩, hempty he⟩
        · exact .inr ⟨hentry, ⟨hlow, .inl hfat⟩, hs⟩
      · rintro (he | ⟨-, ⟨-, hfat | he⟩, hs⟩)
        · exact absurd he (List.cons_ne_nil _ _)
        · exact .inr ⟨hfat, hs⟩
        · exact .inl he
    · rw [if_neg hgo, hstraight]
      constructor
      · intro he
        exact absurd he.symm (List.cons_ne_nil _ _)
      · rintro (he | ⟨hentry, ⟨hlow, -⟩, -⟩)
        · exact absurd he (List.cons_ne_nil _ _)
        · exact absurd (hlt.mpr ⟨hentry, hlow⟩) hgo

/-- An empty file: cluster 0 is read as if it were one. -/
theorem fileLoaded_zero (hread : read = Setup.read ∨ read = Loader.read) (hget : Returns get fat c) :
    FileLoaded get read disks c 0 [] ↔ c.info.sectorsPerClus = 0 := by
  constructor
  · intro h
    have hfirst := h.bytes 1 (.inl rfl) 0
    obtain ⟨c', reads, hentry, -⟩ := hget c 0 (.refl c)
    have hturn : (loadTurns get read disks 1 c 0 0).2 = [(0, clusterSectors read disks c 0)] := by
      rw [loadTurns, if_pos (by decide), hentry]
      rfl
    have hlen := length_clusterSectors hread disks c 0
    rw [hturn] at hfirst
    have hnone : (clusterSectors read disks c 0)[0]? = none := by simpa [landed] using hfirst
    rw [List.getElem?_eq_none_iff, hlen] at hnone
    omega
  · intro hzero
    refine ⟨fun hne => absurd rfl hne, fun fuel _ k => ?_⟩
    rw [landed_empty]
    · rfl
    · intro w hw
      have hlen := length_loadTurns hread hget (.refl c) w hw
      rw [hzero] at hlen
      exact List.length_eq_zero_iff.mp hlen

theorem fileLoaded_chain (hread : read = Setup.read ∨ read = Loader.read) (hget : Returns get fat c)
    (hne : start ≠ 0) (hchain : FatChain fat start cs) : FileLoaded get read disks c start cs ↔
      ∀ k, landed (writesFrom (clusterSectors read disks c)
          (c.info.sectorsPerClus * c.info.bytesPerSector) 0 (followed fat start cs)) k =
        (cs.flatMap (clusterSectors read disks c))[k]? := by
  have hstart : FatChain fat (nextCluster start) cs := by rwa [nextCluster_eq hchain.low]
  have hrun := loadTurns_chain disks hread hget (.refl c) 0 hstart
    (Nat.lt_succ_self _)
  constructor
  · intro h k
    have hh := h.bytes (cs.length + 1) (.inr (by rw [hrun])) k
    rwa [hrun] at hh
  · intro h
    refine ⟨fun _ => ⟨cs.length + 1, by rw [hrun]⟩, fun fuel hend k => ?_⟩
    have hended := hend.resolve_left hne
    have hmax : loadTurns get read disks (max fuel (cs.length + 1)) c start 0 =
        loadTurns get read disks (cs.length + 1) c start 0 :=
      loadTurns_ended (by rw [hrun]) (Nat.le_max_right _ _)
    rw [← loadTurns_ended hended (Nat.le_max_left _ (cs.length + 1)), hmax, hrun]
    exact h k

/-- `__load_file` loads a file if and only if the clusters are empty, or the file is not,
its chain is straight, and the sectors have 512 bytes when there are two clusters. -/
theorem loadFile_chain (hread : read = Setup.read ∨ read = Loader.read) (hget : Returns get fat c)
    (hfile : IsFile fat start cs) : FileLoaded get read disks c start cs ↔
      c.info.sectorsPerClus = 0 ∨ start ≠ 0 ∧ Straight fat cs ∧
        (cs.length ≤ 1 ∨ c.info.bytesPerSector = 512) := by
  rcases hfile with ⟨rfl, rfl⟩ | ⟨hchain, -⟩
  · rw [fileLoaded_zero hread hget]
    simp
  · have hne : start ≠ 0 := by
      rintro rfl
      cases hchain with
      | last hend => exact absurd hend.1 (by decide)
      | next hdata => exact absurd hdata.1 (by decide)
    have hstart : FatChain fat (nextCluster start) cs := by rwa [nextCluster_eq hchain.low]
    have hstraight : followed fat start cs = cs ↔ Straight fat cs := by
      rw [followed_eq_iff hstart]
      refine ⟨?_, fun hs => .inr ⟨hchain.low, hs⟩⟩
      rintro (rfl | ⟨-, hs⟩)
      · exact fun _ hmem => absurd hmem (List.not_mem_nil)
      · exact hs
    rw [fileLoaded_chain hread hget hne hchain,
      landed_iff (length_clusterSectors hread disks c) (followed_initial fat start cs), hstraight]
    by_cases hzero : c.info.sectorsPerClus = 0
    · simp [hzero]
    · have hsize : c.info.sectorsPerClus * c.info.bytesPerSector = 512 * c.info.sectorsPerClus ↔
          c.info.bytesPerSector = 512 := by
        rw [Nat.mul_comm 512, Nat.mul_right_inj hzero]
      have hwidth : ¬ 512 * c.info.sectorsPerClus = 0 := by omega
      rw [hsize, or_iff_right hwidth, or_iff_right hzero, and_iff_right hne]

/-- A file of two clusters in a FAT, on the sectors of any disk. -/
def twoClusters (clus : UInt32) : UInt32 := if clus = 2 then 3 else 0xFFFFFFFF

def smallVolume : Context :=
  ⟨0, 0, ⟨512, 1, 0, 0, 0, 0, 0⟩, 0, 0, ⟨0, fun _ => none, fun _ _ => rfl⟩,
    ⟨0, fun _ => none, fun _ _ => rfl⟩, 0⟩

theorem smallVolume_returns (fat : UInt32 → UInt32) :
    Returns (fun c clus => some (c, fat clus, [])) fat smallVolume :=
  fun c' _ h => ⟨c', [], rfl, h⟩

def blankDisks : Disks := fun _ _ _ => 0

theorem loadFile_chain_two :
    FileLoaded (fun c clus => some (c, twoClusters clus, [])) Setup.read blankDisks smallVolume 2 [2, 3] ↔
      smallVolume.info.sectorsPerClus = 0 ∨ (2 : UInt32) ≠ 0 ∧ Straight twoClusters [2, 3] ∧
        ([2, 3].length ≤ 1 ∨ smallVolume.info.bytesPerSector = 512) := by
  refine loadFile_chain (.inl rfl) (smallVolume_returns twoClusters) (.inr ⟨?_, by decide⟩)
  refine .next ⟨by decide, by decide⟩ (.next ⟨by decide, by decide⟩ (.last ⟨by decide, by decide⟩))

/-- An empty file writes the sectors two clusters before the data. -/
theorem loadFile_empty : ¬ ∀ get read disks fat c start cs, (read = Setup.read ∨ read = Loader.read) →
    Returns get fat c → IsFile fat start cs → FileLoaded get read disks c start cs := by
  intro h
  have hloaded := h _ Setup.read blankDisks twoClusters smallVolume 0 [] (.inl rfl)
    (smallVolume_returns twoClusters) (.inl ⟨rfl, rfl⟩)
  have hzero := (fileLoaded_zero (.inl rfl) (smallVolume_returns twoClusters)).mp hloaded
  exact absurd hzero (by decide)

end Files

end Fat32

end TayHuang
