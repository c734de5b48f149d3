import TayHuang.Fat32
import Mathlib.Data.List.Basic

/-! `convert` of fat32.c on the bytes in memory: what it reads of the name, what it writes
to the buffer, and which names it turns into the names of a directory. -/

namespace TayHuang

namespace Fat32

/-- The offsets that `convert` reads from, the bytes that it writes, and whether its result
is the buffer. -/
structure Conversion where
  reads : List Nat
  writes : List (Nat × UInt8)
  accepted : Bool
  deriving DecidableEq

/-- The loop up to the dot, with the offset of the dot. -/
def copyBase (mem : Nat → UInt8) : Nat → Nat → Option (Nat × List Nat × List (Nat × UInt8))
  | 0, _ => none
  | fuel + 1, cnt =>
    if mem cnt ≠ 46 then
      (copyBase mem fuel (cnt + 1)).map fun r =>
        (r.1, cnt :: r.2.1, (cnt, toupper (mem cnt)) :: r.2.2)
    else some (cnt, [cnt], [])

/-- `convert`, from the address of the name on. -/
def convertAt (mem : Nat → UInt8) (fuel : Nat) : Option Conversion :=
  (copyBase mem fuel 0).map fun r =>
    if r.1 > 8 then ⟨r.2.1, r.2.2, false⟩
    else ⟨r.2.1 ++ (List.range 3).map (r.1 + 1 + ·),
      r.2.2 ++ (List.range (8 - r.1)).map (fun i => (r.1 + i, 32)) ++
        (List.range 3).map (fun i => (8 + i, toupper (mem (r.1 + 1 + i)))) ++ [(11, 0)], true⟩

/-- The memory holds the name and its terminator. -/
def Placed (mem : Nat → UInt8) (name : List UInt8) : Prop :=
  ∀ i ch, (name ++ [0])[i]? = some ch → mem i = ch

/-- One to eight characters, a dot, one to three characters. -/
structure IsShort (name base ext : List UInt8) : Prop where
  split : name = base ++ 46 :: ext
  base : 1 ≤ base.length ∧ base.length ≤ 8 ∧ 46 ∉ base
  ext : 1 ≤ ext.length ∧ ext.length ≤ 3 ∧ 46 ∉ ext

/-- The name in a directory: upper case, padded with spaces. -/
def directoryName (base ext : List UInt8) : List UInt8 :=
  base.map toupper ++ List.replicate (8 - base.length) 32 ++ ext.map toupper ++
    List.replicate (3 - ext.length) 32

/-- What a conversion promises. -/
structure Converted (name : List UInt8) (r : Conversion) : Prop where
  reads : ∀ i ∈ r.reads, i ≤ name.length
  writes : ∀ w ∈ r.writes, w.1 < 12
  refused : r.accepted = false → ∀ base ext, ¬ IsShort name base ext
  result : r.accepted = true → ∃ base ext, IsShort name base ext ∧
    r.writes.map Prod.fst = List.range 12 ∧ r.writes.map Prod.snd = directoryName base ext ++ [0]

/-- Whatever is behind the name, it is converted. -/
def Converts (name : List UInt8) : Prop :=
  ∀ mem, Placed mem name → ∃ fuel r, convertAt mem fuel = some r ∧ Converted name r

/-- Accepted names that differ in more than letter case have different results. -/
def Distinguished (a b : List UInt8) : Prop :=
  ∀ mem mem' fuel fuel' r r', Placed mem a → Placed mem' b → convertAt mem fuel = some r →
    convertAt mem' fuel' = some r' → r.accepted = true → r'.accepted = true →
      a.map toupper ≠ b.map toupper → r.writes.map Prod.snd ≠ r'.writes.map Prod.snd

/-- The names that are converted: the part before the first dot has nine to twelve
characters, or one to eight and the rest is three characters without a dot. -/
def Fit (name : List UInt8) : Prop := ∃ base ext, name = base ++ 46 :: ext ∧ 46 ∉ base ∧
  (9 ≤ base.length ∧ base.length ≤ 12 ∨
    1 ≤ base.length ∧ base.length ≤ 8 ∧ ext.length = 3 ∧ 46 ∉ ext)

/-- Two accepted names whose letters differ in case only, and one has more spaces before
the dot. -/
def Blurred (a b : List UInt8) : Prop := ∃ base base' ext ext' n,
  a = base ++ 46 :: ext ∧ b = base' ++ 46 :: ext' ∧ 46 ∉ base ∧ 46 ∉ base' ∧
    base.length ≤ 8 ∧ base'.length ≤ 8 ∧ ext.length = 3 ∧ ext.map toupper = ext'.map toupper ∧
    1 ≤ n ∧ (base.map toupper = base'.map toupper ++ List.replicate n 32 ∨
      base'.map toupper = base.map toupper ++ List.replicate n 32)

/-! ### The loop -/

variable {mem : Nat → UInt8} {fuel cnt p : Nat} {name base ext : List UInt8} {r : Conversion}

theorem copyBase_eq (hdot : mem p = 46) (hcnt : cnt ≤ p) (hbase : ∀ i, cnt ≤ i → i < p → mem i ≠ 46)
    (hfuel : p < cnt + fuel) : copyBase mem fuel cnt =
      some (p, List.range' cnt (p + 1 - cnt),
        (List.range' cnt (p - cnt)).map fun i => (i, toupper (mem i))) := by
  induction fuel generalizing cnt with
  | zero => omega
  | succ fuel ih =>
    rcases Nat.lt_or_eq_of_le hcnt with hlt | rfl
    · have hh := ih hlt (fun i hi => hbase i (Nat.le_of_succ_le hi)) (by omega)
      have hone : p + 1 - cnt = p + 1 - (cnt + 1) + 1 := by omega
      have htwo : p - cnt = p - (cnt + 1) + 1 := by omega
      rw [copyBase, if_pos (hbase cnt le_rfl hlt), hh, hone, htwo, List.range'_succ,
        List.range'_succ]
      rfl
    · have hone : cnt + 1 - cnt = 1 := by omega
      rw [copyBase, if_neg (by simp [hdot]), hone, Nat.sub_self]
      rfl

theorem copyBase_dot {x : Nat × List Nat × List (Nat × UInt8)} (hs : copyBase mem fuel cnt = some x) :
    mem x.1 = 46 ∧ cnt ≤ x.1 ∧ (∀ i, cnt ≤ i → i < x.1 → mem i ≠ 46) ∧ x.1 < cnt + fuel := by
  induction fuel generalizing cnt x with
  | zero => simp [copyBase] at hs
  | succ fuel ih =>
    rw [copyBase] at hs
    by_cases hne : mem cnt ≠ 46
    · rw [if_pos hne] at hs
      obtain ⟨y, hy, rfl⟩ := Option.map_eq_some_iff.mp hs
      obtain ⟨hdot, hle, hbase, hlt⟩ := ih hy
      refine ⟨hdot, Nat.le_of_succ_le hle, fun i hi hi' => ?_, by simp only; omega⟩
      by_cases he : i = cnt
      · rw [he]
        exact hne
      · exact hbase i (by omega) hi'
    · rw [if_neg hne] at hs
      obtain rfl := Option.some.inj hs
      exact ⟨not_not.mp hne, le_rfl, fun i hi hi' => absurd hi' (Nat.not_lt.mpr hi), by simp only; omega⟩

/-- What `convert` does when the first dot is at `p`. -/
def conversion (mem : Nat → UInt8) (p : Nat) : Conversion :=
  if p > 8 then ⟨List.range (p + 1), (List.range p).map fun i => (i, toupper (mem i)), false⟩
  else ⟨List.range (p + 1) ++ (List.range 3).map (p + 1 + ·),
    (List.range p).map (fun i => (i, toupper (mem i))) ++ (List.range (8 - p)).map (fun i => (p + i, 32)) ++
      (List.range 3).map (fun i => (8 + i, toupper (mem (p + 1 + i)))) ++ [(11, 0)], true⟩

theorem convertAt_eq (hdot : mem p = 46) (hbase : ∀ i < p, mem i ≠ 46) (hfuel : p < fuel) :
    convertAt mem fuel = some (conversion mem p) := by
  rw [convertAt, copyBase_eq hdot (Nat.zero_le p) (fun i _ => hbase i) (by omega)]
  simp only [Option.map_some, conversion, Nat.sub_zero, List.range_eq_range']

theorem convertAt_dot (hs : convertAt mem fuel = some r) :
    ∃ p, mem p = 46 ∧ (∀ i < p, mem i ≠ 46) ∧ r = conversion mem p := by
  obtain ⟨x, hx, -⟩ := Option.map_eq_some_iff.mp hs
  obtain ⟨hdot, -, hbase, hlt⟩ := copyBase_dot hx
  have hh := convertAt_eq hdot (fun i => hbase i (Nat.zero_le i)) (by omega : x.1 < fuel)
  exact ⟨x.1, hdot, fun i => hbase i (Nat.zero_le i), Option.some.inj (hs.symm.trans hh)⟩

theorem Placed.baseByte (h : Placed mem (base ++ 46 :: ext)) {i : Nat} (hi : i < base.length) :
    mem i = base[i] := by
  refine h i _ ?_
  rw [List.append_assoc, List.getElem?_append_left hi, List.getElem?_eq_getElem hi]

theorem Placed.dotByte (h : Placed mem (base ++ 46 :: ext)) : mem base.length = 46 := by
  refine h _ _ ?_
  simp

theorem Placed.extByte (h : Placed mem (base ++ 46 :: ext)) {i : Nat} {ch : UInt8}
    (hi : (ext ++ [0])[i]? = some ch) : mem (base.length + 1 + i) = ch := by
  refine h _ _ ?_
  have hle : base.length ≤ base.length + 1 + i := by omega
  have hsub : base.length + 1 + i - base.length = i + 1 := by omega
  rw [List.append_assoc, List.getElem?_append_right hle, hsub]
  exact hi

theorem Placed.first (h : Placed mem (base ++ 46 :: ext)) (hbase : 46 ∉ base) :
    ∀ i < base.length, mem i ≠ 46 := by
  intro i hi he
  rw [h.baseByte hi] at he
  exact hbase (he ▸ List.getElem_mem hi)

theorem Placed.convertAt (h : Placed mem (base ++ 46 :: ext)) (hbase : 46 ∉ base)
    (hs : convertAt mem fuel = some r) : r = conversion mem base.length := by
  obtain ⟨p, hdot, hfirst, rfl⟩ := convertAt_dot hs
  have hp : p = base.length := by
    rcases Nat.lt_trichotomy p base.length with hlt | he | hgt
    · exact absurd hdot (h.first hbase p hlt)
    · exact he
    · exact absurd h.dotByte (hfirst _ hgt)
  rw [hp]

/-! ### One name -/

theorem conversion_text (hp : p ≤ 8) : (conversion mem p).writes.map Prod.snd =
    (List.range p).map (fun i => toupper (mem i)) ++ List.replicate (8 - p) 32 ++
      (List.range 3).map (fun i => toupper (mem (p + 1 + i))) ++ [0] := by
  rw [conversion, if_neg (by omega)]
  simp [Function.comp_def]

theorem conversion_offsets (mem : Nat → UInt8) (hp : p ≤ 8) :
    (conversion mem p).writes.map Prod.fst = List.range 12 := by
  have hsplit : List.range 8 = List.range p ++ (List.range (8 - p)).map (p + ·) := by
    rw [← List.range_add, Nat.add_sub_cancel' hp]
  have htwelve : List.range 12 = List.range 8 ++ [8, 9, 10, 11] := rfl
  rw [conversion, if_neg (by omega), htwelve, hsplit]
  simp [Function.comp_def, List.range_succ]

theorem split_unique {base' ext' : List UInt8} (h : 46 ∉ base') (hbase : 46 ∉ base)
    (he : base' ++ 46 :: ext' = base ++ 46 :: ext) : base' = base ∧ ext' = ext := by
  rcases List.append_eq_append_iff.mp he with ⟨l, hl, hr⟩ | ⟨l, hl, hr⟩
  · cases l with
    | nil => exact ⟨by rw [hl, List.append_nil], (List.cons.inj hr).2⟩
    | cons c l =>
      obtain ⟨rfl, -⟩ := List.cons.inj hr
      exact absurd (by simp [hl]) hbase
  · cases l with
    | nil => exact ⟨by rw [hl, List.append_nil], (List.cons.inj hr).2.symm⟩
    | cons c l =>
      obtain ⟨rfl, -⟩ := List.cons.inj hr
      exact absurd (by simp [hl]) h

theorem IsShort.unique {base' ext' : List UInt8} (h : IsShort (base ++ 46 :: ext) base' ext')
    (hbase : 46 ∉ base) : base' = base ∧ ext' = ext := by
  exact split_unique h.base.2.2 hbase h.split.symm

theorem Placed.text (h : Placed mem (base ++ 46 :: ext)) (hp : base.length ≤ 8) :
    (conversion mem base.length).writes.map Prod.snd =
      base.map toupper ++ List.replicate (8 - base.length) 32 ++
        (List.range 3).map (fun i => toupper (mem (base.length + 1 + i))) ++ [0] := by
  have hupper : (List.range base.length).map (fun i => toupper (mem i)) = base.map toupper := by
    refine List.ext_getElem (by simp) fun i hi hi' => ?_
    rw [List.length_map, List.length_range] at hi
    simp only [List.getElem_map, List.getElem_range, h.baseByte hi]
  rw [conversion_text hp, hupper]

theorem Placed.extension (h : Placed mem (base ++ 46 :: ext)) (hext : ext.length = 3) :
    (List.range 3).map (fun i => toupper (mem (base.length + 1 + i))) = ext.map toupper := by
  refine List.ext_getElem (by simp [hext]) fun i hi hi' => ?_
  have hi : i < ext.length := by simpa using hi'
  have hbyte : (ext ++ [0])[i]? = some ext[i] := by
    rw [List.getElem?_append_left hi, List.getElem?_eq_getElem hi]
  simp only [List.getElem_map, List.getElem_range, h.extByte hbyte]

theorem Converted.fits (h : Placed mem (base ++ 46 :: ext)) (hbase : 46 ∉ base)
    (hc : Converted (base ++ 46 :: ext) (conversion mem base.length)) :
    9 ≤ base.length ∧ base.length ≤ 12 ∨
      1 ≤ base.length ∧ base.length ≤ 8 ∧ ext.length = 3 ∧ 46 ∉ ext := by
  rcases Nat.lt_or_ge 8 base.length with hlong | hp
  · refine .inl ⟨hlong, ?_⟩
    have hwrite : (base.length - 1, toupper (mem (base.length - 1))) ∈
        (conversion mem base.length).writes := by
      rw [conversion, if_pos hlong]
      exact List.mem_map.mpr ⟨base.length - 1, List.mem_range.mpr (by omega), rfl⟩
    have hh := hc.writes _ hwrite
    simp only at hh
    omega
  · refine .inr ?_
    have haccepted : (conversion mem base.length).accepted = true := by
      rw [conversion, if_neg (by omega)]
    obtain ⟨base', ext', hshort, -, htext⟩ := hc.result haccepted
    obtain ⟨rfl, rfl⟩ := hshort.unique hbase
    obtain ⟨hext1, hext3, hdot⟩ := hshort.ext
    refine ⟨hshort.base.1, hp, ?_, hdot⟩
    have hread : base'.length + 1 + 2 ∈ (conversion mem base'.length).reads := by
      rw [conversion, if_neg (by omega)]
      exact List.mem_append_right _ (List.mem_map.mpr ⟨2, by simp, rfl⟩)
    have hle := hc.reads _ hread
    rw [List.length_append, List.length_cons] at hle
    by_contra hne
    obtain ⟨a, b, rfl⟩ := List.length_eq_two.mp (show ext'.length = 2 by omega)
    have hzero : mem (base'.length + 1 + 2) = 0 := h.extByte rfl
    rw [h.text hp, directoryName] at htext
    simp only [List.append_assoc, List.append_cancel_left_eq] at htext
    have hthird : toupper (mem (base'.length + 1 + 2)) = 32 := by
      have hh := congrArg (fun l => l[2]?) htext
      simpa [List.range_succ] using hh
    rw [hzero] at hthird
    exact absurd hthird (by decide)

theorem Placed.converted (h : Placed mem (base ++ 46 :: ext)) (hbase : 46 ∉ base)
    (hfit : 9 ≤ base.length ∧ base.length ≤ 12 ∨
      1 ≤ base.length ∧ base.length ≤ 8 ∧ ext.length = 3 ∧ 46 ∉ ext) :
    Converted (base ++ 46 :: ext) (conversion mem base.length) := by
  rcases hfit with ⟨h9, h12⟩ | ⟨h1, h8, h3, hdot⟩
  · rw [conversion, if_pos (Nat.lt_of_succ_le h9)]
    refine ⟨fun i hi => ?_, fun w hw => ?_, fun _ base' ext' hshort => ?_, fun hno => ?_⟩
    · have hlt := List.mem_range.mp hi
      rw [List.length_append]
      omega
    · obtain ⟨i, hi, rfl⟩ := List.mem_map.mp hw
      have hlt := List.mem_range.mp hi
      simp only
      omega
    · obtain ⟨rfl, -⟩ := hshort.unique hbase
      have hle := hshort.base.2.1
      omega
    · exact absurd hno (by simp)
  · have haccepted : (conversion mem base.length).accepted = true := by
      rw [conversion, if_neg (by omega)]
    have hoffsets := conversion_offsets mem h8
    refine ⟨fun i hi => ?_, fun w hw => ?_, fun hno => ?_, fun _ => ⟨base, ext, ⟨rfl, ⟨h1, h8, hbase⟩,
      by omega, by omega, hdot⟩, hoffsets, ?_⟩⟩
    · rw [conversion, if_neg (by omega)] at hi
      rw [List.length_append, List.length_cons, h3]
      rcases List.mem_append.mp hi with hi | hi
      · have hlt := List.mem_range.mp hi
        omega
      · obtain ⟨j, hj, rfl⟩ := List.mem_map.mp hi
        have hlt := List.mem_range.mp hj
        omega
    · have hmem := List.mem_map_of_mem (f := Prod.fst) hw
      rw [hoffsets] at hmem
      exact List.mem_range.mp hmem
    · rw [haccepted] at hno
      exact absurd hno (by simp)
    · rw [h.text h8, h.extension h3, directoryName, h3, Nat.sub_self, List.replicate_zero,
        List.append_nil]

/-- The memory that holds a name and then only dots. -/
def dotted (name : List UInt8) (i : Nat) : UInt8 := (name ++ [0])[i]?.getD 46

theorem dotted_placed (name : List UInt8) : Placed (dotted name) name := by
  intro i ch hi
  rw [dotted, hi]
  rfl

theorem converts_iff (name : List UInt8) : Converts name ↔ Fit name := by
  by_cases hdot : 46 ∈ name
  · obtain ⟨base, ext, rfl, hbase⟩ := List.eq_append_cons_of_mem hdot
    constructor
    · intro hc
      have hmem := dotted_placed (base ++ 46 :: ext)
      obtain ⟨fuel, r, hs, hr⟩ := hc _ hmem
      rw [hmem.convertAt hbase hs] at hr
      exact ⟨base, ext, rfl, hbase, hr.fits hmem hbase⟩
    · rintro ⟨base', ext', hsplit, hbase', hfit⟩ mem hmem
      obtain ⟨rfl, rfl⟩ := split_unique hbase hbase' hsplit
      exact ⟨base.length + 1, _, convertAt_eq hmem.dotByte (hmem.first hbase) (Nat.lt_succ_self _),
        hmem.converted hbase hfit⟩
  · constructor
    · -- the first dot is behind the terminator
      intro hc
      obtain ⟨fuel, r, hs, hr⟩ := hc _ (dotted_placed name)
      obtain ⟨p, hp, -, rfl⟩ := convertAt_dot hs
      have hread : p ∈ (conversion (dotted name) p).reads := by
        rw [conversion]
        split
        · exact List.mem_range.mpr (Nat.lt_succ_self p)
        · exact List.mem_append_left _ (List.mem_range.mpr (Nat.lt_succ_self p))
      have hle := hr.reads p hread
      have hlt : p < (name ++ [0]).length := by
        rw [List.length_append, List.length_singleton]
        omega
      rw [dotted, List.getElem?_eq_getElem hlt, Option.getD_some] at hp
      have hin : 46 ∈ name ++ [0] := hp ▸ List.getElem_mem hlt
      exact absurd hin (by simp [hdot])
    · rintro ⟨base, ext, rfl, -⟩
      exact absurd (by simp) hdot

/-! ### The text alone -/

theorem cstring_cut (s rest : List UInt8) : cstring (s ++ 0 :: rest) = cstring s := by
  induction s with
  | nil => rfl
  | cons ch s ih =>
    by_cases hch : ch ≠ 0
    · simpa [cstring, List.takeWhile_cons, hch] using ih
    · simp [cstring, hch]

theorem convert_split (hbase : 46 ∉ base) : convert (base ++ 46 :: ext) =
    some (if base.length > 8 then none
      else some (base.map toupper ++ List.replicate (8 - base.length) 32 ++
        ((ext ++ [0, 0, 0]).take 3).map toupper ++ [0])) := by
  have hall : ∀ ch ∈ base, decide (ch ≠ 46) = true :=
    fun ch hch => decide_eq_true fun he => hbase (he ▸ hch)
  have htake : (base ++ 46 :: ext).takeWhile (· ≠ 46) = base := by
    rw [List.takeWhile_append_of_pos hall]
    simp
  have hdrop : (base ++ 46 :: ext).drop (base.length + 1) = ext := by
    rw [← List.drop_drop, List.drop_left]
    rfl
  have hdot : 46 ∈ base ++ 46 :: ext := by simp
  simp only [convert, if_pos hdot, htake, hdrop]
  split <;> rfl

/-- Up to the terminator the extension in memory is the one of the list. -/
theorem Placed.cut (h : Placed mem (base ++ 46 :: ext)) (s : List UInt8) :
    cstring (s ++ ((ext ++ [0, 0, 0]).take 3).map toupper ++ [0]) =
      cstring (s ++ (List.range 3).map (fun i => toupper (mem (base.length + 1 + i))) ++ [0]) := by
  have hbyte : ∀ i ch, (ext ++ [0])[i]? = some ch → mem (base.length + 1 + i) = ch :=
    fun _ _ hi => h.extByte hi
  have hthree : (List.range 3).map (fun i => toupper (mem (base.length + 1 + i))) =
      [toupper (mem (base.length + 1 + 0)), toupper (mem (base.length + 1 + 1)),
        toupper (mem (base.length + 1 + 2))] := rfl
  have hcut : ∀ l x y : List UInt8, cstring (s ++ (l ++ 0 :: x)) = cstring (s ++ (l ++ 0 :: y)) := by
    intro l x y
    rw [← List.append_assoc, ← List.append_assoc, cstring_cut, cstring_cut]
  rw [hthree, List.append_assoc, List.append_assoc]
  match ext with
  | [] =>
    rw [hbyte 0 0 rfl]
    exact hcut [] _ _
  | [x] =>
    rw [hbyte 0 x rfl, hbyte 1 0 rfl]
    exact hcut [toupper x] _ _
  | [x, y] =>
    rw [hbyte 0 x rfl, hbyte 1 y rfl, hbyte 2 0 rfl]
    rfl
  | x :: y :: z :: more =>
    rw [hbyte 0 x rfl, hbyte 1 y rfl, hbyte 2 z rfl]
    rfl

/-- `convert` on a list is `convert` on memory, but for what comes behind the terminator. -/
theorem convertAt_convert (h : Placed mem (base ++ 46 :: ext)) (hbase : 46 ∉ base)
    (hs : convertAt mem fuel = some r) : ∃ x, convert (base ++ 46 :: ext) = some x ∧
      x.isSome = r.accepted ∧ ∀ text ∈ x, cstring text = cstring (r.writes.map Prod.snd) := by
  obtain rfl := h.convertAt hbase hs
  refine ⟨_, convert_split hbase, ?_⟩
  by_cases hp : base.length > 8
  · rw [if_pos hp, conversion, if_pos hp]
    exact ⟨rfl, fun text ht => absurd ht (by simp)⟩
  · rw [if_neg hp]
    refine ⟨by rw [conversion, if_neg hp]; rfl, ?_⟩
    intro text ht
    rw [← Option.some.inj ht, h.text (by omega)]
    exact h.cut _

/-! ### Two names -/

section Pairs

variable {a b base' ext' : List UInt8} {mem' : Nat → UInt8}

theorem directoryName_inj (hp : base.length ≤ 8) (hp' : base'.length ≤ 8) (h3 : ext.length = 3)
    (h3' : ext'.length = 3) (he : directoryName base ext = directoryName base' ext') :
    base.map toupper ++ List.replicate (8 - base.length) 32 =
        base'.map toupper ++ List.replicate (8 - base'.length) 32 ∧
      ext.map toupper = ext'.map toupper := by
  rw [directoryName, directoryName, h3, h3', Nat.sub_self, List.replicate_zero, List.append_nil,
    List.append_nil] at he
  refine List.append_inj he ?_
  rw [List.length_append, List.length_append, List.length_map, List.length_map,
    List.length_replicate, List.length_replicate]
  omega

theorem spaces_of_padded {x y : List UInt8} (hle : x.length ≤ y.length)
    (he : x ++ List.replicate (8 - x.length) 32 = y ++ List.replicate (8 - y.length) 32)
    (hy : y.length ≤ 8) : y = x ++ List.replicate (y.length - x.length) 32 := by
  have hh := congrArg (List.take y.length) he
  rw [List.take_left, List.take_append, List.take_of_length_le hle, List.take_replicate,
    Nat.min_eq_left (by omega)] at hh
  exact hh.symm

theorem padded_of_spaces {x y : List UInt8} {n : Nat} (he : y = x ++ List.replicate n 32)
    (hy : y.length ≤ 8) :
    y ++ List.replicate (8 - y.length) 32 = x ++ List.replicate (8 - x.length) 32 := by
  have hlen : y.length = x.length + n := by rw [he, List.length_append, List.length_replicate]
  rw [he, List.append_assoc, ← he, ← List.replicate_add]
  congr 2
  omega

theorem Fit.accepted (h : Fit a) (hmem : Placed mem a) (hs : convertAt mem fuel = some r)
    (hr : r.accepted = true) : ∃ base ext, a = base ++ 46 :: ext ∧ 46 ∉ base ∧ base.length ≤ 8 ∧
      ext.length = 3 ∧ r.writes.map Prod.snd = directoryName base ext ++ [0] := by
  obtain ⟨base, ext, rfl, hbase, hfit⟩ := h
  obtain rfl := hmem.convertAt hbase hs
  obtain ⟨base', ext', hshort, -, htext⟩ := (hmem.converted hbase hfit).result hr
  obtain ⟨rfl, rfl⟩ := hshort.unique hbase
  rcases hfit with ⟨h9, -⟩ | ⟨-, h8, h3, -⟩
  · have hle := hshort.base.2.1
    omega
  · exact ⟨base', ext', rfl, hbase, h8, h3, htext⟩

theorem distinguished_iff (ha : Fit a) (hb : Fit b) : Distinguished a b ↔ ¬ Blurred a b := by
  constructor
  · rintro hd ⟨base, base', ext, ext', n, rfl, rfl, hbase, hbase', hp, hp', h3, hext, hn, hspaces⟩
    have h3' : ext'.length = 3 := by simpa [h3] using (congrArg List.length hext).symm
    have hmem := dotted_placed (base ++ 46 :: ext)
    have hmem' := dotted_placed (base' ++ 46 :: ext')
    have hpad : base.map toupper ++ List.replicate (8 - base.length) 32 =
        base'.map toupper ++ List.replicate (8 - base'.length) 32 := by
      rcases hspaces with he | he
      · simpa using padded_of_spaces he (by simpa using hp)
      · simpa using (padded_of_spaces he (by simpa using hp')).symm
    have hlen : base.length ≠ base'.length := by
      rcases hspaces with he | he
      · have hh := congrArg List.length he
        simp only [List.length_map, List.length_append, List.length_replicate] at hh
        omega
      · have hh := congrArg List.length he
        simp only [List.length_map, List.length_append, List.length_replicate] at hh
        omega
    refine hd _ _ _ _ _ _ hmem hmem'
      (convertAt_eq hmem.dotByte (hmem.first hbase) (Nat.lt_succ_self _))
      (convertAt_eq hmem'.dotByte (hmem'.first hbase') (Nat.lt_succ_self _))
      (by rw [conversion, if_neg (by omega)]) (by rw [conversion, if_neg (by omega)]) (fun he => ?_) ?_
    · have hh := congrArg List.length he
      simp only [List.length_map, List.length_append, List.length_cons] at hh
      omega
    · rw [hmem.text hp, hmem'.text hp', hmem.extension h3, hmem'.extension h3', hpad, hext]
  · intro hblur mem mem' fuel fuel' r r' hmem hmem' hs hs' hr hr' hne htext
    obtain ⟨base, ext, rfl, hbase, hp, h3, ht⟩ := ha.accepted hmem hs hr
    obtain ⟨base', ext', rfl, hbase', hp', h3', ht'⟩ := hb.accepted hmem' hs' hr'
    rw [ht, ht', List.append_cancel_right_eq] at htext
    obtain ⟨hpad, hext⟩ := directoryName_inj hp hp' h3 h3' htext
    have hsame : base.length ≠ base'.length := by
      intro hl
      have hupper : base.map toupper = base'.map toupper := by
        rw [hl] at hpad
        exact List.append_cancel_right hpad
      refine hne ?_
      rw [List.map_append, List.map_append, List.map_cons, List.map_cons, hupper, hext]
    rcases Nat.lt_or_gt_of_ne hsame with hlt | hgt
    · refine hblur ⟨base, base', ext, ext', base'.length - base.length, rfl, rfl, hbase, hbase', hp, hp',
        h3, hext, by omega, .inr ?_⟩
      simpa using spaces_of_padded (x := base.map toupper) (y := base'.map toupper)
        (by simpa using hlt.le) (by simpa using hpad) (by simpa using hp')
    · refine hblur ⟨base, base', ext, ext', base.length - base'.length, rfl, rfl, hbase, hbase', hp, hp',
        h3, hext, by omega, .inl ?_⟩
      simpa using spaces_of_padded (x := base'.map toupper) (y := base.map toupper)
        (by simpa using hgt.le) (by simpa using hpad.symm) (by simpa using hp)

end Pairs

/-- Of any two names `convert` makes what it should if and only if both are fit and they
do not differ in spaces before the dot. -/
theorem convert_exact (a b : List UInt8) :
    Converts a ∧ Converts b ∧ Distinguished a b ↔ Fit a ∧ Fit b ∧ ¬ Blurred a b := by
  rw [converts_iff, converts_iff]
  exact and_congr_right fun ha => and_congr_right fun hb => distinguished_iff ha hb

/-- The extension of `a.c` takes the terminator and the byte behind it. -/
theorem convert_overrun : ¬ ∀ name : List UInt8, 0 ∉ name → Converts name := by
  intro h
  have hmem : Placed (dotted [97, 46, 99]) ([97] ++ 46 :: [99]) := dotted_placed _
  obtain ⟨fuel, r, hs, hr⟩ := h [97, 46, 99] (by decide) _ hmem
  obtain rfl := hmem.convertAt (by decide) hs
  have hread : 4 ∈ (conversion (dotted [97, 46, 99]) 1).reads := by decide
  exact absurd (hr.reads 4 hread) (by decide)

end Fat32

end TayHuang
