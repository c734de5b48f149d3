import TayHuang.FormattedOutput
import Mathlib.Data.Nat.Digits.Lemmas

/-! Numbers as text and back: what `itoa`, `uitoa`, `lltoa` and `ulltoa` leave in an
output buffer full of zeros. -/

namespace TayHuang

open Printf

/-! ### Reading a number back -/

def digitOf (base : Nat) (ch : UInt8) : Option Nat :=
  let k := if isdigit ch then ch.toNat - 48 else if 97 ≤ ch.toNat then ch.toNat - 87 else base
  if k < base then some k else none

/-- The text without its sign. -/
def unsignedPart (text : List UInt8) : List UInt8 :=
  if text.head? = some 45 then text.tail else text

def readDigits (base : Nat) (text : List UInt8) : Option Nat :=
  text.foldlM (fun n ch => (digitOf base ch).map (base * n + ·)) 0

/-- A number needs at least one digit. -/
def readBack (base : Nat) (text : List UInt8) : Option Int :=
  if unsignedPart text = [] then none
  else (readDigits base (unsignedPart text)).map fun n : Nat =>
    if text.head? = some 45 then -(n : Int) else n

/-- The buffer holds `v` as a string, without leading zeros. -/
structure Renders (base : Nat) (v : Int) (buffer : List UInt8) : Prop where
  terminated : 0 ∈ buffer
  plain : (unsignedPart (cstring buffer)).head? = some 48 → unsignedPart (cstring buffer) = [48]
  value : readBack base (cstring buffer) = some v

theorem digitOf_digit {base k : Nat} (hbase : base ≤ 16) (hk : k < base) :
    digitOf base (digit k) = some k := by
  have h16 : ∀ k < 16, (if isdigit (digit k) then (digit k).toNat - 48
      else if 97 ≤ (digit k).toNat then (digit k).toNat - 87 else base) = k := by
    intro k hk
    interval_cases k <;> rfl
  simp only [digitOf, h16 k (by omega), if_pos hk]

theorem digit_ne_sign {k : Nat} (hk : k < 16) : digit k ≠ 45 := by
  revert k
  decide

theorem digit_eq_zero {k : Nat} (hk : k < 16) : digit k = 48 → k = 0 := by
  revert k
  decide

theorem readDigits_digits {base : Nat} (hb : 2 ≤ base) (hbase : base ≤ 16) (n : Nat) :
    readDigits base ((Nat.digits base n).map digit).reverse = some n := by
  induction n using Nat.strongRecOn with
  | ind n ih =>
    cases n with
    | zero => simp [readDigits]
    | succ n =>
      have hlt : (n + 1) / base < n + 1 := Nat.div_lt_self (by omega) hb
      have hmod : (n + 1) % base < base := Nat.mod_lt _ (by omega)
      have ih := ih _ hlt
      rw [readDigits] at ih ⊢
      rw [Nat.digits_def' hb (by omega), List.map_cons, List.reverse_cons, List.foldlM_append, ih]
      simp only [Option.bind_eq_bind, Option.bind_some, List.foldlM_cons, List.foldlM_nil,
        digitOf_digit hbase hmod, Option.map_some, Option.pure_def]
      rw [Nat.div_add_mod]

/-- The first digit of a positive number is not 0. -/
theorem head_digits {base n : Nat} (hb : 2 ≤ base) (hn : 0 < n) :
    ∃ k < base, k ≠ 0 ∧ ((Nat.digits base n).map digit).reverse.head? = some (digit k) := by
  have hne : Nat.digits base n ≠ [] := Nat.digits_ne_nil_iff_ne_zero.mpr hn.ne'
  refine ⟨(Nat.digits base n).getLast hne, Nat.digits_lt_base hb (List.getLast_mem hne),
    Nat.getLast_digit_ne_zero base hn.ne', ?_⟩
  rw [List.head?_reverse, List.getLast?_map, List.getLast?_eq_some_getLast hne]
  rfl

theorem numeral_read {base n : Nat} (hb : 2 ≤ base) (hbase : base ≤ 16) :
    readDigits base (numeral base n) = some n ∧ numeral base n ≠ [] ∧
      (numeral base n).head? ≠ some 45 ∧
      ((numeral base n).head? = some 48 → numeral base n = [48]) ∧ ∀ b ∈ numeral base n, b ≠ 0 := by
  rw [numeral]
  split
  · rename_i hn
    subst hn
    have h0 : readDigits base [48] = some 0 := by
      have hd := digitOf_digit hbase (show 0 < base by omega)
      rw [show digit 0 = 48 from rfl] at hd
      simp [readDigits, hd]
    exact ⟨h0, by decide, by decide, fun _ => rfl, by simp⟩
  · rename_i hn
    obtain ⟨k, hk, hk0, hhead⟩ := head_digits hb (Nat.pos_of_ne_zero hn)
    refine ⟨readDigits_digits hb hbase n, ?_, ?_, ?_, ?_⟩
    · intro he
      rw [he] at hhead
      simp at hhead
    · rw [hhead]
      exact fun he => digit_ne_sign (by omega) (Option.some.inj he)
    · rw [hhead]
      exact fun he => absurd (digit_eq_zero (by omega) (Option.some.inj he)) hk0
    · intro b hmem
      obtain ⟨k, hk, rfl⟩ := List.mem_map.mp (List.mem_reverse.mp hmem)
      exact digit_ne_zero (Nat.lt_of_lt_of_le (Nat.digits_lt_base hb hk) hbase)

/-- The text of `v` is read back. -/
theorem readBack_signed {base : Nat} (hb : 2 ≤ base) (hbase : base ≤ 16) (v : Int) {text : List UInt8}
    (htext : text = (if v < 0 then [45] else []) ++ numeral base v.natAbs) :
    unsignedPart text = numeral base v.natAbs ∧ readBack base text = some v := by
  obtain ⟨hread, hne, hhead, -, -⟩ := numeral_read (n := v.natAbs) hb hbase
  have hsign : text.head? = some 45 ↔ v < 0 := by
    rw [htext]
    split
    · rename_i hv
      exact iff_of_true rfl hv
    · rename_i hv
      exact iff_of_false hhead hv
  have hpart : unsignedPart text = numeral base v.natAbs := by
    rw [unsignedPart]
    by_cases hv : v < 0
    · rw [if_pos (hsign.mpr hv), htext, if_pos hv]
      rfl
    · rw [if_neg (mt hsign.mp hv), htext, if_neg hv]
      rfl
  refine ⟨hpart, ?_⟩
  rw [readBack, hpart, if_neg hne, hread, Option.map_some]
  refine congrArg some ?_
  by_cases hv : v < 0
  · rw [if_pos (hsign.mpr hv)]
    omega
  · rw [if_neg (mt hsign.mp hv)]
    omega

theorem renders_signed {base : Nat} (hb : 2 ≤ base) (hbase : base ≤ 16) (v : Int) {buffer : List UInt8}
    (hzero : 0 ∈ buffer)
    (htext : cstring buffer = (if v < 0 then [45] else []) ++ numeral base v.natAbs) :
    Renders base v buffer := by
  obtain ⟨hpart, hread⟩ := readBack_signed hb hbase v htext
  refine ⟨hzero, ?_, hread⟩
  rw [hpart]
  exact (numeral_read hb hbase).2.2.2.1

theorem zero_mem_scribble {bytes : List UInt8} {n : Nat} (h : bytes.length < n) :
    0 ∈ scribble bytes (List.replicate n 0) := by
  rw [scribble, List.drop_replicate]
  exact List.mem_append_right _ (List.mem_replicate.mpr ⟨by omega, rfl⟩)

/-! ### The four functions -/

/-- `itoa` and its variants. -/
inductive ToText
  | itoa
  | uitoa
  | lltoa
  | ulltoa
  deriving DecidableEq, Repr

namespace ToText

/-- The values of the argument's type. -/
def Takes : ToText → Int → Prop
  | .itoa, v => -2 ^ 31 ≤ v ∧ v < 2 ^ 31
  | .uitoa, v => 0 ≤ v ∧ v < 2 ^ 32
  | .lltoa, v => -2 ^ 63 ≤ v ∧ v < 2 ^ 63
  | .ulltoa, v => 0 ≤ v ∧ v < 2 ^ 64

def text (f : ToText) (v : Int) (base : Nat) : List UInt8 :=
  match f with
  | .itoa => TayHuang.itoa v base
  | .uitoa => TayHuang.uitoa v.toNat base
  | .lltoa => TayHuang.lltoa v base
  | .ulltoa => TayHuang.ulltoa v.toNat base

/-- The size of the array for the digits. -/
def room : ToText → Nat
  | .itoa | .uitoa => 12
  | .lltoa | .ulltoa => 23

/-- What `val` is when the digits are taken from it. -/
def magnitude (f : ToText) (v : Int) : Nat :=
  match f with
  | .itoa => (if v < 0 then asInt (-v) else v).toNat
  | .lltoa => (if v < 0 then asLongLong (-v) else v).toNat
  | .uitoa | .ulltoa => v.toNat

/-- What is put into the array for the digits. -/
def digits (f : ToText) (v : Int) (base : Nat) : List UInt8 := scratch base 64 (f.magnitude v)

def MostNegative : ToText → Int → Prop
  | .itoa, v => v = -2 ^ 31
  | .lltoa, v => v = -2 ^ 63
  | _, _ => False

variable (f : ToText) {v : Int} {base : Nat}

theorem text_eq (hv : f.Takes v) (base : Nat) : f.text v base =
    if v = 0 then [48, 0] else (if v < 0 then [45] else []) ++ (f.digits v base).reverse := by
  have hunsigned : 0 ≤ v → unsignedText v.toNat base = if v = 0 then [48, 0]
      else (if v < 0 then [45] else []) ++ (scratch base 64 v.toNat).reverse := by
    intro h
    have hzero : v.toNat = 0 ↔ v = 0 := by omega
    simp only [unsignedText, hzero, if_neg (not_lt.mpr h), List.nil_append]
  have hsigned : ∀ wrap : Int → Int, signedText wrap v base = if v = 0 then [48, 0]
      else (if v < 0 then [45] else []) ++
        (scratch base 64 (if v < 0 then wrap (-v) else v).toNat).reverse := by
    intro wrap
    simp only [signedText]
    split_ifs <;> rfl
  cases f with
  | itoa => exact hsigned asInt
  | uitoa => exact hunsigned hv.1
  | lltoa => exact hsigned asLongLong
  | ulltoa => exact hunsigned hv.1

/-- The most negative value is its own negation, so no digit is taken from it. -/
theorem magnitude_eq (hv : f.Takes v) : (f.MostNegative v → f.magnitude v = 0) ∧
    (¬ f.MostNegative v → f.magnitude v = v.natAbs) := by
  cases f with
  | itoa =>
    refine ⟨fun hm => ?_, fun hm => ?_⟩
    · rw [magnitude, show v = -2 ^ 31 from hm]
      decide
    · have hlow : v ≠ -2 ^ 31 := hm
      obtain ⟨h1, h2⟩ := hv
      have hneg : v < 0 → asInt (-v) = -v := fun h => asInt_eq (by omega) (by omega)
      simp only [magnitude]
      split
      · rename_i h
        rw [hneg h]
        omega
      · omega
  | uitoa =>
    have h0 : 0 ≤ v := hv.1
    exact ⟨False.elim, fun _ => by simp only [magnitude]; omega⟩
  | lltoa =>
    refine ⟨fun hm => ?_, fun hm => ?_⟩
    · rw [magnitude, show v = -2 ^ 63 from hm]
      decide
    · have hlow : v ≠ -2 ^ 63 := hm
      obtain ⟨h1, h2⟩ := hv
      have hneg : v < 0 → asLongLong (-v) = -v := by
        intro h
        rw [asLongLong, Int.bmod_def]
        split <;> omega
      simp only [magnitude]
      split
      · rename_i h
        rw [hneg h]
        omega
      · omega
  | ulltoa =>
    have h0 : 0 ≤ v := hv.1
    exact ⟨False.elim, fun _ => by simp only [magnitude]; omega⟩

theorem natAbs_lt (hv : f.Takes v) : v.natAbs < 2 ^ 64 := by
  cases f with
  | itoa =>
    obtain ⟨h1, h2⟩ := hv
    omega
  | uitoa =>
    obtain ⟨h1, h2⟩ := hv
    omega
  | lltoa =>
    obtain ⟨h1, h2⟩ := hv
    omega
  | ulltoa =>
    obtain ⟨h1, h2⟩ := hv
    omega

theorem scratch_length {val k : Nat} (hbase : 8 ≤ base) (hval : val < 8 ^ k) (hk : k ≤ 64) :
    (scratch base 64 val).length ≤ k := by
  have hpow : val < base ^ k := hval.trans_le (Nat.pow_le_pow_left hbase k)
  have hpow' : val < base ^ 64 := hpow.trans_le (Nat.pow_le_pow_right (by omega) hk)
  rw [scratch_digits (by omega) 64 hpow', List.length_map]
  exact (Nat.digits_length_le_iff (by omega) val).mpr hpow

theorem digits_fit (hv : f.Takes v) (hbase : 8 ≤ base) : (f.digits v base).length ≤ f.room := by
  have hmag : f.magnitude v ≤ v.natAbs := by
    obtain ⟨hm, hn⟩ := f.magnitude_eq hv
    by_cases h : f.MostNegative v
    · rw [hm h]
      exact Nat.zero_le _
    · exact (hn h).le
  rw [digits]
  cases f with
  | itoa =>
    have hlt : v.natAbs < 8 ^ 11 := by obtain ⟨h1, h2⟩ := hv; omega
    exact (scratch_length hbase (hmag.trans_lt hlt) (by decide)).trans (by decide)
  | uitoa =>
    have hlt : v.natAbs < 8 ^ 11 := by obtain ⟨h1, h2⟩ := hv; omega
    exact (scratch_length hbase (hmag.trans_lt hlt) (by decide)).trans (by decide)
  | lltoa =>
    have hlt : v.natAbs < 8 ^ 22 := by obtain ⟨h1, h2⟩ := hv; omega
    exact (scratch_length hbase (hmag.trans_lt hlt) (by decide)).trans (by decide)
  | ulltoa =>
    have hlt : v.natAbs < 8 ^ 22 := by obtain ⟨h1, h2⟩ := hv; omega
    exact (scratch_length hbase (hmag.trans_lt hlt) (by decide)).trans (by decide)

theorem text_numeral (hv : f.Takes v) (hbase : 2 ≤ base) (h0 : v ≠ 0) (hm : ¬ f.MostNegative v) :
    f.text v base = (if v < 0 then [45] else []) ++ numeral base v.natAbs := by
  have hpow : v.natAbs < base ^ 64 := (f.natAbs_lt hv).trans_le (Nat.pow_le_pow_left hbase 64)
  have hpos : v.natAbs ≠ 0 := by omega
  rw [f.text_eq hv, if_neg h0, digits, (f.magnitude_eq hv).2 hm, scratch_digits hbase 64 hpow, numeral,
    if_neg hpos]

/-- Only the sign is written. -/
theorem text_lowest (hv : f.Takes v) (hm : f.MostNegative v) : f.text v base = [45] := by
  have hneg : v < 0 := by
    cases f with
    | itoa => rw [show v = -2 ^ 31 from hm]; decide
    | uitoa => exact hm.elim
    | lltoa => rw [show v = -2 ^ 63 from hm]; decide
    | ulltoa => exact hm.elim
  have hempty : f.digits v base = [] := by
    rw [digits, (f.magnitude_eq hv).1 hm]
    rfl
  rw [f.text_eq hv, if_neg hneg.ne, if_pos hneg, hempty]
  rfl

end ToText

open ToText

/-- In base 8, 10 and 16 a number is rendered into any buffer that the text does not fill, and
its digits fit, unless it is the most negative one of a signed type. -/
theorem number_rendered_iff (f : ToText) {v : Int} (hv : f.Takes v) {base : Nat}
    (hbase : base = 8 ∨ base = 10 ∨ base = 16) {n : Nat} (hn : (f.text v base).length < n) :
    Renders base v (scribble (f.text v base) (List.replicate n 0)) ∧
      (f.digits v base).length ≤ f.room ↔ ¬ f.MostNegative v := by
  have hb : 2 ≤ base ∧ 8 ≤ base ∧ base ≤ 16 := by omega
  rw [and_iff_left (f.digits_fit hv hb.2.1)]
  constructor
  · intro hrenders hm
    have hread := hrenders.value
    rw [f.text_lowest hv hm] at hn hread
    rw [cstring_scribble (by simp) hn] at hread
    exact absurd hread (by simp [readBack, unsignedPart])
  · intro hm
    have hzero := zero_mem_scribble hn
    by_cases h0 : v = 0
    · subst h0
      rw [f.text_eq hv, if_pos rfl] at hzero ⊢
      exact renders_signed hb.1 hb.2.2 0 hzero rfl
    · rw [f.text_numeral hv hb.1 h0 hm] at hn hzero ⊢
      refine renders_signed hb.1 hb.2.2 v hzero (cstring_scribble (fun b hmem => ?_) hn)
      rcases List.mem_append.mp hmem with hmem | hmem
      · split at hmem
        · rw [List.mem_singleton.mp hmem]
          decide
        · simp at hmem
      · exact (numeral_read hb.1 hb.2.2).2.2.2.2 b hmem

theorem number_rendered_octal :
    Renders 8 (-(2 ^ 63 - 1)) (scribble (ToText.lltoa.text (-(2 ^ 63 - 1)) 8) (List.replicate 23 0)) ∧
      (ToText.lltoa.digits (-(2 ^ 63 - 1)) 8).length ≤ ToText.lltoa.room :=
  (number_rendered_iff .lltoa ⟨by decide, by decide⟩ (.inl rfl) (by decide)).mpr (by
    change ¬ (-(2 ^ 63 - 1) : Int) = -2 ^ 63
    decide)

/-- Of the most negative `int` the buffer holds the sign only. -/
theorem number_lowest : ToText.itoa.Takes (-2147483648) ∧
    cstring (scribble (ToText.itoa.text (-2147483648) 10) (List.replicate 120 0)) = [45] ∧
    ¬ Renders 10 (-2147483648) (scribble (ToText.itoa.text (-2147483648) 10) (List.replicate 120 0)) := by
  refine ⟨⟨by decide, by decide⟩, by decide, fun h => ?_⟩
  exact absurd h.value (by decide)

end TayHuang
