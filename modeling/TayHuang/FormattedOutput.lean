import TayHuang.Directives

/-! Formatted output against its meaning. -/

namespace TayHuang

namespace Printf

open Fuel

/-! ### Reading a conversion -/

def Letter.type : Letter → PrintType
  | .d => .int
  | .u => .unsigned
  | .o => .oct
  | .x | .X => .hex
  | .c => .char
  | .s => .string

def flagsOf (flags : List Flag) (upper left : Bool) : Flags where
  sign := Flag.sign ∈ flags
  leftAlign := left
  fillZero := Flag.fillZero ∈ flags
  alternate := Flag.alternate ∈ flags
  upper := upper

/-- A conversion as the parser keeps it. -/
def Directive.conv (p : Directive) (width : Nat) (left : Bool) : Conv where
  flags := flagsOf p.flags (p.letter = .X) left
  width := width
  precision := 0
  qualifier := p.size
  type := p.letter.type

/-- A character that is no flag, no digit, no star and no dot. -/
def Plain (ch : UInt8) : Prop := isFlag ch = false ∧ isdigit ch = false ∧ ch ≠ 42 ∧ ch ≠ 46

theorem size_head (size : Qualifier) (letter : Letter) (rest : List UInt8) :
    ∃ ch tail, size.format ++ letter.code :: rest = ch :: tail ∧ Plain ch := by
  unfold Plain
  cases size <;> cases letter <;> exact ⟨_, _, rfl, by decide⟩

theorem parseFlags_stop (f : Flags) {ch : UInt8} (h : isFlag ch = false) (rest : List UInt8) :
    parseFlags f (ch :: rest) = (f, ch :: rest) := by
  simp only [isFlag, Bool.or_eq_false_iff, decide_eq_false_iff_not] at h
  obtain ⟨⟨⟨⟨h1, h2⟩, h3⟩, h4⟩, h5⟩ := h
  rw [parseFlags, if_neg h1, if_neg h2, if_neg h3, if_neg h4, if_neg h5]

theorem parseFlags_flags (flags : List Flag) (f : Flags) {ch : UInt8} (h : isFlag ch = false)
    (rest : List UInt8) : parseFlags f (flags.map Flag.code ++ ch :: rest) =
      ({ f with
        sign := f.sign || decide (Flag.sign ∈ flags)
        leftAlign := f.leftAlign || decide (Flag.leftAlign ∈ flags)
        fillZero := f.fillZero || decide (Flag.fillZero ∈ flags)
        alternate := f.alternate || decide (Flag.alternate ∈ flags) }, ch :: rest) := by
  induction flags generalizing f with
  | nil => simp [parseFlags_stop f h]
  | cons flag flags ih =>
    rw [List.map_cons, List.cons_append]
    cases flag <;> simp [parseFlags, Flag.code, ih]

theorem digit_decimal (k : Fin 10) : isdigit (digit k) = true ∧ (digit k).toNat = 48 + k ∧ digit k ≠ 42 := by
  revert k
  decide

theorem le_decimalValue (n : Nat) (rest : List (Fin 10)) : n ≤ decimalValue n rest := by
  induction rest generalizing n with
  | nil => exact Nat.le_refl _
  | cons k rest ih =>
    have := ih (n * 10 + k)
    rw [decimalValue] at this ⊢
    rw [List.foldl_cons]
    omega

theorem parseDigits_decimal (rest : List (Fin 10)) {n : Nat} (h : decimalValue n rest < 2 ^ 31)
    {ch : UInt8} (hch : isdigit ch = false) (tail : List UInt8) :
    parseDigits n (rest.map (fun k => digit k.val) ++ ch :: tail) =
      ((decimalValue n rest : Int), ch :: tail) := by
  induction rest generalizing n with
  | nil => simp [parseDigits, hch, decimalValue]
  | cons k rest ih =>
    obtain ⟨hdigit, hval, -⟩ := digit_decimal k
    have hle := le_decimalValue (n * 10 + k) rest
    have hnext : decimalValue n (k :: rest) = decimalValue (n * 10 + k) rest := rfl
    have hint : asInt ((n : Int) * 10 + (digit k).toNat - 48) = ((n * 10 + k : Nat) : Int) := by
      rw [asInt_eq] <;> omega
    rw [List.map_cons, List.cons_append, parseDigits, if_pos hdigit, hint, ih (by omega), hnext]

theorem asInt_mem (x : Int) : -2 ^ 31 ≤ asInt x ∧ asInt x < 2 ^ 31 := by
  unfold asInt
  rw [Int.bmod_def]
  split <;> omega

theorem parseWidth_format (p : Directive) (c : Conv) (args : VaList) {ch : UInt8} (h : Plain ch)
    (tail : List UInt8) (hw : (p.field args).1 < 2 ^ 31)
    (hleft : c.flags.leftAlign = decide (Flag.leftAlign ∈ p.flags)) :
    parseWidth kernel c args (p.width.format ++ ch :: tail) =
      ({ c with
        width := (p.field args).1
        flags := { c.flags with leftAlign := (p.field args).2.1 } }, ch :: tail, (p.field args).2.2) := by
  obtain ⟨-, hdigit, hstar, -⟩ := h
  unfold Directive.field at hw ⊢
  cases hwidth : p.width with
  | none => simp [Width.format, parseWidth, hstar, parseDigits, hdigit, ← hleft]
  | decimal first rest =>
    simp only [hwidth] at hw
    have hlt : decimalValue (first + 1) rest < 2 ^ 31 := hw
    obtain ⟨hd, hval, hne⟩ := digit_decimal ⟨first + 1, by omega⟩
    have hint : asInt ((0 : Int) * 10 + (digit (first + 1)).toNat - 48) = ((first + 1 : Nat) : Int) := by
      have := first.isLt
      rw [asInt_eq] <;> simp only [] at hval <;> omega
    simp only [Width.format, List.cons_append, parseWidth, if_neg hne, parseDigits, if_pos hd, hint,
      parseDigits_decimal rest hlt hdigit, ← hleft]
  | star =>
    simp only [hwidth] at hw
    have hle : -2 ^ 31 ≤ args.int.1 ∧ args.int.1 < 2 ^ 31 := by
      simp only [VaList.int]
      exact asInt_mem _
    have hint : kernel.int args = args.int := rfl
    simp only [Width.format, List.cons_append, List.nil_append, parseWidth, if_pos, hint]
    split
    · rename_i hneg
      rw [asInt_eq (by omega) (by omega)]
      simp only [hneg, decide_true, Bool.or_true]
      rw [show ((args.int.1.natAbs : Nat) : Int) = -args.int.1 by omega]
    · rename_i hneg
      simp only [hneg, decide_false, Bool.or_false, ← hleft]
      rw [show ((args.int.1.natAbs : Nat) : Int) = args.int.1 by omega]

theorem parsePrecision_none (c : Conv) (args : VaList) {ch : UInt8} (h : ch ≠ 46) (tail : List UInt8) :
    parsePrecision kernel c args (ch :: tail) = (c, ch :: tail, args) := by
  rw [parsePrecision, if_neg h]

theorem kernelQualifiers_format (size : Qualifier) (letter : Letter) (rest : List UInt8) :
    kernelQualifiers (size.format ++ letter.code :: rest) = (size, letter.code :: rest) := by
  cases size <;> cases letter <;> rfl

theorem parseLetter_code (letter : Letter) (c : Conv) (h : c.flags.upper = false) :
    parseLetter true letter.code c =
      { c with flags := { c.flags with upper := letter = .X }, type := letter.type } := by
  cases letter <;> simp [parseLetter, Letter.code, Letter.type, ← h]

theorem width_head (w : Width) {ch : UInt8} (h : Plain ch) (tail : List UInt8) :
    ∃ ch' tail', w.format ++ ch :: tail = ch' :: tail' ∧ isFlag ch' = false := by
  cases w with
  | none => exact ⟨_, _, rfl, h.1⟩
  | decimal first rest =>
    refine ⟨_, _, rfl, ?_⟩
    revert first
    decide
  | star => exact ⟨_, _, rfl, by decide⟩

theorem parse_format (p : Directive) (args : VaList) (hw : (p.field args).1 < 2 ^ 31) (rest : List UInt8) :
    parse kernel (p.format ++ rest) args =
      (p.conv (p.field args).1 (p.field args).2.1, p.letter.code :: rest, (p.field args).2.2) := by
  obtain ⟨ch, tail, heq, hplain⟩ := size_head p.size p.letter rest
  obtain ⟨ch', tail', hwidth, hflag⟩ := width_head p.width hplain tail
  have hformat : p.format ++ rest = p.flags.map Flag.code ++ ch' :: tail' := by
    rw [← hwidth, ← heq]
    simp [Directive.format]
  have hqual : kernel.qualifiers (ch :: tail) = (p.size, p.letter.code :: rest) := by
    rw [← heq]
    exact kernelQualifiers_format ..
  rw [parse, hformat, parseFlags_flags p.flags {} hflag]
  dsimp only
  rw [← hwidth, parseWidth_format p _ args hplain tail hw (by simp)]
  dsimp only
  rw [parsePrecision_none _ _ hplain.2.2.2]
  dsimp only
  rw [hqual]
  dsimp only
  rw [List.headD_cons, show kernel.floats = true from rfl, parseLetter_code _ _ rfl]
  simp [Directive.conv, flagsOf]

theorem format_head (p : Directive) (rest : List UInt8) : (p.format ++ rest).head? ≠ some 37 := by
  obtain ⟨flags, width, size, letter⟩ := p
  cases flags with
  | cons flag flags => cases flag <;> simp [Directive.format, Flag.code]
  | nil =>
    cases width with
    | none => cases size <;> cases letter <;> simp [Directive.format, Width.format, Qualifier.format, Letter.code]
    | decimal first _ =>
      have hne : digit (first + 1) ≠ 37 := by
        revert first
        decide
      simpa [Directive.format, Width.format] using hne
    | star => simp [Directive.format, Width.format]

/-! ### Numbers -/

theorem digit_ne_zero {k : Nat} (h : k < 16) : digit k ≠ 0 := by
  revert k
  decide

theorem cstring_scribble {bytes : List UInt8} (h : ∀ b ∈ bytes, b ≠ 0) {n : Nat}
    (hlen : bytes.length < n) : cstring (scribble bytes (List.replicate n 0)) = bytes := by
  obtain ⟨k, hk⟩ : ∃ k, n - bytes.length = k + 1 := ⟨n - bytes.length - 1, by omega⟩
  rw [scribble, List.drop_replicate, hk, List.replicate_succ, cstring,
    List.takeWhile_append_of_pos (by simpa using h)]
  simp

theorem textOf_eq {bytes : List UInt8} (h : ∀ b ∈ bytes, b ≠ 0) (hlen : bytes.length < 120) :
    textOf bytes = bytes := cstring_scribble h hlen

theorem textOf_unsignedText {base : Nat} (hb : 2 ≤ base) (hb' : base ≤ 16) {n : Nat} (hn : n < 2 ^ 64) :
    textOf (unsignedText n base) = numeral base n := by
  rw [unsignedText, numeral]
  split
  · decide
  · have hlt : n < base ^ 64 := Nat.lt_of_lt_of_le hn (Nat.pow_le_pow_left hb 64)
    have hlen := scratch_length_le base 64 n
    rw [scratch_digits hb 64 hlt] at hlen ⊢
    refine textOf_eq (fun b hmem => ?_) (by rw [List.length_reverse]; omega)
    obtain ⟨k, hk, rfl⟩ := List.mem_map.mp (List.mem_reverse.mp hmem)
    exact digit_ne_zero (Nat.lt_of_lt_of_le (Nat.digits_lt_base hb hk) hb')

theorem textOf_signedText (wrap : Int → Int) {val : Int} (h : 0 ≤ val) (hlt : val < 2 ^ 64) :
    textOf (signedText wrap val 10) = numeral 10 val.natAbs := by
  rw [← textOf_unsignedText (by decide) (by decide) (by omega)]
  rw [signedText, unsignedText, if_neg (by omega : ¬ val < 0), show val.toNat = val.natAbs by omega]
  split
  · rw [if_pos (by omega)]
  · rw [if_neg (by omega)]

/-! ### A conversion in its field -/

/-- The sign and what `#` adds, as `emit` writes them. -/
def Conv.signText (c : Conv) (hasSign : Bool) : List UInt8 :=
  (if c.flags.sign && !hasSign then [43] else []) ++ (if hasSign then [45] else [])

def Conv.leadText (c : Conv) : List UInt8 :=
  if c.flags.alternate then
    match c.type with
    | .oct => [48]
    | .hex => [48, if c.flags.upper then 88 else 120]
    | _ => []
  else []

theorem emit_eq {c : Conv} {width : Nat} (hw : c.width = width) (front : List UInt8) (hasSign : Bool)
    (text : List UInt8) : emit c front hasSign text =
      front ++ c.signText hasSign ++ c.leadText ++
        List.replicate (width - (text.length + (front.length + (c.signText hasSign).length)))
          (if c.flags.fillZero then 48 else 32) ++ text := by
  rw [← Int.toNat_natCast (width - (text.length + (front.length + (c.signText hasSign).length))),
    ← Int.toNat_sub, ← hw]
  rfl

theorem emit_justify {c : Conv} {hasSign left : Bool} {text : List UInt8} {width : Nat} (hw : c.width = width)
    (hfits : width ≤ (c.signText hasSign).length + text.length ∨
      left = false ∧ c.leadText = [] ∧ (c.flags.fillZero = true ∨ c.signText hasSign = [])) :
    emit c [] hasSign text =
      justify width left c.flags.fillZero (c.signText hasSign ++ c.leadText) text := by
  rw [emit_eq hw, justify, List.nil_append, List.length_nil, Nat.zero_add]
  rcases hfits with hle | ⟨rfl, hlead, hfill⟩
  · rw [Nat.sub_eq_zero_of_le (by omega), Nat.sub_eq_zero_of_le (by rw [List.length_append]; omega)]
    simp
  · rw [hlead]
    rcases hfill with hfill | hsign
    · simp [hfill, Nat.add_comm]
    · rw [hsign]
      cases c.flags.fillZero <;> simp

/-- What the code reads of an argument is its value, and has a negation. -/
def Directive.Read (mem : Nat → UInt8) (p : Directive) (v : UInt64) : Prop :=
  match p.letter with
  | .d =>
    if p.size = .longlong then asLongLong v.toNat ≠ -2 ^ 63
    else asInt v.toNat = signedArg p.size v ∧ asInt v.toNat ≠ -2 ^ 31
  | .u => p.size = .longlong ∨ v.toNat % 2 ^ 32 = unsignedArg p.size v
  | .x | .X => v.toNat = unsignedArg p.size v ∧ (Flag.alternate ∈ p.flags → v.toNat ≠ 0)
  | .o => False
  | .c => True
  | .s => ∃ k, mem (v.toNat + (k + 1)) = 0

/-- Numbers are filled in front, with zeros behind the sign; characters and strings
are filled behind. -/
def Directive.Fits (mem : Nat → UInt8) (p : Directive) (args : VaList) : Prop :=
  let f := p.field args
  let v := f.2.2.next.1
  if p.letter = .c ∨ p.letter = .s then
    f.1 ≤ (p.body mem v).length ∨ f.2.1 = true ∧ Flag.fillZero ∉ p.flags
  else
    f.1 ≤ (p.sign v).length + (p.body mem v).length ∨
      f.2.1 = false ∧ p.lead v = [] ∧ (Flag.fillZero ∈ p.flags ∨ p.sign v = [])

/-- The conversions that come out right. -/
structure Directive.Printable (mem : Nat → UInt8) (p : Directive) (args : VaList) : Prop where
  width : (p.field args).1 < 2 ^ 31
  read : p.Read mem (p.field args).2.2.next.1
  sign : p.letter = .d ∨ Flag.sign ∉ p.flags
  fits : p.Fits mem args

/-- A character or a string is written at once, and filled behind. -/
theorem emit_front {c : Conv} {front : List UInt8} {width : Nat} {left : Bool} (hw : c.width = width)
    (hsign : c.signText false = []) (hlead : c.leadText = [])
    (hfits : width ≤ front.length ∨ left = true ∧ c.flags.fillZero = false) :
    emit c front false [] = justify width left false [] front := by
  rw [emit_eq hw, hsign, hlead, justify]
  rcases hfits with hle | ⟨rfl, hfill⟩
  · simp [Nat.sub_eq_zero_of_le hle]
  · simp [hfill]

variable {mem : Nat → UInt8} {p : Directive} {args : VaList}

theorem asLongLong_mem (x : Int) : -2 ^ 63 ≤ asLongLong x ∧ asLongLong x < 2 ^ 63 := by
  unfold asLongLong
  rw [Int.bmod_def]
  split <;> omega

theorem asLongLong_eq {x : Int} (h0 : -2 ^ 63 ≤ x) (h : x < 2 ^ 63) : asLongLong x = x := by
  unfold asLongLong
  rw [Int.bmod_def]
  split <;> omega

/-- The digits of a value whose negation is one too. -/
theorem signedText_magnitude (wrap : Int → Int) (val : Int) (h : val.natAbs < 2 ^ 63)
    (hwrap : val < 0 → wrap (-val) = -val) :
    textOf (signedText wrap (if val < 0 then wrap (-val) else val) 10) = numeral 10 val.natAbs := by
  split
  · rename_i hneg
    rw [hwrap hneg, textOf_signedText wrap (by omega) (by omega), Int.natAbs_neg]
  · exact textOf_signedText wrap (by omega) (by omega)

theorem signedArg_longlong (v : UInt64) : signedArg .longlong v = asLongLong v.toNat := rfl

theorem number_int (hl : p.letter = .d) (h : p.Read mem args.next.1) (width : Nat) (left : Bool) :
    kernelNumber (p.conv width left) args =
      (decide (signedArg p.size args.next.1 < 0), p.body mem args.next.1, args.next.2) := by
  simp only [Directive.Read, hl] at h
  have hconv : kernelNumber (p.conv width left) args =
      if p.size ≠ .longlong then
        (decide (args.int.1 < 0),
          textOf (itoa (if args.int.1 < 0 then asInt (-args.int.1) else args.int.1) 10), args.int.2)
      else
        let val := asLongLong args.next.1.toNat
        (decide (val < 0), textOf (lltoa (if val < 0 then asLongLong (-val) else val) 10), args.next.2) := by
    unfold kernelNumber Directive.conv
    simp only [hl, Letter.type]
  rw [hconv]
  simp only [Directive.body, hl]
  split at h
  · rename_i hsize
    have hle := asLongLong_mem args.next.1.toNat
    have hval : signedArg p.size args.next.1 = asLongLong args.next.1.toNat := by
      rw [hsize]
      exact signedArg_longlong _
    have hneg : asLongLong args.next.1.toNat < 0 →
        asLongLong (-asLongLong args.next.1.toNat) = -asLongLong args.next.1.toNat := fun hneg => by
      rw [asLongLong_eq] <;> omega
    rw [if_neg (not_not.mpr hsize), hval, lltoa,
      signedText_magnitude asLongLong (asLongLong args.next.1.toNat) (by omega) hneg]
  · rename_i hsize
    have hint : args.int = (asInt args.next.1.toNat, args.next.2) := by simp only [VaList.int]
    have hle := asInt_mem args.next.1.toNat
    have hneg : asInt args.next.1.toNat < 0 → asInt (-asInt args.next.1.toNat) = -asInt args.next.1.toNat :=
      fun hneg => by rw [asInt_eq] <;> omega
    rw [if_pos hsize, hint, ← h.1, itoa, signedText_magnitude asInt (asInt args.next.1.toNat) (by omega) hneg]

theorem number_unsigned (hl : p.letter = .u) (h : p.Read mem args.next.1) (width : Nat) (left : Bool) :
    kernelNumber (p.conv width left) args = (false, p.body mem args.next.1, args.next.2) := by
  simp only [Directive.Read, hl] at h
  have hlt := args.next.1.toNat_lt
  have hconv : kernelNumber (p.conv width left) args =
      if p.size ≠ .longlong then (false, textOf (uitoa (args.next.1.toNat % 2 ^ 32) 10), args.next.2)
      else (false, textOf (ulltoa args.next.1.toNat 10), args.next.2) := by
    unfold kernelNumber Directive.conv
    simp only [hl, Letter.type]
  rw [hconv]
  simp only [Directive.body, hl]
  by_cases hsize : p.size = .longlong
  · rw [if_neg (not_not.mpr hsize), ulltoa, textOf_unsignedText (by decide) (by decide) hlt, hsize, unsignedArg]
  · rw [if_pos hsize, uitoa, textOf_unsignedText (by decide) (by decide) (by omega), h.resolve_left hsize]

theorem number_hex (hl : p.letter = .x ∨ p.letter = .X) (h : p.Read mem args.next.1) (width : Nat)
    (left : Bool) : kernelNumber (p.conv width left) args = (false, p.body mem args.next.1, args.next.2) := by
  have hlt := args.next.1.toNat_lt
  have htext : textOf (ulltoa args.next.1.toNat 16) = numeral 16 args.next.1.toNat := by
    rw [ulltoa, textOf_unsignedText (by decide) (by decide) hlt]
  have hconv : kernelNumber (p.conv width left) args =
      (false, if p.letter = .X then (textOf (ulltoa args.next.1.toNat 16)).map toupper
        else textOf (ulltoa args.next.1.toNat 16), args.next.2) := by
    unfold kernelNumber Directive.conv
    rcases hl with hl | hl <;> simp [hl, Letter.type, flagsOf, textOf]
  rw [hconv, htext]
  rcases hl with hl | hl <;> simp only [Directive.Read, hl] at h <;> simp [Directive.body, hl, h.1.symm]

theorem signText_int (hl : p.letter = .d) (v : UInt64) (width : Nat) (left : Bool) :
    (p.conv width left).signText (decide (signedArg p.size v < 0)) = p.sign v := by
  simp only [Conv.signText, Directive.conv, flagsOf, Directive.sign, hl, if_true]
  by_cases hneg : signedArg p.size v < 0
  · simp [hneg]
  · simp [hneg]

theorem signText_none (hl : p.letter ≠ .d) (h : Flag.sign ∉ p.flags) (v : UInt64) (width : Nat) (left : Bool) :
    (p.conv width left).signText false = p.sign v := by
  simp [Conv.signText, Directive.conv, flagsOf, Directive.sign, hl, h]

theorem leadText_conv {v : UInt64} (h : p.Read mem v) (width : Nat) (left : Bool) :
    (p.conv width left).leadText = p.lead v := by
  simp only [Conv.leadText, Directive.conv, flagsOf, Directive.lead, decide_eq_true_eq]
  by_cases halt : Flag.alternate ∈ p.flags
  · cases hl : p.letter with
    | x | X =>
      simp only [Directive.Read, hl] at h
      simp [halt, Letter.type, ← h.1, h.2 halt]
    | o => simp [Directive.Read, hl] at h
    | d | u | c | s => simp [halt, Letter.type]
  · simp [halt]

/-- A number in its field. -/
theorem emit_number (h : p.Printable mem args) (hc : p.letter ≠ .c) (hs : p.letter ≠ .s) {hasSign : Bool}
    (hsign : (p.conv (p.field args).1 (p.field args).2.1).signText hasSign =
      p.sign (p.field args).2.2.next.1) :
    emit (p.conv (p.field args).1 (p.field args).2.1) [] hasSign (p.body mem (p.field args).2.2.next.1) =
      p.expected mem args := by
  have hlead := leadText_conv h.read (p.field args).1 (p.field args).2.1
  have hfits := h.fits
  have hzeros : p.zeros = (p.conv (p.field args).1 (p.field args).2.1).flags.fillZero := by
    simp [Directive.zeros, Directive.conv, flagsOf, hc, hs]
  simp only [Directive.Fits, if_neg (not_or.mpr ⟨hc, hs⟩)] at hfits
  rw [Directive.expected, hzeros, ← hsign, ← hlead]
  refine emit_justify rfl ?_
  rw [hsign, hlead]
  simpa [Directive.conv, flagsOf] using hfits

theorem expected_front (h : p.Printable mem args) (hl : p.letter = .c ∨ p.letter = .s) :
    emit (p.conv (p.field args).1 (p.field args).2.1) (p.body mem (p.field args).2.2.next.1) false [] =
      p.expected mem args := by
  have hne : p.letter ≠ .d := by rcases hl with hl | hl <;> simp [hl]
  have hsign := signText_none hne (h.sign.resolve_left hne) (p.field args).2.2.next.1
    (p.field args).1 (p.field args).2.1
  have hlead := leadText_conv h.read (p.field args).1 (p.field args).2.1
  have hnone : p.sign (p.field args).2.2.next.1 = [] := by rw [Directive.sign, if_neg hne]
  have hnone' : p.lead (p.field args).2.2.next.1 = [] := by
    rw [Directive.lead]
    rcases hl with hl | hl <;> simp [hl]
  have hzeros : p.zeros = false := by
    rcases hl with hl | hl <;> simp [Directive.zeros, hl]
  have hfits := h.fits
  simp only [Directive.Fits, if_pos hl] at hfits
  rw [Directive.expected, hzeros, hnone, hnone']
  refine emit_front rfl (hsign.trans hnone) (hlead.trans hnone') ?_
  simpa [Directive.conv, flagsOf] using hfits

theorem asInt_mod (n : Nat) : (asInt n % 256).toNat = n % 256 := by
  unfold asInt
  rw [Int.bmod_def]
  split <;> omega

theorem output_expected (h : p.Printable mem args) :
    output kernel (stringAt mem (kernel.pointer (p.field args).2.2).1)
        (p.conv (p.field args).1 (p.field args).2.1) (p.field args).2.2 =
      (p.expected mem args, (p.field args).2.2.next.2) := by
  have hnumber : kernel.number = kernelNumber := rfl
  have hpointer : kernel.pointer (p.field args).2.2 =
    ((p.field args).2.2.next.1.toNat, (p.field args).2.2.next.2) := rfl
  have htype : (p.conv (p.field args).1 (p.field args).2.1).type = p.letter.type := rfl
  have hread := h.read
  cases hl : p.letter with
  | d =>
    rw [← emit_number h (by simp [hl]) (by simp [hl]) (signText_int hl ..)]
    simp only [output, htype, hl, Letter.type, hnumber, number_int hl hread]
  | u =>
    rw [← emit_number h (by simp [hl]) (by simp [hl])
      (signText_none (by simp [hl]) (h.sign.resolve_left (by simp [hl])) ..)]
    simp only [output, htype, hl, Letter.type, hnumber, number_unsigned hl hread]
  | o => simp [Directive.Read, hl] at hread
  | x =>
    rw [← emit_number h (by simp [hl]) (by simp [hl])
      (signText_none (by simp [hl]) (h.sign.resolve_left (by simp [hl])) ..)]
    simp only [output, htype, hl, Letter.type, hnumber, number_hex (Or.inl hl) hread]
  | X =>
    rw [← emit_number h (by simp [hl]) (by simp [hl])
      (signText_none (by simp [hl]) (h.sign.resolve_left (by simp [hl])) ..)]
    simp only [output, htype, hl, Letter.type, hnumber, number_hex (Or.inr hl) hread]
  | c =>
    rw [← expected_front h (Or.inl hl)]
    have hint : kernel.int (p.field args).2.2 =
      (asInt (p.field args).2.2.next.1.toNat, (p.field args).2.2.next.2) := by
      unfold kernel VaList.int
      rfl
    simp only [output, htype, hl, Letter.type, hint, asInt_mod, Directive.body]
  | s =>
    rw [← expected_front h (Or.inr hl)]
    simp only [output, htype, hl, Letter.type, hpointer, Directive.body]

/-! ### A whole format -/

/-- Every conversion comes out right, with the arguments it meets. -/
def Printable (mem : Nat → UInt8) : List Piece → VaList → Prop
  | [], _ => True
  | .literal _ _ :: pieces, args | .percent :: pieces, args => Printable mem pieces args
  | .conversion p :: pieces, args => p.Printable mem args ∧ Printable mem pieces (p.field args).2.2.next.2

theorem printable_settles {pieces : List Piece} {args : VaList} (h : Printable mem pieces args)
    (out : List UInt8) : Settles (fun fuel => vsprint kernel mem fuel (formatOf pieces) args out)
      (.returned (out ++ expected mem pieces args) (kernel.ret (out ++ expected mem pieces args).length)) := by
  induction pieces generalizing args out with
  | nil =>
    apply settles_succ rfl
    simp only [formatOf, List.flatMap_nil, vsprint, expected, List.append_nil]
    exact settles_const _
  | cons piece pieces ih =>
    have hcons : formatOf (piece :: pieces) = piece.format ++ formatOf pieces := rfl
    apply settles_succ rfl
    cases piece with
    | literal ch hch =>
      rw [hcons]
      simp only [Piece.format, List.cons_append, List.nil_append, vsprint, if_pos hch.1, expected]
      have hrest := ih h (out ++ [ch])
      rwa [List.append_assoc] at hrest
    | percent =>
      rw [hcons]
      simp only [Piece.format, List.cons_append, List.nil_append, vsprint, ne_eq, not_true_eq_false,
        if_false, List.head?_cons, if_true, List.tail_cons, expected]
      have hrest := ih h (out ++ [37])
      rwa [List.append_assoc] at hrest
    | conversion p =>
      obtain ⟨hp, h⟩ := h
      have hout := output_expected hp
      have hstr : (p.conv (p.field args).1 (p.field args).2.1).type = .string →
          ¬ Diverges fun fuel => kernel.strcpy mem fuel (kernel.pointer (p.field args).2.2).1 := by
        intro hs
        have hl : p.letter = .s := by
          have htype : p.letter.type = .string := hs
          cases hl : p.letter <;> simp_all [Letter.type]
        have hread := hp.read
        simp only [Directive.Read, hl] at hread
        exact strcpy_stops hread
      rw [hcons]
      simp only [Piece.format, List.cons_append, vsprint, ne_eq, not_true_eq_false, if_false,
        if_neg (format_head p _), parse_format p args hp.width, expected]
      refine (convert_settles kernel_copying hstr).bind ?_
      rw [hout]
      have hrest := ih h (out ++ p.expected mem args)
      rwa [List.append_assoc] at hrest

theorem kernel_ret_ne (n : Nat) : kernel.ret n ≠ n := by
  unfold kernel asInt
  dsimp only
  rw [Int.bmod_def]
  split <;> omega

/-- The text is right for the conversions that are printable; the length is one short. -/
theorem vsprintk_text {pieces : List Piece} {args : VaList} (h : Printable mem pieces args) :
    Settles (fun fuel => vsprintk mem fuel (formatOf pieces) args)
      (.returned (expected mem pieces args) (asInt ((expected mem pieces args).length - 1))) :=
  printable_settles h []

/-- The value returned is never the length. -/
theorem outputs_miscounted (mem : Nat → UInt8) (pieces : List Piece) (args : VaList) :
    ¬ PrintsRight mem pieces args := by
  intro hset
  obtain ⟨N, hN⟩ := hset.enough
  obtain ⟨hc, hs⟩ := complete_of_returned (hN N (Nat.le_refl N))
  obtain ⟨htext, hret⟩ := Outcome.returned.inj (hset.eq (vsprint_settles kernel_copying hc hs []))
  rw [← htext] at hret
  exact kernel_ret_ne _ hret.symm

/-- `a` is one character long, and 0 is returned. The least `int` is two signs, and the
field of `%-2d` is filled in front. -/
theorem outputs_miscounted_letter :
    ¬ PrintsRight (fun _ => 0) [.literal 97 (by decide)] ⟨fun _ => 0, fun _ => 0⟩ ∧
    vsprintk (fun _ => 0) 2 [97] ⟨fun _ => 0, fun _ => 0⟩ = some (.returned [97] 0) ∧
    vsprintk (fun _ => 0) 2 (formatOf [.conversion ⟨[], .none, .normal, .d⟩])
      ⟨fun _ => 0x80000000, fun _ => 0⟩ = some (.returned [45, 45] 1) ∧
    vsprintk (fun _ => 0) 2 (formatOf [.conversion ⟨[.leftAlign], .decimal 1 [], .normal, .d⟩])
      ⟨fun _ => 5, fun _ => 0⟩ = some (.returned [32, 53] 1) := by
  have hrun : vsprintk (fun _ => 0) 2 [97] ⟨fun _ => 0, fun _ => 0⟩ = some (.returned [97] 0) := by
    decide +kernel
  refine ⟨fun hset => ?_, hrun, by decide +kernel, by decide +kernel⟩
  have hret := (Outcome.returned.inj (hset.unique 2 _ hrun)).2
  simp [expected] at hret

end Printf

end TayHuang
