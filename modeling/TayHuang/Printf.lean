import TayHuang.Fuel
import TayHuang.Tostring
import Mathlib.Data.List.TakeDrop

/-! Formatted output: `vsprintk` of the kernel, which is `vsprintf` of libkmod line by
line, and `vsprintf` of the loader. A format is the list of its characters in front of
the terminator, so a pointer into it is what is left of the list, and to read behind
the terminator is an outcome of its own. -/

namespace TayHuang

namespace Printf

open Fuel

structure Flags where
  sign : Bool := false
  leftAlign : Bool := false
  fillZero : Bool := false
  alternate : Bool := false
  upper : Bool := false
  deriving DecidableEq, Repr

inductive Qualifier
  | short
  | normal
  | long
  | longlong
  deriving DecidableEq, Repr

/-- `PRINT_TY_*`; `unknown` is -1, which is 255 in its byte. -/
inductive PrintType
  | int
  | unsigned
  | float
  | exponent
  | oct
  | hex
  | char
  | string
  | unknown
  deriving DecidableEq, Repr

/-- What was read of a conversion. -/
structure Conv where
  flags : Flags := {}
  width : Int := 0
  precision : Int := 0
  qualifier : Qualifier := .normal
  type : PrintType := .int
  deriving DecidableEq, Repr

/-- Flags: 43 is `+`, 45 `-`, 32 a space, 48 `0` and 35 `#`. -/
def parseFlags (f : Flags) : List UInt8 → Flags × List UInt8
  | [] => (f, [])
  | ch :: fmt =>
    if ch = 43 then parseFlags { f with sign := true } fmt
    else if ch = 45 then parseFlags { f with leftAlign := true } fmt
    else if ch = 32 then parseFlags f fmt
    else if ch = 48 then parseFlags { f with fillZero := true } fmt
    else if ch = 35 then parseFlags { f with alternate := true } fmt
    else (f, ch :: fmt)

def isdigit (ch : UInt8) : Bool := 48 ≤ ch && ch ≤ 57

def parseDigits (n : Int) : List UInt8 → Int × List UInt8
  | [] => (n, [])
  | ch :: fmt =>
    if isdigit ch then parseDigits (asInt (n * 10 + ch.toNat - 48)) fmt else (n, ch :: fmt)

/-- The conversion letters. The loader has no floating point. -/
def parseLetter (floats : Bool) (ch : UInt8) (c : Conv) : Conv :=
  if ch = 100 then { c with type := .int }
  else if ch = 117 then { c with type := .unsigned }
  else if ch = 111 then { c with type := .oct }
  else if ch = 88 then { c with flags := { c.flags with upper := true }, type := .hex }
  else if ch = 120 then { c with type := .hex }
  else if ch = 99 then { c with type := .char }
  else if ch = 115 then { c with type := .string }
  else if ch = 80 then
    { c with
      flags := { c.flags with upper := true, fillZero := true, alternate := true }
      width := 16
      type := .hex }
  else if ch = 112 then
    { c with flags := { c.flags with fillZero := true, alternate := true }, width := 16, type := .hex }
  else if floats && ch = 102 then { c with type := .float }
  else if floats && ch = 69 then { c with flags := { c.flags with upper := true }, type := .exponent }
  else if floats && ch = 101 then { c with type := .exponent }
  else { c with type := .unknown }

/-! ### Strings and numbers -/

/-- `strlen`: the scan ends after `0x7FFFFFFF` bytes. -/
def strlenLoop (mem : Nat → UInt8) : Nat → Nat → Nat
  | 0, _ => 0
  | n + 1, p => if mem p = 0 then 0 else strlenLoop mem n (p + 1) + 1

def strlen (mem : Nat → UInt8) (p : Nat) : Nat := strlenLoop mem 0x7FFFFFFE p

/-- `strcpy` of the kernel and of libkmod, which tests the byte behind the one copied. -/
def strcpy (mem : Nat → UInt8) : Nat → Nat → Option (List UInt8)
  | 0, _ => none
  | fuel + 1, src =>
    if mem (src + 1) = 0 then some [mem src] else (strcpy mem fuel (src + 1)).map (mem src :: ·)

/-- `strcpy` of the loader. -/
def loaderStrcpy (mem : Nat → UInt8) : Nat → Nat → Option (List UInt8)
  | 0, _ => none
  | fuel + 1, src =>
    if mem src = 0 then some [0] else (loaderStrcpy mem fuel (src + 1)).map (mem src :: ·)

def cstring (s : List UInt8) : List UInt8 := s.takeWhile (· ≠ 0)

/-- `_buffer`, zero at first, after bytes were written to its start. -/
def scribble (bytes buffer : List UInt8) : List UInt8 := bytes ++ buffer.drop bytes.length

def blankBuffer : List UInt8 := List.replicate 120 0

/-- What `_buffer` holds for `strcpy`. -/
def textOf (bytes : List UInt8) : List UInt8 := cstring (scribble bytes blankBuffer)

def toupper (ch : UInt8) : UInt8 := if 97 ≤ ch && ch ≤ 122 then ch - 32 else ch

/-- The arguments on x86-64: eight bytes each, and the doubles apart. -/
structure VaList where
  general : Nat → UInt64
  double : Nat → UInt64

def VaList.next (a : VaList) : UInt64 × VaList :=
  (a.general 0, { a with general := fun i => a.general (i + 1) })

def VaList.nextDouble (a : VaList) : UInt64 × VaList :=
  (a.double 0, { a with double := fun i => a.double (i + 1) })

def VaList.int (a : VaList) : Int × VaList := (asInt a.next.1.toNat, a.next.2)

/-- Whether a double, given as its bits, is below zero. -/
def below (bits : UInt64) : Bool := 0x8000000000000000 < bits && bits ≤ 0xFFF0000000000000

/-- The numbers of the kernel: whether there is a sign, and `_buffer`. `dtoa` and
`dtoea` write nothing, and octal falls through to hexadecimal. -/
def kernelNumber (c : Conv) (a : VaList) : Bool × List UInt8 × VaList :=
  let hex (buffer : List UInt8) (a : VaList) : Bool × List UInt8 × VaList :=
    let text := cstring (scribble (ulltoa a.next.1.toNat 16) buffer)
    (false, if c.flags.upper then text.map toupper else text, a.next.2)
  match c.type with
  | .int =>
    if c.qualifier ≠ .longlong then
      let val := a.int.1
      (val < 0, textOf (itoa (if val < 0 then asInt (-val) else val) 10), a.int.2)
    else
      let val := asLongLong a.next.1.toNat
      (val < 0, textOf (lltoa (if val < 0 then asLongLong (-val) else val) 10), a.next.2)
  | .unsigned =>
    if c.qualifier ≠ .longlong then (false, textOf (uitoa (a.next.1.toNat % 2 ^ 32) 10), a.next.2)
    else (false, textOf (ulltoa a.next.1.toNat 10), a.next.2)
  | .float | .exponent => (below a.nextDouble.1, [], a.nextDouble.2)
  | .oct => hex (scribble (uitoa (a.next.1.toNat % 2 ^ 32) 8) blankBuffer) a.next.2
  | .hex => hex blankBuffer a
  | .char | .string | .unknown => (false, [], a)

/-- The arguments on i386: four bytes each. -/
structure VaList32 where
  general : Nat → UInt32

def VaList32.next (a : VaList32) : UInt32 × VaList32 := (a.general 0, ⟨fun i => a.general (i + 1)⟩)

def VaList32.int (a : VaList32) : Int × VaList32 := (asInt a.next.1.toNat, a.next.2)

def loaderNumber (c : Conv) (a : VaList32) : Bool × List UInt8 × VaList32 :=
  match c.type with
  | .int =>
    let val := a.int.1
    (val < 0, textOf (itoa (if val < 0 then asInt (-val) else val) 10), a.int.2)
  | .unsigned => (false, textOf (uitoa a.next.1.toNat 10), a.next.2)
  | .oct => (false, textOf (uitoa a.next.1.toNat 8), a.next.2)
  | .hex =>
    let text := textOf (uitoa a.next.1.toNat 16)
    (false, if c.flags.upper then text.map toupper else text, a.next.2)
  | .float | .exponent | .char | .string | .unknown => (false, [], a)

/-! ### The three functions -/

/-- `l` and `L` are 108 and 76, `h` is 104. -/
def loaderQualifiers : List UInt8 → Qualifier × List UInt8
  | [] => (.normal, [])
  | ch :: fmt =>
    if ch = 108 ∨ ch = 76 then (.long, fmt)
    else if ch = 104 then (.short, fmt)
    else (.normal, ch :: fmt)

/-- A second `l` may follow. -/
def kernelQualifiers (fmt : List UInt8) : Qualifier × List UInt8 :=
  match loaderQualifiers fmt with
  | (q, []) => (q, [])
  | (q, ch :: rest) => if ch = 108 ∨ ch = 76 then (.longlong, rest) else (q, ch :: rest)

theorem loaderQualifiers_le (fmt : List UInt8) : (loaderQualifiers fmt).2.length ≤ fmt.length := by
  cases fmt with
  | nil => exact Nat.le_refl _
  | cons ch fmt =>
    rw [loaderQualifiers]
    split
    · simp
    · split <;> simp

theorem kernelQualifiers_le (fmt : List UInt8) : (kernelQualifiers fmt).2.length ≤ fmt.length := by
  have hle := loaderQualifiers_le fmt
  rw [kernelQualifiers]
  split
  · simp
  · rename_i q ch rest heq
    rw [heq, List.length_cons] at hle
    split <;> simp <;> omega

/-- What the functions differ in. -/
structure Dialect (α : Type) where
  /-- `va_arg` of an `int`, of a pointer, and the conversions of numbers. -/
  int : α → Int × α
  pointer : α → Nat × α
  number : Conv → α → Bool × List UInt8 × α
  qualifiers : List UInt8 → Qualifier × List UInt8
  qualifiers_le : ∀ fmt, (qualifiers fmt).2.length ≤ fmt.length
  floats : Bool
  strcpy : (Nat → UInt8) → Nat → Nat → Option (List UInt8)
  /-- The value returned when the buffer holds so many characters. -/
  ret : Nat → Int

def kernel : Dialect VaList where
  int := VaList.int
  pointer a := (a.next.1.toNat, a.next.2)
  number := kernelNumber
  qualifiers := kernelQualifiers
  qualifiers_le := kernelQualifiers_le
  floats := true
  strcpy := strcpy
  ret n := asInt (n - 1)

def loader : Dialect VaList32 where
  int := VaList32.int
  pointer a := (a.next.1.toNat, a.next.2)
  number := loaderNumber
  qualifiers := loaderQualifiers
  qualifiers_le := loaderQualifiers_le
  floats := false
  strcpy := loaderStrcpy
  ret n := asInt n

variable {α : Type} (d : Dialect α)

/-- The width: 42 is `*`. -/
def parseWidth (c : Conv) (args : α) : List UInt8 → Conv × List UInt8 × α
  | [] => (c, [], args)
  | ch :: fmt =>
    if ch = 42 then
      let r := d.int args
      if r.1 < 0 then
        ({ c with width := asInt (-r.1), flags := { c.flags with leftAlign := true } }, fmt, r.2)
      else ({ c with width := r.1 }, fmt, r.2)
    else
      let r := parseDigits 0 (ch :: fmt)
      ({ c with width := r.1 }, r.2, args)

/-- The precision, behind a dot, 46. -/
def parsePrecision (c : Conv) (args : α) : List UInt8 → Conv × List UInt8 × α
  | [] => (c, [], args)
  | ch :: fmt =>
    if ch = 46 then
      if fmt.head? = some 42 then ({ c with precision := (d.int args).1 }, fmt.tail, (d.int args).2)
      else ({ c with precision := (parseDigits 0 fmt).1 }, (parseDigits 0 fmt).2, args)
    else (c, ch :: fmt, args)

/-- A conversion behind its `%`, up to its letter. The letter is 0 at the terminator. -/
def parse (fmt : List UInt8) (args : α) : Conv × List UInt8 × α :=
  let f := parseFlags {} fmt
  let w := parseWidth d { flags := f.1 } args f.2
  let p := parsePrecision d w.1 w.2.2 w.2.1
  let q := d.qualifiers p.2.1
  (parseLetter d.floats (q.2.headD 0) { p.1 with qualifier := q.1 }, q.2, p.2.2)

/-- The end of a turn: `front` was written at once, `text` is in `_buffer`. -/
def emit (c : Conv) (front : List UInt8) (hasSign : Bool) (text : List UInt8) : List UInt8 :=
  let sign : List UInt8 :=
    (if c.flags.sign && !hasSign then [43] else []) ++ (if hasSign then [45] else [])
  let lead : List UInt8 :=
    if c.flags.alternate then
      match c.type with
      | .oct => [48]
      | .hex => [48, if c.flags.upper then 88 else 120]
      | _ => []
    else []
  let count := (c.width - (text.length + (front.length + sign.length) : Nat)).toNat
  front ++ sign ++ lead ++ List.replicate count (if c.flags.fillZero then 48 else 32) ++ text

/-- The output of one conversion, and the arguments left; `str` are the characters of
a string. -/
def output (str : List UInt8) (c : Conv) (args : α) : List UInt8 × α :=
  match c.type with
  | .char => (emit c [UInt8.ofNat ((d.int args).1 % 256).toNat] false [], (d.int args).2)
  | .string => (emit c str false [], (d.pointer args).2)
  | .unknown => (emit c [] false [], args)
  | _ => let r := d.number c args; (emit c [] r.1 r.2.1, r.2.2)

/-- Of what `strcpy` writes, `strlen` tells how much stays. -/
def convert (mem : Nat → UInt8) (fuel : Nat) (c : Conv) (args : α) : Option (List UInt8 × α) :=
  if c.type = .string then
    (d.strcpy mem fuel (d.pointer args).1).map fun bytes =>
      output d (bytes.take (strlen mem (d.pointer args).1)) c args
  else some (output d [] c args)

inductive Outcome
  /-- The characters written in front of the terminator, and the value returned. -/
  | returned (text : List UInt8) (ret : Int)
  /-- A byte of the format behind its terminator is read. -/
  | overrun
  deriving DecidableEq, Repr

/-- The loop, with the characters written so far. `print_type == -1` never holds of a
byte, so no branch returns -1. -/
def vsprint (mem : Nat → UInt8) : Nat → List UInt8 → α → List UInt8 → Option Outcome
  | 0, _, _, _ => none
  | _ + 1, [], _, out => some (.returned out (d.ret out.length))
  | fuel + 1, ch :: fmt, args, out =>
    if ch ≠ 37 then vsprint mem fuel fmt args (out ++ [ch])
    else if fmt.head? = some 37 then vsprint mem fuel fmt.tail args (out ++ [37])
    else
      let r := parse d fmt args
      (convert d mem fuel r.1 r.2.2).bind fun piece =>
        match r.2.1 with
        | [] => some .overrun
        | _ :: rest => vsprint mem fuel rest piece.2 (out ++ piece.1)

/-- `vsprintk`. -/
def vsprintk (mem : Nat → UInt8) (fuel : Nat) (fmt : List UInt8) (args : VaList) : Option Outcome :=
  vsprint kernel mem fuel fmt args []

/-- `vsprintf` of the loader. -/
def vsprintf (mem : Nat → UInt8) (fuel : Nat) (fmt : List UInt8) (args : VaList32) : Option Outcome :=
  vsprint loader mem fuel fmt args []

end Printf

end TayHuang
