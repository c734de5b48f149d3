import TayHuang.FormatParsing
import Mathlib.Data.Nat.Digits.Defs

/-! What formatted output is meant to be: conversions by their parts, and the text and
the length that stand for them. -/

namespace TayHuang

namespace Printf

open Fuel

/-- `+`, `-`, `0` and `#`. -/
inductive Flag
  | sign
  | leftAlign
  | fillZero
  | alternate
  deriving DecidableEq

def Flag.code : Flag → UInt8
  | .sign => 43
  | .leftAlign => 45
  | .fillZero => 48
  | .alternate => 35

/-- No width, a decimal number that begins with `first + 1`, or `*`. -/
inductive Width
  | none
  | decimal (first : Fin 9) (rest : List (Fin 10))
  | star

def Width.format : Width → List UInt8
  | .none => []
  | .decimal first rest => digit (first + 1) :: rest.map fun k => digit k.val
  | .star => [42]

def decimalValue (n : Nat) (rest : List (Fin 10)) : Nat := rest.foldl (fun n k => n * 10 + k.val) n

def Qualifier.format : Qualifier → List UInt8
  | .short => [104]
  | .normal => []
  | .long => [108]
  | .longlong => [108, 108]

inductive Letter
  | d
  | u
  | o
  | x
  | X
  | c
  | s
  deriving DecidableEq

def Letter.code : Letter → UInt8
  | .d => 100
  | .u => 117
  | .o => 111
  | .x => 120
  | .X => 88
  | .c => 99
  | .s => 115

structure Directive where
  flags : List Flag
  width : Width
  size : Qualifier
  letter : Letter

def Directive.format (p : Directive) : List UInt8 :=
  p.flags.map Flag.code ++ (p.width.format ++ (p.size.format ++ [p.letter.code]))

/-- The field that a conversion asks for: its width, whether it is filled on the right,
and the arguments left. -/
def Directive.field (p : Directive) (args : VaList) : Nat × Bool × VaList :=
  let left : Bool := Flag.leftAlign ∈ p.flags
  match p.width with
  | .none => (0, left, args)
  | .decimal first rest => (decimalValue (first + 1) rest, left, args)
  | .star => (args.int.1.natAbs, left || args.int.1 < 0, args.int.2)

/-! ### The parts of a number -/

/-- The value of an argument of type `short`, `int`, `long` or `long long`. -/
def signedArg (size : Qualifier) (v : UInt64) : Int :=
  match size with
  | .short => (v.toNat : Int).bmod (2 ^ 16)
  | .normal => asInt v.toNat
  | .long | .longlong => asLongLong v.toNat

def unsignedArg (size : Qualifier) (v : UInt64) : Nat :=
  match size with
  | .short => v.toNat % 2 ^ 16
  | .normal => v.toNat % 2 ^ 32
  | .long | .longlong => v.toNat

def numeral (base n : Nat) : List UInt8 :=
  if n = 0 then [48] else ((Nat.digits base n).map digit).reverse

def Directive.sign (p : Directive) (v : UInt64) : List UInt8 :=
  if p.letter = .d then
    if signedArg p.size v < 0 then [45] else if Flag.sign ∈ p.flags then [43] else []
  else []

/-- What `#` adds to a number that is not 0. -/
def Directive.lead (p : Directive) (v : UInt64) : List UInt8 :=
  if Flag.alternate ∈ p.flags ∧ unsignedArg p.size v ≠ 0 then
    match p.letter with
    | .o => [48]
    | .x => [48, 120]
    | .X => [48, 88]
    | _ => []
  else []

def Directive.body (mem : Nat → UInt8) (p : Directive) (v : UInt64) : List UInt8 :=
  match p.letter with
  | .d => numeral 10 (signedArg p.size v).natAbs
  | .u => numeral 10 (unsignedArg p.size v)
  | .o => numeral 8 (unsignedArg p.size v)
  | .x => numeral 16 (unsignedArg p.size v)
  | .X => (numeral 16 (unsignedArg p.size v)).map toupper
  | .c => [UInt8.ofNat (v.toNat % 256)]
  | .s => stringAt mem v.toNat

/-- `front` and `body` in a field. -/
def justify (width : Nat) (left zeros : Bool) (front body : List UInt8) : List UInt8 :=
  let room := width - (front.length + body.length)
  if left then front ++ body ++ List.replicate room 32
  else if zeros then front ++ List.replicate room 48 ++ body
  else List.replicate room 32 ++ front ++ body

/-- Zeros fill numbers only. -/
def Directive.zeros (p : Directive) : Bool :=
  Flag.fillZero ∈ p.flags && p.letter ≠ .c && p.letter ≠ .s

def Directive.expected (mem : Nat → UInt8) (p : Directive) (args : VaList) : List UInt8 :=
  let f := p.field args
  let v := f.2.2.next.1
  justify f.1 f.2.1 p.zeros (p.sign v ++ p.lead v) (p.body mem v)

/-! ### Formats by their pieces -/

inductive Piece
  | literal (ch : UInt8) (h : ch ≠ 37 ∧ ch ≠ 0)
  | percent
  | conversion (p : Directive)

def Piece.format : Piece → List UInt8
  | .literal ch _ => [ch]
  | .percent => [37, 37]
  | .conversion p => 37 :: p.format

def formatOf (pieces : List Piece) : List UInt8 := pieces.flatMap Piece.format

def expected (mem : Nat → UInt8) : List Piece → VaList → List UInt8
  | [], _ => []
  | .literal ch _ :: pieces, args => ch :: expected mem pieces args
  | .percent :: pieces, args => 37 :: expected mem pieces args
  | .conversion p :: pieces, args =>
    p.expected mem args ++ expected mem pieces (p.field args).2.2.next.2

/-- The call writes the text that is meant, and returns its length. -/
def PrintsRight (mem : Nat → UInt8) (pieces : List Piece) (args : VaList) : Prop :=
  Settles (fun fuel => vsprintk mem fuel (formatOf pieces) args)
    (.returned (expected mem pieces args) (expected mem pieces args).length)

example : expected (fun _ => 0)
    [.conversion ⟨[.fillZero], .decimal 3 [], .normal, .d⟩, .literal 44 (by decide),
      .conversion ⟨[.leftAlign], .star, .normal, .X⟩, .percent]
    ⟨fun i => if i = 0 then 0xFFFFFFF9 else if i = 1 then 4 else 0x1A, fun _ => 0⟩ =
    [45, 48, 48, 55, 44, 49, 65, 32, 32, 37] := by decide +kernel

end Printf

end TayHuang
