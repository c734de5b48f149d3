import TayHuang.UserMalloc
import Mathlib.Data.Nat.Digits.Defs

/-! Numbers as text, tostring.c. The functions return the bytes that they write, from
the start of the buffer on; only for 0 is a terminator among them. -/

namespace TayHuang

/-- `digits`. -/
def digit (k : Nat) : UInt8 := UInt8.ofNat (if k < 10 then 48 + k else 87 + k)

/-- The scratch array, the last digit first. 64 turns are enough for 64 bits. -/
def scratch (base : Nat) : Nat → Nat → List UInt8
  | 0, _ => []
  | turns + 1, val => if 0 < val then digit (val % base) :: scratch base turns (val / base) else []

theorem scratch_digits {base : Nat} (hb : 1 < base) (turns : Nat) {val : Nat} (h : val < base ^ turns) :
    scratch base turns val = (Nat.digits base val).map digit := by
  induction turns generalizing val with
  | zero =>
    obtain rfl : val = 0 := by simpa using h
    simp [scratch]
  | succ turns ih =>
    rw [scratch]
    split
    · rename_i hpos
      rw [Nat.digits_def' hb hpos, List.map_cons, ih]
      exact Nat.div_lt_of_lt_mul (by rwa [← Nat.pow_succ'])
    · obtain rfl : val = 0 := by omega
      simp

theorem scratch_length_le (base turns val : Nat) : (scratch base turns val).length ≤ turns := by
  induction turns generalizing val with
  | zero => exact Nat.le_refl _
  | succ turns ih =>
    rw [scratch]
    split
    · exact Nat.succ_le_succ (ih _)
    · exact Nat.zero_le _

/-- The value of `x` as a `long long`. -/
def asLongLong (x : Int) : Int := x.bmod (2 ^ 64)

/-- `itoa` and `lltoa`, over the type of `val`. -/
def signedText (wrap : Int → Int) (val : Int) (base : Nat) : List UInt8 :=
  if val = 0 then [48, 0]
  else if val < 0 then 45 :: (scratch base 64 (wrap (-val)).toNat).reverse
  else (scratch base 64 val.toNat).reverse

def itoa (val : Int) (base : Nat) : List UInt8 := signedText asInt val base

def lltoa (val : Int) (base : Nat) : List UInt8 := signedText asLongLong val base

def unsignedText (val base : Nat) : List UInt8 :=
  if val = 0 then [48, 0] else (scratch base 64 val).reverse

def uitoa (val base : Nat) : List UInt8 := unsignedText val base

def ulltoa (val base : Nat) : List UInt8 := unsignedText val base

example : itoa (-1234) 10 = [45, 49, 50, 51, 52] := by decide

/-- The most negative `int` has no digits. -/
example : itoa (-2147483648) 10 = [45] := by decide

end TayHuang
