import TayHuang.KernelMemory
import Mathlib.Algebra.Group.Int.Defs
import Mathlib.Algebra.Group.Nat.Defs

/-! The heap of a module, malloc.c of libkmod. Sizes are 63-bit fields, and
several of them pass through an `int`.

Numbers written out here: `sizeof(chunk_struct)` and `HEAPUNIT_SZ` are 16, and
`HEAPDIV_MIN_SZ` is 128. -/

namespace TayHuang

open Function (update)

/-- `chunk_struct`, the header in front of every chunk. -/
structure Chunk where
  size : Nat
  used : Bool
  next : Option Nat
  deriving DecidableEq, Repr

structure UHeap where
  heap : Nat
  chunk : Nat → Chunk

/-- The value of `x` as an `int`. -/
def asInt (x : Int) : Int := x.bmod (2 ^ 32)

theorem asInt_eq {n : Int} (h0 : -2 ^ 31 ≤ n) (h : n < 2 ^ 31) : asInt n = n := by
  unfold asInt
  rw [Int.bmod_def]
  split <;> omega

/-- `x` as a pointer or a `dword` of 32 bits. -/
def asDword (x : Int) : Nat := (x % 2 ^ 32).toNat

theorem asDword_eq {x : Int} (h0 : 0 ≤ x) (h : x < 2 ^ 32) : asDword x = x.toNat := by
  rw [asDword, Int.emod_eq_of_lt h0 h]

/-- The value of `x` in a field of 63 bits. -/
def asSize (x : Int) : Nat := (x % (2 ^ 63 : Nat)).toNat

def initHeap (m : Nat → Chunk) (heapStart heapEnd : Nat) : UHeap :=
  let size : Int := asInt (heapEnd - heapStart)
  { heap := heapStart
    chunk := update (update m heapStart ⟨asSize (-1), false, some (heapStart + 16)⟩)
      (heapStart + 16) ⟨asSize (size - 16), false, none⟩ }

/-- `fixed_size` of `malloc`. -/
def fixedSize (size : Int) : Int := asInt ((size + 31) / 16 * 16)

/-- `remain_size` of `malloc`. -/
def remainSize (size : Nat) (fixed : Int) : Int := asInt (asSize (size - fixed))

/-- The search loop of `malloc`: the last chunk passed, and the first one of the
size asked for. -/
def findChunk (m : Nat → Chunk) (fixed : Int) : Nat → Nat → Option Nat → Option (Nat × Option Nat)
  | 0, _, _ => none
  | _ + 1, last, none => some (last, none)
  | fuel + 1, last, some current =>
    if (m current).size < asSize fixed then findChunk m fixed fuel current (m current).next
    else some (last, some current)

/-- The test of `malloc` whether a chunk is split. -/
def Divided (size : Nat) (fixed : Int) : Prop := 128 < size ∧ 16 ≤ remainSize size fixed

instance (size : Nat) (fixed : Int) : Decidable (Divided size fixed) :=
  inferInstanceAs (Decidable (_ ∧ _))

/-- The chunk found is taken off the list, whole or in part. -/
def takeChunk (m : Nat → Chunk) (fixed : Int) (last current : Nat) : Nat → Chunk :=
  let m :=
    if Divided (m current).size fixed then
      let new := ((current : Int) + 16 + fixed).toNat
      let m := update m new ⟨asSize ((m current).size - fixed), false, (m current).next⟩
      let m := update m last { m last with next := some new }
      update m current { m current with size := asSize fixed }
    else update m last { m last with next := (m current).next }
  update m current { m current with used := true, next := none }

/-- `malloc`; the address 0 is `NULL`. -/
def malloc (fuel : Nat) (s : UHeap) (size : Int) : Option (UHeap × Nat) :=
  if size = 0 then some (s, 0)
  else
    (findChunk s.chunk (fixedSize size) fuel s.heap (s.chunk s.heap).next).map fun r =>
      match r.2 with
      | none => (s, 0)
      | some current =>
        ({ s with chunk := takeChunk s.chunk (fixedSize size) r.1 current }, current + 16)

/-- The search loop of `free`: the last chunk on the list in front of `current`.
When no chunk follows `current`, `last` becomes `NULL` and is written through. -/
def findGap (m : Nat → Chunk) (current : Nat) : Nat → Option Nat → Option Nat
  | 0, _ => none
  | _ + 1, none => none
  | fuel + 1, some last =>
    match (m last).next with
    | some n =>
      if last < current ∧ current < n then some last else findGap m current fuel (some n)
    | none => findGap m current fuel none

/-- Two chunks in a row are joined when the second starts where the first ends. -/
def joinChunk (m : Nat → Chunk) (last : Nat) : Nat → Chunk :=
  match (m last).next with
  | none => m
  | some n =>
    if (last + (m last).size) % 2 ^ 64 = n then
      update m last { m last with size := ((m last).size + (m n).size) % 2 ^ 63, next := (m n).next }
    else m

/-- `free`. The second join is at `last` again, whatever the first one did. -/
def free (fuel : Nat) (s : UHeap) (addr : Nat) : Option UHeap :=
  (findGap s.chunk (addr - 16) fuel (toPtr s.heap)).map fun last =>
    let m := update s.chunk (addr - 16) { s.chunk (addr - 16) with next := (s.chunk last).next }
    let m := update m last { m last with next := some (addr - 16) }
    { s with chunk := joinChunk (joinChunk m last) last }

end TayHuang
