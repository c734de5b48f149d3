import Mathlib.Logic.Function.Basic

/-! A heap of blocks that are allocated and freed, where no block is handed out
twice. An access outside a live block is remembered. -/

namespace Blocks

open Function (update)

structure Store (β : Type*) where
  heap : Nat → Option (List β)
  next : Nat
  misused : Bool

namespace Store

variable {β : Type*} (s : Store β) {b c : Nat} {old : List β}

/-- The new block is `s.next`. -/
def alloc (init : List β) : Store β :=
  { s with heap := update s.heap s.next (some init), next := s.next + 1 }

def misuse : Store β := { s with misused := true }

def free (b : Nat) : Store β :=
  match s.heap b with
  | some _ => { s with heap := update s.heap b none }
  | none => s.misuse

/-- To the start of the block. -/
def write (b : Nat) (bytes : List β) : Store β :=
  match s.heap b with
  | some old =>
    if bytes.length ≤ old.length then
      { s with heap := update s.heap b (some (bytes ++ old.drop bytes.length)) }
    else s.misuse
  | none => s.misuse

@[simp] theorem alloc_next (init : List β) : (s.alloc init).next = s.next + 1 := rfl

@[simp] theorem alloc_misused (init : List β) : (s.alloc init).misused = s.misused := rfl

@[simp] theorem alloc_heap_next (init : List β) : (s.alloc init).heap s.next = some init := by
  simp [alloc]

theorem alloc_heap_of_lt (init : List β) (h : b < s.next) :
    (s.alloc init).heap b = s.heap b := by
  simp [alloc, Nat.ne_of_lt h]

theorem free_eq (h : s.heap b = some old) :
    s.free b = { s with heap := update s.heap b none } := by
  simp only [free, h]

@[simp] theorem free_next : (s.free b).next = s.next := by
  unfold free
  split <;> rfl

theorem free_heap_of_ne (h : c ≠ b) : (s.free b).heap c = s.heap c := by
  unfold free
  split
  · simp [h]
  · rfl

theorem write_eq {bytes : List β} (h : s.heap b = some old) (hlen : bytes.length ≤ old.length) :
    s.write b bytes = { s with heap := update s.heap b (some (bytes ++ old.drop bytes.length)) } := by
  simp only [write, h, if_pos hlen]

@[simp] theorem write_next (bytes : List β) : (s.write b bytes).next = s.next := by
  unfold write
  split
  · split <;> rfl
  · rfl

theorem write_heap_of_ne (bytes : List β) (h : c ≠ b) : (s.write b bytes).heap c = s.heap c := by
  unfold write
  split
  · split
    · simp [h]
    · rfl
  · rfl

end Store

end Blocks
