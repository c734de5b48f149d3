import TayHuang.LittleEndian

/-! Allocated memory. A cell that was not filled and a place outside of the block have
no value. -/

namespace Buffers

structure Buffer where
  size : Nat
  cell : Nat → Option UInt8
  outside : ∀ i, size ≤ i → cell i = none

def alloc (size : Nat) : Buffer := ⟨size, fun _ => none, fun _ _ => rfl⟩

def Buffer.store (b : Buffer) (offset : Nat) (bytes : List UInt8) : Option Buffer :=
  if h : offset + bytes.length ≤ b.size then
    some ⟨b.size, fun i =>
      if offset ≤ i ∧ i < offset + bytes.length then bytes[i - offset]? else b.cell i,
      fun i hi => by rw [if_neg (by omega), b.outside i hi]⟩
  else none

def Buffer.load (b : Buffer) (offset : Int) (count : Nat) : Option (List UInt8) :=
  if 0 ≤ offset then (List.range count).mapM fun i => b.cell (offset.toNat + i) else none

def Buffer.storeAll (b : Buffer) (writes : List (Nat × List UInt8)) : Option Buffer :=
  writes.foldlM (fun b w => b.store w.1 w.2) b

/-- What memory holds from the start of the block on, with `heap` where nothing was stored. -/
def Buffer.memory (b : Buffer) (heap : Nat → UInt8) (i : Nat) : UInt8 := (b.cell i).getD (heap i)

def bytesAt (memory : Nat → UInt8) (offset count : Nat) : List UInt8 :=
  (List.range count).map fun i => memory (offset + i)

variable {b b' : Buffer} {offset count i : Nat} {bytes : List UInt8}

theorem length_bytesAt (memory : Nat → UInt8) (offset count : Nat) :
    (bytesAt memory offset count).length = count := by
  rw [bytesAt, List.length_map, List.length_range]

/-- A part of what was read at once. -/
theorem take_drop_bytesAt (memory : Nat → UInt8) {start width : Nat} (h : start + count ≤ width) :
    ((bytesAt memory offset width).drop start).take count = bytesAt memory (offset + start) count := by
  refine List.ext_getElem (by simp [length_bytesAt]; omega) fun i hi hi' => ?_
  simp only [bytesAt, List.getElem_take, List.getElem_drop, List.getElem_map, List.getElem_range,
    Nat.add_assoc]

theorem store_isSome (h : offset + bytes.length ≤ b.size) : ∃ b', b.store offset bytes = some b' := by
  rw [Buffer.store, dif_pos h]
  exact ⟨_, rfl⟩

theorem store_some (h : b.store offset bytes = some b') :
    offset + bytes.length ≤ b.size ∧ b'.size = b.size ∧ ∀ i, b'.cell i =
      if offset ≤ i ∧ i < offset + bytes.length then bytes[i - offset]? else b.cell i := by
  unfold Buffer.store at h
  split at h
  · rename_i hfits
    obtain rfl := Option.some.inj h
    exact ⟨hfits, rfl, fun _ => rfl⟩
  · simp at h

theorem mapM_eq_some {α β : Type*} {f : α → Option β} {g : α → β} {l : List α}
    (h : ∀ a ∈ l, f a = some (g a)) : l.mapM f = some (l.map g) := by
  induction l with
  | nil => rfl
  | cons a l ih =>
    rw [List.mapM_cons, h a (List.mem_cons_self ..), ih fun b hb => h b (List.mem_cons_of_mem _ hb)]
    rfl

theorem mapM_isSome {α β : Type*} {f : α → Option β} {l : List α} {bs : List β}
    (h : l.mapM f = some bs) : ∀ a ∈ l, ∃ b, f a = some b := by
  induction l generalizing bs with
  | nil => simp
  | cons a l ih =>
    rw [List.mapM_cons] at h
    obtain ⟨b, hb, h⟩ := Option.bind_eq_some_iff.mp h
    obtain ⟨bs', hbs, -⟩ := Option.bind_eq_some_iff.mp h
    intro c hc
    rcases List.mem_cons.mp hc with rfl | hc
    · exact ⟨b, hb⟩
    · exact ih hbs c hc

theorem load_eq_some {g : Nat → UInt8} (h : ∀ i < count, b.cell (offset + i) = some (g i)) :
    b.load offset count = some ((List.range count).map g) := by
  rw [Buffer.load, if_pos (by omega), Int.toNat_natCast]
  exact mapM_eq_some fun i hi => h i (List.mem_range.mp hi)

theorem load_inside {start : Int} (h : b.load start count = some bytes) :
    0 ≤ start ∧ ∀ i < count, ∃ x, b.cell (start.toNat + i) = some x := by
  unfold Buffer.load at h
  split at h
  · rename_i hpos
    exact ⟨hpos, fun i hi => mapM_isSome h i (List.mem_range.mpr hi)⟩
  · simp at h

end Buffers
