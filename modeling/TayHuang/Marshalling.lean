import TayHuang.LittleEndian
import Mathlib.Data.List.GetD

/-! Values in memory, and a pointer that moves on past each value that is written
or read. -/

namespace Marshalling

open LittleEndian

variable {α : Type*}

/-- `n` bytes from `a` on. -/
def load (m : Nat → UInt8) (a n : Nat) : List UInt8 := (List.range n).map fun i => m (a + i)

def store (m : Nat → UInt8) (a : Nat) (bs : List UInt8) : Nat → UInt8 :=
  fun x => if a ≤ x then bs.getD (x - a) (m x) else m x

/-- The bytes of the values of a type. -/
structure Codec (α : Type*) where
  size : Nat
  encode : α → List UInt8
  decode : List UInt8 → α
  length_encode : ∀ x, (encode x).length = size
  decode_encode : ∀ x, decode (encode x) = x

/-- A pointer into memory. -/
structure Cursor where
  mem : Nat → UInt8
  ptr : Nat

def argWrite (c : Codec α) (s : Cursor) (x : α) : Cursor :=
  ⟨store s.mem s.ptr (c.encode x), s.ptr + c.size⟩

def argRead (c : Codec α) (s : Cursor) : α × Cursor :=
  (c.decode (load s.mem s.ptr c.size), ⟨s.mem, s.ptr + c.size⟩)

/-- The bytes at the pointer. -/
def Cursor.Holds (s : Cursor) (bs : List UInt8) : Prop := load s.mem s.ptr bs.length = bs

/-- A row of bytes that has been written from `a` on. -/
def written (m : Nat → UInt8) (a : Nat) (bs : List UInt8) : Cursor := ⟨store m a bs, a + bs.length⟩

variable {m : Nat → UInt8} {a b n : Nat} {bs cs : List UInt8} {s : Cursor}

@[simp] theorem length_load (m : Nat → UInt8) (a n : Nat) : (load m a n).length = n := by
  simp [load]

theorem load_add (m : Nat → UInt8) (a n k : Nat) : load m a (n + k) = load m a n ++ load m (a + n) k := by
  simp only [load, List.range_add, List.map_append, List.map_map]
  refine congrArg _ (List.map_congr_left fun i _ => ?_)
  simp [Nat.add_assoc]

theorem load_congr {m' : Nat → UInt8} (h : ∀ i, i < n → m' (b + i) = m (a + i)) :
    load m' b n = load m a n :=
  List.map_congr_left fun i hi => h i (List.mem_range.mp hi)

theorem load_store (m : Nat → UInt8) (a : Nat) (bs : List UInt8) :
    load (store m a bs) a bs.length = bs := by
  refine List.ext_getElem (by simp) fun i hi hj => ?_
  simp [load, store, List.getD_eq_getElem?_getD, hj]

theorem holds_store (m : Nat → UInt8) (a : Nat) (bs : List UInt8) :
    Cursor.Holds ⟨store m a bs, a⟩ bs := load_store m a bs

theorem load_store_apart (h : a + bs.length ≤ b ∨ b + n ≤ a) :
    load (store m a bs) b n = load m b n := by
  refine load_congr fun i hi => ?_
  rw [store]
  by_cases ha : a ≤ b + i
  · rw [if_pos ha, List.getD_eq_default _ _ (by omega)]
  · rw [if_neg ha]

theorem store_append (m : Nat → UInt8) (a : Nat) (bs cs : List UInt8) :
    store (store m a bs) (a + bs.length) cs = store m a (bs ++ cs) := by
  funext x
  simp only [store]
  by_cases ha : a ≤ x
  · by_cases hb : a + bs.length ≤ x
    · rw [if_pos hb, if_pos ha, if_pos ha, List.getD_eq_default bs _ (by omega),
        List.getD_append_right _ _ _ _ (by omega), Nat.sub_sub]
    · rw [if_neg hb, if_pos ha, if_pos ha, List.getD_append _ _ _ _ (by omega)]
  · rw [if_neg (by omega), if_neg ha, if_neg ha]

theorem written_nil (m : Nat → UInt8) (a : Nat) : written m a [] = ⟨m, a⟩ := by
  have hm : store m a [] = m := by
    funext x
    simp [store]
  simp [written, hm]

@[simp] theorem argWrite_written (c : Codec α) (x : α) :
    argWrite c (written m a bs) x = written m a (bs ++ c.encode x) := by
  simp only [argWrite, written, store_append, List.length_append, c.length_encode, Nat.add_assoc]

theorem argWrite_start (c : Codec α) (x : α) : argWrite c ⟨m, a⟩ x = written m a (c.encode x) := by
  rw [← written_nil, argWrite_written, List.nil_append]

theorem Cursor.Holds.left (h : s.Holds (bs ++ cs)) : s.Holds bs := by
  rw [Holds, List.length_append, load_add] at h
  exact (List.append_inj h (by simp)).1

theorem Cursor.Holds.right (h : s.Holds (bs ++ cs)) : Cursor.Holds ⟨s.mem, s.ptr + bs.length⟩ cs := by
  rw [Holds, List.length_append, load_add] at h
  exact (List.append_inj h (by simp)).2

theorem holds_append : s.Holds (bs ++ cs) ↔
    s.Holds bs ∧ Cursor.Holds ⟨s.mem, s.ptr + bs.length⟩ cs := by
  refine ⟨fun h => ⟨h.left, h.right⟩, fun h => ?_⟩
  rw [Cursor.Holds, List.length_append, load_add, h.1, h.2]

theorem argRead_holds {c : Codec α} {x : α} (h : s.Holds (c.encode x ++ bs)) :
    argRead c s = (x, ⟨s.mem, s.ptr + c.size⟩) ∧ Cursor.Holds ⟨s.mem, s.ptr + c.size⟩ bs := by
  have hleft := h.left
  have hright := h.right
  rw [Cursor.Holds, c.length_encode] at hleft
  rw [c.length_encode] at hright
  exact ⟨by rw [argRead, hleft, c.decode_encode], hright⟩

theorem decode_holds {c : Codec α} {x : α} (h : s.Holds (c.encode x ++ bs)) :
    c.decode (load s.mem s.ptr c.size) = x := congrArg Prod.fst (argRead_holds h).1

theorem argRead_last {c : Codec α} {x : α} (h : s.Holds (c.encode x)) : (argRead c s).1 = x :=
  congrArg Prod.fst (argRead_holds ((List.append_nil (c.encode x)).symm ▸ h)).1

def byte : Codec UInt8 := ⟨1, fun x => [x], fun bs => bs.headD 0, fun _ => rfl, fun _ => rfl⟩

def bool : Codec Bool :=
  ⟨1, fun x => [if x then 1 else 0], fun bs => bs.headD 0 ≠ 0, fun _ => rfl, fun x => by cases x <;> rfl⟩

def int : Codec Int32 where
  size := 4
  encode x := toBytes 4 x.toUInt32.toNat
  decode bs := (UInt32.ofNat (ofBytes bs)).toInt32
  length_encode _ := length_toBytes 4 _
  decode_encode x := by
    rw [ofBytes_toBytes_of_lt x.toUInt32.toNat_lt, UInt32.ofNat_toNat, Int32.toInt32_toUInt32]

def dword : Codec UInt32 where
  size := 4
  encode x := toBytes 4 x.toNat
  decode bs := UInt32.ofNat (ofBytes bs)
  length_encode _ := length_toBytes 4 _
  decode_encode x := by rw [ofBytes_toBytes_of_lt x.toNat_lt, UInt32.ofNat_toNat]

def qword : Codec UInt64 where
  size := 8
  encode x := toBytes 8 x.toNat
  decode bs := UInt64.ofNat (ofBytes bs)
  length_encode _ := length_toBytes 8 _
  decode_encode x := by rw [ofBytes_toBytes_of_lt x.toNat_lt, UInt64.ofNat_toNat]

theorem int_decode_eq_iff {x : Int32} (h : bs.length = 4) : int.decode bs = x ↔ bs = int.encode x := by
  constructor
  · rintro rfl
    have hlt : ofBytes bs < 2 ^ 32 := by simpa [h] using ofBytes_lt bs
    have hbytes := toBytes_ofBytes bs
    rw [h] at hbytes
    simp only [int, UInt32.toUInt32_toInt32, UInt32.toNat_ofNat', Nat.mod_eq_of_lt hlt, hbytes]
  · rintro rfl
    exact int.decode_encode x

end Marshalling
