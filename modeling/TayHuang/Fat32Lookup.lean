import TayHuang.Fat32Agreement

/-! The root directory searched for a name, against the 256 entries that it has. -/

namespace TayHuang

namespace Fat32

open Buffers LittleEndian

/-- The first of the 256 entries of 32 bytes with the name. -/
def firstEntry (dir name : List UInt8) : Option Nat :=
  (List.range 256).find? fun i => standsAt dir name (32 * i)

def lookup (dir name : List UInt8) : UInt32 :=
  (firstEntry dir name).elim 0xFFFFFFFF fun i => entryClus dir (32 * i)

/-- The cluster of the first entry with the name, and -1 if and only if there is none. -/
def Exact (c : Context) (heap : Nat → UInt8) (dir name : List UInt8) : Prop :=
  getFileStartClus c heap name = lookup dir name ∧
    (getFileStartClus c heap name = 0xFFFFFFFF ↔ firstEntry dir name = none)

/-- The first place is an entry, or by chance names the same cluster as the entry, and no
entry with the name gives -1. -/
structure Unshadowed (dir beyond name : List UInt8) : Prop where
  aligned : ∀ k, FirstPlace (dir ++ beyond) name k →
    k % 8 = 0 ∨ entryClus (dir ++ beyond) (4 * k) = lookup dir name
  valid : ∀ i, firstEntry dir name = some i → entryClus dir (32 * i) ≠ 0xFFFFFFFF

variable {c : Context} {heap : Nat → UInt8} {dir beyond name : List UInt8}

theorem take_drop_append {offset count : Nat} (h : offset + count ≤ dir.length) :
    ((dir ++ beyond).drop offset).take count = (dir.drop offset).take count := by
  have hrest : count ≤ (dir.drop offset).length := by
    rw [List.length_drop]
    omega
  rw [List.drop_append_of_le_length (by omega), List.take_append_of_le_length hrest]

theorem standsAt_append (hdir : dir.length = 8192) {i : Nat} (hi : i < 256) :
    standsAt (dir ++ beyond) name (32 * i) = standsAt dir name (32 * i) := by
  rw [standsAt, standsAt, take_drop_append (by omega)]

theorem entryClus_append (hdir : dir.length = 8192) {i : Nat} (hi : i < 256) :
    entryClus (dir ++ beyond) (32 * i) = entryClus dir (32 * i) := by
  rw [entryClus, entryClus, field, field, field, field, take_drop_append (by omega),
    take_drop_append (by omega)]

theorem firstEntry_of_aligned (hdir : dir.length = 8192) {i : Nat}
    (hk : FirstPlace (dir ++ beyond) name (8 * i)) : firstEntry dir name = some i := by
  obtain ⟨hlt, hat, hfirst⟩ := hk
  have hmul (j : Nat) : 4 * (8 * j) = 32 * j := by omega
  rw [hmul, standsAt_append hdir (by omega)] at hat
  refine List.find?_range_eq_some.mpr ⟨hat, List.mem_range.mpr (by omega), fun j hj => ?_⟩
  have hj' := hfirst (8 * j) (by omega)
  rw [hmul, standsAt_append hdir (by omega)] at hj'
  rw [hj']
  rfl

theorem lookup_some {i : Nat} (h : firstEntry dir name = some i) :
    lookup dir name = entryClus dir (32 * i) := by
  rw [lookup, h, Option.elim_some]

theorem lookup_none (h : firstEntry dir name = none) : lookup dir name = 0xFFFFFFFF := by
  rw [lookup, h, Option.elim_none]

/-- The search gives the cluster of the first entry with the name if and only if the name
stands at no other multiple of four before it. -/
theorem getFileStartClus_exact (hdir : dir.length = 8192) (h : searched c heap = dir ++ beyond)
    (hname : (cstring name).length = 11) :
    Exact c heap dir name ↔ Unshadowed dir beyond name := by
  have heq := getFileStartClus_eq c heap hname
  rw [h] at heq
  constructor
  · rintro ⟨hlookup, hnone⟩
    refine ⟨fun k hk => ?_, fun i hi hbad => ?_⟩
    · rw [heq, (firstPlace_iff k).mp hk, Option.elim_some] at hlookup
      exact .inr hlookup
    · rw [lookup_some hi, hbad] at hlookup
      rw [hnone.mp hlookup] at hi
      simp at hi
  · rintro ⟨haligned, hvalid⟩
    have hfound : getFileStartClus c heap name = lookup dir name := by
      cases hplace : (List.range 2048).find? fun k => standsAt (dir ++ beyond) name (4 * k) with
      | none =>
        rw [heq, hplace, Option.elim_none]
        have hno : firstEntry dir name = none := by
          refine List.find?_range_eq_none.mpr fun i hi => ?_
          have hi' := List.find?_range_eq_none.mp hplace (8 * i) (by omega)
          have hmul : 4 * (8 * i) = 32 * i := by omega
          rwa [hmul, standsAt_append hdir hi] at hi'
        rw [lookup_none hno]
      | some k =>
        rw [heq, hplace, Option.elim_some]
        have hfirst := (firstPlace_iff k).mpr hplace
        rcases haligned k hfirst with hk | hk
        · obtain ⟨i, rfl⟩ : ∃ i, k = 8 * i := ⟨k / 8, by omega⟩
          have hi := firstEntry_of_aligned hdir hfirst
          have hlt := hfirst.1
          have hmul : 4 * (8 * i) = 32 * i := by omega
          rw [lookup_some hi, hmul, entryClus_append hdir (by omega)]
        · rw [hk]
    refine ⟨hfound, fun hbad => ?_, fun hno => hfound.trans (lookup_none hno)⟩
    by_contra hne
    obtain ⟨i, hi⟩ := Option.ne_none_iff_exists'.mp hne
    rw [hfound, lookup_some hi] at hbad
    exact hvalid i hi hbad

/-! ### One file -/

def bufferOf (bytes : List UInt8) : Buffer :=
  ⟨bytes.length, fun i => bytes[i]?, fun _ hi => List.getElem?_eq_none hi⟩

def sampleName : List UInt8 := [75, 69, 82, 78, 69, 76, 32, 32, 66, 73, 78]

/-- `skipped` zeros before the entry of the file. -/
def sampleDirectory (skipped : Nat) : List UInt8 :=
  List.replicate skipped 0 ++ sampleRoot ++ List.replicate (8165 - skipped) 0

def sampleContext (skipped : Nat) : Context :=
  { sampleVolume with rootDirectory := bufferOf (sampleDirectory skipped) }

theorem length_sampleDirectory {skipped : Nat} (h : skipped ≤ 8165) :
    (sampleDirectory skipped).length = 8192 := by
  have hroot : sampleRoot.length = 27 := by decide
  rw [sampleDirectory, List.length_append, List.length_append, List.length_replicate,
    List.length_replicate, hroot]
  omega

theorem searched_sampleContext {skipped : Nat} (h : skipped ≤ 8165) (heap : Nat → UInt8) :
    searched (sampleContext skipped) heap =
      sampleDirectory skipped ++ (List.range 24).map fun i => heap (8192 + i) := by
  have hlen := length_sampleDirectory h
  refine List.ext_getElem (by simp [searched, length_bytesAt, hlen]) fun i hi hi' => ?_
  have hcell : (sampleContext skipped).rootDirectory.cell i = (sampleDirectory skipped)[i]? := rfl
  simp only [searched, bytesAt, List.getElem_map, List.getElem_range, Nat.zero_add, Buffer.memory, hcell]
  by_cases hin : i < 8192
  · rw [List.getElem?_eq_getElem (by omega), Option.getD_some, List.getElem_append_left (by omega)]
  · rw [List.getElem?_eq_none (by omega), Option.getD_none, List.getElem_append_right (by omega),
      List.getElem_map, List.getElem_range, hlen, Nat.add_sub_cancel' (by omega)]

theorem getFileStartClus_exact_sample :
    Exact (sampleContext 0) (fun _ => 0) (sampleDirectory 0) sampleName := by
  have hat : standsAt (sampleDirectory 0 ++ (List.range 24).map fun _ => 0) sampleName (4 * 0) =
      true := by
    decide +kernel
  refine (getFileStartClus_exact (length_sampleDirectory (by decide))
    (searched_sampleContext (by decide) _) (by decide)).mpr ⟨fun k hk => ?_, fun i hi => ?_⟩
  · rcases Nat.eq_zero_or_pos k with rfl | hpos
    · exact .inl rfl
    · have hfalse := hk.2.2 0 hpos
      rw [hat] at hfalse
      exact Bool.noConfusion hfalse
  · have hzero : firstEntry (sampleDirectory 0) sampleName = some 0 := by decide +kernel
    rw [hzero] at hi
    obtain rfl := Option.some.inj hi
    decide +kernel

theorem sampleDirectory_no_entry : firstEntry (sampleDirectory 4) sampleName = none := by
  refine List.find?_range_eq_none.mpr fun i hi => ?_
  rcases Nat.eq_zero_or_pos i with rfl | hpos
  · decide +kernel
  · have hlen : (List.replicate 4 0 ++ sampleRoot).length = 31 := by decide
    have hzeros : ((sampleDirectory 4).drop (32 * i)).take 11 = List.replicate 11 0 := by
      rw [sampleDirectory, List.drop_append, List.drop_of_length_le (by omega), List.nil_append,
        hlen, List.drop_replicate, List.take_replicate, Nat.min_eq_left (by omega)]
    rw [standsAt, hzeros]
    decide

/-- The name stands in the middle of the first entry, and no entry has it. -/
theorem getFileStartClus_middle : ¬ ∀ (c : Context) (heap : Nat → UInt8) (dir beyond name : List UInt8),
    dir.length = 8192 → searched c heap = dir ++ beyond → (cstring name).length = 11 →
      Exact c heap dir name := by
  intro hall
  obtain ⟨hclus, hnone⟩ := hall (sampleContext 4) (fun _ => 0) (sampleDirectory 4) _ sampleName
    (length_sampleDirectory (by decide)) (searched_sampleContext (by decide) _) (by decide)
  have hfound : getFileStartClus (sampleContext 4) (fun _ => 0) sampleName = 3 := by decide +kernel
  rw [hfound] at hnone
  exact absurd (hnone.mpr sampleDirectory_no_entry) (by decide)

end Fat32

end TayHuang
