import Mathlib.Data.List.TakeWhile
import TayHuang.Fat32

/-! A name looked for in the root directory. The search takes steps of four bytes and reads
up to 24 bytes behind the 16 sectors. -/

namespace TayHuang

namespace Fat32

open Buffers LittleEndian

/-- Where the file starts, by the entry at an offset. -/
def entryClus (mem : List UInt8) (offset : Nat) : UInt32 :=
  (UInt32.ofNat (field mem (offset + 0x14) 2) <<< 16) + UInt32.ofNat (field mem (offset + 0x1A) 2)

def standsAt (mem name : List UInt8) (offset : Nat) : Bool :=
  (mem.drop offset).take 11 = cstring name

/-- The first multiple of four where the name stands. -/
def FirstPlace (mem name : List UInt8) (k : Nat) : Prop :=
  k < 2048 ∧ standsAt mem name (4 * k) = true ∧ ∀ j < k, standsAt mem name (4 * j) = false

/-- The first place with the name gives the cluster. -/
def LeadsTo (mem name : List UInt8) (clus : UInt32) : Prop :=
  (cstring name).length = 11 ∧ clus ≠ 0xFFFFFFFF ∧
    ∃ k, FirstPlace mem name k ∧ entryClus mem (4 * k) = clus

/-- The bytes that a search can read. -/
def searched (c : Context) (heap : Nat → UInt8) : List UInt8 :=
  bytesAt (c.rootDirectory.memory heap) 0 8216

variable {memory : Nat → UInt8} {mem name : List UInt8} {clus clus' : UInt32}

theorem cstring_of_length {s : List UInt8} (h : (cstring s).length = s.length) : cstring s = s :=
  (List.takeWhile_prefix _).eq_of_length h

theorem cstring_eq_iff {s : List UInt8} (hname : (cstring name).length = 11) (hs : s.length ≤ 11) :
    cstring name = cstring s ↔ s = cstring name := by
  constructor
  · intro h
    have hle : (cstring s).length ≤ s.length := (List.takeWhile_prefix _).length_le
    have hlen : (cstring s).length = s.length := by
      rw [← h] at hle ⊢
      omega
    rw [h, cstring_of_length hlen]
  · intro h
    rw [h, cstring, cstring, List.takeWhile_idem]

theorem findEntry_eq {width : Nat} (hname : (cstring name).length = 11) (n i : Nat)
    (hroom : 4 * (i + n) + 24 ≤ width) :
    findEntry memory name n i =
      ((List.range' i n).find? fun k => standsAt (bytesAt memory 0 width) name (4 * k)).elim
        0xFFFFFFFF fun k => entryClus (bytesAt memory 0 width) (4 * k) := by
  induction n generalizing i with
  | zero => rfl
  | succ n ih =>
    have hpart {start count : Nat} (h : start + count ≤ width) :
        ((bytesAt memory 0 width).drop start).take count = bytesAt memory start count := by
      rw [take_drop_bytesAt memory h, Nat.zero_add]
    have hiff : cstring name = cstring (bytesAt memory (i * 4) 11) ↔
        standsAt (bytesAt memory 0 width) name (4 * i) = true := by
      rw [cstring_eq_iff hname (length_bytesAt ..).le, standsAt, decide_eq_true_iff,
        hpart (by omega), Nat.mul_comm]
    simp only [findEntry, List.range'_succ, List.find?_cons]
    by_cases hat : standsAt (bytesAt memory 0 width) name (4 * i) = true
    · rw [if_pos (hiff.mpr hat), hat, Option.elim_some, entryClus, field, field, hpart (by omega),
        hpart (by omega), Nat.mul_comm]
    · rw [if_neg (fun hh => hat (hiff.mp hh)), ih (i + 1) (by omega)]
      simp only [Bool.not_eq_true] at hat
      simp only [hat]

theorem getFileStartClus_eq (c : Context) (heap : Nat → UInt8) (hname : (cstring name).length = 11) :
    getFileStartClus c heap name =
      ((List.range 2048).find? fun k => standsAt (searched c heap) name (4 * k)).elim
        0xFFFFFFFF fun k => entryClus (searched c heap) (4 * k) := by
  rw [getFileStartClus, if_neg (by simp [hname]), findEntry_eq hname _ _ (show _ ≤ 8216 by decide),
    ← List.range_eq_range', searched]

theorem firstPlace_iff (k : Nat) : FirstPlace mem name k ↔
    (List.range 2048).find? (fun k => standsAt mem name (4 * k)) = some k := by
  rw [List.find?_range_eq_some, FirstPlace]
  constructor
  · rintro ⟨hk, hat, hfirst⟩
    exact ⟨hat, List.mem_range.mpr hk, fun j hj => by rw [hfirst j hj]; rfl⟩
  · rintro ⟨hat, hk, hfirst⟩
    refine ⟨List.mem_range.mp hk, hat, fun j hj => ?_⟩
    simpa only [Bool.not_eq_true'] using hfirst j hj

theorem LeadsTo.unique (h : LeadsTo mem name clus) (h' : LeadsTo mem name clus') : clus = clus' := by
  obtain ⟨-, -, k, hk, rfl⟩ := h
  obtain ⟨-, -, k', hk', rfl⟩ := h'
  rw [Option.some.inj (((firstPlace_iff k).mp hk).symm.trans ((firstPlace_iff k').mp hk'))]

/-- What the search returns, if it is not -1. -/
theorem leadsTo_iff {c : Context} {heap : Nat → UInt8} (hclus : clus ≠ 0xFFFFFFFF) :
    LeadsTo (searched c heap) name clus ↔ getFileStartClus c heap name = clus := by
  by_cases hname : (cstring name).length = 11
  · rw [getFileStartClus_eq _ _ hname]
    constructor
    · rintro ⟨-, -, k, hk, rfl⟩
      rw [(firstPlace_iff k).mp hk, Option.elim_some]
    · intro h
      cases hplace : (List.range 2048).find? fun k => standsAt (searched c heap) name (4 * k) with
      | none =>
        rw [hplace] at h
        exact absurd h.symm hclus
      | some k =>
        rw [hplace] at h
        exact ⟨hname, hclus, k, (firstPlace_iff k).mpr hplace, h⟩
  · rw [getFileStartClus, if_pos hname]
    exact ⟨fun h => absurd h.1 hname, fun h => absurd h.symm hclus⟩

end Fat32

end TayHuang
