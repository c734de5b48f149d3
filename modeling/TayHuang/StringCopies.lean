import TayHuang.FormatParsing
import Mathlib.Logic.Function.Basic

/-! The two versions of `strcpy`, string.c, in the memory that holds both strings. The
one of the kernel and of libkmod looks for the end behind the character that it has
copied, the one of the loader before it copies. -/

namespace TayHuang

open Function (update)
open Fuel

abbrev Bytes := Nat → UInt8

/-- `strcpy` of the kernel and of libkmod. -/
def strcpyInto : Nat → Bytes → Nat → Nat → Option Bytes
  | 0, _, _, _ => none
  | fuel + 1, mem, r, src =>
    let mem := update mem r (mem src)
    if mem (src + 1) = 0 then some mem else strcpyInto fuel mem (r + 1) (src + 1)

/-- `strcpy` of the loader. -/
def loaderStrcpyInto : Nat → Bytes → Nat → Nat → Option Bytes
  | 0, _, _, _ => none
  | fuel + 1, mem, r, src =>
    if mem src = 0 then some (update mem r 0)
    else loaderStrcpyInto fuel (update mem r (mem src)) (r + 1) (src + 1)

/-- The characters of the string at an address, up to its terminator. -/
def HoldsString (mem : Bytes) : Nat → List UInt8 → Prop
  | p, [] => mem p = 0
  | p, c :: cs => mem p = c ∧ c ≠ 0 ∧ HoldsString mem (p + 1) cs

/-- Bytes are written from an address on. -/
def placeBytes (mem : Bytes) : Nat → List UInt8 → Bytes
  | _, [] => mem
  | p, c :: cs => placeBytes (update mem p c) (p + 1) cs

variable {mem mem' : Bytes} {src dst p : Nat} {text : List UInt8}

theorem HoldsString.congr (h : HoldsString mem p text)
    (he : ∀ i ≤ text.length, mem' (p + i) = mem (p + i)) : HoldsString mem' p text := by
  induction text generalizing p with
  | nil => exact (he 0 (le_refl 0)).trans h
  | cons c cs ih =>
    obtain ⟨hc, hne, hcs⟩ := h
    refine ⟨(he 0 (Nat.zero_le _)).trans hc, hne, ih hcs fun i hi => ?_⟩
    have hh := he (i + 1) (Nat.succ_le_succ hi)
    rwa [Nat.add_comm i, ← Nat.add_assoc] at hh

theorem placeBytes_append (mem : Bytes) (p : Nat) (xs ys : List UInt8) :
    placeBytes mem p (xs ++ ys) = placeBytes (placeBytes mem p xs) (p + xs.length) ys := by
  induction xs generalizing mem p with
  | nil => rfl
  | cons c cs ih =>
    rw [List.cons_append, placeBytes, ih, placeBytes, List.length_cons, Nat.add_assoc, Nat.add_comm 1]

theorem placeBytes_outside {a : Nat} (h : a < p ∨ p + text.length ≤ a) :
    placeBytes mem p text a = mem a := by
  induction text generalizing mem p with
  | nil => rfl
  | cons c cs ih =>
    rw [List.length_cons] at h
    have hap : a ≠ p := by omega
    rw [placeBytes, ih (by omega), Function.update_of_ne hap]

/-- The strings do not overlap. -/
def Apart (src dst n : Nat) : Prop := ∀ i ≤ n, ∀ j ≤ n, src + i ≠ dst + j

theorem Apart.next {n : Nat} (h : Apart src dst (n + 1)) : Apart (src + 1) (dst + 1) n := by
  intro i hi j hj
  have hh := h (i + 1) (by omega) (j + 1) (by omega)
  omega

theorem HoldsString.step {c : UInt8} {cs : List UInt8} (h : HoldsString mem src (c :: cs))
    (hapart : Apart src dst (c :: cs).length) :
    HoldsString (update mem dst c) (src + 1) cs := by
  refine h.2.2.congr fun i hi => Function.update_of_ne ?_ ..
  have hh := hapart (i + 1) (Nat.succ_le_succ hi) 0 (Nat.zero_le _)
  omega

theorem loaderStrcpyInto_settles (h : HoldsString mem src text) (hapart : Apart src dst text.length) :
    Settles (fun fuel => loaderStrcpyInto fuel mem dst src) (placeBytes mem dst (text ++ [0])) := by
  induction text generalizing mem src dst with
  | nil =>
    have h0 : mem src = 0 := h
    refine settles_succ rfl ?_
    simp only [loaderStrcpyInto, if_pos h0]
    exact settles_const _
  | cons c cs ih =>
    refine settles_succ rfl ?_
    simp only [loaderStrcpyInto, h.1, if_neg h.2.1]
    exact ih (h.step hapart) hapart.next

/-- The terminator is not copied. -/
theorem strcpyInto_settles (h : HoldsString mem src text) (hapart : Apart src dst text.length)
    (hne : text ≠ []) :
    Settles (fun fuel => strcpyInto fuel mem dst src) (placeBytes mem dst text) := by
  induction text generalizing mem src dst with
  | nil => exact absurd rfl hne
  | cons c cs ih =>
    have hstep := h.step hapart
    refine settles_succ rfl ?_
    cases cs with
    | nil =>
      have h0 : update mem dst c (src + 1) = 0 := hstep
      simp only [strcpyInto, h.1, if_pos h0]
      exact settles_const _
    | cons d ds =>
      have h1 : update mem dst c (src + 1) ≠ 0 := hstep.1 ▸ hstep.2.1
      simp only [strcpyInto, h.1, if_neg h1]
      exact ih hstep hapart.next (List.cons_ne_nil d ds)

/-- The bytes that a formatted string takes from `strcpy` are those that it writes. -/
theorem strcpyInto_bytes (h : HoldsString mem src text) (hapart : Apart src dst text.length)
    (hne : text ≠ []) : ∃ bytes, Settles (fun fuel => Printf.strcpy mem fuel src) bytes ∧
      Settles (fun fuel => strcpyInto fuel mem dst src) (placeBytes mem dst bytes) := by
  refine ⟨text, ?_, strcpyInto_settles h hapart hne⟩
  clear hapart
  induction text generalizing src with
  | nil => exact absurd rfl hne
  | cons c cs ih =>
    refine settles_succ rfl ?_
    cases cs with
    | nil =>
      have h0 : mem (src + 1) = 0 := h.2.2
      simp only [Printf.strcpy, h.1, if_pos h0]
      exact settles_const _
    | cons d ds =>
      have h1 : mem (src + 1) ≠ 0 := h.2.2.1 ▸ h.2.2.2.1
      simp only [Printf.strcpy, h.1, if_neg h1]
      exact (ih h.2.2 (List.cons_ne_nil d ds)).map _

theorem loaderStrcpyInto_bytes (h : HoldsString mem src text) (hapart : Apart src dst text.length) :
    ∃ bytes, Settles (fun fuel => Printf.loaderStrcpy mem fuel src) bytes ∧
      Settles (fun fuel => loaderStrcpyInto fuel mem dst src) (placeBytes mem dst bytes) := by
  refine ⟨text ++ [0], ?_, loaderStrcpyInto_settles h hapart⟩
  clear hapart
  induction text generalizing src with
  | nil =>
    have h0 : mem src = 0 := h
    refine settles_succ rfl ?_
    simp only [Printf.loaderStrcpy, if_pos h0]
    exact settles_const _
  | cons c cs ih =>
    refine settles_succ rfl ?_
    simp only [Printf.loaderStrcpy, h.1, if_neg h.2.1]
    exact (ih h.2.2).map _

/-- What is below the place of the next character is not written again. -/
theorem strcpyInto_below {fuel a : Nat} (h : strcpyInto fuel mem dst src = some mem') (ha : a < dst) :
    mem' a = mem a := by
  induction fuel generalizing mem src dst with
  | zero => simp [strcpyInto] at h
  | succ fuel ih =>
    have hne : a ≠ dst := by omega
    rw [strcpyInto] at h
    split at h
    · obtain rfl := Option.some.inj h
      exact Function.update_of_ne hne ..
    · rw [ih h (by omega), Function.update_of_ne hne]

/-- The bytes from `src` on to the next terminator stand at `dst` already. -/
def SameBytes (mem : Bytes) (src dst : Nat) : Prop :=
  ∃ k, mem (src + (k + 1)) = 0 ∧ ∀ i ≤ k, mem (dst + i) = mem (src + i)

theorem sameBytes_next (hput : mem dst = mem src) (h : SameBytes mem (src + 1) (dst + 1)) :
    SameBytes mem src dst := by
  obtain ⟨k, h0, hsame⟩ := h
  refine ⟨k + 1, ?_, fun i hi => ?_⟩
  · rwa [Nat.add_assoc, Nat.add_comm 1] at h0
  · cases i with
    | zero => exact hput
    | succ i =>
      have hh := hsame i (Nat.le_of_succ_le_succ hi)
      rwa [Nat.add_assoc, Nat.add_assoc, Nat.add_comm 1] at hh

/-- The copy changes nothing. -/
theorem strcpyInto_same_iff :
    Settles (fun fuel => strcpyInto fuel mem dst src) mem ↔ SameBytes mem src dst := by
  constructor
  · intro h
    obtain ⟨fuel, hfuel⟩ := h.enough
    have hrun := hfuel fuel (le_refl fuel)
    clear h hfuel
    induction fuel generalizing src dst with
    | zero => simp [strcpyInto] at hrun
    | succ fuel ih =>
      rw [strcpyInto] at hrun
      have hput : mem dst = mem src := by
        split at hrun
        · have hh := congrFun (Option.some.inj hrun) dst
          rw [Function.update_self] at hh
          exact hh.symm
        · have hh := strcpyInto_below hrun (Nat.lt_succ_self dst)
          rwa [Function.update_self] at hh
      rw [← hput, Function.update_eq_self] at hrun
      split at hrun
      · rename_i h0
        refine ⟨0, h0, fun i hi => ?_⟩
        obtain rfl : i = 0 := by omega
        exact hput
      · exact sameBytes_next hput (ih hrun)
  · rintro ⟨k, h0, hsame⟩
    induction k generalizing src dst with
    | zero =>
      have hput : mem dst = mem src := hsame 0 (le_refl 0)
      have h1 : mem (src + 1) = 0 := h0
      refine settles_succ rfl ?_
      simp only [strcpyInto, ← hput, Function.update_eq_self, if_pos h1]
      exact settles_const _
    | succ k ih =>
      have hput : mem dst = mem src := hsame 0 (Nat.zero_le _)
      refine settles_succ rfl ?_
      simp only [strcpyInto, ← hput, Function.update_eq_self]
      by_cases h1 : mem (src + 1) = 0
      · simp only [if_pos h1]
        exact settles_const _
      · simp only [if_neg h1]
        refine ih ?_ fun i hi => ?_
        · rwa [Nat.add_assoc, Nat.add_comm 1]
        · have hh := hsame (i + 1) (Nat.succ_le_succ hi)
          rwa [Nat.add_comm i, ← Nat.add_assoc, ← Nat.add_assoc] at hh

/-- The first turn for an empty string writes what the terminator would be. -/
theorem strcpyInto_empty (h : mem src = 0) (hne : src ≠ dst) (fuel : Nat) :
    strcpyInto fuel mem dst src = strcpyInto fuel (update mem dst 0) dst src := by
  cases fuel with
  | zero => rfl
  | succ fuel =>
    have h0 : update mem dst 0 src = 0 := by rw [Function.update_of_ne hne, h]
    simp only [strcpyInto, h, h0, Function.update_idem]

/-- The copy of the loader is the string with its terminator. That of the kernel agrees where
the terminator is there already, and for an empty string where nothing behind it differs. -/
theorem strcpy_agrees_iff (h : HoldsString mem src text) (hapart : Apart src dst text.length) :
    Settles (fun fuel => loaderStrcpyInto fuel mem dst src) (placeBytes mem dst (text ++ [0])) ∧
      (Settles (fun fuel => strcpyInto fuel mem dst src) (placeBytes mem dst (text ++ [0])) ↔
        if text = [] then SameBytes (update mem dst 0) src dst else mem (dst + text.length) = 0) := by
  refine ⟨loaderStrcpyInto_settles h hapart, ?_⟩
  by_cases hne : text = []
  · subst hne
    rw [if_pos rfl, ← strcpyInto_same_iff]
    have hsd : src ≠ dst := hapart 0 (le_refl 0) 0 (le_refl 0)
    simp only [strcpyInto_empty h hsd]
    rfl
  · rw [if_neg hne, placeBytes_append]
    have hcopy := strcpyInto_settles h hapart hne
    have hend : placeBytes mem dst text (dst + text.length) = mem (dst + text.length) :=
      placeBytes_outside (.inr (le_refl _))
    constructor
    · intro hh
      have hh := congrFun (hcopy.eq hh) (dst + text.length)
      rw [hend] at hh
      exact hh.trans (Function.update_self ..)
    · intro h0
      have hput : placeBytes (placeBytes mem dst text) (dst + text.length) [0] = placeBytes mem dst text := by
        rw [← hend] at h0
        rw [placeBytes, placeBytes, ← h0, Function.update_eq_self]
      rw [hput]
      exact hcopy

/-- `"ab"` at 0, zeros elsewhere. -/
def sample (p : Nat) : UInt8 := [97, 98].getD p 0

theorem strcpy_agrees_blank :
    Settles (fun fuel => strcpyInto fuel sample 8 0) (placeBytes sample 8 [97, 98, 0]) :=
  (strcpy_agrees_iff (show HoldsString sample 0 [97, 98] from ⟨rfl, by decide, rfl, by decide, rfl⟩)
    (fun i hi j hj => by
      simp only [List.length_cons, List.length_nil] at hi hj
      omega)).2.mpr rfl

/-- The copy of `"a"` at 2 runs on into the `"b"` that stood at 3, and that of the empty string
at 2 takes the `"b"` behind it along. -/
theorem strcpy_disagrees :
    (HoldsString (fun p => [97, 0, 98, 98].getD p 0) 0 [97] ∧ Apart 0 2 1 ∧
      ¬ Settles (fun fuel => strcpyInto fuel (fun p => [97, 0, 98, 98].getD p 0) 2 0)
        (placeBytes (fun p => [97, 0, 98, 98].getD p 0) 2 [97, 0])) ∧
    HoldsString (fun p => [0, 98].getD p 0) 0 [] ∧ Apart 0 2 0 ∧
      ¬ Settles (fun fuel => strcpyInto fuel (fun p => [0, 98].getD p 0) 2 0)
        (placeBytes (fun p => [0, 98].getD p 0) 2 [0]) := by
  refine ⟨⟨⟨rfl, by decide, rfl⟩, fun i hi j hj => by omega, fun h => ?_⟩, rfl,
    fun i hi j hj => by omega, fun h => ?_⟩
  · have hh := congrFun (h.unique 9 _ rfl) 3
    exact absurd hh (by decide)
  · have hh := congrFun (h.unique 9 _ rfl) 3
    exact absurd hh (by decide)

end TayHuang
