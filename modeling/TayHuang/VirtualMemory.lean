import TayHuang.PageMap
import TayHuang.PageConservation

/-! The page tables on top of the page allocator: the tables and the frames that are
mapped come from the same free lists. The `int` products and counters of the loops, which
C leaves open from `2 ^ 19` pages or `2 ^ 31` bytes on, are told at each loop. -/

namespace TayHuang

namespace Vm

open Function (update)
open Fuel Radix

structure VMem where
  kmem : KMem
  entry : Nat → Nat → PageEntry

def VMem.tables (v : VMem) : PTMem := ⟨v.entry, []⟩

/-- One of the three upper levels of `__set_mapping`, with `alloc_pages(0)` for a table
that is missing. -/
def enterTable (fuel : Nat) (v : VMem) (table idx : Nat) (rw us : Bool) : Option (VMem × Nat) :=
  if (v.entry table idx).p = false then
    (allocPages fuel v.kmem 0).map fun r =>
      let t := TayHuang.enterTable ⟨v.entry, [r.2]⟩ table idx rw us
      (⟨r.1, t.1.entry⟩, t.2)
  else some (v, ofField (v.entry table idx).address)

def setPte (v : VMem) (pt idx paddr : Nat) (rw us : Bool) : VMem :=
  ⟨v.kmem, (TayHuang.setPte v.tables pt idx paddr rw us).entry⟩

set_option linter.style.nameCheck false in
def __setMapping (fuel : Nat) (v : VMem) (pgd vaddr paddr : Nat) (rw us : Bool) :
    Option (VMem × Bool) :=
  (enterTable fuel v pgd (pml4eIdx vaddr) rw us).bind fun r =>
    if r.2 = 0 then some (r.1, false)
    else (enterTable fuel r.1 r.2 (pdpteIdx vaddr) rw us).bind fun r =>
      if r.2 = 0 then some (r.1, false)
      else (enterTable fuel r.1 r.2 (pdeIdx vaddr) rw us).map fun r =>
        if r.2 = 0 then (r.1, false)
        else (setPte r.1 r.2 (pteIdx vaddr) paddr rw us, true)

/-- `a + (i * MEMUNIT_SZ)`, a 64-bit address. The product is an `int`: C leaves it open from
page `2 ^ 19` on, and the build steps the address instead of multiplying. -/
def pageAt (a i : Nat) : Nat := (a + 4096 * i) % 2 ^ 64

/-- The loop of `set_mapping` and `set_mappingvv`, from page `i` on, with what it
returns and the pages that it mapped. -/
def mapPages (fuel pgd : Nat) (frame : VMem → Nat → Nat) (rw us : Bool) (vaddr : Nat) :
    Nat → Nat → VMem → Option (VMem × Bool × List (Nat × Nat))
  | 0, _, v => some (v, true, [])
  | n + 1, i, v =>
    (__setMapping fuel v pgd (pageAt vaddr i) (frame v i) rw us).bind fun r =>
      if r.2 = false then some (r.1, false, [])
      else (mapPages fuel pgd frame rw us vaddr n (i + 1) r.1).map fun m =>
        (m.1, m.2.1, (pageAt vaddr i, frame v i) :: m.2.2)

def setMapping (fuel : Nat) (v : VMem) (pgd vaddr paddr : Nat) (pages : Int) (rw us : Bool) :
    Option (VMem × Bool × List (Nat × Nat)) :=
  mapPages fuel pgd (fun _ i => pageAt paddr i) rw us (vaddr / 4096 * 4096) pages.toNat 0 v

def setMappingvv (fuel : Nat) (v : VMem) (srcPgd srcAddr dstPgd dstAddr : Nat) (pages : Int)
    (rw us : Bool) : Option (VMem × Bool × List (Nat × Nat)) :=
  mapPages fuel dstPgd
    (fun v i => getPhysicalAddress v.tables srcPgd (pageAt (srcAddr / 4096 * 4096) i)) rw us
    (dstAddr / 4096 * 4096) pages.toNat 0 v

/-- One turn of a loop of `alloc_vpages`, with the pages that it mapped. -/
def allocPiece (fuel pgd : Nat) (v : VMem) (piece : Nat × Nat) :
    Option (VMem × Bool × List (Nat × Nat)) :=
  (allocPages fuel v.kmem piece.1).bind fun r =>
    setMapping fuel ⟨r.1, v.entry⟩ pgd piece.2 r.2 (2 ^ piece.1 : Nat) true true

/-- The loop over the low bits. -/
def allocBits (fuel pgd : Nat) : Nat → Nat → VMem → Nat → Int →
    Option ((VMem × List (Nat × Nat)) × Nat × Int)
  | 0, _, v, vaddr, pages => some ((v, []), vaddr, pages)
  | k + 1, i, v, vaddr, pages =>
    if pages % 2 ≠ 0 then
      (allocPiece fuel pgd v (i, vaddr)).bind fun r =>
        (allocBits fuel pgd k (i + 1) r.1 (vaddr + 4096 * 2 ^ i) (pages / 2)).map fun m =>
          ((m.1.1, r.2.2 ++ m.1.2), m.2)
    else allocBits fuel pgd k (i + 1) v vaddr (pages / 2)

/-- The loop over the pieces of order `MAX_ORDER`. -/
def allocTop (fuel pgd : Nat) : Nat → VMem → Nat → Option (VMem × List (Nat × Nat))
  | 0, v, _ => some (v, [])
  | n + 1, v, vaddr =>
    (allocPiece fuel pgd v (9, vaddr)).bind fun r =>
      (allocTop fuel pgd n r.1 (vaddr + 4096 * 2 ^ 9)).map fun m => (m.1, r.2.2 ++ m.2)

/-- `alloc_vpages`, with the pages that it mapped. -/
def allocVpages (fuel : Nat) (v : VMem) (pgd addr : Nat) (pages : Int) :
    Option (VMem × List (Nat × Nat)) :=
  (allocBits fuel pgd 9 0 v addr pages).bind fun r =>
    (allocTop fuel pgd r.2.2.toNat r.1.1 r.2.1).map fun m => (m.1, r.1.2 ++ m.2)

/-! ### The pieces of `alloc_vpages` -/

/-- One piece after the other. -/
def allocAll (fuel pgd : Nat) : VMem → List (Nat × Nat) → Option (VMem × List (Nat × Nat))
  | v, [] => some (v, [])
  | v, piece :: ps =>
    (allocPiece fuel pgd v piece).bind fun r =>
      (allocAll fuel pgd r.1 ps).map fun m => (m.1, r.2.2 ++ m.2)

/-- The turns of `mapPages`: each maps a page, and one that fails is the last. -/
inductive MapTurns (fuel pgd : Nat) (frame : VMem → Nat → Nat) (rw us : Bool) (va : Nat) :
    Nat → Nat → VMem → VMem → Bool → List (Nat × Nat) → Prop
  | done {i : Nat} {v : VMem} : MapTurns fuel pgd frame rw us va 0 i v v true []
  | turn {n i : Nat} {v v₁ v' : VMem} {ok : Bool} {m : List (Nat × Nat)}
      (hx : __setMapping fuel v pgd (pageAt va i) (frame v i) rw us = some (v₁, true))
      (hrest : MapTurns fuel pgd frame rw us va n (i + 1) v₁ v' ok m) :
    MapTurns fuel pgd frame rw us va (n + 1) i v v' ok ((pageAt va i, frame v i) :: m)
  | stuck {n i : Nat} {v v' : VMem}
      (hx : __setMapping fuel v pgd (pageAt va i) (frame v i) rw us = some (v', false)) :
    MapTurns fuel pgd frame rw us va (n + 1) i v v' false []

theorem mapPages_iff {fuel pgd va n i : Nat} {frame : VMem → Nat → Nat} {rw us ok : Bool}
    {v v' : VMem} {m : List (Nat × Nat)} :
    mapPages fuel pgd frame rw us va n i v = some (v', ok, m) ↔
      MapTurns fuel pgd frame rw us va n i v v' ok m := by
  constructor
  · intro hs
    induction n generalizing v i m with
    | zero =>
      obtain ⟨rfl, rfl, rfl⟩ : v = v' ∧ true = ok ∧ [] = m := by simpa [mapPages] using hs
      exact .done
    | succ n ih =>
      obtain ⟨⟨v₁, ok₁⟩, hx, hs⟩ := Option.bind_eq_some_iff.mp hs
      cases ok₁ with
      | false =>
        obtain ⟨rfl, rfl, rfl⟩ : v₁ = v' ∧ false = ok ∧ [] = m := by simpa using hs
        exact .stuck hx
      | true =>
        rw [if_neg (by simp)] at hs
        obtain ⟨⟨v₂, ok₂, m₂⟩, hy, hs⟩ := Option.map_eq_some_iff.mp hs
        obtain ⟨rfl, rfl, rfl⟩ : v₂ = v' ∧ ok₂ = ok ∧ (pageAt va i, frame v i) :: m₂ = m := by
          simpa using hs
        exact .turn hx (ih hy)
  · intro ht
    induction ht with
    | done => rfl
    | turn hx hrest ih => rw [mapPages, hx, Option.bind_some, if_neg (by simp), ih, Option.map_some]
    | stuck hx => rw [mapPages, hx, Option.bind_some, if_pos rfl]

theorem allocAll_append (fuel pgd : Nat) (v : VMem) (ps qs : List (Nat × Nat)) :
    allocAll fuel pgd v (ps ++ qs) = (allocAll fuel pgd v ps).bind fun r =>
      (allocAll fuel pgd r.1 qs).map fun m => (m.1, r.2 ++ m.2) := by
  induction ps generalizing v with
  | nil =>
    simp only [List.nil_append, allocAll, Option.bind_some]
    cases allocAll fuel pgd v qs <;> rfl
  | cons p ps ih =>
    simp only [List.cons_append, allocAll, ih, Option.bind_assoc, Option.bind_map]
    refine Option.bind_congr fun r _ => ?_
    rw [Option.map_bind]
    refine Option.bind_congr fun m _ => ?_
    simp only [Function.comp_apply, Option.map_map, Function.comp_def, List.append_assoc]

theorem allocBits_eq (fuel pgd k i : Nat) (v : VMem) (vaddr pages : Nat) :
    allocBits fuel pgd k i v vaddr pages =
      (allocAll fuel pgd v (bitBlocks (fun i => 4096 * 2 ^ i) k i vaddr pages)).map fun m =>
        (m, bitEnd (fun i => 4096 * 2 ^ i) k i vaddr pages, ((pages / 2 ^ k : Nat) : Int)) := by
  induction k generalizing i v vaddr pages with
  | zero => simp [allocBits, bitBlocks, bitEnd, allocAll]
  | succ k ih =>
    have hdiv : ((pages : Int) / 2) = ((pages / 2 : Nat) : Int) := by omega
    have hpow : pages / 2 / 2 ^ k = pages / 2 ^ (k + 1) := by
      rw [Nat.div_div_eq_div_mul, Nat.pow_succ']
    by_cases hp : pages % 2 ≠ 0
    · have hp' : (pages : Int) % 2 ≠ 0 := by omega
      simp only [allocBits, bitBlocks, bitEnd, if_pos hp, if_pos hp', allocAll, hdiv, ih, hpow]
      rw [Option.map_bind]
      refine Option.bind_congr fun r _ => ?_
      simp only [Function.comp_apply, Option.map_map, Function.comp_def]
    · have hp' : ¬ (pages : Int) % 2 ≠ 0 := by omega
      simp only [allocBits, bitBlocks, bitEnd, if_neg hp, if_neg hp', hdiv, ih, hpow]

theorem allocTop_eq (fuel pgd n : Nat) (v : VMem) (vaddr : Nat) :
    allocTop fuel pgd n v vaddr = allocAll fuel pgd v (topBlocks n vaddr) := by
  induction n generalizing v vaddr with
  | zero => rfl
  | succ n ih => simp only [allocTop, topBlocks, allocAll, ih]

theorem allocVpages_eq (fuel : Nat) (v : VMem) (pgd addr pages : Nat) :
    allocVpages fuel v pgd addr pages = allocAll fuel pgd v (returnBlocks addr pages) := by
  rw [returnBlocks, allocAll_append, allocVpages, allocBits_eq, Option.bind_map]
  refine Option.bind_congr fun r _ => ?_
  simp only [Function.comp_apply, Int.toNat_natCast, allocTop_eq]

end Vm

end TayHuang
