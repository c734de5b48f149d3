import TayHuang.DirectorySteps
import TayHuang.VirtualPages

/-! A range of pages mapped by one call of `set_mapping`. -/

namespace TayHuang

namespace Vm

open Fuel Radix Tilings

variable {v v' : VMem} {l : List Seg} {L : Nat → List (Nat × Nat)} {R : List Nat}
  {fuel pgd va pa n i j a : Nat} {rw us ok : Bool} {m : List (Nat × Nat)}

/-! ### The pages of the turns -/

theorem pageAt_mod (ha : 4096 ∣ a) (j : Nat) : pageAt a j % 2 ^ 12 = 0 := by
  unfold pageAt
  omega

theorem page_pageAt (a i : Nat) : page (pageAt a i) = page (a + 4096 * i) := by
  unfold page pageAt
  omega

/-- No two of `2 ^ 36` turns map the same page. -/
theorem pageAt_injective (hi : i < 2 ^ 36) (hj : j < 2 ^ 36)
    (h : page (pageAt a i) = page (pageAt a j)) : i = j := by
  rw [page_pageAt, page_pageAt] at h
  unfold page at h
  omega

/-! ### The whole range -/

/-- Every page of the range is translated, and no other translation has changed. -/
def Complete (v v' : VMem) (pgd va pa n : Nat) : Prop :=
  (∀ i < n, getPhysicalAddress v'.tables pgd (va + 4096 * i) = pa + 4096 * i) ∧
    ∀ a, (∀ i < n, page a ≠ page (va + 4096 * i)) →
      translation v'.tables pgd a = translation v.tables pgd a

/-- A page is translated as the last turn that mapped it wants, or as before. -/
theorem setMapping_pages (h : DirsOk v l L R) (hpgd : pgd ∈ R) (hva : 4096 ∣ va)
    (hs : setMapping fuel v pgd va pa (n : Nat) rw us = some (v', true, m)) (a : Nat) :
    (∀ i < n, page a ≠ page (pageAt va i)) ∧
        translation v'.tables pgd a = translation v.tables pgd a ∨
      ∃ i < n, page a = page (pageAt va i) ∧
        translation v'.tables pgd a = some (ofField (toField (pageAt pa i)) + a % 2 ^ 12) := by
  rw [setMapping, Nat.div_mul_cancel hva, Int.toNat_natCast] at hs
  obtain ⟨-, hmap, -, -, hlen⟩ := mapPages_remapped h hpgd hs
  have hm := mapPages_frames hs
  rw [hlen rfl] at hm
  have hget := hmap pgd hpgd a
  rw [if_pos rfl] at hget
  rcases lastSet_cases m a with ⟨hno, hnone⟩ | ⟨b, p, hx, hax, hlast⟩
  · rw [hnone] at hget
    refine .inl ⟨fun i hi => ?_, hget⟩
    have hx : (pageAt va i, pageAt pa i) ∈ m := by
      rw [hm]
      exact List.mem_map_of_mem (List.mem_range'_1.mpr ⟨Nat.zero_le i, by omega⟩)
    exact hno _ _ hx
  · rw [hlast] at hget
    rw [hm] at hx
    obtain ⟨i, hi, hxi⟩ := List.mem_map.mp hx
    have hin := (List.mem_range'_1.mp hi).2
    obtain ⟨rfl, rfl⟩ := Prod.mk.inj hxi
    exact .inr ⟨i, by omega, hax, hget⟩

/-- A call that returns true has mapped its range, and nothing else. -/
theorem setMapping_complete (h : DirsOk v l L R) (hpgd : pgd ∈ R) (hva : 4096 ∣ va)
    (hpa : 4096 ∣ pa) (htop : va + 4096 * n ≤ 2 ^ 47) (hlow : pa + 4096 * n ≤ 2 ^ 39)
    (hs : setMapping fuel v pgd va pa (n : Nat) rw us = some (v', true, m)) :
    Complete v v' pgd va pa n := by
  have hpages := setMapping_pages h hpgd hva hs
  refine ⟨fun i hi => ?_, fun a hout => ?_⟩
  · rcases hpages (va + 4096 * i) with ⟨hno, -⟩ | ⟨j, hj, hja, hset⟩
    · exact absurd (page_pageAt va i).symm (hno i hi)
    · rw [← page_pageAt] at hja
      obtain rfl := pageAt_injective (by omega) (by omega) hja
      have hframe : pageAt pa i = pa + 4096 * i := Nat.mod_eq_of_lt (by omega)
      rw [getPhysicalAddress_eq_getD, hset, hframe, ofField_toField (by omega), Option.getD_some]
      omega
  · rcases hpages a with ⟨-, hsame⟩ | ⟨j, hj, hja, -⟩
    · exact hsame
    · exact absurd (hja.trans (page_pageAt va j)) (hout j hj)

theorem eightPages_dirs (hR : ∀ r ∈ R, 0 < r ∧ r < 0x2000000) : DirsOk eightPages
    [⟨0x60000, 64, true⟩, ⟨0x60040, 0xfc0, false⟩] roomyLists R := by
  have hok := eightPages_ok
  refine .fresh hok.account hok.paged hok.low (fun _ _ _ => rfl) (fun r hr hmem => ?_) fun h0 => ?_
  · have := (mem_roomyPages.mp hmem).1
    have := (hR r hr).2
    omega
  · exact absurd (hR 0 h0).1 (by decide)

theorem setMapping_complete_two : ∃ v' m,
    setMapping 40 eightPages 0x1000 0x400000 0x800000 (2 : Nat) true true = some (v', true, m) ∧
      Complete eightPages v' 0x1000 0x400000 0x800000 2 := by
  have hsome : (setMapping 40 eightPages 0x1000 0x400000 0x800000 (2 : Nat) true true).map
      (fun r => decide (r.2.1 = true)) = some true := by
    decide +kernel
  obtain ⟨⟨v', ok, m⟩, hr, hok⟩ := Option.map_eq_some_iff.mp hsome
  obtain rfl : ok = true := of_decide_eq_true hok
  exact ⟨v', m, hr, setMapping_complete (eightPages_dirs (R := [0x1000]) (by simp)) (by simp)
    (by decide) (by decide) (by decide) (by decide) hr⟩

end Vm

end TayHuang
