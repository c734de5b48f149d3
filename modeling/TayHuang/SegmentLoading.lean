import TayHuang.ModuleLoader

/-! The loop over the segments of an image, and the content that it leaves behind. -/

namespace TayHuang

namespace Vm

open Function (update)
open Fuel Radix Tilings

variable {v v' : VMem} {l : List Seg} {L L' : Nat → List (Nat × Nat)} {fuel pgd : Nat}
  {bytes b c d g : Nat → UInt8} {addr size i : Nat} {F₀ : Set Nat} {h : Elf64Phdr}
  {V : Nat → Option (Option UInt8)} {hs : List Elf64Phdr}

/-! ### The content of the segments -/

/-- The pages that a segment brings: as many as its memory takes, from the first page on that
begins within it. -/
def pagesOf (h : Elf64Phdr) : Nat := (h.pMemsz + 4095) / 4096

/-- The content after a segment was loaded. -/
def segContent (b : Nat → UInt8) (addr : Nat) (h : Elf64Phdr) (V : Nat → Option (Option UInt8)) :
    Nat → Option (Option UInt8) :=
  written (written (cleared V (segStart h) (pagesOf h)) h.pVaddr
    (fun k => b (addr + h.pOffset + k)) 0 (intTurns h.pFilesz)) (h.pVaddr + h.pFilesz)
      (fun _ => 0) 0 (intTurns (h.pMemsz - h.pFilesz))

/-- The headers from number `i` on that are to be loaded. -/
def loadsFrom (b : Nat → UInt8) (addr i n : Nat) : List Elf64Phdr :=
  ((List.range' i n).map (phdr b addr)).filter fun h => h.pType = 1

/-- The segments do not overlap, have room for their bytes, and lie in the user part of the
address space; no more memory is asked for than can have frames. -/
structure Segments (hs : List Elf64Phdr) : Prop where
  fits : ∀ h ∈ hs, h.pFilesz ≤ h.pMemsz
  above : ∀ h ∈ hs, 0x2000000 ≤ h.pVaddr
  user : ∀ h ∈ hs, h.pVaddr + h.pMemsz ≤ 2 ^ 47
  apart : hs.Pairwise fun h k => ∀ a, h.pVaddr ≤ a → a < h.pVaddr + h.pMemsz →
    ¬ (k.pVaddr ≤ a ∧ a < k.pVaddr + k.pMemsz)
  room : ∀ h ∈ hs, h.pMemsz ≤ 2 ^ 39

/-- A segment that was loaded has got all its frames. -/
def AllServed (maps : List (Elf64Phdr × List (Nat × Nat))) : Prop :=
  ∀ x ∈ maps, x.1.pType = 1 → Served (pagesOf x.1) x.2

/-- What holds of a segment that is loaded. -/
structure Loadable (b : Nat → UInt8) (addr size : Nat) (h : Elf64Phdr) : Prop where
  fits : h.pFilesz ≤ h.pMemsz
  user : h.pVaddr + h.pMemsz ≤ 2 ^ 47
  room : h.pMemsz ≤ 2 ^ 39
  file : h.pOffset + h.pFilesz ≤ size

theorem segPages_eq (hr : h.pMemsz ≤ 2 ^ 39) : segPages h = (pagesOf h : Nat) := by
  unfold segPages pagesOf
  rw [Int.bmod_def]
  split <;> omega

theorem segStart_eq (hu : h.pVaddr + h.pMemsz ≤ 2 ^ 47) :
    segStart h = (h.pVaddr + 4095) / 4096 * 4096 := by
  unfold segStart
  rw [Nat.mod_eq_of_lt (by omega)]

section Step

variable {s' : LoadMem} {lim lim' : Nat × Nat} {m : List (Nat × Nat)}

theorem loadProgram_shows (hsh : Shows v pgd bytes b g F₀ (free L) V) (hok : DirsOk v l L [pgd])
    (hF : free L ⊆ F₀) (h0 : 0 ∉ F₀) (him : InMemory b addr size F₀) (ht : h.pType = 1)
    (hl : Loadable b addr size h) (hm : Served (pagesOf h) m)
    (hs : loadProgram fuel ⟨v, bytes⟩ pgd addr h lim = some (s', lim', m)) :
    lim' = (h.pVaddr, h.pVaddr + h.pMemsz) ∧ ∃ l' L', DirsOk s'.vm l' L' [pgd] ∧ free L' ⊆ F₀ ∧
      Shows s'.vm pgd s'.bytes b g F₀ (free L') (segContent b addr h V) := by
  obtain ⟨hfits, huser, hroom, hfile⟩ := hl
  have htop := him.top
  rw [loadProgram, if_neg (by simp [ht]), segPages_eq hroom] at hs
  obtain ⟨⟨v₁, m₁⟩, hx, hs⟩ := Option.map_eq_some_iff.mp hs
  simp only [Prod.mk.injEq] at hs
  obtain ⟨rfl, rfl, rfl⟩ := hs
  have hstart := segStart_eq huser
  obtain ⟨l', L', hok', hsub, hsh'⟩ := hsh.allocVpages hok hF (by rw [hstart]; omega)
    (by rw [hstart, pagesOf]; omega) hm hx
  have hF' := hsub.trans hF
  have hsize : (h.pMemsz + 2 ^ 64 - h.pFilesz) % 2 ^ 64 = h.pMemsz - h.pFilesz := by omega
  have hend : (h.pVaddr + h.pFilesz) % 2 ^ 64 = h.pVaddr + h.pFilesz := Nat.mod_eq_of_lt (by omega)
  have hvaddr : (h.pVaddr + h.pMemsz) % 2 ^ 64 = h.pVaddr + h.pMemsz := Nat.mod_eq_of_lt (by omega)
  have hcopy := hsh'.storeBytes (fun b i => b (((addr + h.pOffset) % 2 ^ 64 + i) % 2 ^ 64))
    (fun k => b (addr + h.pOffset + k)) (n := intTurns h.pFilesz) (i := 0) h0 hF'
    (show h.pVaddr + 0 + intTurns h.pFilesz ≤ 2 ^ 47 by
      have := Nat.min_le_left h.pFilesz (2 ^ 31)
      unfold intTurns
      omega) (fun c j hc hj => by
      have hlt : j < h.pFilesz := by
        have := Nat.min_le_left h.pFilesz (2 ^ 31)
        unfold intTurns at hj
        omega
      have hpos := him.pos
      have hsrc : ((addr + h.pOffset) % 2 ^ 64 + j) % 2 ^ 64 = addr + h.pOffset + j := by omega
      simp only [hsrc]
      exact hc _ (him.reserved _ (by omega) (by omega)) (by omega))
  have hset := hcopy.storeBytes (fun _ _ => 0) (fun _ => 0) (n := intTurns (h.pMemsz - h.pFilesz)) (i := 0)
    h0 hF' (show h.pVaddr + h.pFilesz + 0 + intTurns (h.pMemsz - h.pFilesz) ≤ 2 ^ 47 by
      have := Nat.min_le_left (h.pMemsz - h.pFilesz) (2 ^ 31)
      unfold intTurns
      omega)
    fun _ _ _ _ => rfl
  refine ⟨by rw [hvaddr], l', L', hok', hF', ?_⟩
  simp only [vmemset, pvmemcpy, hsize, hend]
  exact hset

end Step

/-! ### Two runs -/

theorem storeBytes_twin {s : PTMem} {dst n : Nat} {val : (Nat → UInt8) → Nat → UInt8}
    (hval : ∀ c d j, (∀ a, a ∉ F₀ → d a = c a) → j < i + n → val d j = val c j)
    (hd : ∀ a, a ∉ F₀ → d a = c a) :
    ∀ a, a ∉ F₀ → storeBytes s pgd dst val n i d a = storeBytes s pgd dst val n i c a := by
  induction n generalizing i c d with
  | zero => exact hd
  | succ n ih =>
    rw [storeBytes, storeBytes]
    refine ih (fun c d j hcd hj => hval c d j hcd (by omega)) fun a ha => ?_
    rw [hval c d i hd (by omega)]
    by_cases he : a = getPhysicalAddress s pgd ((dst + i) % 2 ^ 64)
    · rw [he, Function.update_self, Function.update_self]
    · rw [Function.update_of_ne he, Function.update_of_ne he, hd a ha]

theorem loadProgram_twin {s' : LoadMem} {lim lim' : Nat × Nat} {m : List (Nat × Nat)}
    (him : InMemory b addr size F₀) (hfile : h.pType = 1 → h.pOffset + h.pFilesz ≤ size)
    (hd : ∀ a, a ∉ F₀ → d a = c a)
    (hs : loadProgram fuel ⟨v, c⟩ pgd addr h lim = some (s', lim', m)) :
    ∃ d', loadProgram fuel ⟨v, d⟩ pgd addr h lim = some (⟨s'.vm, d'⟩, lim', m) ∧
      ∀ a, a ∉ F₀ → d' a = s'.bytes a := by
  rw [loadProgram] at hs ⊢
  by_cases ht : h.pType = 1
  · rw [if_neg (by simp [ht])] at hs ⊢
    obtain ⟨⟨v₁, m₁⟩, hx, hs⟩ := Option.map_eq_some_iff.mp hs
    simp only [Prod.mk.injEq] at hs
    obtain ⟨rfl, rfl, rfl⟩ := hs
    refine ⟨_, by rw [hx, Option.map_some], ?_⟩
    have htop := him.top
    have hend := hfile ht
    refine storeBytes_twin (fun _ _ _ _ _ => rfl) (storeBytes_twin (fun c d j hcd hj => ?_) hd)
    have hlt : j < h.pFilesz := by
      have := Nat.min_le_left h.pFilesz (2 ^ 31)
      unfold intTurns at hj
      omega
    have hsrc : ((addr + h.pOffset) % 2 ^ 64 + j) % 2 ^ 64 = addr + h.pOffset + j := by omega
    simp only [hsrc]
    exact hcd _ (him.reserved _ (by omega) (by omega))
  · rw [if_pos ht] at hs ⊢
    simp only [Option.some.injEq, Prod.mk.injEq] at hs
    obtain ⟨rfl, rfl, rfl⟩ := hs
    exact ⟨d, rfl, hd⟩

/-! ### The loop -/

theorem loadsFrom_succ (b : Nat → UInt8) (addr i n : Nat) :
    loadsFrom b addr i (n + 1) = if (phdr b addr i).pType = 1 then
      phdr b addr i :: loadsFrom b addr (i + 1) n else loadsFrom b addr (i + 1) n := by
  simp [loadsFrom, List.range'_succ, List.filter_cons]

def limits (lim : Nat × Nat) (h : Elf64Phdr) : Nat × Nat :=
  (min lim.1 h.pVaddr, max lim.2 (h.pVaddr + h.pMemsz))

theorem Shows.same {F : Set Nat} (hsh : Shows v pgd bytes b g F₀ F V)
    (him : InMemory b addr size F₀) : Same b bytes addr size := fun k h1 h2 =>
  hsh.others k (him.reserved k h1 h2) (by have := him.pos; omega)

theorem loadSegments_shows {k : Nat} {s' : LoadMem} {lim lim' : Nat × Nat}
    {maps : List (Elf64Phdr × List (Nat × Nat))} (hsh : Shows v pgd c b g F₀ (free L) V)
    (hok : DirsOk v l L [pgd]) (hF : free L ⊆ F₀) (h0 : 0 ∉ F₀) (him : InMemory b addr size F₀)
    (hloads : ∀ h ∈ loads b addr, Loadable b addr size h) (hi : i ≤ ePhnum b addr)
    (hlim : lim.1 < 2 ^ 64) (hm : AllServed maps)
    (hs : loadSegments fuel addr pgd k i ⟨v, c⟩ lim = some (s', lim', maps)) :
    (lim' = (loadsFrom b addr i (ePhnum b addr - i)).foldl limits lim ∧
      ∃ l' L', DirsOk s'.vm l' L' [pgd] ∧ free L' ⊆ F₀ ∧ Shows s'.vm pgd s'.bytes b g F₀ (free L')
        ((loadsFrom b addr i (ePhnum b addr - i)).foldl (fun V h => segContent b addr h V) V)) ∧
      ∀ d, (∀ a, a ∉ F₀ → d a = c a) →
        ∃ d', loadSegments fuel addr pgd k i ⟨v, d⟩ lim = some (⟨s'.vm, d'⟩, lim', maps) := by
  induction k generalizing v l L c V i lim maps with
  | zero => simp [loadSegments] at hs
  | succ k ih =>
    have hsame := hsh.same him
    rw [loadSegments] at hs
    simp only [him.phnum_same hsame] at hs
    by_cases hlt : i < ePhnum b addr
    swap
    · rw [if_neg hlt] at hs
      simp only [Option.some.injEq, Prod.mk.injEq] at hs
      obtain ⟨rfl, rfl, rfl⟩ := hs
      have hnil : loadsFrom b addr i (ePhnum b addr - i) = [] := by
        rw [show ePhnum b addr - i = 0 by omega]
        rfl
      rw [hnil]
      refine ⟨⟨rfl, l, L, hok, hF, hsh⟩, fun d hd => ⟨d, ?_⟩⟩
      have hsame' : Same b d addr size := fun k h1 h2 =>
        (hd k (him.reserved k h1 h2)).trans (hsame k h1 h2)
      rw [loadSegments]
      simp only [him.phnum_same hsame']
      rw [if_neg hlt]
    rw [if_pos hlt] at hs
    simp only [him.phdr_same hsame hlt] at hs
    obtain ⟨⟨⟨v₁, c₁⟩, lim₁, m₁⟩, hx, hs⟩ := Option.bind_eq_some_iff.mp hs
    obtain ⟨⟨s₂, lim₂, maps₂⟩, hy, hs⟩ := Option.map_eq_some_iff.mp hs
    obtain ⟨rfl, rfl, rfl⟩ : s₂ = s' ∧ lim₂ = lim' ∧
        (phdr b addr i, m₁) :: maps₂ = maps := by simpa using hs
    obtain ⟨n, hn⟩ : ∃ n, ePhnum b addr - i = n + 1 := ⟨ePhnum b addr - i - 1, by omega⟩
    have hn' : ePhnum b addr - (i + 1) = n := by omega
    have hmem (ht : (phdr b addr i).pType = 1) : phdr b addr i ∈ loads b addr :=
      List.mem_filter.mpr ⟨List.mem_map_of_mem (List.mem_range.mpr hlt), decide_eq_true ht⟩
    -- the same turn on another memory
    have htwin (d : Nat → UInt8) (hd : ∀ a, a ∉ F₀ → d a = c a)
        (hrest : ∀ d₁, (∀ a, a ∉ F₀ → d₁ a = c₁ a) → ∃ d', loadSegments fuel addr pgd k (i + 1)
          ⟨v₁, d₁⟩ (min lim.1 lim₁.1, max lim.2 lim₁.2) = some (⟨s₂.vm, d'⟩, lim₂, maps₂)) :
        ∃ d', loadSegments fuel addr pgd (k + 1) i ⟨v, d⟩ lim =
          some (⟨s₂.vm, d'⟩, lim₂, (phdr b addr i, m₁) :: maps₂) := by
      have hsame' : Same b d addr size := fun k h1 h2 =>
        (hd k (him.reserved k h1 h2)).trans (hsame k h1 h2)
      obtain ⟨d₁, hd₁, hagree⟩ := loadProgram_twin him (fun ht => (hloads _ (hmem ht)).file) hd hx
      obtain ⟨d', hd'⟩ := hrest d₁ hagree
      refine ⟨d', ?_⟩
      rw [loadSegments]
      simp only [him.phnum_same hsame']
      rw [if_pos hlt]
      simp only [him.phdr_same hsame' hlt, hd₁, Option.bind_some, hd', Option.map_some]
    have hmaps : AllServed maps₂ := fun x hx => hm x (List.mem_cons_of_mem _ hx)
    by_cases ht : (phdr b addr i).pType = 1
    · have hfrom : loadsFrom b addr i (ePhnum b addr - i) = phdr b addr i ::
          loadsFrom b addr (i + 1) (ePhnum b addr - (i + 1)) := by
        rw [hn, hn', loadsFrom_succ, if_pos ht]
      obtain ⟨rfl, l₁, L₁, hok₁, hF₁, hsh₁⟩ := loadProgram_shows hsh hok hF h0 him ht
        (hloads _ (hmem ht)) (hm (phdr b addr i, m₁) List.mem_cons_self ht) hx
      have hlims : (min lim.1 (phdr b addr i).pVaddr,
          max lim.2 ((phdr b addr i).pVaddr + (phdr b addr i).pMemsz)) =
            limits lim (phdr b addr i) := rfl
      simp only [hlims] at hy htwin
      obtain ⟨hend, hrest⟩ := ih hsh₁ hok₁ hF₁ (by omega)
        (lt_of_le_of_lt (Nat.min_le_left _ _) hlim) hmaps hy
      rw [hfrom, List.foldl_cons, List.foldl_cons]
      exact ⟨hend, fun d hd => htwin d hd hrest⟩
    · have hfrom : loadsFrom b addr i (ePhnum b addr - i) =
          loadsFrom b addr (i + 1) (ePhnum b addr - (i + 1)) := by
        rw [hn, hn', loadsFrom_succ, if_neg ht]
      rw [loadProgram, if_pos ht] at hx
      simp only [Option.some.injEq, Prod.mk.injEq, LoadMem.mk.injEq] at hx
      obtain ⟨⟨rfl, rfl⟩, rfl, rfl⟩ := hx
      have hsame : (min lim.1 (2 ^ 64 - 1), max lim.2 0) = lim := by
        rw [Nat.min_eq_left (by omega), Nat.max_zero]
      simp only [hsame] at hy htwin
      obtain ⟨hend, hrest⟩ := ih hsh hok hF (by omega) hlim hmaps hy
      rw [hfrom]
      exact ⟨hend, fun d hd => htwin d hd hrest⟩

end Vm

end TayHuang
