import TayHuang.PageSharing

/-! The flags of a page. They are written where an entry is new, so on every level they are
those of the first turn that came there. -/

namespace TayHuang

namespace Vm

open Fuel Radix Tilings

variable {v v' : VMem} {l : List Seg} {L : Nat → List (Nat × Nat)} {R : List Nat}
  {fuel pgd va pa n i : Nat} {rw us ok : Bool} {m : List (Nat × Nat)}

/-- A call of `set_mapping`. -/
structure Call where
  vaddr : Nat
  paddr : Nat
  pages : Int
  rw : Bool
  us : Bool

/-- A turn of a call, with the number of levels whose entry it found or made. -/
structure Turn where
  vaddr : Nat
  rw : Bool
  us : Bool
  depth : Nat

/-- The levels that `__set_mapping` comes to, from the table `t` on. -/
def levels (fuel : Nat) (rw us : Bool) : List Nat → VMem → Nat → Nat
  | [], _, _ => 1
  | i :: q, v, t =>
    match enterTable fuel v t i rw us with
    | some r => if r.2 = 0 then 1 else levels fuel rw us q r.1 r.2 + 1
    | none => 0

/-- The turns of a call of `set_mapping`. -/
def turns (fuel pgd pa : Nat) (rw us : Bool) (va : Nat) : Nat → Nat → VMem → List Turn
  | 0, _, _ => []
  | n + 1, i, v =>
    match __setMapping fuel v pgd (pageAt va i) (pageAt pa i) rw us with
    | none => []
    | some r => ⟨pageAt va i, rw, us, levels fuel rw us (upper (pageAt va i)) v pgd⟩ ::
        if r.2 then turns fuel pgd pa rw us va n (i + 1) r.1 else []

/-- A sequence of calls, with their turns. -/
def setMappings (fuel pgd : Nat) : VMem → List Call → Option (VMem × List Turn)
  | v, [] => some (v, [])
  | v, c :: cs =>
    (setMapping fuel v pgd c.vaddr c.paddr c.pages c.rw c.us).bind fun r =>
      (setMappings fuel pgd r.1 cs).map fun s => (s.1,
        turns fuel pgd c.paddr c.rw c.us (c.vaddr / 4096 * 4096) c.pages.toNat 0 v ++ s.2)

def Turn.flags (t : Turn) : Bool × Bool := (t.rw, t.us)

/-- Both have to allow it. -/
def both : Option (Bool × Bool) → Option (Bool × Bool) → Option (Bool × Bool)
  | some f, some g => some (f.1 && g.1, f.2 && g.2)
  | _, _ => none

def entryFlags (e : PageEntry) : Option (Bool × Bool) := if e.p then some (e.rw, e.us) else none

/-- The permission of an address: what its four entries allow. -/
def permission (s : PTMem) (pgd a : Nat) : Option (Bool × Bool) :=
  let pml4e := s.entry pgd (pml4eIdx a)
  let pdpte := s.entry (ofField pml4e.address) (pdpteIdx a)
  let pde := s.entry (ofField pdpte.address) (pdeIdx a)
  let pte := s.entry (ofField pde.address) (pteIdx a)
  both (entryFlags pml4e) (both (entryFlags pdpte) (both (entryFlags pde) (entryFlags pte)))

/-- The places of the four entries of an address. -/
def places (pgd a : Nat) : List (List Nat × Nat) :=
  [([pgd], pml4eIdx a), ([pgd, pml4eIdx a], pdpteIdx a),
    ([pgd, pml4eIdx a, pdpteIdx a], pdeIdx a), (pgd :: upper a, pteIdx a)]

/-- The flags of the first turn that comes to a place. -/
def firstAt (pgd : Nat) (H : List Turn) (x : List Nat × Nat) : Option (Bool × Bool) :=
  (H.find? fun t => decide (x ∈ (places pgd t.vaddr).take t.depth)).map Turn.flags

/-- The flags of the first turns at the four places of an address, taken together. -/
def firstFlags (pgd : Nat) (H : List Turn) (a : Nat) : Option (Bool × Bool) :=
  both (firstAt pgd H ([pgd], pml4eIdx a)) (both (firstAt pgd H ([pgd, pml4eIdx a], pdpteIdx a))
    (both (firstAt pgd H ([pgd, pml4eIdx a, pdpteIdx a], pdeIdx a))
      (firstAt pgd H (pgd :: upper a, pteIdx a))))

/-- The flags of the last turn that mapped the page. -/
def lastFlags (H : List Turn) (a : Nat) : Option (Bool × Bool) :=
  (H.reverse.find? fun t => decide (4 ≤ t.depth ∧ page t.vaddr = page a)).map Turn.flags

/-! ### One turn -/

theorem or_ite {P Q : Prop} [Decidable P] [Decidable Q] (f : Bool × Bool) :
    (if P then some f else none).or (if Q then some f else none) = if P ∨ Q then some f else none := by
  by_cases hP : P <;> by_cases hQ : Q <;> simp [hP, hQ]

/-- A turn writes its flags where there were none, on the levels that it comes to. -/
theorem setMapping_flags (h : DirsOk v l L R) (hpgd : pgd ∈ R)
    (hs : __setMapping fuel v pgd va pa rw us = some (v', ok)) {p : List Nat} (hp : p.length ≤ 4)
    (j : Nat) :
    (flagsAt R v'.entry p j = (flagsAt R v.entry p j).or
        (if (p, j) ∈ (places pgd va).take (levels fuel rw us (upper va) v pgd) then some (rw, us)
          else none)) ∧
      (ok = true ↔ levels fuel rw us (upper va) v pgd = 4) := by
  simp only [__setMapping] at hs
  obtain ⟨⟨v₁, r₁⟩, hx₁, hs⟩ := Option.bind_eq_some_iff.mp hs
  obtain ⟨⟨l₁, L₁, ok₁, -⟩, he₁⟩ := enterTable_entered h (descend_root hpgd) (by simp) hx₁
  have hf₁ := he₁.flags p j hp
  simp only [upper, levels, hx₁]
  by_cases h0₁ : r₁ = 0
  · obtain ⟨rfl, rfl⟩ : v₁ = v' ∧ false = ok := by simpa [h0₁] using hs
    simp [h0₁, hf₁, places]
  simp only [if_neg h0₁] at hs ⊢
  obtain ⟨⟨v₂, r₂⟩, hx₂, hs⟩ := Option.bind_eq_some_iff.mp hs
  obtain ⟨⟨l₂, L₂, ok₂, -⟩, he₂⟩ := enterTable_entered ok₁ (he₁.table h0₁) (by simp) hx₂
  have hf₂ := he₂.flags p j hp
  rw [hf₁, Option.or_assoc, or_ite] at hf₂
  simp only [hx₂]
  by_cases h0₂ : r₂ = 0
  · obtain ⟨rfl, rfl⟩ : v₂ = v' ∧ false = ok := by simpa [h0₂] using hs
    simp [h0₂, hf₂, places]
  simp only [if_neg h0₂] at hs ⊢
  obtain ⟨⟨v₃, r₃⟩, hx₃, hs⟩ := Option.map_eq_some_iff.mp hs
  obtain ⟨⟨l₃, L₃, ok₃, -⟩, he₃⟩ := enterTable_entered ok₂ (he₂.table h0₂) (by simp) hx₃
  have hf₃ := he₃.flags p j hp
  rw [hf₂, Option.or_assoc, or_ite] at hf₃
  simp only [hx₃]
  by_cases h0₃ : r₃ = 0
  · obtain ⟨rfl, rfl⟩ : v₃ = v' ∧ false = ok := by simpa [h0₃] using hs
    simp [h0₃, hf₃, places, or_assoc]
  obtain ⟨rfl, rfl⟩ : setPte v₃ r₃ (pteIdx va) pa rw us = v' ∧ true = ok := by
    simpa [h0₃] using hs
  have hf₄ := flags_setPte pa (pteIdx va) rw us ok₃ (he₃.table h0₃) hp j
  rw [hf₃, Option.or_assoc, or_ite] at hf₄
  simp [h0₃, hf₄, places, upper, or_assoc]

/-! ### All turns -/

theorem firstAt_append (pgd : Nat) (H H' : List Turn) (x : List Nat × Nat) :
    firstAt pgd (H ++ H') x = (firstAt pgd H x).or (firstAt pgd H' x) := by
  rw [firstAt, firstAt, firstAt, List.find?_append]
  cases H.find? fun t => decide (x ∈ (places pgd t.vaddr).take t.depth) <;> rfl

theorem firstAt_cons (pgd : Nat) (t : Turn) (H : List Turn) (x : List Nat × Nat) :
    firstAt pgd (t :: H) x =
      (if x ∈ (places pgd t.vaddr).take t.depth then some (t.rw, t.us) else none).or
        (firstAt pgd H x) := by
  rw [← List.singleton_append, firstAt_append]
  congr 1
  by_cases hx : x ∈ (places pgd t.vaddr).take t.depth <;> simp [firstAt, hx, Turn.flags]

/-- The flags at a place are those from before, else those of the first turn there. -/
theorem turns_flags (h : DirsOk v l L R) (hpgd : pgd ∈ R)
    (hs : mapPages fuel pgd (fun _ i => pageAt pa i) rw us va n i v = some (v', ok, m)) :
    (∃ l' L', DirsOk v' l' L' R) ∧ ∀ p j, p.length ≤ 4 →
      flagsAt R v'.entry p j =
        (flagsAt R v.entry p j).or (firstAt pgd (turns fuel pgd pa rw us va n i v) (p, j)) := by
  replace hs := mapPages_iff.mp hs
  induction hs generalizing l L with
  | done => exact ⟨⟨l, L, h⟩, fun p j _ => by simp [turns, firstAt]⟩
  | turn hx hrest ih =>
    obtain ⟨⟨l₁, L₁, h₁, -⟩, -⟩ := setMapping_translation h hpgd hx
    obtain ⟨hok, hlater⟩ := ih h₁
    refine ⟨hok, fun p j hp => ?_⟩
    rw [hlater p j hp, (setMapping_flags h hpgd hx hp j).1, turns, hx]
    simp only [if_true]
    rw [firstAt_cons, Option.or_assoc]
  | stuck hx =>
    obtain ⟨⟨l₁, L₁, h₁, -⟩, -⟩ := setMapping_translation h hpgd hx
    refine ⟨⟨l₁, L₁, h₁⟩, fun p j hp => ?_⟩
    rw [(setMapping_flags h hpgd hx hp j).1, turns, hx]
    simp only [Bool.false_eq_true, if_false]
    rw [firstAt_cons]
    simp [firstAt]

theorem setMappings_flags {cs : List Call} {H : List Turn} (h : DirsOk v l L R) (hpgd : pgd ∈ R)
    (hs : setMappings fuel pgd v cs = some (v', H)) :
    (∃ l' L', DirsOk v' l' L' R) ∧ ∀ p j, p.length ≤ 4 →
      flagsAt R v'.entry p j = (flagsAt R v.entry p j).or (firstAt pgd H (p, j)) := by
  induction cs generalizing v l L H with
  | nil =>
    obtain ⟨rfl, rfl⟩ : v = v' ∧ [] = H := by simpa [setMappings] using hs
    exact ⟨⟨l, L, h⟩, fun p j _ => by simp [firstAt]⟩
  | cons c cs ih =>
    rw [setMappings] at hs
    obtain ⟨⟨v₁, ok₁, m₁⟩, hx, hs⟩ := Option.bind_eq_some_iff.mp hs
    obtain ⟨⟨v₂, H₂⟩, hy, hs⟩ := Option.map_eq_some_iff.mp hs
    obtain ⟨rfl, rfl⟩ := Prod.mk.inj hs
    obtain ⟨⟨l₁, L₁, h₁⟩, hfirst⟩ := turns_flags h hpgd hx
    obtain ⟨hok, hrest⟩ := ih h₁ hy
    refine ⟨hok, fun p j hp => ?_⟩
    rw [hrest p j hp, hfirst p j hp, firstAt_append, Option.or_assoc]

/-! ### The permission of a page -/

theorem walk_upper {e : Nat → Nat → PageEntry} {a pt : Nat} (hpgd : pgd ∈ R)
    (hw : walk (descend R e) none (pgd :: upper a) = some (some pt)) :
    ∃ pdpt pd, below e pgd (pml4eIdx a) = some pdpt ∧ below e pdpt (pdpteIdx a) = some pd ∧
      below e pd (pdeIdx a) = some pt := by
  simp only [upper, walk, descend, if_pos hpgd, Option.bind_some] at hw
  obtain ⟨_, hx, hw⟩ := Option.bind_eq_some_iff.mp hw
  obtain ⟨pdpt, h₁, rfl⟩ := Option.map_eq_some_iff.mp hx
  obtain ⟨_, hx, hw⟩ := Option.bind_eq_some_iff.mp hw
  obtain ⟨pd, h₂, rfl⟩ := Option.map_eq_some_iff.mp hx
  obtain ⟨_, hx, hw⟩ := Option.bind_eq_some_iff.mp hw
  obtain ⟨pt', h₃, rfl⟩ := Option.map_eq_some_iff.mp hx
  obtain rfl := Option.some.inj (Option.some.inj hw)
  exact ⟨pdpt, pd, h₁, h₂, h₃⟩

theorem below_some {e : Nat → Nat → PageEntry} {t i u : Nat} (h : below e t i = some u) :
    (e t i).p = true ∧ ofField (e t i).address = u := by
  rw [below] at h
  split at h
  · next hp => exact ⟨hp.1, Option.some.inj h⟩
  · simp at h

/-- A page is mapped when its four entries are there, and then they are at its places. -/
theorem permission_eq {a : Nat} (h : DirsOk v l L R) (hpgd : pgd ∈ R)
    (hmap : translation v.tables pgd a ≠ none) :
    permission v.tables pgd a = both (flagsAt R v.entry [pgd] (pml4eIdx a))
      (both (flagsAt R v.entry [pgd, pml4eIdx a] (pdpteIdx a))
        (both (flagsAt R v.entry [pgd, pml4eIdx a, pdpteIdx a] (pdeIdx a))
          (flagsAt R v.entry (pgd :: upper a) (pteIdx a)))) := by
  rw [translation_eq (s := v.tables) h.nulled hpgd] at hmap
  change (walk (descend R v.entry) none (pgd :: upper a)).bind (leaf v.entry a) ≠ none at hmap
  obtain ⟨f, hf⟩ := Option.ne_none_iff_exists'.mp hmap
  obtain ⟨x, hw, hleaf⟩ := Option.bind_eq_some_iff.mp hf
  obtain ⟨pt, rfl, -⟩ := Option.bind_eq_some_iff.mp hleaf
  obtain ⟨pdpt, pd, h₁, h₂, h₃⟩ := walk_upper hpgd hw
  obtain ⟨-, ha₁⟩ := below_some h₁
  obtain ⟨-, ha₂⟩ := below_some h₂
  obtain ⟨-, ha₃⟩ := below_some h₃
  have hw₁ : walk (descend R v.entry) none [pgd, pml4eIdx a] = some (some pdpt) := by
    simp [walk, descend, hpgd, h₁]
  have hw₂ : walk (descend R v.entry) none [pgd, pml4eIdx a, pdpteIdx a] = some (some pd) := by
    simp [walk, descend, hpgd, h₁, h₂]
  simp only [flagsAt, hw, hw₁, hw₂, descend_root hpgd, Option.bind_some]
  simp only [permission, VMem.tables, ha₁, ha₂, ha₃]
  rfl

theorem mapped_iff {a : Nat} (h : DirsOk v l L R) (hpgd : pgd ∈ R) :
    translation v.tables pgd a ≠ none ↔ flagsAt R v.entry (pgd :: upper a) (pteIdx a) ≠ none := by
  rw [translation_eq (s := v.tables) h.nulled hpgd, flagsAt]
  change (walk (descend R v.entry) none (pgd :: upper a)).bind (leaf v.entry a) ≠ none ↔ _
  cases walk (descend R v.entry) none (pgd :: upper a) with
  | none => simp
  | some x =>
    cases x with
    | none => simp [leaf]
    | some pt => cases hp : (v.entry pt (pteIdx a)).p <;> simp [leaf, hp]

/-! ### A directory from the start -/

theorem flagsAt_fresh {e : Nat → Nat → PageEntry} (hpgd : pgd ∈ R) (h : ∀ i, (e pgd i).p = false)
    (q : List Nat) (j : Nat) : flagsAt R e (pgd :: q) j = none := by
  cases q with
  | nil => simp [flagsAt, descend_root hpgd, h j]
  | cons i q => simp [flagsAt, walk, descend, hpgd, below, h i]

theorem mem_places {t : Turn} {a : Nat} :
    (pgd :: upper a, pteIdx a) ∈ (places pgd t.vaddr).take t.depth ↔
      4 ≤ t.depth ∧ page t.vaddr = page a := by
  have hpage : page t.vaddr = page a ↔ upper a = upper t.vaddr ∧ pteIdx a = pteIdx t.vaddr := by
    rw [eq_comm, page_eq_iff]
  rw [hpage]
  rcases t with ⟨b, r, u, _ | _ | _ | _ | d⟩ <;> simp [places, upper]

theorem lastFlags_ne_none {H : List Turn} {a : Nat} :
    lastFlags H a ≠ none ↔ firstAt pgd H (pgd :: upper a, pteIdx a) ≠ none := by
  rw [lastFlags, firstAt, ne_eq, Option.map_eq_none_iff, List.find?_eq_none, ne_eq,
    Option.map_eq_none_iff, List.find?_eq_none]
  simp only [List.mem_reverse, decide_eq_true_eq, mem_places]

/-- After any calls on a directory that had no tables, every page that is mapped has the
flags of the last call that mapped it if and only if, for every such page, those are the
flags of the first turns on its four levels, taken together. -/
theorem permissions_exact {cs : List Call} {H : List Turn} (h : DirsOk v l L R) (hpgd : pgd ∈ R)
    (hfresh : ∀ i, (v.entry pgd i).p = false) (hs : setMappings fuel pgd v cs = some (v', H)) :
    (∀ a, translation v'.tables pgd a ≠ none → permission v'.tables pgd a = lastFlags H a) ↔
      ∀ a, lastFlags H a ≠ none → firstFlags pgd H a = lastFlags H a := by
  obtain ⟨⟨l', L', h'⟩, hflags⟩ := setMappings_flags h hpgd hs
  have hfirst (q : List Nat) (j : Nat) (hq : q.length ≤ 3) :
      flagsAt R v'.entry (pgd :: q) j = firstAt pgd H (pgd :: q, j) := by
    rw [hflags _ j (by rw [List.length_cons]; omega), flagsAt_fresh hpgd hfresh, Option.none_or]
  have hmapped (a : Nat) : translation v'.tables pgd a ≠ none ↔ lastFlags H a ≠ none := by
    rw [mapped_iff h' hpgd, hfirst _ _ (by simp [upper]), lastFlags_ne_none]
  have hperm (a : Nat) (hm : translation v'.tables pgd a ≠ none) :
      permission v'.tables pgd a = firstFlags pgd H a := by
    rw [permission_eq h' hpgd hm, hfirst _ _ (by simp), hfirst _ _ (by simp), hfirst _ _ (by simp),
      hfirst _ _ (by simp [upper])]
    rfl
  constructor
  · intro hall a ha
    have hm := (hmapped a).mpr ha
    rw [← hperm a hm, hall a hm]
  · intro hall a hm
    rw [hperm a hm, hall a ((hmapped a).mp hm)]

/-- Two pages of one table, the second also for user code. -/
def twoPages : List Call :=
  [⟨0x400000, 0x800000, 1, true, false⟩, ⟨0x401000, 0x801000, 1, true, true⟩]

theorem permissions_exact_two : ∃ v' H, setMappings 40 0x1000 eightPages twoPages = some (v', H) ∧
    ((∀ a, translation v'.tables 0x1000 a ≠ none → permission v'.tables 0x1000 a = lastFlags H a) ↔
      ∀ a, lastFlags H a ≠ none → firstFlags 0x1000 H a = lastFlags H a) := by
  obtain ⟨⟨v', H⟩, hr⟩ := Option.isSome_iff_exists.mp
    (show (setMappings 40 0x1000 eightPages twoPages).isSome by decide +kernel)
  exact ⟨v', H, hr, permissions_exact (eightPages_dirs (R := [0x1000]) (by simp)) (by simp)
    (fun _ => rfl) hr⟩

/-- The second page is not for user code: its upper entries have the flags of the first. -/
theorem permissions_shared : ∃ v l L pgd fuel cs v' H, DirsOk v l L [pgd] ∧
    (∀ i, (v.entry pgd i).p = false) ∧ setMappings fuel pgd v cs = some (v', H) ∧
    ¬ ∀ a, translation v'.tables pgd a ≠ none → permission v'.tables pgd a = lastFlags H a := by
  have hrun : (setMappings 40 0x1000 eightPages twoPages).map
      (fun r => decide (translation r.1.tables 0x1000 0x401000 ≠ none ∧
        permission r.1.tables 0x1000 0x401000 = some (true, false) ∧
          lastFlags r.2 0x401000 = some (true, true))) = some true := by
    decide +kernel
  obtain ⟨⟨v', H⟩, hr, hd⟩ := Option.map_eq_some_iff.mp hrun
  obtain ⟨hm, hperm, hlast⟩ := of_decide_eq_true hd
  refine ⟨eightPages, _, roomyLists, 0x1000, 40, twoPages, v', H, eightPages_dirs (by simp),
    fun _ => rfl, hr, fun hall => ?_⟩
  have hbad := (hperm.symm.trans (hall _ hm)).trans hlast
  simp at hbad

end Vm

end TayHuang
