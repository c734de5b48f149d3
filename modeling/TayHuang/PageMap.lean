import TayHuang.Paging
import TayHuang.Radix

/-! The page tables refine a finite map from pages to addresses. -/

namespace TayHuang

open Function (update)
open Radix

/-- The table below an entry of one of the upper levels. -/
def child (s : PTMem) (table idx : Nat) : Option Nat :=
  if (s.entry table idx).p then some (ofField (s.entry table idx).address) else none

/-- The indices that lead to the last table. -/
def upper (v : Nat) : List Nat := [pml4eIdx v, pdpteIdx v, pdeIdx v]

/-- Bits 12 to 47. -/
def page (v : Nat) : Nat := v / 2 ^ 12 % 2 ^ 36

/-- A frame that `alloc_pages` may hand out as a table. -/
def FrameOk (f : Nat) : Prop := f ≠ 0 ∧ f < 2 ^ 39 ∧ 2 ^ 12 ∣ f

/-- The tables of `pgd` are a tree, and the frames still to be handed out are no
tables. -/
structure PTOk (s : PTMem) (pgd : Nat) : Prop where
  tree : IsTree (child s) pgd 3
  unused : ∀ f ∈ s.frames, Unreached (child s) pgd 3 f
  nodup : s.frames.Nodup
  frames : ∀ f ∈ s.frames, FrameOk f

variable {s : PTMem} {pgd : Nat}

theorem ofField_toField {p : Nat} (h : p < 2 ^ 39) :
    ofField (toField p) = p / 2 ^ 12 * 2 ^ 12 := by
  unfold ofField toField
  omega

theorem FrameOk.ofField_toField {f : Nat} (h : FrameOk f) : ofField (toField f) = f := by
  obtain ⟨-, h1, h2⟩ := h
  rw [TayHuang.ofField_toField h1]
  omega

theorem page_eq_iff {v a : Nat} : page v = page a ↔ upper v = upper a ∧ pteIdx v = pteIdx a := by
  simp only [upper, page, pml4eIdx, pdpteIdx, pdeIdx, pteIdx, List.cons.injEq, and_true]
  omega

theorem getPhysicalAddress_eq (s : PTMem) (pgd a : Nat) : getPhysicalAddress s pgd a =
    match walk (child s) pgd (upper a) with
    | none => 0
    | some pt =>
      if (s.entry pt (pteIdx a)).p = false then 0
      else ofField (s.entry pt (pteIdx a)).address + a % 2 ^ 12 := by
  simp only [getPhysicalAddress, upper, walk, child]
  by_cases h1 : (s.entry pgd (pml4eIdx a)).p
  · simp only [h1, if_true, Option.bind_some]
    by_cases h2 : (s.entry (ofField (s.entry pgd (pml4eIdx a)).address) (pdpteIdx a)).p
    · simp only [h2, if_true, Option.bind_some]
      by_cases h3 : (s.entry (ofField (s.entry (ofField (s.entry pgd (pml4eIdx a)).address)
          (pdpteIdx a)).address) (pdeIdx a)).p
      · simp [h3]
      · simp [h3]
    · simp [h2]
  · simp [h1]

/-! ### The upper levels -/

section Enter

variable {p : List Nat} {t i : Nat} {rw us : Bool}

/-- What is written when the frame `f` comes back for the new table. -/
theorem enterTable_new (rw us : Bool) {f : Nat} {fs : List Nat} (hf : s.frames = f :: fs) (hft : f ≠ t)
    (hp : (s.entry t i).p = false) (hback : ofField (toField f) = f) :
    (enterTable s t i rw us).2 = f ∧ (enterTable s t i rw us).1.frames = fs ∧
      child (enterTable s t i rw us).1 t i = some f ∧
      (∀ j, (enterTable s t i rw us).1.entry f j = .zero) ∧
      ∀ u j, u ≠ f → ¬ (u = t ∧ j = i) →
        (enterTable s t i rw us).1.entry u j = s.entry u j := by
  have hframes : ∀ e, (setEntry s t i e).frames = f :: fs := fun e => hf
  simp only [enterTable, hp, if_true, getFreePage, allocFrame, hframes]
  refine ⟨by simp [setEntry, hback], by simp [setEntry], ?_, ?_, ?_⟩
  · simp [child, setEntry, hft.symm, hback]
  · intro j
    simp [setEntry, hft]
  · intro u j huf hut
    by_cases hu : u = t
    · subst hu
      have hji : j ≠ i := fun he => hut ⟨rfl, he⟩
      simp [setEntry, hji, huf]
    · simp [setEntry, hu, huf]

/-- A frame that is no table becomes one: an empty one, and nothing is translated
otherwise. -/
theorem enterTable_link (rw us : Bool) {f : Nat} {fs : List Nat} (htree : IsTree (child s) pgd 3)
    (hp : walk (child s) pgd p = some t) (hd : p.length < 3) (hpres : (s.entry t i).p = false)
    (hf : s.frames = f :: fs) (hfresh : Unreached (child s) pgd 3 f)
    (hback : ofField (toField f) = f) :
    (enterTable s t i rw us).2 = f ∧ (enterTable s t i rw us).1.frames = fs ∧
      IsTree (child (enterTable s t i rw us).1) pgd 3 ∧
      (∀ g, g ≠ f → Unreached (child s) pgd 3 g →
        Unreached (child (enterTable s t i rw us).1) pgd 3 g) ∧
      walk (child (enterTable s t i rw us).1) pgd (p ++ [i]) = some f ∧
      ∀ a, getPhysicalAddress (enterTable s t i rw us).1 pgd a = getPhysicalAddress s pgd a := by
  have hft : f ≠ t := fun he => hfresh p (by omega) (he ▸ hp)
  obtain ⟨hr, hfs, hlink, hzero, hother⟩ := enterTable_new rw us hf hft hpres hback
  have habsent : child s t i = none := by simp [child, hpres]
  have hempty : ∀ j, child (enterTable s t i rw us).1 f j = none := by
    intro j
    simp [child, hzero j, PageEntry.zero]
  have hchild : ∀ u j, u ≠ f → ¬ (u = t ∧ j = i) →
      child (enterTable s t i rw us).1 u j = child s u j := by
    intro u j huf hut
    simp [child, hother u j huf hut]
  have hwalk := fun {q : List Nat} (hq : q.length ≤ 3) =>
    walk_link htree hp hd habsent hfresh hlink hempty hchild hq
  refine ⟨hr, hfs, htree.link hp hd habsent hfresh hlink hempty hchild, ?_, ?_, ?_⟩
  · exact fun g hgf hg => Unreached.link htree hp hd habsent hfresh hlink hempty hchild hg hgf
  · exact (hwalk (by rw [List.length_append, List.length_singleton]; omega)).1 rfl
  · intro a
    rw [getPhysicalAddress_eq, getPhysicalAddress_eq]
    by_cases ha : upper a = p ++ [i]
    · have hnone : walk (child s) pgd (upper a) = none := by
        rw [ha, walk_concat, hp]
        exact habsent
      rw [(hwalk (q := upper a) (Nat.le_refl _)).1 ha, hnone]
      simp [hzero, PageEntry.zero]
    · rw [(hwalk (q := upper a) (Nat.le_refl _)).2 ha]
      cases hu : walk (child s) pgd (upper a) with
      | none => rfl
      | some u =>
        have huf : u ≠ f := fun he => hfresh (upper a) (Nat.le_refl _) (he ▸ hu)
        have hut : u ≠ t := by
          rintro rfl
          have := htree (upper a) p u (Nat.le_refl _) (by omega) hu hp
          rw [← this] at hd
          simp [upper] at hd
        simp only [hother u _ huf fun hc => hut hc.1]

theorem enterTable_present {rw us : Bool} (hpres : (s.entry t i).p = true) :
    enterTable s t i rw us = (s, ofField (s.entry t i).address) := by
  simp [enterTable, hpres]

theorem walk_present (hp : walk (child s) pgd p = some t) (hpres : (s.entry t i).p = true) :
    walk (child s) pgd (p ++ [i]) = some (ofField (s.entry t i).address) := by
  rw [walk_concat, hp]
  simp [child, hpres]

theorem enterTable_spec (h : PTOk s pgd) (hp : walk (child s) pgd p = some t) (hd : p.length < 3)
    (h0 : (enterTable s t i rw us).2 ≠ 0) : PTOk (enterTable s t i rw us).1 pgd ∧
      walk (child (enterTable s t i rw us).1) pgd (p ++ [i]) = some (enterTable s t i rw us).2 ∧
      ∀ a, getPhysicalAddress (enterTable s t i rw us).1 pgd a = getPhysicalAddress s pgd a := by
  cases hpres : (s.entry t i).p with
  | true =>
    rw [enterTable_present hpres]
    exact ⟨h, walk_present hp hpres, fun _ => rfl⟩
  | false =>
    cases hf : s.frames with
    | nil =>
      -- no frame: the table below is NULL
      refine absurd ?_ h0
      simp [enterTable, hpres, getFreePage, allocFrame, hf, setEntry, toField, ofField]
    | cons f fs =>
      have hmem : f ∈ s.frames := by simp [hf]
      have hnodup := h.nodup
      rw [hf, List.nodup_cons] at hnodup
      obtain ⟨hr, hfs, htree, hunused, hwalk, hget⟩ := enterTable_link rw us h.tree hp hd hpres hf
        (h.unused f hmem) (h.frames f hmem).ofField_toField
      refine ⟨⟨htree, ?_, ?_, ?_⟩, by rw [hr, hwalk], hget⟩
      · intro g hg
        rw [hfs] at hg
        exact hunused g (fun he => hnodup.1 (he ▸ hg)) (h.unused g (by simp [hf, hg]))
      · rw [hfs]
        exact hnodup.2
      · intro g hg
        rw [hfs] at hg
        exact h.frames g (by simp [hf, hg])

end Enter

/-! ### The last level -/

section Leaf

variable {pt i p v : Nat} {rw us : Bool}

theorem setPte_entry (s : PTMem) (pt i p : Nat) (rw us : Bool) : (setPte s pt i p rw us).entry pt i =
      { (setPte s pt i p rw us).entry pt i with p := true, address := toField p } ∧
    (∀ u j, ¬ (u = pt ∧ j = i) → (setPte s pt i p rw us).entry u j = s.entry u j) ∧
    (setPte s pt i p rw us).frames = s.frames := by
  unfold setPte
  by_cases hp : (s.entry pt i).p = false
  · simp only [hp, if_true]
    refine ⟨by simp [setEntry], fun u j hu => ?_, rfl⟩
    by_cases hup : u = pt
    · subst hup
      have hji : j ≠ i := fun he => hu ⟨rfl, he⟩
      simp [setEntry, hji]
    · simp [setEntry, hup]
  · simp only [hp]
    have hp' : (s.entry pt i).p = true := by simpa using hp
    refine ⟨by simp [setEntry, hp'], fun u j hu => ?_, rfl⟩
    by_cases hup : u = pt
    · subst hup
      have hji : j ≠ i := fun he => hu ⟨rfl, he⟩
      simp [setEntry, hji]
    · simp [setEntry, hup]

theorem setPte_walk (htree : IsTree (child s) pgd 3) (hw : walk (child s) pgd (upper v) = some pt)
    {q : List Nat} (hq : q.length ≤ 3) :
    walk (child (setPte s pt i p rw us)) pgd q = walk (child s) pgd q := by
  have hchild : ∀ u j, u ≠ pt → child (setPte s pt i p rw us) u j = child s u j := by
    intro u j hu
    simp [child, (setPte_entry s pt i p rw us).2.1 u j fun hc => hu hc.1]
  exact walk_congr_leaf htree hw rfl hchild hq

/-- Writing the entry of a page changes the translation of this page only. -/
theorem setPte_spec (rw us : Bool) (h : PTOk s pgd) (hw : walk (child s) pgd (upper v) = some pt)
    (hp : p < 2 ^ 39) : PTOk (setPte s pt (pteIdx v) p rw us) pgd ∧
      ∀ a, getPhysicalAddress (setPte s pt (pteIdx v) p rw us) pgd a =
        if page a = page v then p / 2 ^ 12 * 2 ^ 12 + a % 2 ^ 12
        else getPhysicalAddress s pgd a := by
  obtain ⟨hset, hother, hframes⟩ :=
    setPte_entry s pt (pteIdx v) p rw us
  have hwalk : ∀ {q : List Nat}, q.length ≤ 3 →
      walk (child (setPte s pt (pteIdx v) p rw us)) pgd q = walk (child s) pgd q :=
    fun hq => setPte_walk h.tree hw hq
  refine ⟨⟨?_, ?_, by rw [hframes]; exact h.nodup, by rw [hframes]; exact h.frames⟩, ?_⟩
  · intro q r f hq hr hqf hrf
    rw [hwalk hq] at hqf
    rw [hwalk hr] at hrf
    exact h.tree q r f hq hr hqf hrf
  · intro f hf q hq
    rw [hframes] at hf
    rw [hwalk hq]
    exact h.unused f hf q hq
  · intro a
    rw [getPhysicalAddress_eq, getPhysicalAddress_eq, hwalk (q := upper a) (Nat.le_refl _)]
    by_cases hpage : page a = page v
    · obtain ⟨hup, hidx⟩ := page_eq_iff.mp hpage
      rw [if_pos hpage, hup, hw, hidx]
      simp only
      rw [hset]
      simp [ofField_toField hp]
    · rw [if_neg hpage]
      cases hu : walk (child s) pgd (upper a) with
      | none => rfl
      | some u =>
        have hne : ¬ (u = pt ∧ pteIdx a = pteIdx v) := by
          rintro ⟨rfl, hidx⟩
          exact hpage (page_eq_iff.mpr ⟨h.tree _ _ u (Nat.le_refl _) (Nat.le_refl _) hu hw, hidx⟩)
        simp only [hother u _ hne]

end Leaf

/-! ### Calls -/

/-- A call of `__set_mapping` that returns true sets the translation of one page. -/
theorem setMapping_spec {s' : PTMem} {v p : Nat} {rw us : Bool} (h : PTOk s pgd) (hp : p < 2 ^ 39)
    (hrun : __setMapping s pgd v p rw us = (s', true)) : PTOk s' pgd ∧
      ∀ a, getPhysicalAddress s' pgd a =
        if page a = page v then p / 2 ^ 12 * 2 ^ 12 + a % 2 ^ 12
        else getPhysicalAddress s pgd a := by
  simp only [__setMapping] at hrun
  split at hrun
  · simp at hrun
  rename_i h1
  split at hrun
  · simp at hrun
  rename_i h2
  split at hrun
  · simp at hrun
  rename_i h3
  obtain ⟨rfl, -⟩ := Prod.mk.inj hrun
  obtain ⟨ok1, w1, g1⟩ := enterTable_spec (p := []) h rfl (by decide) h1
  obtain ⟨ok2, w2, g2⟩ := enterTable_spec ok1 w1 (by simp) h2
  obtain ⟨ok3, w3, g3⟩ := enterTable_spec ok2 w2 (by simp) h3
  obtain ⟨ok4, g4⟩ := setPte_spec rw us ok3 w3 hp
  exact ⟨ok4, fun a => by rw [g4, g3, g2, g1]⟩

/-- The arguments of one call. -/
structure Mapping where
  vaddr : Nat
  paddr : Nat
  rw : Bool
  us : Bool

/-- Calls in sequence, every one of which must return true. -/
def setMappings (pgd : Nat) : PTMem → List Mapping → Option PTMem
  | s, [] => some s
  | s, c :: cs =>
    let r := __setMapping s pgd c.vaddr c.paddr c.rw c.us
    if r.2 then setMappings pgd r.1 cs else none

/-- What was last set for the page of `a`. -/
def lastSet (cs : List Mapping) (a : Nat) : Option Nat :=
  (cs.reverse.find? fun c => page a = page c.vaddr).map Mapping.paddr

theorem lastSet_append (cs ds : List Mapping) (a : Nat) :
    lastSet (cs ++ ds) a = (lastSet ds a).or (lastSet cs a) := by
  simp only [lastSet, List.reverse_append, List.find?_append, Option.map_or]

theorem lastSet_singleton (c : Mapping) (a : Nat) :
    lastSet [c] a = if page a = page c.vaddr then some c.paddr else none := by
  by_cases hc : page a = page c.vaddr <;> simp [lastSet, hc]

theorem lastSet_none {cs : List Mapping} {a : Nat} (h : ∀ c ∈ cs, page a ≠ page c.vaddr) :
    lastSet cs a = none := by
  have hfind : cs.reverse.find? (fun c => page a = page c.vaddr) = none :=
    List.find?_eq_none.mpr fun c hc => by simpa using h c (List.mem_reverse.mp hc)
  rw [lastSet, hfind]
  rfl

theorem setMappings_spec {cs : List Mapping} {s' : PTMem} (h : PTOk s pgd)
    (hp : ∀ c ∈ cs, c.paddr < 2 ^ 39) (hrun : setMappings pgd s cs = some s') : PTOk s' pgd ∧
      ∀ a, getPhysicalAddress s' pgd a =
        match lastSet cs a with
        | some p => p / 2 ^ 12 * 2 ^ 12 + a % 2 ^ 12
        | none => getPhysicalAddress s pgd a := by
  induction cs generalizing s with
  | nil =>
    obtain rfl : s = s' := by simpa [setMappings] using hrun
    exact ⟨h, fun a => rfl⟩
  | cons c cs ih =>
    rw [setMappings] at hrun
    split at hrun
    · rename_i hr
      obtain ⟨ok1, g1⟩ := setMapping_spec h (hp c (by simp)) (Prod.ext rfl hr)
      obtain ⟨ok2, g2⟩ := ih ok1 (fun c hc => hp c (by simp [hc])) hrun
      refine ⟨ok2, fun a => ?_⟩
      rw [g2]
      have hlast := lastSet_append [c] cs a
      rw [List.singleton_append, lastSet_singleton] at hlast
      rw [hlast]
      cases lastSet cs a with
      | some p => rfl
      | none =>
        simp only [Option.none_or]
        rw [g1]
        by_cases hc : page a = page c.vaddr <;> simp [hc]
    · simp at hrun

/-- A page directory as `create_pgd` leaves it, apart from the frames still free. -/
structure FreshPgd (s : PTMem) (pgd : Nat) : Prop where
  zero : ∀ i, s.entry pgd i = .zero
  apart : pgd ∉ s.frames
  nodup : s.frames.Nodup
  frames : ∀ f ∈ s.frames, FrameOk f

theorem FreshPgd.walk (h : FreshPgd s pgd) {q : List Nat} (hq : q ≠ []) :
    Radix.walk (child s) pgd q = none := by
  obtain ⟨i, q, rfl⟩ := List.exists_cons_of_ne_nil hq
  simp [Radix.walk, child, h.zero i, PageEntry.zero]

theorem FreshPgd.ok (h : FreshPgd s pgd) : PTOk s pgd := by
  refine ⟨?_, ?_, h.nodup, h.frames⟩
  · intro p q f _ _ hp hq
    by_cases hp0 : p = []
    · by_cases hq0 : q = []
      · rw [hp0, hq0]
      · rw [h.walk hq0] at hq
        simp at hq
    · rw [h.walk hp0] at hp
      simp at hp
  · intro f hf q _ hq
    by_cases hq0 : q = []
    · subst hq0
      exact h.apart (Option.some.inj hq ▸ hf)
    · rw [h.walk hq0] at hq
      simp at hq

/-- From a fresh page directory on, the page tables are a finite map from pages
to addresses: whatever was set last, and nothing for the other pages. A further
call leaves the translation of all other pages alone. -/
theorem pageTables_refine_map {cs : List Mapping} {s' : PTMem} (h : FreshPgd s pgd)
    (hp : ∀ c ∈ cs, c.paddr < 2 ^ 39) (hrun : setMappings pgd s cs = some s') :
    (∀ a, getPhysicalAddress s' pgd a =
      match lastSet cs a with
      | some p => p / 2 ^ 12 * 2 ^ 12 + a % 2 ^ 12
      | none => 0) ∧
    ∀ v p rw us s'', p < 2 ^ 39 → __setMapping s' pgd v p rw us = (s'', true) →
      ∀ a, page a ≠ page v → getPhysicalAddress s'' pgd a = getPhysicalAddress s' pgd a := by
  obtain ⟨hok, hget⟩ := setMappings_spec h.ok hp hrun
  refine ⟨fun a => ?_, ?_⟩
  · rw [hget]
    have hnull : getPhysicalAddress s pgd a = 0 := by
      rw [getPhysicalAddress_eq, h.walk (by simp [upper])]
    rw [hnull]
  · intro v p rw us s'' hp' hset a ha
    rw [(setMapping_spec hok hp' hset).2 a, if_neg ha]

/-- Memory full of zeros, with frames from 2 MiB on to hand out. -/
def zeroTables : PTMem := ⟨fun _ _ => .zero, [0x200000, 0x201000, 0x202000, 0x203000, 0x204000]⟩

theorem zeroTables_fresh : FreshPgd zeroTables 0x1000 :=
  ⟨fun _ => rfl, by decide, by decide, by unfold FrameOk; decide⟩

/-- Two pages that share the upper tables, one of them set twice. -/
theorem pageTables_refine_map_shared : ∃ s', setMappings 0x1000 zeroTables
    [⟨0x400000, 0x5000, true, true⟩, ⟨0x401000, 0x6fff, false, true⟩,
      ⟨0x400123, 0x7000, true, false⟩] = some s' ∧
    ∀ a, getPhysicalAddress s' 0x1000 a =
      match lastSet [⟨0x400000, 0x5000, true, true⟩, ⟨0x401000, 0x6fff, false, true⟩,
        ⟨0x400123, 0x7000, true, false⟩] a with
      | some p => p / 2 ^ 12 * 2 ^ 12 + a % 2 ^ 12
      | none => 0 := by
  obtain ⟨s', hs'⟩ : ∃ s', setMappings 0x1000 zeroTables
      [⟨0x400000, 0x5000, true, true⟩, ⟨0x401000, 0x6fff, false, true⟩,
        ⟨0x400123, 0x7000, true, false⟩] = some s' :=
    Option.isSome_iff_exists.mp (by decide +kernel)
  exact ⟨s', hs', (pageTables_refine_map zeroTables_fresh (by decide) hs').1⟩

end TayHuang
