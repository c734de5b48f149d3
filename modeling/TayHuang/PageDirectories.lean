import TayHuang.VirtualTables

/-! Several page directories over the same free pages. A call that finds no page for a
table leaves an entry with frame 0 behind, and everything else as it was. -/

namespace TayHuang

namespace Vm

open Fuel Radix Tilings

/-- The translation of an address, if its page is mapped. -/
def translation (s : PTMem) (pgd a : Nat) : Option Nat :=
  (walk (child s) pgd (upper a)).bind fun pt =>
    if (s.entry pt (pteIdx a)).p then some (ofField (s.entry pt (pteIdx a)).address + a % 2 ^ 12)
    else none

/-- The table below an entry, unless frame 0 is there. -/
def below (e : Nat → Nat → PageEntry) (t i : Nat) : Option Nat :=
  if (e t i).p = true ∧ ofField (e t i).address ≠ 0 then some (ofField (e t i).address) else none

/-- The directories `R` and their tables as one tree, under a root that is no table. -/
def descend (R : List Nat) (e : Nat → Nat → PageEntry) : Option Nat → Nat → Option (Option Nat)
  | none, r => if r ∈ R then some (some r) else none
  | some t, i => (below e t i).map some

variable {v v' : VMem} {l : List Seg} {L : Nat → List (Nat × Nat)} {R : List Nat} {fuel : Nat}
  {e : Nat → Nat → PageEntry}

theorem getPhysicalAddress_eq_getD (s : PTMem) (pgd a : Nat) :
    getPhysicalAddress s pgd a = (translation s pgd a).getD 0 := by
  rw [getPhysicalAddress_eq, translation]
  cases walk (child s) pgd (upper a) with
  | none => rfl
  | some pt =>
    cases hp : (s.entry pt (pteIdx a)).p <;> simp [hp]

/-- What the last table says about an address. -/
def leaf (e : Nat → Nat → PageEntry) (a : Nat) (pt : Option Nat) : Option Nat :=
  pt.bind fun pt =>
    if (e pt (pteIdx a)).p then some (ofField (e pt (pteIdx a)).address + a % 2 ^ 12) else none

/-- Where an entry refers to frame 0, there is nothing in it. -/
def Nulled (R : List Nat) (e : Nat → Nat → PageEntry) : Prop :=
  ∀ q t i, q.length ≤ 3 → walk (descend R e) none q = some (some t) → (e t i).p = true →
    ofField (e t i).address = 0 → ∀ j, (e 0 j).p = false

theorem descend_root {r : Nat} (hr : r ∈ R) : walk (descend R e) none [r] = some (some r) := by
  simp [walk, descend, hr]

theorem walk_child_zero {s : PTMem} (h : ∀ j, (s.entry 0 j).p = false) {p : List Nat} (hp : p ≠ []) :
    walk (child s) 0 p = none := by
  obtain ⟨i, p, rfl⟩ := List.exists_cons_of_ne_nil hp
  simp [walk, child, h i]

theorem translation_eq {s : PTMem} (hn : Nulled R s.entry) {r : Nat} (hr : r ∈ R) (a : Nat) :
    translation s r a = (walk (descend R s.entry) none (r :: upper a)).bind (leaf s.entry a) := by
  have hdown : ∀ (p q : List Nat) (t : Nat), q.length + p.length ≤ 4 →
      walk (descend R s.entry) none q = some (some t) → q ≠ [] →
        (walk (child s) t p).bind (fun pt => leaf s.entry a (some pt)) =
          (walk (descend R s.entry) (some t) p).bind (leaf s.entry a) := by
    intro p
    induction p with
    | nil => exact fun q t _ _ _ => rfl
    | cons i p ih =>
      intro q t hlen hq hne
      rw [List.length_cons] at hlen
      simp only [walk, descend, child, below]
      cases hp : (s.entry t i).p with
      | false => rfl
      | true =>
        by_cases h0 : ofField (s.entry t i).address = 0
        · have hzero := hn q t i (by omega) hq hp h0
          simp only [h0, ne_eq, not_true_eq_false, and_false, if_false, if_true, Option.bind_some,
            Option.map_none, Option.bind_none]
          by_cases hp' : p = []
          · subst hp'
            simp [walk, leaf, hzero]
          · rw [walk_child_zero hzero hp', Option.bind_none]
        · have hstep : walk (descend R s.entry) none (q ++ [i]) =
              some (some (ofField (s.entry t i).address)) := by
            rw [walk_concat, hq]
            simp [descend, below, hp, h0]
          have hrest := ih (q ++ [i]) _ (by rw [List.length_append, List.length_singleton]; omega) hstep
            (by simp)
          simpa [h0] using hrest
  have hroot := hdown (upper a) [r] r (by simp [upper]) (descend_root hr) (by simp)
  simp only [walk, descend, if_pos hr, Option.bind_some]
  exact hroot

/-! ### One level -/

/-- The entries after a level was entered that had no table, when the frame `f` came back. -/
theorem enterTable_entry {s : PTMem} {t i f : Nat} (rw us : Bool) (hf : s.frames = [f])
    (hft : f ≠ t) (hp : (s.entry t i).p = false) (u j : Nat) :
    (TayHuang.enterTable s t i rw us).1.entry u j =
      if u = t ∧ j = i then
        { s.entry t i with p := true, rw := rw, us := us, pcd := false, pwt := false, a := false, address := toField f }
      else if u = f then .zero else s.entry u j := by
  have hframes : ∀ x, (setEntry s t i x).frames = [f] := fun x => hf
  simp only [TayHuang.enterTable, hp, if_true, getFreePage, allocFrame, hframes]
  by_cases hu : u = t
  · subst hu
    by_cases hj : j = i
    · subst hj
      simp [setEntry, hft.symm]
    · simp [setEntry, hft.symm, hj]
  · by_cases huf : u = f
    · subst huf
      simp [setEntry, hu]
    · simp [setEntry, hu, huf]

/-- The bytes of the free pages are accounted for, the tables are a tree, and the free
pages are no tables. -/
structure DirsOk (v : VMem) (l : List Seg) (L : Nat → List (Nat × Nat)) (R : List Nat) : Prop where
  account : Accounted v.kmem l L []
  paged : Paged (recorded L)
  low : ∀ k ∈ bag (recorded L), k < 2 ^ 39
  tree : IsTree (descend R v.entry) none 4
  unused : ∀ k ∈ bag (recorded L), 4096 ∣ k → Unreached (descend R v.entry) none 4 (some k)
  nulled : Nulled R v.entry
  roots : 0 ∉ R

theorem DirsOk.unreached_zero (h : DirsOk v l L R) : Unreached (descend R v.entry) none 4 (some 0) := by
  intro q _ hq
  induction q using List.reverseRecOn with
  | nil => simp at hq
  | append_singleton q i =>
    rw [walk_concat] at hq
    obtain ⟨t, -, ht⟩ := Option.bind_eq_some_iff.mp hq
    cases t with
    | none =>
      simp only [descend] at ht
      split at ht
      · next hi =>
        rw [Option.some.inj (Option.some.inj ht)] at hi
        exact h.roots hi
      · simp at ht
    | some t =>
      simp only [descend, below] at ht
      split at ht
      · next hne => exact hne.2 (Option.some.inj (Option.some.inj ht))
      · simp at ht

theorem DirsOk.shrink {s' : KMem} {l' : List Seg} {L' : Nat → List (Nat × Nat)} (h : DirsOk v l L R)
    (hacc : Accounted s' l' L' []) (hp : Paged (recorded L'))
    (hle : bag (recorded L') ≤ bag (recorded L)) : DirsOk ⟨s', v.entry⟩ l' L' R :=
  ⟨hacc, hp, fun k hk => h.low k (Multiset.mem_of_le hle hk), h.tree,
    fun k hk => h.unused k (Multiset.mem_of_le hle hk), h.nulled, h.roots⟩

/-- The flags of the entry at the end of a way. -/
def flagsAt (R : List Nat) (e : Nat → Nat → PageEntry) (q : List Nat) (i : Nat) : Option (Bool × Bool) :=
  (walk (descend R e) none q).bind fun t => t.bind fun t =>
    if (e t i).p then some ((e t i).rw, (e t i).us) else none

/-- A level is entered. Its entry has the flags that were asked for, unless it was there
before. -/
structure Entered (v v' : VMem) (R : List Nat) (q : List Nat) (i r : Nat) (rw us : Bool) : Prop where
  table : r ≠ 0 → walk (descend R v'.entry) none (q ++ [i]) = some (some r)
  kept : ∀ root ∈ R, ∀ a, translation v'.tables root a = translation v.tables root a
  flags : ∀ p j, p.length ≤ 4 → flagsAt R v'.entry p j =
    (flagsAt R v.entry p j).or (if p = q ∧ j = i then some (rw, us) else none)

section New

variable {e' : Nat → Nat → PageEntry} {q p : List Nat} {t i f : Nat} {rw us : Bool}

/-- The entry `i` of the table `t` is new, and refers to the empty table `f`. -/
structure NewTable (e e' : Nat → Nat → PageEntry) (t i f : Nat) (rw us : Bool) : Prop where
  absent : (e t i).p = false
  present : (e' t i).p = true
  address : ofField (e' t i).address = f
  flags : (e' t i).rw = rw ∧ (e' t i).us = us
  empty : ∀ j, e' f j = .zero
  other : ∀ u j, u ≠ f → ¬ (u = t ∧ j = i) → e' u j = e u j

variable (h : IsTree (descend R e) none 4) (hq : walk (descend R e) none q = some (some t))
  (hd : q.length ≤ 3) (hn : NewTable e e' t i f rw us)
  (hfresh : Unreached (descend R e) none 4 (some f)) (hnulled : Nulled R e)
  (hzero : Unreached (descend R e) none 4 (some 0))

include hn in
theorem descend_new (R : List Nat) (hf : f ≠ 0) :
    descend R e (some t) i = none ∧ descend R e' (some t) i = some (some f) ∧
      (∀ j, descend R e' (some f) j = none) ∧
      ∀ u j, u ≠ some f → ¬ (u = some t ∧ j = i) → descend R e' u j = descend R e u j := by
  refine ⟨?_, ?_, fun j => ?_, fun u j huf hut => ?_⟩
  · simp [descend, below, hn.absent]
  · simp [descend, below, hn.present, hn.address, hf]
  · simp [descend, below, hn.empty j, PageEntry.zero]
  · cases u with
    | none => rfl
    | some u =>
      have hsame := hn.other u j (fun he => huf (congrArg some he))
        fun hc => hut ⟨congrArg some hc.1, hc.2⟩
      simp only [descend, below, hsame]

include h hq hd hn hfresh

theorem walk_new (hp : p.length ≤ 4) : walk (descend R e') none p =
    if p = q ++ [i] ∧ f ≠ 0 then some (some f) else walk (descend R e) none p := by
  by_cases hf : f = 0
  · rw [if_neg fun hc => hc.2 hf]
    refine walk_congr_unreached hfresh (fun u j huf => ?_) hp
    cases u with
    | none => rfl
    | some u =>
      have huf' : u ≠ f := fun he => huf (congrArg some he)
      by_cases hut : u = t ∧ j = i
      · obtain ⟨rfl, rfl⟩ := hut
        simp [descend, below, hn.absent, hn.address, hf]
      · simp only [descend, below, hn.other u j huf' hut]
  · obtain ⟨habsent, hlink, hempty, hother⟩ := descend_new hn R hf
    obtain ⟨h1, h2⟩ := walk_link h hq (Nat.lt_succ_of_le hd) habsent hfresh hlink hempty hother hp
    by_cases hpq : p = q ++ [i]
    · rw [if_pos ⟨hpq, hf⟩, h1 hpq]
    · rw [if_neg fun hc => hpq hc.1, h2 hpq]

theorem isTree_new : IsTree (descend R e') none 4 := by
  by_cases hf : f = 0
  · have hwalk : ∀ {p : List Nat}, p.length ≤ 4 →
        walk (descend R e') none p = walk (descend R e) none p := by
      intro p hp
      rw [walk_new h hq hd hn hfresh hp, if_neg fun hc => hc.2 hf]
    intro a b g ha hb hga hgb
    rw [hwalk ha] at hga
    rw [hwalk hb] at hgb
    exact h a b g ha hb hga hgb
  · obtain ⟨habsent, hlink, hempty, hother⟩ := descend_new hn R hf
    exact h.link hq (Nat.lt_succ_of_le hd) habsent hfresh hlink hempty hother

theorem unreached_new {g : Nat} (hg : Unreached (descend R e) none 4 (some g)) (hgf : g = f → f = 0) :
    Unreached (descend R e') none 4 (some g) := by
  intro p hp hw
  rw [walk_new h hq hd hn hfresh hp] at hw
  split at hw
  · next hc =>
    have hfg : f = g := Option.some.inj (Option.some.inj hw)
    exact hc.2 (hgf hfg.symm)
  · exact hg p hp hw

theorem reached_new {u : Nat} (hp : p.length ≤ 4) (hw : walk (descend R e') none p = some (some u)) :
    (p = q ++ [i] ∧ u = f ∧ f ≠ 0) ∨
      (walk (descend R e) none p = some (some u) ∧ u ≠ f ∧
        ∀ j, e' u j = if p = q ∧ j = i then e' t i else e u j) := by
  rw [walk_new h hq hd hn hfresh hp] at hw
  split at hw
  · next hc => exact .inl ⟨hc.1, (Option.some.inj (Option.some.inj hw)).symm, hc.2⟩
  · have huf : u ≠ f := fun he => hfresh p hp (he ▸ hw)
    refine .inr ⟨hw, huf, fun j => ?_⟩
    by_cases hut : u = t ∧ j = i
    · obtain ⟨rfl, rfl⟩ := hut
      rw [if_pos ⟨h p q _ hp (by omega) hw hq, rfl⟩]
    · have hpq : ¬ (p = q ∧ j = i) := by
        rintro ⟨rfl, rfl⟩
        exact hut ⟨Option.some.inj (Option.some.inj (hw.symm.trans hq)), rfl⟩
      rw [if_neg hpq, hn.other u j huf hut]

include hnulled hzero in
theorem nulled_new : Nulled R e' := by
  intro p u j hp hw hpres hnull j'
  by_cases hf : f = 0
  · have hempty := hn.empty j'
    rw [hf] at hempty
    rw [hempty]
    rfl
  · have ht0 : (0 : Nat) ≠ t := by
      rintro rfl
      exact hzero q (by omega) hq
    rw [hn.other 0 j' (Ne.symm hf) fun hc => ht0 hc.1]
    rcases reached_new h hq hd hn hfresh (by omega) hw with ⟨-, rfl, -⟩ | ⟨hw', huf, hsame⟩
    · rw [hn.empty j] at hpres
      simp [PageEntry.zero] at hpres
    · rw [hsame j] at hpres hnull
      by_cases hpq : p = q ∧ j = i
      · rw [if_pos hpq, hn.address] at hnull
        exact absurd hnull hf
      · rw [if_neg hpq] at hpres hnull
        exact hnulled p u j hp hw' hpres hnull j'

theorem flags_new (hp : p.length ≤ 4) (j : Nat) : flagsAt R e' p j =
    (flagsAt R e p j).or (if p = q ∧ j = i then some (rw, us) else none) := by
  have hqi : ∀ p, p = q ++ [i] → p ≠ q := by
    rintro p rfl he
    have := congrArg List.length he
    simp at this
  by_cases hnew : p = q ++ [i] ∧ f ≠ 0
  · have hw : walk (descend R e') none p = some (some f) := by
      rw [walk_new h hq hd hn hfresh hp, if_pos hnew]
    have hw' : walk (descend R e) none p = none := by
      rw [hnew.1, walk_concat, hq]
      exact (descend_new hn R hnew.2).1
    rw [flagsAt, flagsAt, hw, hw', if_neg fun hc => hqi p hnew.1 hc.1]
    simp [hn.empty j, PageEntry.zero]
  · have hw : walk (descend R e') none p = walk (descend R e) none p := by
      rw [walk_new h hq hd hn hfresh hp, if_neg hnew]
    rw [flagsAt, flagsAt, hw]
    cases hu : walk (descend R e) none p with
    | none =>
      have hpq : p ≠ q := by
        rintro rfl
        simp [hq] at hu
      simp [hpq]
    | some u =>
      cases u with
      | none =>
        have hpq : p ≠ q := by
          rintro rfl
          simp [hq] at hu
        simp [hpq]
      | some u =>
        rcases reached_new h hq hd hn hfresh hp (hw.trans hu) with ⟨hpq, -, hf⟩ | ⟨-, -, hsame⟩
        · exact absurd ⟨hpq, hf⟩ hnew
        · simp only [Option.bind_some, hsame j]
          by_cases hpq : p = q ∧ j = i
          · obtain ⟨rfl, rfl⟩ := hpq
            obtain rfl := Option.some.inj (Option.some.inj (hu.symm.trans hq))
            simp [hn.absent, hn.present, hn.flags.1, hn.flags.2]
          · simp [hpq]

include hnulled hzero in
theorem translation_new {root : Nat} (hroot : root ∈ R) (a : Nat) (frames frames' : List Nat) :
    translation ⟨e', frames'⟩ root a = translation ⟨e, frames⟩ root a := by
  have hlen : (root :: upper a).length ≤ 4 := le_rfl
  rw [translation_eq (s := ⟨e', frames'⟩) (nulled_new h hq hd hn hfresh hnulled hzero) hroot,
    translation_eq (s := ⟨e, frames⟩) hnulled hroot]
  simp only
  by_cases hnew : root :: upper a = q ++ [i] ∧ f ≠ 0
  · have hw' : walk (descend R e) none (root :: upper a) = none := by
      rw [hnew.1, walk_concat, hq]
      exact (descend_new hn R hnew.2).1
    rw [walk_new h hq hd hn hfresh hlen, if_pos hnew, hw']
    simp [leaf, hn.empty, PageEntry.zero]
  · have hw : walk (descend R e') none (root :: upper a) =
        walk (descend R e) none (root :: upper a) := by
      rw [walk_new h hq hd hn hfresh hlen, if_neg hnew]
    rw [hw]
    cases hu : walk (descend R e) none (root :: upper a) with
    | none => rfl
    | some u =>
      cases u with
      | none => rfl
      | some u =>
        rcases reached_new h hq hd hn hfresh hlen (hw.trans hu) with ⟨hpq, -, hf⟩ | ⟨-, -, hsame⟩
        · exact absurd ⟨hpq, hf⟩ hnew
        · have hpq : ¬ (root :: upper a = q ∧ pteIdx a = i) := by
            rintro ⟨hpq, -⟩
            have := congrArg List.length hpq
            simp only [upper, List.length_cons, List.length_nil] at this
            omega
          have hsame' := hsame (pteIdx a)
          rw [if_neg hpq] at hsame'
          simp only [Option.bind_some, leaf, hsame']

end New

/-! ### Directories without tables -/

section Fresh

variable (hentry : ∀ r ∈ R, ∀ i, (e r i).p = false)

include hentry

theorem walk_fresh {q : List Nat} {x : Option Nat} (hw : walk (descend R e) none q = some x) :
    q = [] ∧ x = none ∨ ∃ r ∈ R, q = [r] ∧ x = some r := by
  rcases q with _ | ⟨r, _ | ⟨i, q⟩⟩
  · exact .inl ⟨rfl, (Option.some.inj hw).symm⟩
  · by_cases hr : r ∈ R
    · rw [descend_root hr] at hw
      exact .inr ⟨r, hr, rfl, (Option.some.inj hw).symm⟩
    · simp [walk, descend, hr] at hw
  · by_cases hr : r ∈ R
    · simp [walk, descend, hr, below, hentry r hr i] at hw
    · simp [walk, descend, hr] at hw

end Fresh

theorem DirsOk.fresh (hacc : Accounted v.kmem l L []) (hp : Paged (recorded L))
    (hlow : ∀ k ∈ bag (recorded L), k < 2 ^ 39) (hentry : ∀ r ∈ R, ∀ i, (v.entry r i).p = false)
    (hfree : ∀ r ∈ R, r ∉ bag (recorded L)) (h0 : 0 ∉ R) : DirsOk v l L R := by
  refine ⟨hacc, hp, hlow, ?_, ?_, ?_, h0⟩
  · intro a b g _ _ hga hgb
    rcases walk_fresh hentry hga with ⟨rfl, rfl⟩ | ⟨r, -, rfl, rfl⟩
    · rcases walk_fresh hentry hgb with ⟨rfl, -⟩ | ⟨r, -, -, he⟩
      · rfl
      · simp at he
    · rcases walk_fresh hentry hgb with ⟨-, he⟩ | ⟨r', -, rfl, he⟩
      · simp at he
      · rw [Option.some.inj he]
  · intro k hk _ q _ hq
    rcases walk_fresh hentry hq with ⟨-, he⟩ | ⟨r, hr, -, he⟩
    · simp at he
    · exact hfree r hr (Option.some.inj he ▸ hk)
  · intro q t i _ hw hpres
    rcases walk_fresh hentry hw with ⟨-, he⟩ | ⟨r, hr, -, he⟩
    · simp at he
    · rw [Option.some.inj he, hentry r hr i] at hpres
      simp at hpres

end Vm

end TayHuang
