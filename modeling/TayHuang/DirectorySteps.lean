import TayHuang.PageDirectories

/-! What `__set_mapping` does to several page directories: it maps one page of one of them,
or, for want of a page for a table, none. -/

namespace TayHuang

namespace Vm

open Fuel Radix Tilings

variable {v v' : VMem} {l : List Seg} {L : Nat → List (Nat × Nat)} {R : List Nat} {fuel : Nat}

section Levels

variable {q : List Nat} {t i r va pa : Nat} {rw us ok : Bool}

theorem enterTable_new_entry {s' : KMem} {f : Nat} (rw us : Bool) (hp : (v.entry t i).p = false)
    (hft : f ≠ t) (hback : ofField (toField f) = f)
    (hs : enterTable fuel v t i rw us = some (v', r)) (hx : allocPages fuel v.kmem 0 = some (s', f)) :
    v'.kmem = s' ∧ r = f ∧ NewTable v.entry v'.entry t i f rw us := by
  simp only [enterTable, hp, if_true, hx, Option.map_some, Option.some.injEq, Prod.mk.injEq] at hs
  obtain ⟨rfl, rfl⟩ := hs
  have hentry := enterTable_entry (s := ⟨v.entry, [f]⟩) rw us rfl hft hp
  refine ⟨rfl, ?_, hp, ?_, ?_, ?_, fun j => ?_, fun u j huf hut => ?_⟩
  · exact (enterTable_new (s := ⟨v.entry, [f]⟩) rw us rfl hft hp hback).1
  · simp [hentry]
  · simp [hentry, hback]
  · simp [hentry]
  · simp [hentry, hft]
  · simp [hentry, huf, hut]

theorem enterTable_entered (h : DirsOk v l L R) (hq : walk (descend R v.entry) none q = some (some t))
    (hd : q.length ≤ 3) (hs : enterTable fuel v t i rw us = some (v', r)) :
    (∃ l' L', DirsOk v' l' L' R ∧ bag (recorded L') ≤ bag (recorded L)) ∧
      Entered v v' R q i r rw us := by
  cases hpres : (v.entry t i).p with
  | true =>
    obtain ⟨rfl, rfl⟩ : v = v' ∧ ofField (v.entry t i).address = r := by
      simpa [enterTable, hpres] using hs
    refine ⟨⟨l, L, h, le_rfl⟩, fun h0 => ?_, fun _ _ _ => rfl, fun p j _ => ?_⟩
    · rw [walk_concat, hq]
      simp [descend, below, hpres, h0]
    · by_cases hp : p = q ∧ j = i
      · obtain ⟨rfl, rfl⟩ := hp
        simp [flagsAt, hq, hpres]
      · simp [hp]
  | false =>
    have hs' := hs
    simp only [enterTable, hpres, if_true] at hs'
    obtain ⟨⟨s', f⟩, hx, -⟩ := Option.map_eq_some_iff.mp hs'
    have hzero := h.unreached_zero
    by_cases hany : ∃ i, 0 ≤ i ∧ i ≤ 9 ∧ L i ≠ []
    · obtain ⟨j, hf⟩ := exists_found hany
      obtain ⟨l', L', hacc, hpaged, h4, hle⟩ := allocPages_account h.account h.paged hf hx
      have hmem : f ∈ bag (recorded L) := Multiset.mem_of_le hle (Multiset.mem_add.mpr (.inl (by simp)))
      have hf0 : f ≠ 0 := fun h0 => h.account.null (by simpa [h0] using hmem)
      have honce := Multiset.nodup_of_le hle (nodup_of_accounted h.account)
      have hfresh := h.unused f hmem h4
      have hft : f ≠ t := fun he => hfresh q (by omega) (he ▸ hq)
      obtain ⟨rfl, rfl, hnew⟩ := enterTable_new_entry rw us hpres hft
        (FrameOk.ofField_toField ⟨hf0, h.low f hmem, h4⟩) hs hx
      have hrest : bag (recorded L') ≤ bag (recorded L) := (Multiset.le_add_left _ _).trans hle
      have hkept := h.shrink hacc hpaged hrest
      refine ⟨⟨l', L', ⟨hacc, hpaged, hkept.low, isTree_new h.tree hq hd hnew hfresh, ?_,
        nulled_new h.tree hq hd hnew hfresh h.nulled hzero, h.roots⟩, hrest⟩, fun _ => ?_,
        fun root hroot a => translation_new h.tree hq hd hnew hfresh h.nulled hzero hroot a _ _,
        fun p j hp => flags_new h.tree hq hd hnew hfresh hp j⟩
      · intro k hk hk4
        refine unreached_new h.tree hq hd hnew hfresh (hkept.unused k hk hk4) ?_
        rintro rfl
        exact absurd hk (Multiset.disjoint_left.mp (Multiset.nodup_add.mp honce).2.2 (by simp))
      · rw [walk_new h.tree hq hd hnew hfresh (by rw [List.length_append, List.length_singleton]; omega),
          if_pos ⟨rfl, hf0⟩]
    · have hnone : ∀ i ≤ 9, v.kmem.listHead i = none :=
        fun i => h.account.lists.no_heads hany i (Nat.zero_le i)
      obtain ⟨rfl, rfl⟩ := Prod.mk.inj (Option.some.inj ((allocPages_none hnone fuel).symm.trans hx))
      have hft : 0 ≠ t := by
        rintro rfl
        exact hzero q (by omega) hq
      obtain ⟨hkmem, rfl, hnew⟩ := enterTable_new_entry rw us hpres hft (by decide) hs hx
      refine ⟨⟨l, L, ⟨hkmem ▸ h.account, h.paged, h.low, isTree_new h.tree hq hd hnew hzero, ?_,
        nulled_new h.tree hq hd hnew hzero h.nulled hzero, h.roots⟩, le_rfl⟩, fun h0 => absurd rfl h0,
        fun root hroot a => translation_new h.tree hq hd hnew hzero h.nulled hzero hroot a _ _,
        fun p j hp => flags_new h.tree hq hd hnew hzero hp j⟩
      intro k hk hk4
      exact unreached_new h.tree hq hd hnew hzero (h.unused k hk hk4) fun _ => rfl

theorem setPte_flags (s : PTMem) (pt i p : Nat) (rw us : Bool) :
    ((TayHuang.setPte s pt i p rw us).entry pt i).p = true ∧
      ((TayHuang.setPte s pt i p rw us).entry pt i).address = toField p ∧
      (((TayHuang.setPte s pt i p rw us).entry pt i).rw, ((TayHuang.setPte s pt i p rw us).entry pt i).us) =
        if (s.entry pt i).p then ((s.entry pt i).rw, (s.entry pt i).us) else (rw, us) := by
  unfold TayHuang.setPte
  cases hp : (s.entry pt i).p <;> simp [setEntry, hp]

section Leaf

variable {root pt : Nat} (pa i : Nat) (rw us : Bool) (h : DirsOk v l L R)
  (hw : walk (descend R v.entry) none (root :: upper va) = some (some pt))

include h hw

theorem walk_setPte (hq : q.length ≤ 4) :
    walk (descend R (setPte v pt i pa rw us).entry) none q = walk (descend R v.entry) none q := by
  refine walk_congr_leaf h.tree hw rfl (fun u j hu => ?_) hq
  cases u with
  | none => rfl
  | some u =>
    have hsame := (setPte_entry v.tables pt i pa rw us).2.1 u j
      fun hc => hu (congrArg some hc.1)
    change (setPte v pt i pa rw us).entry u j = v.entry u j at hsame
    simp only [descend, below, hsame]

theorem reached_setPte {u : Nat} (hq : q.length ≤ 4)
    (hu : walk (descend R v.entry) none q = some (some u)) (j : Nat) :
    (setPte v pt i pa rw us).entry u j =
      if q = root :: upper va ∧ j = i then (setPte v pt i pa rw us).entry pt i else v.entry u j := by
  by_cases hut : u = pt ∧ j = i
  · obtain ⟨rfl, rfl⟩ := hut
    rw [if_pos ⟨h.tree q _ _ hq le_rfl hu hw, rfl⟩]
  · have hqi : ¬ (q = root :: upper va ∧ j = i) := by
      rintro ⟨rfl, rfl⟩
      exact hut ⟨Option.some.inj (Option.some.inj (hu.symm.trans hw)), rfl⟩
    rw [if_neg hqi]
    exact (setPte_entry v.tables pt i pa rw us).2.1 u j hut

theorem setPte_ok : DirsOk (setPte v pt i pa rw us) l L R := by
  have hwalk : ∀ {q : List Nat}, q.length ≤ 4 →
      walk (descend R (setPte v pt i pa rw us).entry) none q = walk (descend R v.entry) none q :=
    fun hq => walk_setPte _ _ rw us h hw hq
  refine ⟨h.account, h.paged, h.low, ?_, ?_, ?_, h.roots⟩
  · intro a b g ha hb hga hgb
    rw [hwalk ha] at hga
    rw [hwalk hb] at hgb
    exact h.tree a b g ha hb hga hgb
  · intro k hk hk4 q hq
    rw [hwalk hq]
    exact h.unused k hk hk4 q hq
  · intro q u j hq hu hpres hnull j'
    rw [hwalk (by omega)] at hu
    have hne : ¬ (q = root :: upper va ∧ j = i) := by
      rintro ⟨rfl, -⟩
      simp [upper] at hq
    have hsame := reached_setPte pa i rw us h hw (by omega) hu j
    rw [if_neg hne] at hsame
    rw [hsame] at hpres hnull
    have hzero : ¬ (0 = pt ∧ j' = i) := by
      rintro ⟨rfl, -⟩
      exact h.unreached_zero _ le_rfl hw
    have hkept := (setPte_entry v.tables pt i pa rw us).2.1 0 j' hzero
    change (setPte v pt i pa rw us).entry 0 j' = v.entry 0 j' at hkept
    rw [hkept]
    exact h.nulled q u j hq hu hpres hnull j'

/-- The page is mapped, and no other page of any directory changes. -/
theorem translation_setPte {root' : Nat} (hroot : root' ∈ R) (a : Nat) :
    translation (setPte v pt (pteIdx va) pa rw us).tables root' a =
      if root' = root ∧ page a = page va then some (ofField (toField pa) + a % 2 ^ 12)
      else translation v.tables root' a := by
  have hlen : (root' :: upper a).length ≤ 4 := le_rfl
  have hok := setPte_ok pa (pteIdx va) rw us h hw
  rw [translation_eq (s := (setPte v pt (pteIdx va) pa rw us).tables) hok.nulled hroot,
    translation_eq (s := v.tables) h.nulled hroot]
  change (walk (descend R (setPte v pt (pteIdx va) pa rw us).entry) none (root' :: upper a)).bind
    (leaf (setPte v pt (pteIdx va) pa rw us).entry a) = if _ then _ else
      (walk (descend R v.entry) none (root' :: upper a)).bind (leaf v.entry a)
  rw [walk_setPte _ _ rw us h hw hlen]
  have hpage : root' :: upper a = root :: upper va ∧ pteIdx a = pteIdx va ↔
      root' = root ∧ page a = page va := by
    rw [List.cons.injEq, page_eq_iff, and_assoc]
  cases hu : walk (descend R v.entry) none (root' :: upper a) with
  | none =>
    rw [if_neg fun hc => ?_]
    · rfl
    · rw [(hpage.mpr hc).1, hw] at hu
      simp at hu
  | some u =>
    cases u with
    | none =>
      rw [if_neg fun hc => ?_]
      · rfl
      · rw [(hpage.mpr hc).1, hw] at hu
        simp at hu
    | some u =>
      have hentry := reached_setPte pa (pteIdx va) rw us h hw hlen hu (pteIdx a)
      simp only [Option.bind_some, leaf, hentry]
      by_cases hc : root' = root ∧ page a = page va
      · obtain ⟨hp, haddr, -⟩ := setPte_flags v.tables pt (pteIdx va) pa rw us
        change ((setPte v pt (pteIdx va) pa rw us).entry pt (pteIdx va)).p = true at hp
        change ((setPte v pt (pteIdx va) pa rw us).entry pt (pteIdx va)).address = _ at haddr
        rw [if_pos (hpage.mpr hc), if_pos hc, hp, haddr]
        rfl
      · rw [if_neg fun hh => hc (hpage.mp hh), if_neg hc]

theorem flags_setPte {p : List Nat} (hp : p.length ≤ 4) (j : Nat) :
    flagsAt R (setPte v pt i pa rw us).entry p j =
      (flagsAt R v.entry p j).or (if p = root :: upper va ∧ j = i then some (rw, us) else none) := by
  rw [flagsAt, flagsAt, walk_setPte _ _ rw us h hw hp]
  cases hu : walk (descend R v.entry) none p with
  | none =>
    have hpq : p ≠ root :: upper va := by
      rintro rfl
      simp [hw] at hu
    simp [hpq]
  | some u =>
    cases u with
    | none =>
      have hpq : p ≠ root :: upper va := by
        rintro rfl
        simp [hw] at hu
      simp [hpq]
    | some u =>
      have hentry := reached_setPte pa i rw us h hw hp hu j
      simp only [Option.bind_some]
      by_cases hpq : p = root :: upper va ∧ j = i
      · obtain ⟨rfl, rfl⟩ := hpq
        obtain rfl := Option.some.inj (Option.some.inj (hu.symm.trans hw))
        obtain ⟨hpres, -, hflags⟩ := setPte_flags v.tables u j pa rw us
        change ((setPte v u j pa rw us).entry u j).p = true at hpres
        change (((setPte v u j pa rw us).entry u j).rw, ((setPte v u j pa rw us).entry u j).us) =
          if (v.entry u j).p then _ else _ at hflags
        simp only [hpres, if_true, hflags, and_self]
        cases (v.entry u j).p <;> rfl
      · rw [if_neg hpq] at hentry
        simp [hentry, hpq]

end Leaf

/-- What `__set_mapping` does to the translations. A page that cannot be mapped for want of
a table changes nothing. -/
theorem setMapping_translation {root : Nat} (h : DirsOk v l L R) (hroot : root ∈ R)
    (hs : __setMapping fuel v root va pa rw us = some (v', ok)) :
    (∃ l' L', DirsOk v' l' L' R ∧ bag (recorded L') ≤ bag (recorded L)) ∧
      ∀ root' ∈ R, ∀ a, translation v'.tables root' a =
        if ok = true ∧ root' = root ∧ page a = page va then
          some (ofField (toField pa) + a % 2 ^ 12)
        else translation v.tables root' a := by
  simp only [__setMapping] at hs
  obtain ⟨⟨v₁, r₁⟩, hx₁, hs⟩ := Option.bind_eq_some_iff.mp hs
  obtain ⟨⟨l₁, L₁, ok₁, hle₁⟩, he₁⟩ := enterTable_entered h (descend_root hroot) (by simp) hx₁
  by_cases h0₁ : r₁ = 0
  · obtain ⟨rfl, rfl⟩ : v₁ = v' ∧ false = ok := by simpa [h0₁] using hs
    exact ⟨⟨l₁, L₁, ok₁, hle₁⟩, fun root' hr a => by simpa using he₁.kept root' hr a⟩
  simp only [if_neg h0₁] at hs
  obtain ⟨⟨v₂, r₂⟩, hx₂, hs⟩ := Option.bind_eq_some_iff.mp hs
  obtain ⟨⟨l₂, L₂, ok₂, hle₂⟩, he₂⟩ := enterTable_entered ok₁ (he₁.table h0₁) (by simp) hx₂
  by_cases h0₂ : r₂ = 0
  · obtain ⟨rfl, rfl⟩ : v₂ = v' ∧ false = ok := by simpa [h0₂] using hs
    exact ⟨⟨l₂, L₂, ok₂, hle₂.trans hle₁⟩, fun root' hr a => by
      simpa using (he₂.kept root' hr a).trans (he₁.kept root' hr a)⟩
  simp only [if_neg h0₂] at hs
  obtain ⟨⟨v₃, r₃⟩, hx₃, hs⟩ := Option.map_eq_some_iff.mp hs
  obtain ⟨⟨l₃, L₃, ok₃, hle₃⟩, he₃⟩ := enterTable_entered ok₂ (he₂.table h0₂) (by simp) hx₃
  have hkept : ∀ root' ∈ R, ∀ a, translation v₃.tables root' a = translation v.tables root' a :=
    fun root' hr a => (he₃.kept root' hr a).trans ((he₂.kept root' hr a).trans (he₁.kept root' hr a))
  have hle := hle₃.trans (hle₂.trans hle₁)
  by_cases h0₃ : r₃ = 0
  · obtain ⟨rfl, rfl⟩ : v₃ = v' ∧ false = ok := by simpa [h0₃] using hs
    exact ⟨⟨l₃, L₃, ok₃, hle⟩, fun root' hr a => by simpa using hkept root' hr a⟩
  obtain ⟨rfl, rfl⟩ : setPte v₃ r₃ (pteIdx va) pa rw us = v' ∧ true = ok := by
    simpa [h0₃] using hs
  have hw : walk (descend R v₃.entry) none (root :: upper va) = some (some r₃) := he₃.table h0₃
  refine ⟨⟨l₃, L₃, setPte_ok _ _ rw us ok₃ hw, hle⟩, fun root' hr a => ?_⟩
  rw [translation_setPte _ rw us ok₃ hw hr, hkept root' hr a]
  simp

end Levels

/-! ### Without new tables -/

section Built

variable {q : List Nat} {t c i va pgd pt n : Nat}

end Built

/-! ### The loop -/

/-- The translations after the pages `m` of `pgd` were mapped. -/
def Remapped (R : List Nat) (v v' : VMem) (pgd : Nat) (m : List (Nat × Nat)) : Prop :=
  ∀ root ∈ R, ∀ a, translation v'.tables root a =
    match (if root = pgd then lastSet (m.map fun x => ⟨x.1, x.2, true, true⟩) a else none) with
    | some p => some (ofField (toField p) + a % 2 ^ 12)
    | none => translation v.tables root a

theorem Remapped.cons {v₁ : VMem} {pgd : Nat} {x : Nat × Nat} {m : List (Nat × Nat)}
    (h : ∀ root ∈ R, ∀ a, translation v₁.tables root a = if root = pgd ∧ page a = page x.1 then
      some (ofField (toField x.2) + a % 2 ^ 12) else translation v.tables root a)
    (h' : Remapped R v₁ v' pgd m) : Remapped R v v' pgd (x :: m) := by
  intro root hroot a
  rw [h' root hroot a]
  by_cases hr : root = pgd
  · rw [if_pos hr, if_pos hr, List.map_cons, ← List.singleton_append, lastSet_append,
      lastSet_singleton]
    cases lastSet (m.map fun x => ⟨x.1, x.2, true, true⟩) a with
    | some p => rfl
    | none =>
      simp only [Option.none_or]
      rw [h root hroot a]
      by_cases ha : page a = page x.1 <;> simp [hr, ha]
  · rw [if_neg hr, if_neg hr]
    simp only [h root hroot a, hr, false_and, if_false]

theorem mapPages_remapped {frame : VMem → Nat → Nat} {rw us ok : Bool} {pgd va n i : Nat}
    {m : List (Nat × Nat)} (h : DirsOk v l L R) (hpgd : pgd ∈ R)
    (hs : mapPages fuel pgd frame rw us va n i v = some (v', ok, m)) :
    (∃ l' L', DirsOk v' l' L' R ∧ bag (recorded L') ≤ bag (recorded L)) ∧
      Remapped R v v' pgd m ∧ m.map Prod.fst = (List.range' i m.length).map (pageAt va) ∧
      m.length ≤ n ∧ (ok = true → m.length = n) := by
  replace hs := mapPages_iff.mp hs
  induction hs generalizing l L with
  | done =>
    refine ⟨⟨l, L, h, le_rfl⟩, fun root _ a => ?_, rfl, le_rfl, fun _ => rfl⟩
    split
    · next hp =>
      split at hp
      · simp [lastSet] at hp
      · simp at hp
    · rfl
  | turn hx hrest ih =>
    obtain ⟨⟨l₁, L₁, h₁, hle₁⟩, hm₁⟩ := setMapping_translation h hpgd hx
    obtain ⟨⟨l₂, L₂, h₂, hle₂⟩, hm₂, hfst, hlen, hall⟩ := ih h₁
    refine ⟨⟨l₂, L₂, h₂, hle₂.trans hle₁⟩, .cons (fun root hr a => ?_) hm₂, ?_, ?_, fun hok => ?_⟩
    · simpa using hm₁ root hr a
    · rw [List.map_cons, hfst, List.length_cons, List.range'_succ, List.map_cons]
    · rw [List.length_cons]
      omega
    · rw [List.length_cons, hall hok]
  | stuck hx =>
    obtain ⟨⟨l₁, L₁, h₁, hle₁⟩, hm₁⟩ := setMapping_translation h hpgd hx
    refine ⟨⟨l₁, L₁, h₁, hle₁⟩, fun root hr a => ?_, rfl, Nat.zero_le _, by simp⟩
    simpa [lastSet] using hm₁ root hr a

theorem mapPages_frames {frame : Nat → Nat} {rw us ok : Bool} {pgd va n i : Nat}
    {m : List (Nat × Nat)}
    (hs : mapPages fuel pgd (fun _ => frame) rw us va n i v = some (v', ok, m)) :
    m = (List.range' i m.length).map fun j => (pageAt va j, frame j) := by
  replace hs := mapPages_iff.mp hs
  induction hs with
  | done => rfl
  | turn hx hrest ih => rw [List.length_cons, List.range'_succ, List.map_cons, ← ih]
  | stuck hx => rfl

theorem lastSet_cases (m : List (Nat × Nat)) (a : Nat) :
    (∀ b p, (b, p) ∈ m → page a ≠ page b) ∧
        lastSet (m.map fun x => ⟨x.1, x.2, true, true⟩) a = none ∨
      ∃ b p, (b, p) ∈ m ∧ page a = page b ∧
        lastSet (m.map fun x => ⟨x.1, x.2, true, true⟩) a = some p := by
  induction m with
  | nil => exact .inl ⟨by simp, rfl⟩
  | cons x m ih =>
    obtain ⟨b, p⟩ := x
    have hcons := lastSet_append [⟨b, p, true, true⟩] (m.map fun x => ⟨x.1, x.2, true, true⟩) a
    rw [List.singleton_append, lastSet_singleton] at hcons
    rw [List.map_cons, hcons]
    rcases ih with ⟨hno, hnone⟩ | ⟨c, q, hc, hca, hlast⟩
    · rw [hnone, Option.none_or]
      by_cases ha : page a = page b
      · exact .inr ⟨b, p, by simp, ha, if_pos ha⟩
      · refine .inl ⟨fun c q hc => ?_, if_neg ha⟩
        rcases List.mem_cons.mp hc with he | hc
        · rwa [(Prod.mk.inj he).1]
        · exact hno c q hc
    · rw [hlast, Option.some_or]
      exact .inr ⟨c, q, List.mem_cons_of_mem _ hc, hca, rfl⟩

end Vm

end TayHuang
