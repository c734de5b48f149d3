import TayHuang.FailedMapping

/-! `set_mappingvv`. The frame of a source page is looked up when its turn comes, and where
there is none the page goes to frame 0. -/

namespace TayHuang

namespace Vm

open Fuel Radix Tilings

variable {v v' : VMem} {l : List Seg} {L : Nat → List (Nat × Nat)} {R : List Nat}
  {fuel pgd va pa n i t r : Nat} {rw us ok : Bool} {q : List Nat} {m : List (Nat × Nat)}

/-! ### Turns that fail -/

/-- There is no table below an entry, and no free page for one, or frame 0 is there. -/
def Unserved (fuel : Nat) (v : VMem) (t i : Nat) : Prop :=
  Refused fuel v t i ∨ (v.entry t i).p = true ∧ ofField (v.entry t i).address = 0

theorem allocPages_frame {s : KMem} {f : Nat} (h : DirsOk v l L R)
    (hx : allocPages fuel v.kmem 0 = some (s, f)) : f = 0 ∨ FrameOk f := by
  by_cases hany : ∃ i, 0 ≤ i ∧ i ≤ 9 ∧ L i ≠ []
  · obtain ⟨j, hf⟩ := exists_found hany
    obtain ⟨l', L', -, -, h4, hle⟩ := allocPages_account h.account h.paged hf hx
    have hmem : f ∈ bag (recorded L) := Multiset.mem_of_le hle (Multiset.mem_add.mpr (.inl (by simp)))
    have hf0 : f ≠ 0 := fun h0 => h.account.null (by simpa [h0] using hmem)
    exact .inr ⟨hf0, h.low f hmem, h4⟩
  · have hnone : ∀ i ≤ 9, v.kmem.listHead i = none :=
      fun i => h.account.lists.no_heads hany i (Nat.zero_le i)
    exact .inl (Prod.mk.inj (Option.some.inj ((allocPages_none hnone fuel).symm.trans hx))).2.symm

theorem enterTable_unserved (h : DirsOk v l L R) (hs : enterTable fuel v t i rw us = some (v', r)) :
    r = 0 ↔ Unserved fuel v t i := by
  cases hp : (v.entry t i).p with
  | true =>
    obtain ⟨-, rfl⟩ : v = v' ∧ ofField (v.entry t i).address = r := by
      simpa [enterTable, hp] using hs
    simp [Unserved, Refused, hp]
  | false =>
    simp only [enterTable, hp, if_true] at hs
    obtain ⟨⟨s, f⟩, hx, hs⟩ := Option.map_eq_some_iff.mp hs
    obtain rfl : ofField (toField f) = r := by
      rw [← (Prod.mk.inj hs).2]
      simp [TayHuang.enterTable, hp, getFreePage, allocFrame, setEntry]
    have href : Unserved fuel v t i ↔ f = 0 := by
      simp [Unserved, Refused, hp, hx]
    rw [href]
    rcases allocPages_frame h hx with rfl | hf
    · simp [ofField, toField]
    · rw [hf.ofField_toField]

theorem setMapping_unserved (h : DirsOk v l L R) (hpgd : pgd ∈ R)
    (hs : __setMapping fuel v pgd va pa rw us = some (v', ok)) :
    ok = false ↔ MeetsLevel (Unserved fuel) fuel rw us (upper va) v pgd := by
  simp only [__setMapping] at hs
  obtain ⟨⟨v₁, r₁⟩, hx₁, hs⟩ := Option.bind_eq_some_iff.mp hs
  obtain ⟨⟨l₁, L₁, ok₁, -⟩, he₁⟩ := enterTable_entered h (descend_root hpgd) (by simp) hx₁
  have hu₁ := enterTable_unserved h hx₁
  simp only [upper, MeetsLevel, hx₁, ← hu₁]
  by_cases h0₁ : r₁ = 0
  · obtain ⟨-, rfl⟩ : v₁ = v' ∧ false = ok := by simpa [h0₁] using hs
    simp [h0₁]
  simp only [if_neg h0₁] at hs
  obtain ⟨⟨v₂, r₂⟩, hx₂, hs⟩ := Option.bind_eq_some_iff.mp hs
  obtain ⟨⟨l₂, L₂, ok₂, -⟩, he₂⟩ := enterTable_entered ok₁ (he₁.table h0₁) (by simp) hx₂
  have hu₂ := enterTable_unserved ok₁ hx₂
  simp only [Option.some.injEq, exists_eq_left', h0₁, ne_eq, not_false_eq_true, true_and, false_or,
    hx₂, ← hu₂]
  by_cases h0₂ : r₂ = 0
  · obtain ⟨-, rfl⟩ : v₂ = v' ∧ false = ok := by simpa [h0₂] using hs
    simp [h0₂]
  simp only [if_neg h0₂] at hs
  obtain ⟨⟨v₃, r₃⟩, hx₃, hs⟩ := Option.map_eq_some_iff.mp hs
  have hu₃ := enterTable_unserved ok₂ hx₃
  simp only [Option.some.injEq, exists_eq_left', h0₂, not_false_eq_true, true_and, false_or, hx₃,
    ← hu₃]
  by_cases h0₃ : r₃ = 0
  · obtain ⟨-, rfl⟩ : v₃ = v' ∧ false = ok := by simpa [h0₃] using hs
    simp [h0₃]
  · obtain ⟨-, rfl⟩ : setPte v₃ r₃ (pteIdx va) pa rw us = v' ∧ true = ok := by
      simpa [h0₃] using hs
    simp [h0₃]

/-- The turns up to the first that fails are the turns that map a page. -/
theorem mapPages_unserved {frame : VMem → Nat → Nat} {k : Nat} (h : DirsOk v l L R) (hpgd : pgd ∈ R)
    (hs : mapPages fuel pgd frame rw us va n i v = some (v', ok, m)) (hk : k ≤ n) :
    (MeetsTurn (Unserved fuel) fuel pgd frame rw us va k i v ↔ m.length < k) ∧
      (ok = false → m.length < n) := by
  replace hs := mapPages_iff.mp hs
  induction hs generalizing l L k with
  | done =>
    obtain rfl := Nat.le_zero.mp hk
    simp [MeetsTurn]
  | turn hx hrest ih =>
    have hlevel := setMapping_unserved h hpgd hx
    obtain ⟨⟨l₁, L₁, h₁, -⟩, -⟩ := setMapping_translation h hpgd hx
    rw [List.length_cons]
    refine ⟨?_, fun hok => ?_⟩
    · cases k with
      | zero => simp [MeetsTurn]
      | succ k =>
        have hlater := (ih h₁ (Nat.le_of_succ_le_succ hk)).1
        simp only [MeetsTurn, ← hlevel, hx, Option.some.injEq, Prod.mk.injEq, and_true,
          exists_eq_left', hlater]
        simp
    · have hlt := (ih h₁ le_rfl).2 hok
      omega
  | stuck hx =>
    have hlevel := setMapping_unserved h hpgd hx
    refine ⟨?_, fun _ => by simp⟩
    cases k with
    | zero => simp [MeetsTurn]
    | succ k => simp [MeetsTurn, ← hlevel]

/-! ### Where a frame comes from -/

/-- The page whose frame stands at the page `x` of the destination after `n` turns, which
copy the page `S j` of the source to the page `D j`: a page of the destination (`true`)
or of the source. -/
def origin (same : Bool) (S D : Nat → Nat) : Nat → Nat → Bool × Nat
  | 0, x => (true, x)
  | n + 1, x =>
    if x = D n then if same then origin same S D n (S n) else (false, S n)
    else origin same S D n x

theorem origin_untouched {same : Bool} {S D : Nat → Nat} {x : Nat} (h : ∀ j < n, x ≠ D j) :
    origin same S D n x = (true, x) := by
  induction n with
  | zero => rfl
  | succ n ih =>
    rw [origin, if_neg (h n (Nat.lt_succ_self n))]
    exact ih fun j hj => h j (by omega)

/-- The number of the page of a turn. -/
def turnPage (a j : Nat) : Nat := page (pageAt a j)

theorem turnPage_lt (a j : Nat) : turnPage a j < 2 ^ 36 := Nat.mod_lt _ (by decide)

theorem page_mul {x : Nat} (hx : x < 2 ^ 36) : page (4096 * x) = x := by
  unfold page
  omega

theorem translation_congr (s : PTMem) (pgd : Nat) {a b : Nat} (h : page a = page b)
    (hmod : a % 2 ^ 12 = b % 2 ^ 12) : translation s pgd a = translation s pgd b := by
  obtain ⟨hu, hi⟩ := page_eq_iff.mp h
  rw [translation, translation, hu, hi, hmod]

theorem translation_pageAt {a : Nat} (ha : 4096 ∣ a) (s : PTMem) (pgd j : Nat) :
    translation s pgd (pageAt a j) = translation s pgd (4096 * turnPage a j) := by
  refine translation_congr s pgd ?_ ?_
  · rw [page_mul (turnPage_lt a j), turnPage]
  · rw [pageAt_mod ha]
    omega

theorem ofField_dvd (x : Nat) : 2 ^ 12 ∣ ofField x ∧ ofField x < 2 ^ 39 := by
  unfold ofField
  omega

theorem translation_frame {s : PTMem} {pgd a f : Nat} (ha : a % 2 ^ 12 = 0)
    (h : translation s pgd a = some f) : ofField (toField f) = f := by
  rw [translation] at h
  obtain ⟨pt, -, h⟩ := Option.bind_eq_some_iff.mp h
  split at h
  · rw [ha, Nat.add_zero] at h
    rw [← Option.some.inj h]
    obtain ⟨hdvd, hlt⟩ := ofField_dvd (s.entry pt (pteIdx a)).address
    rw [ofField_toField hlt, Nat.div_mul_cancel hdvd]
  · simp at h

theorem getPhysicalAddress_frame (s : PTMem) (pgd : Nat) {a : Nat} (ha : a % 2 ^ 12 = 0) :
    ofField (toField (getPhysicalAddress s pgd a)) = getPhysicalAddress s pgd a := by
  rw [getPhysicalAddress_eq_getD]
  cases h : translation s pgd a with
  | none => rfl
  | some f => exact translation_frame ha h

theorem mapPages_snoc {frame : VMem → Nat → Nat}
    (hs : mapPages fuel pgd frame rw us va (n + 1) i v = some (v', true, m)) :
    ∃ v₁ m₁, mapPages fuel pgd frame rw us va n i v = some (v₁, true, m₁) ∧
      __setMapping fuel v₁ pgd (pageAt va (i + n)) (frame v₁ (i + n)) rw us = some (v', true) := by
  induction n generalizing v i m with
  | zero =>
    cases mapPages_iff.mp hs with
    | turn hx hrest =>
      cases hrest with
      | done => exact ⟨v, [], rfl, hx⟩
  | succ n ih =>
    cases mapPages_iff.mp hs with
    | turn hx hrest =>
      obtain ⟨v₃, m₃, hz, hlast⟩ := ih (mapPages_iff.mpr hrest)
      have hi : i + 1 + n = i + (n + 1) := by omega
      exact ⟨v₃, _, mapPages_iff.mpr (.turn hx (mapPages_iff.mp hz)), hi ▸ hlast⟩

section Copies

variable {src dst s d : Nat}

/-- The turns of `set_mappingvv` on aligned addresses. -/
def copyPages (fuel : Nat) (v : VMem) (src s dst d n : Nat) (rw us : Bool) :
    Option (VMem × Bool × List (Nat × Nat)) :=
  mapPages fuel dst (fun v i => getPhysicalAddress v.tables src (pageAt s i)) rw us d n 0 v

/-- The frame of the page that `origin` finds. -/
def originFrame (v : VMem) (src s dst d n x : Nat) : Nat :=
  let o := origin (decide (src = dst)) (turnPage s) (turnPage d) n x
  getPhysicalAddress v.tables (if o.1 then dst else src) (4096 * o.2)

/-- The translations of the destination after turns that all succeed. -/
theorem copyPages_origin (h : DirsOk v l L R) (hsrc : src ∈ R) (hdst : dst ∈ R) (hs4 : 4096 ∣ s)
    (hs : copyPages fuel v src s dst d n rw us = some (v', true, m)) :
    (∃ l' L', DirsOk v' l' L' R) ∧
      (∀ a, translation v'.tables dst a = if ∃ j < n, page a = turnPage d j then
        some (originFrame v src s dst d n (page a) + a % 2 ^ 12) else translation v.tables dst a) ∧
      (src ≠ dst → ∀ a, translation v'.tables src a = translation v.tables src a) := by
  induction n generalizing v' m with
  | zero =>
    obtain ⟨rfl, -⟩ : v = v' ∧ [] = m := by simpa [copyPages, mapPages] using hs
    exact ⟨⟨l, L, h⟩, fun a => by simp, fun _ _ => rfl⟩
  | succ n ih =>
    obtain ⟨v₁, m₁, hinit, hlast⟩ := mapPages_snoc hs
    rw [Nat.zero_add] at hlast
    obtain ⟨⟨l₁, L₁, h₁⟩, hdst₁, hsrc₁⟩ := ih hinit
    obtain ⟨⟨l', L', h', -⟩, hmap⟩ := setMapping_translation h₁ hdst hlast
    refine ⟨⟨l', L', h'⟩, fun a => ?_, fun hne a => ?_⟩
    · rw [hmap dst hdst a, getPhysicalAddress_frame _ _ (pageAt_mod hs4 n)]
      by_cases ha : page a = turnPage d n
      · rw [if_pos ⟨rfl, rfl, ha⟩, if_pos ⟨n, Nat.lt_succ_self n, ha⟩]
        have hframe : getPhysicalAddress v₁.tables src (pageAt s n) =
            originFrame v src s dst d (n + 1) (page a) := by
          rw [getPhysicalAddress_eq_getD, translation_pageAt hs4]
          simp only [originFrame, origin, if_pos ha]
          by_cases hsame : src = dst
          · subst hsame
            simp only [decide_true, if_true, ite_self]
            rw [hdst₁, page_mul (turnPage_lt s n)]
            by_cases hj : ∃ j < n, turnPage s n = turnPage d j
            · rw [if_pos hj, originFrame, Option.getD_some]
              simp only [decide_true, ite_self]
              omega
            · rw [if_neg hj, origin_untouched fun j hj' he => hj ⟨j, hj', he⟩,
                getPhysicalAddress_eq_getD]
          · simp only [hsame, decide_false, Bool.false_eq_true, if_false]
            rw [hsrc₁ hsame, getPhysicalAddress_eq_getD]
        rw [hframe]
      · have hiff : (∃ j < n + 1, page a = turnPage d j) ↔ ∃ j < n, page a = turnPage d j := by
          constructor
          · rintro ⟨j, hj, he⟩
            rcases Nat.lt_succ_iff_lt_or_eq.mp hj with hj | rfl
            · exact ⟨j, hj, he⟩
            · exact absurd he ha
          · rintro ⟨j, hj, he⟩
            exact ⟨j, by omega, he⟩
        rw [if_neg fun hc => ha hc.2.2, hdst₁ a]
        simp only [hiff, originFrame, origin, if_neg ha]
    · rw [hmap src hsrc a, if_neg fun hc => hne hc.2.1, hsrc₁ hne a]

end Copies

/-! ### The whole call -/

section Whole

variable {src dst s d : Nat}

/-- What the call promises: a page that is shared was mapped and is the same frame on both
sides, and for a hole no page is mapped. -/
structure Shares (v v' : VMem) (src s dst d n : Nat) (ok : Bool) (m : List (Nat × Nat)) : Prop where
  shared : ok = true → ∀ i < n, ∃ f, translation v.tables src (s + 4096 * i) = some f ∧
    translation v'.tables dst (d + 4096 * i) = some f
  hole : ∀ i < n, translation v.tables src (s + 4096 * i) = none →
    ok = false ∧ ∀ x ∈ m, page x.1 ≠ page (d + 4096 * i)

/-- Some level of the first `n` turns gets no table. -/
def Stuck (fuel : Nat) (v : VMem) (src s dst d : Nat) (rw us : Bool) (n : Nat) : Prop :=
  MeetsTurn (Unserved fuel) fuel dst (fun v i => getPhysicalAddress v.tables src (pageAt s i)) rw us d
    n 0 v

/-- Up to the turn that gets no table, every source page is mapped. When there is none,
a source page that an earlier turn has replaced had the frame that is there now. -/
structure Shareable (fuel : Nat) (v : VMem) (src s dst d n : Nat) (rw us : Bool) : Prop where
  mapped : ∀ i < n, ¬ Stuck fuel v src s dst d rw us (i + 1) →
    translation v.tables src (s + 4096 * i) ≠ none
  agree : ¬ Stuck fuel v src s dst d rw us n → src = dst → ∀ i < n, ∀ k < i,
    turnPage s i = turnPage d k →
      translation v.tables src (s + 4096 * i) = translation v.tables src (s + 4096 * k)

theorem turnPage_eq (a i : Nat) : turnPage a i = page (a + 4096 * i) := page_pageAt a i

theorem mapped_turns (h : m.map Prod.fst = (List.range' 0 m.length).map (pageAt d)) :
    (∀ x ∈ m, ∃ j < m.length, page x.1 = turnPage d j) ∧
      ∀ j < m.length, ∃ x ∈ m, page x.1 = turnPage d j := by
  refine ⟨fun x hx => ?_, fun j hj => ?_⟩
  · have hin : x.1 ∈ m.map Prod.fst := List.mem_map_of_mem hx
    rw [h] at hin
    obtain ⟨j, hj, he⟩ := List.mem_map.mp hin
    exact ⟨j, by simpa using (List.mem_range'_1.mp hj).2, congrArg page he.symm⟩
  · have hin : pageAt d j ∈ m.map Prod.fst := by
      rw [h]
      exact List.mem_map_of_mem (List.mem_range'_1.mpr ⟨Nat.zero_le j, by omega⟩)
    obtain ⟨x, hx, he⟩ := List.mem_map.mp hin
    exact ⟨x, hx, congrArg page he⟩

theorem stuck_mono {k : Nat} (hk : k ≤ n) (h : Stuck fuel v src s dst d rw us k) :
    Stuck fuel v src s dst d rw us n := by
  have hstep : ∀ {k i v}, MeetsTurn (Unserved fuel) fuel dst
      (fun v i => getPhysicalAddress v.tables src (pageAt s i)) rw us d k i v →
        MeetsTurn (Unserved fuel) fuel dst
          (fun v i => getPhysicalAddress v.tables src (pageAt s i)) rw us d (k + 1) i v := by
    intro k
    induction k with
    | zero => exact fun h => h.elim
    | succ k ih =>
      rintro i v (hbad | ⟨v', hx, hrest⟩)
      · exact .inl hbad
      · exact .inr ⟨v', hx, ih hrest⟩
  induction n, hk using Nat.le_induction with
  | base => exact h
  | succ n _ ih => exact hstep ih

/-! ### Which frame arrives -/

theorem origin_last {same : Bool} {S D : Nat → Nat} (hi : i < n)
    (hlast : ∀ j, i < j → j < n → D j ≠ D i) :
    origin same S D n (D i) = if same then origin same S D i (S i) else (false, S i) := by
  induction n with
  | zero => exact absurd hi (Nat.not_lt_zero i)
  | succ n ih =>
    rcases Nat.lt_succ_iff_lt_or_eq.mp hi with hi | rfl
    · rw [origin, if_neg (hlast n hi (Nat.lt_succ_self n)).symm]
      exact ih hi fun j hij hj => hlast j hij (by omega)
    · rw [origin, if_pos rfl]

theorem originFrame_turn (hn : n < 2 ^ 31) (hi : i < n) :
    (src ≠ dst ∨ (∀ k < i, turnPage s i ≠ turnPage d k) → originFrame v src s dst d n (turnPage d i) =
        getPhysicalAddress v.tables src (4096 * turnPage s i)) ∧
      ∀ k < i, src = dst → turnPage s i = turnPage d k →
        originFrame v src s dst d n (turnPage d i) = originFrame v src s dst d n (turnPage d k) := by
  have hlast : ∀ {i n}, n < 2 ^ 31 → i < n → ∀ j, i < j → j < n → turnPage d j ≠ turnPage d i := by
    intro i n hn hi j hij hj he
    have := pageAt_injective (by omega) (by omega) he
    omega
  refine ⟨fun hcase => ?_, fun k hk hsame hsk => ?_⟩
  · simp only [originFrame, origin_last hi (hlast hn hi)]
    by_cases hsame : src = dst
    · rw [origin_untouched (hcase.resolve_left fun hne => hne hsame)]
      simp [hsame]
    · simp [hsame]
  · simp only [originFrame, origin_last hi (hlast hn hi), origin_last (show k < n by omega)
      (hlast hn (by omega)), hsame, decide_true, if_true, ite_self, hsk,
      origin_last hk (hlast (by omega) hk)]

/-- Every turn brings the frame of its source page if and only if the source pages that were
replaced had the frame that replaced theirs. -/
theorem originFrame_iff (hs4 : 4096 ∣ s) (hn : n < 2 ^ 31)
    (hmapped : ∀ i < n, translation v.tables src (s + 4096 * i) ≠ none) :
    (∀ i < n, translation v.tables src (s + 4096 * i) =
        some (originFrame v src s dst d n (turnPage d i))) ↔
      (src = dst → ∀ i < n, ∀ k < i, turnPage s i = turnPage d k →
        translation v.tables src (s + 4096 * i) = translation v.tables src (s + 4096 * k)) := by
  constructor
  · intro hall hsame i hi k hk hsk
    rw [hall i hi, hall k (by omega), (originFrame_turn hn hi).2 k hk hsame hsk]
  · intro hagree i
    induction i using Nat.strongRecOn with
    | ind i ih =>
      intro hi
      by_cases hcase : src ≠ dst ∨ (∀ k < i, turnPage s i ≠ turnPage d k)
      · obtain ⟨f, hf⟩ := Option.ne_none_iff_exists'.mp (hmapped i hi)
        have hpage : translation v.tables src (4096 * turnPage s i) = some f := by
          rw [← hf, turnPage_eq]
          refine translation_congr _ _ ?_ (by omega)
          rw [← turnPage_eq, page_mul (turnPage_lt s i)]
        rw [(originFrame_turn hn hi).1 hcase, getPhysicalAddress_eq_getD, hpage, hf,
          Option.getD_some]
      · obtain ⟨hsame, k, hk, hsk⟩ : src = dst ∧ ∃ k < i, turnPage s i = turnPage d k := by
          simpa using hcase
        rw [hagree hsame i hi k hk hsk, (originFrame_turn hn hi).2 k hk hsame hsk,
          ih k hk (by omega)]

theorem copyPages_shares (h : DirsOk v l L R) (hsrc : src ∈ R) (hdst : dst ∈ R) (hs4 : 4096 ∣ s)
    (hd4 : 4096 ∣ d) (hn : n < 2 ^ 31)
    (hs : copyPages fuel v src s dst d n rw us = some (v', ok, m)) :
    Shares v v' src s dst d n ok m ↔ Shareable fuel v src s dst d n rw us := by
  have hstuck {k : Nat} (hk : k ≤ n) : Stuck fuel v src s dst d rw us k ↔ m.length < k :=
    (mapPages_unserved h hdst hs hk).1
  have hfail : ok = false → m.length < n := (mapPages_unserved h hdst hs le_rfl).2
  obtain ⟨-, -, hfst, -, hall⟩ := mapPages_remapped h hdst hs
  obtain ⟨hmem, hturn⟩ := mapped_turns hfst
  have hok : ¬ Stuck fuel v src s dst d rw us n ↔ ok = true := by
    rw [hstuck le_rfl]
    cases ok with
    | true => simp [hall rfl]
    | false => simp [hfail rfl]
  have hfinal (hok : ok = true) {i : Nat} (hi : i < n) : translation v'.tables dst (d + 4096 * i) =
      some (originFrame v src s dst d n (turnPage d i)) := by
    subst hok
    obtain ⟨-, hget, -⟩ := copyPages_origin h hsrc hdst hs4 hs
    have hmod : (d + 4096 * i) % 2 ^ 12 = 0 := by omega
    rw [hget, hmod, Nat.add_zero, if_pos ⟨i, hi, (turnPage_eq d i).symm⟩, turnPage_eq]
  constructor
  · rintro ⟨hshared, hhole⟩
    refine ⟨fun i hi hgo hnone => ?_, fun hgo => ?_⟩
    · rw [hstuck (by omega)] at hgo
      obtain ⟨x, hx, hpage⟩ := hturn i (by omega)
      exact (hhole i hi hnone).2 x hx (hpage.trans (turnPage_eq d i))
    · rw [hok] at hgo
      refine (originFrame_iff hs4 hn fun i hi => ?_).mp fun i hi => ?_
      · obtain ⟨f, hf, -⟩ := hshared hgo i hi
        simp [hf]
      · obtain ⟨f, hf, hf'⟩ := hshared hgo i hi
        rw [hf, ← hf', hfinal hgo hi]
  · rintro ⟨hmapped, hagree⟩
    have hthere (hgo : ok = true) : ∀ i < n, translation v.tables src (s + 4096 * i) ≠ none :=
      fun i hi => hmapped i hi fun hs => hok.mpr hgo (stuck_mono (by omega) hs)
    refine ⟨fun hgo i hi => ?_, fun i hi hnone => ?_⟩
    · have hframe := (originFrame_iff hs4 hn (hthere hgo)).mpr (hagree (hok.mpr hgo)) i hi
      exact ⟨_, hframe, hfinal hgo hi⟩
    · have hno : ok = false := by
        cases ok with
        | false => rfl
        | true => exact absurd hnone (hthere rfl i hi)
      refine ⟨hno, fun x hx hpage => ?_⟩
      obtain ⟨j, hj, hxj⟩ := hmem x hx
      have hlen := hfail hno
      have hij : i = j := by
        refine pageAt_injective (by omega) (by omega) (?_ : turnPage d i = turnPage d j)
        rw [turnPage_eq, ← hpage, hxj]
      refine hmapped i hi ?_ hnone
      rw [hstuck (by omega)]
      omega

/-- `set_mappingvv` shares pages as it promises if and only if every source page is mapped,
up to the turn that gets no table, and no turn has put another frame in its place. -/
theorem setMappingvv_shares {srcAddr dstAddr : Nat} (h : DirsOk v l L R) (hsrc : src ∈ R)
    (hdst : dst ∈ R) (hn : n < 2 ^ 31)
    (hs : setMappingvv fuel v src srcAddr dst dstAddr (n : Nat) rw us = some (v', ok, m)) :
    Shares v v' src (srcAddr / 4096 * 4096) dst (dstAddr / 4096 * 4096) n ok m ↔
      Shareable fuel v src (srcAddr / 4096 * 4096) dst (dstAddr / 4096 * 4096) n rw us :=
  copyPages_shares h hsrc hdst (Nat.dvd_mul_left _ _) (Nat.dvd_mul_left _ _) hn hs

end Whole

theorem setMappingvv_shares_one : ∃ v' ok m,
    setMappingvv 40 eightPages 0x1000 0x400123 0x3000 0x800000 (1 : Nat) true true =
        some (v', ok, m) ∧
      (Shares eightPages v' 0x1000 (0x400123 / 4096 * 4096) 0x3000 (0x800000 / 4096 * 4096) 1 ok m ↔
        Shareable 40 eightPages 0x1000 (0x400123 / 4096 * 4096) 0x3000 (0x800000 / 4096 * 4096) 1
          true true) := by
  obtain ⟨⟨v', ok, m⟩, hr⟩ := Option.isSome_iff_exists.mp
    (show (setMappingvv 40 eightPages 0x1000 0x400123 0x3000 0x800000 (1 : Nat) true true).isSome
      by decide +kernel)
  exact ⟨v', ok, m, hr, setMappingvv_shares (eightPages_dirs (R := [0x1000, 0x3000]) (by simp))
    (by simp) (by simp) (by decide) hr⟩

/-- A page that is not mapped: the call returns true, and the page is physical page 0. -/
theorem setMappingvv_hole : ∃ v l L R fuel src srcAddr dst dstAddr v' m,
    DirsOk v l L R ∧ src ∈ R ∧ dst ∈ R ∧
      setMappingvv fuel v src srcAddr dst dstAddr (1 : Nat) true true = some (v', true, m) ∧
      translation v'.tables dst dstAddr = some 0 ∧
      ¬ Shares v v' src (srcAddr / 4096 * 4096) dst (dstAddr / 4096 * 4096) 1 true m := by
  have hrun : (setMappingvv 40 eightPages 0x1000 0x400000 0x3000 0x800000 (1 : Nat) true true).map
      (fun r => decide (r.2.1 = true ∧ translation r.1.tables 0x3000 0x800000 = some 0)) =
        some true := by
    decide +kernel
  obtain ⟨⟨v', ok, m⟩, hr, hd⟩ := Option.map_eq_some_iff.mp hrun
  obtain ⟨rfl, h0⟩ := of_decide_eq_true hd
  refine ⟨eightPages, _, roomyLists, [0x1000, 0x3000], 40, 0x1000, 0x400000, 0x3000, 0x800000, v', m,
    eightPages_dirs (by simp), by simp, by simp, hr, h0, fun hshares => ?_⟩
  obtain ⟨f, hf, -⟩ := hshares.shared rfl 0 (by decide)
  have hnone : translation eightPages.tables 0x1000 0x400000 = none := by decide +kernel
  simp [hnone] at hf

end Vm

end TayHuang
