import TayHuang.RangeMapping

/-! A call that gets no page for a table. The entry of the missing table is already present
by then, and it stays behind with frame 0. -/

namespace TayHuang

namespace Vm

open Fuel Radix Tilings

variable {v v' : VMem} {l : List Seg} {L : Nat → List (Nat × Nat)} {R : List Nat}
  {fuel pgd va pa n i t r : Nat} {rw us ok : Bool} {q : List Nat} {m : List (Nat × Nat)}

/-- `alloc_pages(0)` is asked for the table below an entry, and returns `NULL`. -/
def Refused (fuel : Nat) (v : VMem) (t i : Nat) : Prop :=
  (v.entry t i).p = false ∧ ∃ s, allocPages fuel v.kmem 0 = some (s, 0)

/-- One of the levels that `__set_mapping` enters is `bad`. -/
def MeetsLevel (bad : VMem → Nat → Nat → Prop) (fuel : Nat) (rw us : Bool) :
    List Nat → VMem → Nat → Prop
  | [], _, _ => False
  | i :: q, v, t => bad v t i ∨
    ∃ r, enterTable fuel v t i rw us = some r ∧ r.2 ≠ 0 ∧ MeetsLevel bad fuel rw us q r.1 r.2

/-- One of the turns of the loop meets a `bad` level. -/
def MeetsTurn (bad : VMem → Nat → Nat → Prop) (fuel pgd : Nat) (frame : VMem → Nat → Nat)
    (rw us : Bool) (va : Nat) : Nat → Nat → VMem → Prop
  | 0, _, _ => False
  | n + 1, i, v => MeetsLevel bad fuel rw us (upper (pageAt va i)) v pgd ∨
    ∃ v', __setMapping fuel v pgd (pageAt va i) (frame v i) rw us = some (v', true) ∧
      MeetsTurn bad fuel pgd frame rw us va n (i + 1) v'

/-- The tables after a call are sound: no entry of an upper level refers to frame 0, page 0
is as it was, and what was mapped is still mapped. -/
structure Sound (v v' : VMem) (pgd : Nat) : Prop where
  linked : ∀ q t i, q.length ≤ 2 → walk (child v'.tables) pgd q = some t →
    (v'.entry t i).p = true → ofField (v'.entry t i).address ≠ 0
  null : ∀ i, v'.entry 0 i = v.entry 0 i
  kept : ∀ a f, translation v.tables pgd a = some f → translation v'.tables pgd a = some f

theorem walk_child_of_descend {e : Nat → Nat → PageEntry} (fr : List Nat) {u : Nat}
    (hw : walk (descend R e) (some t) q = some (some u)) : walk (child ⟨e, fr⟩) t q = some u := by
  induction q generalizing t with
  | nil => simpa [walk] using hw
  | cons i q ih =>
    simp only [walk, descend] at hw
    obtain ⟨x, hx, hrest⟩ := Option.bind_eq_some_iff.mp hw
    obtain ⟨c, hc, rfl⟩ := Option.map_eq_some_iff.mp hx
    rw [below] at hc
    split at hc
    · next hp =>
      obtain rfl := Option.some.inj hc
      simp only [walk, child, hp.1, if_true, Option.bind_some]
      exact ih hrest
    · simp at hc

theorem enterTable_refused (h : DirsOk v l L R) (hq : walk (descend R v.entry) none q = some (some t))
    (hd : q.length ≤ 3) (hbad : Refused fuel v t i)
    (hs : enterTable fuel v t i rw us = some (v', r)) :
    r = 0 ∧ walk (descend R v'.entry) none q = some (some t) ∧ (v'.entry t i).p = true ∧
      ofField (v'.entry t i).address = 0 := by
  obtain ⟨hp, s, hx⟩ := hbad
  have hzero := h.unreached_zero
  have hft : 0 ≠ t := by
    rintro rfl
    exact hzero q (by omega) hq
  obtain ⟨-, rfl, hnew⟩ := enterTable_new_entry rw us hp hft (by decide) hs hx
  refine ⟨rfl, ?_, hnew.present, hnew.address⟩
  rw [walk_new h.tree hq hd hnew hzero (by omega), if_neg fun hc => hc.2 rfl]
  exact hq

theorem not_sound (w : VMem) (hlen : q.length ≤ 2)
    (hw : walk (descend R v'.entry) none (pgd :: q) = some (some t))
    (hp : (v'.entry t i).p = true) (h0 : ofField (v'.entry t i).address = 0) : ¬ Sound w v' pgd := by
  intro hsound
  simp only [walk, descend] at hw
  split at hw
  · exact hsound.linked q t i hlen (walk_child_of_descend [] hw) hp h0
  · simp at hw

theorem setMapping_refused (w : VMem) (h : DirsOk v l L R) (hpgd : pgd ∈ R)
    (hbad : MeetsLevel (Refused fuel) fuel rw us (upper va) v pgd)
    (hs : __setMapping fuel v pgd va pa rw us = some (v', ok)) : ok = false ∧ ¬ Sound w v' pgd := by
  simp only [__setMapping] at hs
  obtain ⟨⟨v₁, r₁⟩, hx₁, hs⟩ := Option.bind_eq_some_iff.mp hs
  rcases hbad with hbad | ⟨s₁, hy₁, h0₁, hbad⟩
  · obtain ⟨rfl, hw, hp, h0⟩ := enterTable_refused h (descend_root hpgd) (by simp) hbad hx₁
    obtain ⟨rfl, rfl⟩ : v₁ = v' ∧ false = ok := by simpa using hs
    exact ⟨rfl, not_sound w (q := []) (by simp) hw hp h0⟩
  obtain rfl := Option.some.inj (hx₁.symm.trans hy₁)
  obtain ⟨⟨l₁, L₁, ok₁, -⟩, he₁⟩ := enterTable_entered h (descend_root hpgd) (by simp) hx₁
  simp only [if_neg h0₁] at hs
  obtain ⟨⟨v₂, r₂⟩, hx₂, hs⟩ := Option.bind_eq_some_iff.mp hs
  rcases hbad with hbad | ⟨s₂, hy₂, h0₂, hbad⟩
  · obtain ⟨rfl, hw, hp, h0⟩ := enterTable_refused ok₁ (he₁.table h0₁) (by simp) hbad hx₂
    obtain ⟨rfl, rfl⟩ : v₂ = v' ∧ false = ok := by simpa using hs
    exact ⟨rfl, not_sound w (q := [pml4eIdx va]) (by simp) hw hp h0⟩
  obtain rfl := Option.some.inj (hx₂.symm.trans hy₂)
  obtain ⟨⟨l₂, L₂, ok₂, -⟩, he₂⟩ := enterTable_entered ok₁ (he₁.table h0₁) (by simp) hx₂
  simp only [if_neg h0₂] at hs
  obtain ⟨⟨v₃, r₃⟩, hx₃, hs⟩ := Option.map_eq_some_iff.mp hs
  rcases hbad with hbad | ⟨s₃, -, -, hbad⟩
  · obtain ⟨rfl, hw, hp, h0⟩ := enterTable_refused ok₂ (he₂.table h0₂) (by simp) hbad hx₃
    obtain ⟨rfl, rfl⟩ : v₃ = v' ∧ false = ok := by simpa using hs
    exact ⟨rfl, not_sound w (q := [pml4eIdx va, pdpteIdx va]) (by simp) hw hp h0⟩
  · exact hbad.elim

theorem mapPages_refused {frame : VMem → Nat → Nat} (w : VMem) (h : DirsOk v l L R) (hpgd : pgd ∈ R)
    (hbad : MeetsTurn (Refused fuel) fuel pgd frame rw us va n i v)
    (hs : mapPages fuel pgd frame rw us va n i v = some (v', ok, m)) :
    ok = false ∧ ¬ Sound w v' pgd := by
  replace hs := mapPages_iff.mp hs
  induction hs generalizing l L with
  | done => exact hbad.elim
  | turn hx hrest ih =>
    rcases hbad with hbad | ⟨v₂, hy, hbad⟩
    · exact absurd (setMapping_refused w h hpgd hbad hx).1 (by simp)
    · obtain rfl := (Prod.mk.inj (Option.some.inj (hx.symm.trans hy))).1
      obtain ⟨⟨l₁, L₁, h₁, -⟩, -⟩ := setMapping_translation h hpgd hx
      exact ih h₁ hbad
  | stuck hx =>
    rcases hbad with hbad | ⟨v₂, hy, -⟩
    · exact setMapping_refused w h hpgd hbad hx
    · exact absurd (hx.symm.trans hy) (by simp)

/-- A call that is refused a page for a table returns false, and never leaves sound tables. -/
theorem setMapping_unsound {pages : Int} (h : DirsOk v l L R) (hpgd : pgd ∈ R)
    (hbad : MeetsTurn (Refused fuel) fuel pgd (fun _ i => pageAt pa i) rw us (va / 4096 * 4096)
      pages.toNat 0 v)
    (hs : setMapping fuel v pgd va pa pages rw us = some (v', ok, m)) :
    ok = false ∧ ¬ Sound v v' pgd :=
  mapPages_refused v h hpgd hbad hs

/-- A directory without tables, and not one free page. -/
def noPages : VMem := ⟨{ roomyHeap with listHead := fun _ => none }, fun _ _ => .zero⟩

theorem noPages_dirs (h0 : 0 ∉ R) : DirsOk noPages
    [⟨0x60000, 64, true⟩, ⟨0x60040, 0xfc0, false⟩] (fun _ => []) R := by
  have hbag : bag (recorded fun _ => []) = 0 := by
    rw [recorded_empty, bag_zero]
  have hnone (k : Nat) : k ∉ bag (recorded fun _ => []) := by simp [hbag]
  have hacc : Accounted noPages.kmem [⟨0x60000, 64, true⟩, ⟨0x60040, 0xfc0, false⟩] (fun _ => []) [] := by
    refine ⟨?_, ⟨fun _ _ => rfl, by simp [LinkedCells.Chained], by simp, by simp, by simp⟩,
      by simp [NodesIn], ?_, ?_⟩
    · obtain ⟨hstart, hlaid, harena⟩ := roomyHeap_heapAt
      exact ⟨hstart, hlaid, harena.nonempty, harena.pos, harena.apart,
        fun x _ k _ => by simp [hbag], harena.merged⟩
    · simp [hbag]
    · simp [hbag]
  refine .fresh hacc ?_ (fun k hk => absurd hk (hnone k)) (fun _ _ _ => rfl)
    (fun r _ => hnone r) h0
  rw [recorded_empty]
  simp [Paged]

theorem noPages_refused (fuel pgd : Nat) (i : Nat) : Refused fuel noPages pgd i :=
  ⟨rfl, _, allocPages_none (fun _ _ => rfl) fuel⟩

theorem noPages_meets (va pa : Nat) : MeetsTurn (Refused 0) 0 0x1000 (fun _ i => pageAt pa i) true
    true (va / 4096 * 4096) (1 : Int).toNat 0 noPages :=
  .inl (.inl (noPages_refused 0 0x1000 _))

theorem setMapping_unsound_one : ∃ v' ok m,
    setMapping 0 noPages 0x1000 0x400000 0x800000 1 true true = some (v', ok, m) ∧
      ok = false ∧ ¬ Sound noPages v' 0x1000 := by
  obtain ⟨⟨v', ok, m⟩, hr⟩ := Option.isSome_iff_exists.mp
    (show (setMapping 0 noPages 0x1000 0x400000 0x800000 1 true true).isSome by decide +kernel)
  exact ⟨v', ok, m, hr, setMapping_unsound (noPages_dirs (R := [0x1000]) (by simp)) (by simp)
    (noPages_meets _ _) hr⟩

/-- The entry of the page map is present, with frame 0. -/
theorem setMapping_null : ∃ v l L R fuel pgd va pa v' ok m, DirsOk v l L R ∧ pgd ∈ R ∧
    MeetsTurn (Refused fuel) fuel pgd (fun _ i => pageAt pa i) true true (va / 4096 * 4096) 1 0 v ∧
    setMapping fuel v pgd va pa 1 true true = some (v', ok, m) ∧ ¬ Sound v v' pgd := by
  obtain ⟨⟨v', ok, m⟩, hr⟩ := Option.isSome_iff_exists.mp
    (show (setMapping 0 noPages 0x1000 0x400000 0x800000 1 true true).isSome by decide +kernel)
  have hentry : (setMapping 0 noPages 0x1000 0x400000 0x800000 1 true true).map
      (fun r => decide ((r.1.entry 0x1000 0).p = true ∧ ofField (r.1.entry 0x1000 0).address = 0)) =
        some true := by
    decide +kernel
  rw [hr] at hentry
  obtain ⟨hp, h0⟩ := of_decide_eq_true (Option.some.inj hentry)
  exact ⟨noPages, _, fun _ => [], [0x1000], 0, 0x1000, 0x400000, 0x800000, v', ok, m,
    noPages_dirs (by simp), by simp, noPages_meets _ _, hr,
    fun hsound => hsound.linked [] 0x1000 0 (by simp) rfl hp h0⟩

end Vm

end TayHuang
