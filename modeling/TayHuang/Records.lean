import Mathlib.Data.List.Basic
import Mathlib.Logic.Function.Basic

/-! A stream that several hands add to, each in portions of `k`. When nobody adds while
another has an open portion, the stream is a sequence of whole portions. -/

namespace Records

open Function (update forall_update_iff)

variable {ι β : Type*} {k j : Nat} {l : List β} {part : ι → List β} {t : ι}

/-- The `j`-th portion. -/
def block (k : Nat) (l : List β) (j : Nat) : List β := (l.drop (j * k)).take k

/-- A portion that has begun and is not complete. -/
def Open (k : Nat) (p : List β) : Prop := p ≠ [] ∧ p.length < k

theorem not_open_nil : ¬ Open k ([] : List β) := fun h => h.1 rfl

theorem not_open_whole {p : List β} (h : p.length = k) : ¬ Open k p := fun hp => Nat.ne_of_lt hp.2 h

theorem mul_le_of_lt_div (hj : j < l.length / k) : j * k + k ≤ l.length := by
  have hh := (Nat.le_div_iff_mul_le (Nat.pos_of_ne_zero fun h0 => by simp [h0] at hj)).mp hj
  rwa [Nat.succ_mul] at hh

theorem block_append (hj : j < l.length / k) (m : List β) : block k (l ++ m) j = block k l j := by
  have hle := mul_le_of_lt_div hj
  rw [block, block, List.drop_append_of_le_length (by omega),
    List.take_append_of_le_length (by rw [List.length_drop]; omega)]

/-- What each hand has added of its portion: a whole one stands in the stream, and an open
one is the end of the stream. -/
structure Portioned (k : Nat) (l : List β) (part : ι → List β) : Prop where
  le : ∀ t, (part t).length ≤ k
  whole : ∀ t, (part t).length = k → ∃ j < l.length / k, part t = block k l j
  alone : ∀ t u, Open k (part t) → Open k (part u) → t = u
  last : ∀ t, Open k (part t) → part t = l.drop (l.length / k * k)
  rest : (∀ t, ¬ Open k (part t)) → l.drop (l.length / k * k) = []

theorem Portioned.nil (hk : 0 < k) (h : ∀ t, part t = []) : Portioned k [] part := by
  refine ⟨fun t => by simp [h], fun t ht => ?_, fun t u ht => absurd (h t) ht.1,
    fun t ht => absurd (h t) ht.1, fun _ => List.drop_nil⟩
  rw [h, List.length_nil] at ht
  omega

variable [DecidableEq ι]

theorem not_open_update {p : List β} (hp : ¬ Open k p) (h : ∀ u, u ≠ t → ¬ Open k (part u)) :
    ∀ u, ¬ Open k (update part t p u) :=
  (forall_update_iff part (p := fun _ p => ¬ Open k p)).mpr ⟨hp, h⟩

theorem Portioned.reset (h : Portioned k l part) (hk : 0 < k) (ht : (part t).length = k) :
    Portioned k l (update part t []) := by
  refine ⟨?_, ?_, ?_, ?_, fun hall => h.rest fun u hu => ?_⟩
  · exact (forall_update_iff part (p := fun _ p => p.length ≤ k)).mpr
      ⟨Nat.zero_le k, fun u _ => h.le u⟩
  · refine (forall_update_iff part
      (p := fun _ p => p.length = k → ∃ j < l.length / k, p = block k l j)).mpr
      ⟨fun h0 => absurd h0 (Nat.ne_of_lt hk), fun u _ => h.whole u⟩
  · refine (forall_update_iff part
      (p := fun t p => ∀ u, Open k p → Open k (update part _ [] u) → t = u)).mpr
      ⟨fun u h0 => absurd h0 not_open_nil, fun u _ v hu => ?_⟩
    revert v
    exact (forall_update_iff part (p := fun v p => Open k p → u = v)).mpr
      ⟨fun h0 => absurd h0 not_open_nil, fun v _ => h.alone u v hu⟩
  · exact (forall_update_iff part
      (p := fun _ p => Open k p → p = l.drop (l.length / k * k))).mpr
      ⟨fun h0 => absurd h0 not_open_nil, fun u _ => h.last u⟩
  · by_cases he : u = t
    · subst he
      exact not_open_whole ht hu
    · refine hall u ?_
      rwa [Function.update_of_ne he]

section Push

variable (h : Portioned k l part) (ht : (part t).length < k)
  (halone : ∀ u, u ≠ t → ¬ Open k (part u)) (x : β)

include h ht halone

/-- What `t` has added so far is the end of the stream, when no other portion is open. -/
theorem Portioned.tail : part t = l.drop (l.length / k * k) := by
  by_cases he : part t = []
  · rw [he, h.rest]
    intro u hu
    by_cases hut : u = t
    · subst hut
      exact hu.1 he
    · exact halone u hut hu
  · exact h.last t ⟨he, ht⟩

theorem Portioned.length_eq : l.length = l.length / k * k + (part t).length := by
  have hmul := Nat.div_mul_le_self l.length k
  rw [h.tail ht halone, List.length_drop]
  omega

theorem Portioned.drop_push : (l ++ [x]).drop (l.length / k * k) = part t ++ [x] := by
  rw [List.drop_append_of_le_length (Nat.div_mul_le_self _ _), ← h.tail ht halone]

theorem Portioned.div_open (hlt : (part t).length + 1 < k) :
    (l ++ [x]).length / k = l.length / k := by
  have hlen := h.length_eq ht halone
  have hnew : (l ++ [x]).length = k * (l.length / k) + ((part t).length + 1) := by
    rw [Nat.mul_comm, List.length_append, List.length_singleton]
    omega
  rw [hnew, Nat.mul_add_div (by omega), Nat.div_eq_of_lt hlt, Nat.add_zero]

theorem Portioned.length_whole (hfull : (part t).length + 1 = k) :
    (l ++ [x]).length = (l.length / k + 1) * k := by
  have hlen := h.length_eq ht halone
  rw [Nat.succ_mul, List.length_append, List.length_singleton]
  omega

theorem Portioned.div_whole (hfull : (part t).length + 1 = k) :
    (l ++ [x]).length / k = l.length / k + 1 := by
  rw [h.length_whole ht halone x hfull, Nat.mul_div_cancel _ (by omega)]

theorem Portioned.block_whole (hfull : (part t).length + 1 = k) :
    block k (l ++ [x]) (l.length / k) = part t ++ [x] := by
  rw [block, h.drop_push ht halone, List.take_of_length_le]
  simp only [List.length_append, List.length_singleton]
  omega

/-- One more of the portion of `t`. -/
theorem Portioned.push : Portioned k (l ++ [x]) (update part t (part t ++ [x])) := by
  have hpart : (part t ++ [x]).length = (part t).length + 1 := by simp
  have hgrow : l.length / k ≤ (l ++ [x]).length / k := Nat.div_le_div_right (by simp)
  have hwhole : ∀ u, (part u).length = k → ∃ j < (l ++ [x]).length / k,
      part u = block k (l ++ [x]) j := by
    intro u hu
    obtain ⟨j, hj, he⟩ := h.whole u hu
    exact ⟨j, by omega, by rw [block_append hj, he]⟩
  have hle : ∀ u, (update part t (part t ++ [x]) u).length ≤ k :=
    (forall_update_iff part (p := fun _ p => p.length ≤ k)).mpr
      ⟨by omega, fun u _ => h.le u⟩
  rcases Nat.lt_or_ge ((part t).length + 1) k with hlt | hge
  · have hdrop := h.drop_push ht halone x
    have hopen : ∀ u, Open k (update part t (part t ++ [x]) u) → u = t :=
      (forall_update_iff part (p := fun u p => Open k p → u = t)).mpr
        ⟨fun _ => rfl, fun u hne hu => absurd hu (halone u hne)⟩
    refine ⟨hle, ?_, fun u v hu hv => (hopen u hu).trans (hopen v hv).symm, ?_, fun hall => ?_⟩
    · exact (forall_update_iff part (p := fun _ p => p.length = k → ∃ j < (l ++ [x]).length / k,
        p = block k (l ++ [x]) j)).mpr ⟨fun hk => by omega, fun u _ => hwhole u⟩
    · rw [h.div_open ht halone x hlt, hdrop]
      exact (forall_update_iff part (p := fun _ p => Open k p → p = part t ++ [x])).mpr
        ⟨fun _ => rfl, fun u hne hu => absurd hu (halone u hne)⟩
    · refine absurd ?_ (hall t)
      rw [Function.update_self]
      exact ⟨by simp, by omega⟩
  · have hfull : (part t).length + 1 = k := by omega
    have hclosed := not_open_update (p := part t ++ [x]) (not_open_whole (by omega)) halone
    refine ⟨hle, ?_, fun u v hu => absurd hu (hclosed u), fun u hu => absurd hu (hclosed u),
      fun _ => ?_⟩
    · exact (forall_update_iff part (p := fun _ p => p.length = k → ∃ j < (l ++ [x]).length / k,
        p = block k (l ++ [x]) j)).mpr
        ⟨fun _ => ⟨l.length / k, by rw [h.div_whole ht halone x hfull]; omega,
          (h.block_whole ht halone x hfull).symm⟩, fun u _ => hwhole u⟩
    · rw [h.div_whole ht halone x hfull, ← h.length_whole ht halone x hfull, List.drop_length]

/-- The portions are those from before, or the one that `t` has completed. -/
theorem Portioned.blocks_push {j : Nat} (hj : j < (l ++ [x]).length / k) :
    j < l.length / k ∧ block k (l ++ [x]) j = block k l j ∨
      block k (l ++ [x]) j = part t ++ [x] ∧ (part t ++ [x]).length = k := by
  have hpart : (part t ++ [x]).length = (part t).length + 1 := by simp
  by_cases hold : j < l.length / k
  · exact .inl ⟨hold, block_append hold [x]⟩
  rcases Nat.lt_or_ge ((part t).length + 1) k with hlt | hge
  · rw [h.div_open ht halone x hlt] at hj
    exact absurd hj hold
  · have hfull : (part t).length + 1 = k := by omega
    rw [h.div_whole ht halone x hfull] at hj
    obtain rfl : j = l.length / k := by omega
    exact .inr ⟨h.block_whole ht halone x hfull, by omega⟩

end Push

/-- Nothing, or one more while no other portion is open. -/
def Polite (k : Nat) (part : ι → List β) (t : ι) (m : List β) : Prop :=
  m = [] ∨ ∃ x, m = [x] ∧ ∀ u, u ≠ t → ¬ Open k (part u)

theorem Portioned.extend {m : List β} (h : Portioned k l part) (hm : Polite k part t m)
    (hle : (part t ++ m).length ≤ k) : Portioned k (l ++ m) (update part t (part t ++ m)) := by
  rcases hm with rfl | ⟨x, rfl, halone⟩
  · rw [List.append_nil, List.append_nil, Function.update_eq_self]
    exact h
  · rw [List.length_append, List.length_singleton] at hle
    exact h.push hle halone x

theorem Portioned.blocks_extend {m : List β} (h : Portioned k l part) (hm : Polite k part t m)
    (hle : (part t ++ m).length ≤ k) {j : Nat} (hj : j < (l ++ m).length / k) :
    j < l.length / k ∧ block k (l ++ m) j = block k l j ∨
      block k (l ++ m) j = part t ++ m ∧ (part t ++ m).length = k := by
  rcases hm with rfl | ⟨x, rfl, halone⟩
  · rw [List.append_nil] at hj ⊢
    exact .inl ⟨hj, rfl⟩
  · rw [List.length_append, List.length_singleton] at hle
    exact h.blocks_push hle halone x hj

end Records
