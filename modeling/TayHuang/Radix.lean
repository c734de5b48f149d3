import Mathlib.Data.List.Induction

/-! Trees of tables in memory, entered by a list of indices. The tables up to a
given depth form a tree when no two ways into them lead to the same table. -/

namespace Radix

variable {α ι : Type*}

/-- The table that the indices lead to; `child t i` is the table below entry `i`
of `t`. -/
def walk (child : α → ι → Option α) (t : α) : List ι → Option α
  | [] => some t
  | i :: is => (child t i).bind fun u => walk child u is

/-- The ways of length at most `d` from the root lead to different tables. -/
def IsTree (child : α → ι → Option α) (root : α) (d : Nat) : Prop :=
  ∀ p q f, p.length ≤ d → q.length ≤ d → walk child root p = some f →
    walk child root q = some f → p = q

/-- No way of length at most `d` leads to `f`. -/
def Unreached (child : α → ι → Option α) (root : α) (d : Nat) (f : α) : Prop :=
  ∀ p, p.length ≤ d → walk child root p ≠ some f

variable {child child' : α → ι → Option α} {root t f g : α} {d : Nat} {p q : List ι} {i j : ι}

@[simp] theorem walk_nil : walk child t [] = some t := rfl

theorem walk_append : walk child t (p ++ q) = (walk child t p).bind fun u => walk child u q := by
  induction p generalizing t with
  | nil => rfl
  | cons i p ih =>
    simp only [List.cons_append, walk]
    cases child t i with
    | none => rfl
    | some u => exact ih

theorem walk_concat : walk child t (p ++ [i]) = (walk child t p).bind fun u => child u i := by
  rw [walk_append]
  cases walk child t p with
  | none => rfl
  | some u =>
    simp only [Option.bind_some, walk]
    cases child u i <;> rfl

theorem walk_congr_unreached (h : Unreached child root d g)
    (hother : ∀ u j, u ≠ g → child' u j = child u j) (hq : q.length ≤ d) :
    walk child' root q = walk child root q := by
  induction q using List.reverseRecOn with
  | nil => rfl
  | append_singleton q j ih =>
    rw [List.length_append, List.length_singleton] at hq
    rw [walk_concat, walk_concat, ih (by omega)]
    cases hu : walk child root q with
    | none => rfl
    | some u => exact hother u j fun he => h q (by omega) (he ▸ hu)

theorem walk_congr_leaf (h : IsTree child root d) (hp : walk child root p = some t)
    (hd : p.length = d) (hother : ∀ u j, u ≠ t → child' u j = child u j) (hq : q.length ≤ d) :
    walk child' root q = walk child root q := by
  induction q using List.reverseRecOn with
  | nil => rfl
  | append_singleton q j ih =>
    rw [List.length_append, List.length_singleton] at hq
    rw [walk_concat, walk_concat, ih (by omega)]
    cases hu : walk child root q with
    | none => rfl
    | some u =>
      have hut : u ≠ t := by
        rintro rfl
        have := h q p u (by omega) (by omega) hu hp
        rw [this] at hq
        omega
      exact hother u j hut

section Link

variable (h : IsTree child root d) (hp : walk child root p = some t) (hd : p.length < d)
  (habsent : child t i = none) (hfresh : Unreached child root d g) (hlink : child' t i = some g)
  (hempty : ∀ j, child' g j = none) (hother : ∀ u j, u ≠ g → ¬ (u = t ∧ j = i) → child' u j = child u j)

include h hp hd habsent hfresh hlink hempty hother

/-- A new empty table below an empty entry adds one way and changes no other. -/
theorem walk_link (hq : q.length ≤ d) :
    (q = p ++ [i] → walk child' root q = some g) ∧
      (q ≠ p ++ [i] → walk child' root q = walk child root q) := by
  induction q using List.reverseRecOn with
  | nil => exact ⟨fun he => by simp at he, fun _ => rfl⟩
  | append_singleton q j ih =>
    rw [List.length_append, List.length_singleton] at hq
    obtain ⟨ih1, ih2⟩ := ih (by omega)
    rw [walk_concat, walk_concat]
    by_cases hqp : q = p ++ [i]
    · -- below the new table there is nothing, as there was nothing before
      have hnone : walk child root q = none := by
        rw [hqp, walk_concat, hp]
        exact habsent
      refine ⟨fun he => ?_, fun _ => ?_⟩
      · have hlen := congrArg List.length he
        rw [hqp] at hlen
        simp at hlen
      · rw [ih1 hqp, hnone]
        exact hempty j
    · rw [ih2 hqp]
      cases hu : walk child root q with
      | none =>
        refine ⟨fun he => ?_, fun _ => rfl⟩
        obtain ⟨rfl, -⟩ := List.append_inj' he rfl
        rw [hp] at hu
        simp at hu
      | some u =>
        have hug : u ≠ g := fun he => hfresh q (by omega) (he ▸ hu)
        by_cases hut : u = t
        · subst hut
          obtain rfl := h q p u (by omega) (by omega) hu hp
          by_cases hji : j = i
          · subst hji
            exact ⟨fun _ => hlink, fun hne => absurd rfl hne⟩
          · refine ⟨fun he => ?_, fun _ => hother u j hug fun hc => hji hc.2⟩
            obtain ⟨-, he⟩ := List.append_inj' he rfl
            exact absurd (List.cons.inj he).1 hji
        · refine ⟨fun he => ?_, fun _ => hother u j hug fun hc => hut hc.1⟩
          obtain ⟨rfl, -⟩ := List.append_inj' he rfl
          rw [hp] at hu
          exact absurd (Option.some.inj hu).symm hut

theorem IsTree.link : IsTree child' root d := by
  intro a b f ha hb hfa hfb
  have hwalk := fun {q : List ι} (hq : q.length ≤ d) =>
    walk_link h hp hd habsent hfresh hlink hempty hother hq
  by_cases hae : a = p ++ [i] <;> by_cases hbe : b = p ++ [i]
  · rw [hae, hbe]
  · rw [(hwalk ha).1 hae] at hfa
    rw [(hwalk hb).2 hbe, ← hfa] at hfb
    exact absurd hfb (hfresh b hb)
  · rw [(hwalk hb).1 hbe] at hfb
    rw [(hwalk ha).2 hae, ← hfb] at hfa
    exact absurd hfa (hfresh a ha)
  · rw [(hwalk ha).2 hae] at hfa
    rw [(hwalk hb).2 hbe] at hfb
    exact h a b f ha hb hfa hfb

theorem Unreached.link (hf : Unreached child root d f) (hfg : f ≠ g) :
    Unreached child' root d f := by
  intro a ha
  have hwalk := walk_link h hp hd habsent hfresh hlink hempty hother ha
  by_cases hae : a = p ++ [i]
  · rw [hwalk.1 hae]
    exact fun he => hfg (Option.some.inj he).symm
  · rw [hwalk.2 hae]
    exact hf a ha

end Link

end Radix
