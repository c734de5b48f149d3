import TayHuang.FreeLists
import Mathlib.Algebra.BigOperators.Group.Finset.Basic
import Mathlib.Algebra.Order.BigOperators.Group.Finset
import Mathlib.Data.Multiset.AddSub

/-! Several blocks returned one after another. The two loops over a page count
are one walk over the list of blocks that they cut it into. -/

namespace TayHuang

open Function (update)
open LinkedCells Fuel

variable {mem : Set Nat} {s : KMem} {l : List Seg} {L : Nat → List (Nat × Nat)}

/-- Every tail pointer, that of an empty list included. -/
def TailsAt (s : KMem) (L : Nat → List (Nat × Nat)) : Prop :=
  ∀ o ≤ 9, s.listTail o = (L o).getLast?.map Prod.fst

/-- The blocks in one list, as order and address. -/
def blocksOf (o : Nat) (xs : List (Nat × Nat)) : Multiset (Nat × Nat) :=
  (xs.map fun x => (o, x.2) : List (Nat × Nat))

/-- The blocks in all lists. -/
def recorded (L : Nat → List (Nat × Nat)) : Multiset (Nat × Nat) :=
  ∑ o ∈ Finset.range 10, blocksOf o (L o)

/-- A sum over the lists when one of them changes. -/
theorem sum_update {α : Type*} (f : Nat → List (Nat × Nat) → Multiset α) {o : Nat}
    (xs : List (Nat × Nat)) (ho : o ≤ 9) :
    (∑ j ∈ Finset.range 10, f j (update L o xs j)) + f o (L o) =
      (∑ j ∈ Finset.range 10, f j (L j)) + f o xs := by
  have hm : o ∈ Finset.range 10 := by simp; omega
  have hrest : ∑ j ∈ (Finset.range 10).erase o, f j (update L o xs j) =
      ∑ j ∈ (Finset.range 10).erase o, f j (L j) := by
    apply Finset.sum_congr rfl
    intro j hj
    rw [Function.update_of_ne (Finset.ne_of_mem_erase hj)]
  rw [← Finset.add_sum_erase _ _ hm, ← Finset.add_sum_erase _ (fun j => f j (L j)) hm, hrest,
    Function.update_self]
  ac_rfl

theorem recorded_update {o : Nat} (xs : List (Nat × Nat)) (ho : o ≤ 9) :
    recorded (update L o xs) + blocksOf o (L o) = recorded L + blocksOf o xs :=
  sum_update blocksOf xs ho

theorem recorded_push {o p a : Nat} (ho : o ≤ 9) :
    recorded (update L o (L o ++ [(p, a)])) = recorded L + {(o, a)} := by
  have hh := recorded_update (L := L) (L o ++ [(p, a)]) ho
  have hb : blocksOf o (L o ++ [(p, a)]) = blocksOf o (L o) + {(o, a)} := by
    simp [blocksOf, ← Multiset.coe_add]
  rw [hb, add_comm (blocksOf o (L o)), ← add_assoc] at hh
  exact add_right_cancel hh

theorem recorded_pop {o : Nat} {x : Nat × Nat} {xs : List (Nat × Nat)} (ho : o ≤ 9)
    (hL : L o = x :: xs) : recorded (update L o xs) + {(o, x.2)} = recorded L := by
  have hh := recorded_update (L := L) xs ho
  have hb : blocksOf o (L o) = {(o, x.2)} + blocksOf o xs := by
    rw [hL]
    rfl
  rw [hb, ← add_assoc] at hh
  exact add_right_cancel hh

/-! ### Filing a list of blocks -/

/-- The blocks of `bs`, order and address, returned in this order. -/
def addAll (km : KMem → Nat → Option (KMem × Nat)) : KMem → List (Nat × Nat) → Option KMem
  | s, [] => some s
  | s, b :: bs => (addFreeAreaWith km s b.1 b.2).bind fun s => addAll km s bs

/-- The lists with the nodes `ns`, each under its order, behind what they hold. -/
def fileAll (L : Nat → List (Nat × Nat)) (ns : List (Nat × Nat × Nat)) (o : Nat) :
    List (Nat × Nat) :=
  L o ++ (ns.filter fun n => n.1 = o).map Prod.snd

@[simp] theorem fileAll_nil : fileAll L [] = L := by
  funext o
  simp [fileAll]

theorem fileAll_cons (n : Nat × Nat × Nat) (ns : List (Nat × Nat × Nat)) :
    fileAll L (n :: ns) = fileAll (update L n.1 (L n.1 ++ [n.2])) ns := by
  funext o
  by_cases ho : n.1 = o
  · subst ho
    simp [fileAll]
  · have ho' : o ≠ n.1 := fun he => ho he.symm
    simp [fileAll, ho, ho']

theorem recorded_fileAll {ns : List (Nat × Nat × Nat)} (h9 : ∀ n ∈ ns, n.1 ≤ 9) :
    recorded (fileAll L ns) =
      recorded L + (ns.map fun n => (n.1, n.2.2) : List (Nat × Nat)) := by
  induction ns generalizing L with
  | nil => simp
  | cons n ns ih =>
    obtain ⟨o, p, a⟩ := n
    rw [fileAll_cons, ih (fun n hn => h9 n (by simp [hn])), recorded_push (h9 _ (by simp)),
      add_assoc]
    rfl

theorem TailsAt.link {s' : KMem} {o : Nat} {xs : List (Nat × Nat)} (h : TailsAt s L)
    (hxs : xs ≠ []) (hL : ListsAt s' (update L o xs))
    (hs : ∀ j, j ≠ o → s'.listTail j = s.listTail j) : TailsAt s' (update L o xs) := by
  intro j hj
  by_cases he : j = o
  · subst he
    exact hL.tail j hj (by simpa using hxs)
  · rw [Function.update_of_ne he, hs j he]
    exact h j hj

theorem addAll_settles (bs : List (Nat × Nat)) (h : HeapAt mem s l) (hL : ListsAt s L)
    (hN : NodesIn l L) (h9 : ∀ b ∈ bs, b.1 ≤ 9) (hroom : bs.length ≤ room l) :
    ∃ s' l' ns, Settles (fun fuel => addAll (kmalloc fuel) s bs) s' ∧ HeapAt mem s' l' ∧
      Kept l l' ∧ room l' + bs.length = room l ∧ Carved bs.length l l' ∧
      (ns.map fun n => (n.1, n.2.2)) = bs ∧
      ListsAt s' (fileAll L ns) ∧ NodesIn l' (fileAll L ns) ∧ s'.grown = s.grown ∧
      (TailsAt s L → TailsAt s' (fileAll L ns)) ∧
      ∀ n ∈ ns, ∀ c ∈ l, c.used = true → n.2.1 ≠ c.addr + 24 := by
  induction bs generalizing s l L with
  | nil =>
    refine ⟨s, l, [], settles_const s, h, fun x hx _ => hx, rfl, .none l, rfl, ?_, ?_, rfl,
      ?_, by simp⟩ <;>
      rw [fileAll_nil]
    · exact hL
    · exact hN
    · exact id
  | cons b bs ih =>
    rw [List.length_cons] at hroom
    obtain ⟨s₁, p, l₁, hset, hl₁, hk₁, hr₁, hc₁, hL₁, hN₁, hg₁, ht₁, hf₁⟩ :=
      addFreeArea_settles h hL hN (h9 b (by simp)) b.2 (by omega)
    obtain ⟨s₂, l₂, ns, hset₂, hl₂, hk₂, hr₂, hc₂, hns, hL₂, hN₂, hg₂, ht₂, hf₂⟩ :=
      ih hl₁ hL₁ hN₁ (fun c hc => h9 c (by simp [hc])) (by omega)
    have hfile : fileAll (update L b.1 (L b.1 ++ [(p, b.2)])) ns =
        fileAll L ((b.1, p, b.2) :: ns) := (fileAll_cons (b.1, p, b.2) ns).symm
    rw [hfile] at hL₂ hN₂ ht₂
    refine ⟨s₂, l₂, (b.1, p, b.2) :: ns, hset.bind hset₂, hl₂, hk₁.trans hk₂, ?_,
      hc₁.trans hc₂, ?_, hL₂, hN₂, hg₂.trans hg₁, fun ht => ht₂ (ht.link (by simp) hL₁ ht₁), ?_⟩
    · rw [List.length_cons]
      omega
    · rw [List.map_cons, hns]
    · intro n hn c hc hcu
      rcases List.mem_cons.mp hn with rfl | hn
      · exact hf₁ c hc hcu
      · exact hf₂ n hn c (hk₁ c hc hcu) hcu

/-! ### The loops over a page count -/

/-- The blocks that `addBits` cuts `pages` into. -/
def bitBlocks (advance : Nat → Nat) : Nat → Nat → Nat → Nat → List (Nat × Nat)
  | 0, _, _, _ => []
  | k + 1, i, start, pages =>
    if pages % 2 ≠ 0 then (i, start) :: bitBlocks advance k (i + 1) (start + advance i) (pages / 2)
    else bitBlocks advance k (i + 1) start (pages / 2)

/-- Where `addBits` stops. -/
def bitEnd (advance : Nat → Nat) : Nat → Nat → Nat → Nat → Nat
  | 0, _, start, _ => start
  | k + 1, i, start, pages =>
    if pages % 2 ≠ 0 then bitEnd advance k (i + 1) (start + advance i) (pages / 2)
    else bitEnd advance k (i + 1) start (pages / 2)

/-- The blocks that `addTop` adds. -/
def topBlocks : Nat → Nat → List (Nat × Nat)
  | 0, _ => []
  | n + 1, start => (9, start) :: topBlocks n (start + 4096 * 2 ^ 9)

variable {km : KMem → Nat → Option (KMem × Nat)} {advance : Nat → Nat}

theorem addBits_eq (k i start pages : Nat) :
    addBits km advance k i s start pages = (addAll km s (bitBlocks advance k i start pages)).map
      fun s => (s, bitEnd advance k i start pages, ((pages / 2 ^ k : Nat) : Int)) := by
  induction k generalizing s i start pages with
  | zero => simp [addBits, bitBlocks, bitEnd, addAll]
  | succ k ih =>
    have hdiv : ((pages : Int) / 2) = ((pages / 2 : Nat) : Int) := by omega
    have hpow : pages / 2 / 2 ^ k = pages / 2 ^ (k + 1) := by
      rw [Nat.div_div_eq_div_mul, Nat.pow_succ']
    by_cases hp : pages % 2 ≠ 0
    · have hp' : (pages : Int) % 2 ≠ 0 := by omega
      simp only [addBits, bitBlocks, bitEnd, if_pos hp, if_pos hp', addAll, hdiv, ih, hpow]
      cases addFreeAreaWith km s i start <;> rfl
    · have hp' : ¬ (pages : Int) % 2 ≠ 0 := by omega
      simp only [addBits, bitBlocks, bitEnd, if_neg hp, if_neg hp', hdiv, ih, hpow]

theorem addTop_eq (n start : Nat) : addTop km n s start = addAll km s (topBlocks n start) := by
  induction n generalizing s start with
  | zero => rfl
  | succ n ih => simp only [addTop, topBlocks, addAll, ih]

theorem addAll_append (bs cs : List (Nat × Nat)) :
    addAll km s (bs ++ cs) = (addAll km s bs).bind fun s => addAll km s cs := by
  induction bs generalizing s with
  | nil => rfl
  | cons b bs ih =>
    simp only [List.cons_append, addAll, ih]
    cases addFreeAreaWith km s b.1 b.2 <;> rfl

theorem bitBlocks_order {k i start pages : Nat} (hk : k + i ≤ 10) :
    ∀ b ∈ bitBlocks advance k i start pages, b.1 ≤ 9 := by
  induction k generalizing i start pages with
  | zero => simp [bitBlocks]
  | succ k ih =>
    intro b hb
    rw [bitBlocks] at hb
    split at hb
    · rcases List.mem_cons.mp hb with rfl | hb
      · simp only
        omega
      · exact ih (by omega) b hb
    · exact ih (by omega) b hb

theorem topBlocks_order (n start : Nat) : ∀ b ∈ topBlocks n start, b.1 ≤ 9 := by
  induction n generalizing start with
  | zero => simp [topBlocks]
  | succ n ih =>
    intro b hb
    rcases List.mem_cons.mp hb with rfl | hb
    · exact le_rfl
    · exact ih _ b hb

@[simp] theorem topBlocks_length (n start : Nat) : (topBlocks n start).length = n := by
  induction n generalizing start with
  | zero => rfl
  | succ n ih => simp [topBlocks, ih]

end TayHuang
