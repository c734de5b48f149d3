import Mathlib.Data.List.Basic
import Mathlib.Data.List.Chain
import Mathlib.Order.Interval.Set.Basic
import Mathlib.Algebra.BigOperators.Group.List.Basic
import Mathlib.Algebra.Ring.Nat
import Mathlib.Data.Set.Lattice
import Mathlib.Order.CompletePartialOrder

/-! A heap as a list of segments, in list order and not in address order. The
operations of the allocator on this list, and what each of them preserves. -/

namespace TayHuang

structure Seg where
  addr : Nat
  size : Nat
  used : Bool
  deriving DecidableEq, Repr

namespace Seg

def Apart (x y : Seg) : Prop := x.addr + x.size ≤ y.addr ∨ y.addr + y.size ≤ x.addr

def bytes (x : Seg) : Set Nat := Set.Ico x.addr (x.addr + x.size)

/-- Two list neighbours that should have been one segment: both free, the
second starting where the first ends. -/
def Mergeable (x y : Seg) : Prop :=
  x.used = false ∧ y.used = false ∧ x.addr + x.size = y.addr

instance (x y : Seg) : Decidable (Apart x y) := inferInstanceAs (Decidable (_ ∨ _))

instance (x y : Seg) : Decidable (Mergeable x y) := inferInstanceAs (Decidable (_ ∧ _))

theorem Apart.symm {x y : Seg} (h : Apart x y) : Apart y x := Or.symm h

end Seg

def sizes (l : List Seg) : Nat := (l.map Seg.size).sum

@[simp] theorem sizes_nil : sizes [] = 0 := rfl

@[simp] theorem sizes_cons (x : Seg) (l : List Seg) : sizes (x :: l) = x.size + sizes l := by
  simp [sizes]

@[simp] theorem sizes_append (l r : List Seg) : sizes (l ++ r) = sizes l + sizes r := by
  simp [sizes]

/-- A well formed heap inside the memory `mem`. -/
structure Arena (mem : Set Nat) (l : List Seg) : Prop where
  nonempty : l ≠ []
  pos : ∀ x ∈ l, 0 < x.addr ∧ 0 < x.size ∧ 64 ∣ x.size
  apart : l.Pairwise Seg.Apart
  within : ∀ x ∈ l, x.bytes ⊆ mem
  merged : l.IsChain (fun x y => ¬ Seg.Mergeable x y)

def joinNext (a : Seg) : List Seg → Seg × List Seg
  | n :: l =>
    if n.used = false ∧ a.addr + a.size = n.addr then ({ a with size := a.size + n.size }, l)
    else (a, n :: l)
  | [] => (a, [])

def joinLast (pre : List Seg) (a : Seg) (post : List Seg) : List Seg :=
  match pre.getLast? with
  | some p =>
    if p.used = false ∧ p.addr + p.size = a.addr then
      pre.dropLast ++ { p with size := p.size + a.size } :: post
    else pre ++ a :: post
  | none => a :: post

/-- `do_combine` at the segment `a`. -/
def joinAt (pre : List Seg) (a : Seg) (post : List Seg) : List Seg :=
  joinLast pre (joinNext a post).1 (joinNext a post).2

/-- Taking `fixed` bytes at the front of the free segment `b`. -/
def takeAt (pre : List Seg) (b : Seg) (post : List Seg) (fixed : Nat) : List Seg :=
  if 64 ≤ b.size - fixed then
    pre ++ ⟨b.addr, fixed, true⟩ :: ⟨b.addr + fixed, b.size - fixed, false⟩ :: post
  else pre ++ { b with used := true } :: post

@[simp] theorem joinLast_nil (a : Seg) (post : List Seg) : joinLast [] a post = a :: post := rfl

@[simp] theorem joinLast_concat (pre : List Seg) (p a : Seg) (post : List Seg) :
    joinLast (pre ++ [p]) a post =
      if p.used = false ∧ p.addr + p.size = a.addr then
        pre ++ { p with size := p.size + a.size } :: post
      else pre ++ p :: a :: post := by
  simp [joinLast]

/-- What `joinNext` does, as its two cases. -/
theorem joinNext_cases (a : Seg) (post : List Seg) :
    (joinNext a post = (a, post) ∧
      ∀ n l, post = n :: l → ¬ (n.used = false ∧ a.addr + a.size = n.addr)) ∨
    ∃ n l, post = n :: l ∧ n.used = false ∧ a.addr + a.size = n.addr ∧
      joinNext a post = ({ a with size := a.size + n.size }, l) := by
  cases post with
  | nil => exact Or.inl ⟨rfl, by simp⟩
  | cons n l =>
    by_cases h : n.used = false ∧ a.addr + a.size = n.addr
    · exact Or.inr ⟨n, l, rfl, h.1, h.2, by simp [joinNext, h]⟩
    · refine Or.inl ⟨by simp [joinNext, h], ?_⟩
      intro n' l' he
      obtain ⟨rfl, rfl⟩ := List.cons.inj he
      exact h

/-! ### Segments beside each other -/

/-- Segments of the memory `mem` that do not overlap. -/
structure Beside (mem : Set Nat) (l : List Seg) : Prop where
  pos : ∀ x ∈ l, 0 < x.addr ∧ 0 < x.size ∧ 64 ∣ x.size
  apart : l.Pairwise Seg.Apart
  within : ∀ x ∈ l, x.bytes ⊆ mem

theorem Arena.beside {mem : Set Nat} {l : List Seg} (h : Arena mem l) : Beside mem l :=
  ⟨h.pos, h.apart, h.within⟩

theorem Beside.arena {mem : Set Nat} {l : List Seg} (h : Beside mem l) (hne : l ≠ [])
    (hm : l.IsChain fun x y => ¬ Seg.Mergeable x y) : Arena mem l :=
  ⟨hne, h.pos, h.apart, h.within, hm⟩

section Beside

variable {mem : Set Nat} {pre post : List Seg} {x y : Seg}

theorem apart_join {z : Seg} (hx : Seg.Apart z x) (hy : Seg.Apart z y)
    (hend : x.addr + x.size = y.addr) (hz : 0 < z.size) :
    Seg.Apart z { x with size := x.size + y.size } := by
  unfold Seg.Apart at *
  simp only
  omega

theorem pairwise_join (h : (pre ++ x :: y :: post).Pairwise Seg.Apart)
    (hend : x.addr + x.size = y.addr) (hpos : ∀ z ∈ pre ++ x :: y :: post, 0 < z.size) :
    (pre ++ { x with size := x.size + y.size } :: post).Pairwise Seg.Apart := by
  rw [List.pairwise_append] at h ⊢
  obtain ⟨hpre, hrest, hcross⟩ := h
  rw [List.pairwise_cons, List.pairwise_cons] at hrest
  obtain ⟨hx, hyp, hpost⟩ := hrest
  refine ⟨hpre, List.pairwise_cons.mpr ⟨?_, hpost⟩, ?_⟩
  · intro z hz
    have h1 := (hx z (by simp [hz])).symm
    have h2 := (hyp z hz).symm
    exact (apart_join h1 h2 hend (hpos z (by simp [hz]))).symm
  · intro a ha b hb
    rcases List.mem_cons.mp hb with rfl | hb
    · exact apart_join (hcross a ha x (by simp)) (hcross a ha y (by simp)) hend
        (hpos a (by simp [ha]))
    · exact hcross a ha b (by simp [hb])

theorem within_join (hx : x.bytes ⊆ mem) (hy : y.bytes ⊆ mem) (hend : x.addr + x.size = y.addr) :
    Seg.bytes { x with size := x.size + y.size } ⊆ mem := by
  intro k hk
  simp only [Seg.bytes, Set.mem_Ico] at hk
  by_cases hlt : k < y.addr
  · exact hx ⟨hk.1, by omega⟩
  · exact hy ⟨by omega, by omega⟩

theorem Beside.join (h : Beside mem (pre ++ x :: y :: post)) (hend : x.addr + x.size = y.addr) :
    Beside mem (pre ++ { x with size := x.size + y.size } :: post) := by
  refine ⟨fun z hz => ?_, pairwise_join h.apart hend fun z hz => (h.pos z hz).2.1, fun z hz => ?_⟩
  · simp only [List.mem_append, List.mem_cons] at hz
    rcases hz with hz | rfl | hz
    · exact h.pos z (by simp [hz])
    · have h1 := h.pos x (by simp)
      have h2 := h.pos y (by simp)
      exact ⟨h1.1, by simp only; omega, Nat.dvd_add h1.2.2 h2.2.2⟩
    · exact h.pos z (by simp [hz])
  · simp only [List.mem_append, List.mem_cons] at hz
    rcases hz with hz | rfl | hz
    · exact h.within z (by simp [hz])
    · exact within_join (h.within x (by simp)) (h.within y (by simp)) hend
    · exact h.within z (by simp [hz])

theorem Beside.addr_nodup {l : List Seg} (h : Beside mem l) : (l.map Seg.addr).Nodup := by
  rw [List.Nodup, List.pairwise_map]
  refine h.apart.imp_of_mem fun {x y} hx hy hxy he => ?_
  have h1 := (h.pos x hx).2.1
  have h2 := (h.pos y hy).2.1
  unfold Seg.Apart at hxy
  omega

/-- A segment gives way to segments inside it. -/
theorem Beside.replace {b : Seg} {l : List Seg} (h : Beside mem (pre ++ b :: post))
    (hpos : ∀ z ∈ l, 0 < z.size ∧ 64 ∣ z.size) (hap : l.Pairwise Seg.Apart)
    (hin : ∀ z ∈ l, b.addr ≤ z.addr ∧ z.addr + z.size ≤ b.addr + b.size) :
    Beside mem (pre ++ (l ++ post)) := by
  obtain ⟨hp, ha, hw⟩ := h
  rw [List.pairwise_append, List.pairwise_cons] at ha
  obtain ⟨hpre, ⟨hbp, hpost⟩, hcross⟩ := ha
  have hsub : ∀ z ∈ l, ∀ u, Seg.Apart u b → Seg.Apart u z := by
    intro z hz u hu
    have hzb := hin z hz
    unfold Seg.Apart at *
    omega
  refine ⟨fun z hz => ?_, ?_, fun z hz => ?_⟩
  · simp only [List.mem_append] at hz
    rcases hz with hz | hz | hz
    · exact hp z (by simp [hz])
    · exact ⟨(hp b (by simp)).1.trans_le (hin z hz).1, hpos z hz⟩
    · exact hp z (by simp [hz])
  · rw [List.pairwise_append, List.pairwise_append]
    refine ⟨hpre, ⟨hap, hpost, fun z hz u hu => (hsub z hz u (hbp u hu).symm).symm⟩, fun u hu z hz => ?_⟩
    rcases List.mem_append.mp hz with hz | hz
    · exact hsub z hz u (hcross u hu b (by simp))
    · exact hcross u hu z (by simp [hz])
  · simp only [List.mem_append] at hz
    rcases hz with hz | hz | hz
    · exact hw z (by simp [hz])
    · exact (Set.Ico_subset_Ico (hin z hz).1 (hin z hz).2).trans (hw b (by simp))
    · exact hw z (by simp [hz])

theorem Beside.retag {b : Seg} (h : Beside mem (pre ++ b :: post)) (used : Bool) :
    Beside mem (pre ++ { b with used := used } :: post) := by
  refine h.replace (l := [{ b with used := used }]) ?_ (List.pairwise_singleton ..) ?_
  · intro z hz
    obtain rfl := List.mem_singleton.mp hz
    exact (h.pos b (by simp)).2
  · intro z hz
    obtain rfl := List.mem_singleton.mp hz
    exact ⟨Nat.le_refl _, Nat.le_refl _⟩

/-- A used segment is never merged. -/
theorem isChain_used {a : Seg} {l : List Seg} (ha : a.used = true)
    (hpre : pre.IsChain fun x y => ¬ Seg.Mergeable x y) (hl : l.IsChain fun x y => ¬ Seg.Mergeable x y) :
    (pre ++ a :: l).IsChain fun x y => ¬ Seg.Mergeable x y := by
  rw [List.isChain_append]
  refine ⟨hpre, ?_, fun x hx y hy hm => ?_⟩
  · cases l with
    | nil => simp
    | cons c l => exact List.isChain_cons_cons.mpr ⟨fun hm => by simp [Seg.Mergeable, ha] at hm, hl⟩
  · have hya : y = a := by simpa using hy.symm
    simp [hya, Seg.Mergeable, ha] at hm

end Beside

/-! ### Joining a free segment -/

/-- An arena in which the segment between `pre` and `post` has just become free
and may still have to be merged. -/
structure Loose (mem : Set Nat) (pre : List Seg) (a : Seg) (post : List Seg) : Prop where
  free : a.used = false
  pos : ∀ x ∈ pre ++ a :: post, 0 < x.addr ∧ 0 < x.size ∧ 64 ∣ x.size
  apart : (pre ++ a :: post).Pairwise Seg.Apart
  within : ∀ x ∈ pre ++ a :: post, x.bytes ⊆ mem
  left : pre.IsChain (fun x y => ¬ Seg.Mergeable x y)
  right : post.IsChain (fun x y => ¬ Seg.Mergeable x y)

theorem Loose.beside {mem : Set Nat} {pre post : List Seg} {a : Seg} (h : Loose mem pre a post) :
    Beside mem (pre ++ a :: post) :=
  ⟨h.pos, h.apart, h.within⟩

theorem Loose.joinNext {mem : Set Nat} {pre post : List Seg} {a : Seg} (h : Loose mem pre a post) :
    Loose mem pre (joinNext a post).1 (joinNext a post).2 ∧
      ((joinNext a post).1 :: (joinNext a post).2).IsChain (fun x y => ¬ Seg.Mergeable x y) := by
  rcases joinNext_cases a post with ⟨he, hno⟩ | ⟨n, l, rfl, hn, hend, he⟩
  · rw [he]
    refine ⟨h, ?_⟩
    cases post with
    | nil => simp
    | cons n l =>
      refine List.isChain_cons_cons.mpr ⟨?_, h.right⟩
      intro hm
      exact hno n l rfl ⟨hm.2.1, hm.2.2⟩
  · rw [he]
    have hr : l.IsChain (fun x y => ¬ Seg.Mergeable x y) := h.right.tail
    obtain ⟨hpos, hap, hwi⟩ := h.beside.join hend
    refine ⟨⟨h.free, hpos, hap, hwi, h.left, hr⟩, ?_⟩
    · cases l with
      | nil => simp
      | cons b l =>
        refine List.isChain_cons_cons.mpr ⟨?_, hr⟩
        intro hm
        have hnb := (List.isChain_cons_cons.mp h.right).1
        exact hnb ⟨hn, hm.2.1, by have := hm.2.2; simp only at this; omega⟩

theorem Loose.joinLast {mem : Set Nat} {pre post : List Seg} {a : Seg} (h : Loose mem pre a post)
    (hc : (a :: post).IsChain (fun x y => ¬ Seg.Mergeable x y)) :
    Arena mem (joinLast pre a post) := by
  cases pre using List.reverseRecOn with
  | nil => exact ⟨by simp, h.pos, h.apart, h.within, hc⟩
  | append_singleton pre p =>
    have hbeside : Beside mem (pre ++ p :: a :: post) := by
      have hh := h.beside
      rwa [List.append_assoc, List.singleton_append] at hh
    rw [joinLast_concat]
    split
    · rename_i hm
      refine (hbeside.join hm.2).arena (by simp) ?_
      have hl := h.left
      rw [List.isChain_append] at hl ⊢
      refine ⟨hl.1, ?_, ?_⟩
      · cases post with
        | nil => simp
        | cons b post =>
          have hab := (List.isChain_cons_cons.mp hc).1
          refine List.isChain_cons_cons.mpr ⟨?_, h.right⟩
          intro hmm
          exact hab ⟨h.free, hmm.2.1, by have := hmm.2.2; simp only at this; omega⟩
      · intro x hx y hy
        have hxp := hl.2.2 x hx p (by simp)
        have hyp : y = { p with size := p.size + a.size } := by simpa using hy.symm
        subst hyp
        exact fun hmm => hxp ⟨hmm.1, hmm.2.1, hmm.2.2⟩
    · rename_i hm
      refine hbeside.arena (by simp) ?_
      have hl := h.left
      have hs : pre ++ p :: a :: post = (pre ++ [p]) ++ (a :: post) := by simp
      rw [hs, List.isChain_append]
      refine ⟨hl, hc, ?_⟩
      intro x hx y hy
      have hxp : x = p := by simpa using hx.symm
      have hya : y = a := by simpa using hy.symm
      subst hxp hya
      exact fun hmm => hm ⟨hmm.1, hmm.2.2⟩

theorem Loose.joinAt {mem : Set Nat} {pre post : List Seg} {a : Seg} (h : Loose mem pre a post) :
    Arena mem (joinAt pre a post) :=
  h.joinNext.1.joinLast h.joinNext.2

theorem sizes_joinAt (pre : List Seg) (a : Seg) (post : List Seg) :
    sizes (joinAt pre a post) = sizes pre + a.size + sizes post := by
  have hn : (joinNext a post).1.size + sizes (joinNext a post).2 = a.size + sizes post := by
    rcases joinNext_cases a post with ⟨he, -⟩ | ⟨n, l, rfl, -, -, he⟩
    · rw [he]
    · rw [he, sizes_cons]
      simp only
      omega
  unfold joinAt
  cases pre using List.reverseRecOn with
  | nil => simp; omega
  | append_singleton pre p =>
    rw [joinLast_concat]
    split <;> simp <;> omega

theorem mem_joinAt_of_used {pre post : List Seg} {a x : Seg} (hx : x ∈ pre ++ post)
    (hu : x.used = true) : x ∈ joinAt pre a post := by
  have hn : ∀ y ∈ post, y.used = true → y ∈ (joinNext a post).2 := by
    intro y hy hyu
    rcases joinNext_cases a post with ⟨he, -⟩ | ⟨n, l, rfl, hnu, -, he⟩
    · rw [he]; exact hy
    · rw [he]
      rcases List.mem_cons.mp hy with rfl | hy
      · simp [hnu] at hyu
      · exact hy
  have hin : x ∈ pre ∨ x ∈ (TayHuang.joinNext a post).2 := by
    rcases List.mem_append.mp hx with hx | hx
    · exact Or.inl hx
    · exact Or.inr (hn x hx hu)
  unfold TayHuang.joinAt
  cases pre using List.reverseRecOn with
  | nil => simp at hin ⊢; exact Or.inr hin
  | append_singleton pre p =>
    rw [joinLast_concat]
    split
    · rename_i hm
      rcases hin with hin | hin
      · rcases List.mem_append.mp hin with hin | hin
        · simp [hin]
        · rw [List.mem_singleton.mp hin] at hu
          simp [hm.1] at hu
      · simp [hin]
    · rcases hin with hin | hin
      · rcases List.mem_append.mp hin with hin | hin
        · simp [hin]
        · simp [List.mem_singleton.mp hin]
      · simp [hin]

/-! ### Taking and adding segments -/

section Take

variable {mem : Set Nat} {pre post : List Seg} {b : Seg} {fixed : Nat}

theorem Arena.takeAt (h : Arena mem (pre ++ b :: post)) (hf : b.used = false) (h0 : 0 < fixed)
    (h64 : 64 ∣ fixed) (hle : fixed ≤ b.size) : Arena mem (takeAt pre b post fixed) := by
  have hb := h.pos b (by simp)
  obtain ⟨hmpre, hmpost, -⟩ := List.isChain_append.mp h.merged
  unfold TayHuang.takeAt
  split
  · rename_i hsplit
    refine (h.beside.replace (l := [⟨b.addr, fixed, true⟩, ⟨b.addr + fixed, b.size - fixed, false⟩])
      ?_ ?_ ?_).arena (by simp) (isChain_used rfl hmpre ?_)
    · intro z hz
      rcases List.mem_pair.mp hz with rfl | rfl
      · exact ⟨h0, h64⟩
      · exact ⟨by simp only; omega, Nat.dvd_sub hb.2.2 h64⟩
    · exact List.pairwise_pair.mpr (.inl (Nat.le_refl _))
    · intro z hz
      rcases List.mem_pair.mp hz with rfl | rfl
      · simp only
        omega
      · simp only
        omega
    · cases post with
      | nil => simp
      | cons c post =>
        have hbc := (List.isChain_cons_cons.mp hmpost).1
        refine List.isChain_cons_cons.mpr ⟨fun hmm => hbc ⟨hf, hmm.2.1, ?_⟩, hmpost.tail⟩
        have hend := hmm.2.2
        simp only at hend
        omega
  · exact (h.beside.retag true).arena (by simp) (isChain_used rfl hmpre hmpost.tail)

theorem sizes_takeAt (hle : fixed ≤ b.size) :
    sizes (takeAt pre b post fixed) = sizes (pre ++ b :: post) := by
  unfold takeAt
  split <;> simp
  omega

theorem mem_takeAt_of_used {x : Seg} (hf : b.used = false) (hx : x ∈ pre ++ b :: post)
    (hu : x.used = true) : x ∈ takeAt pre b post fixed := by
  simp only [List.mem_append, List.mem_cons] at hx
  rcases hx with hx | rfl | hx
  · unfold takeAt; split <;> simp [hx]
  · simp [hf] at hu
  · unfold takeAt; split <;> simp [hx]

theorem taken_mem_takeAt (hle : fixed ≤ b.size) :
    ∃ c ∈ takeAt pre b post fixed, c.addr = b.addr ∧ c.used = true ∧ fixed ≤ c.size := by
  unfold takeAt
  split
  · exact ⟨⟨b.addr, fixed, true⟩, by simp, rfl, rfl, le_refl _⟩
  · exact ⟨{ b with used := true }, by simp, rfl, rfl, hle⟩

theorem used_of_mem_takeAt {x : Seg} (hx : x ∈ takeAt pre b post fixed) (hu : x.used = true) :
    x ∈ pre ++ b :: post ∨ x.addr = b.addr := by
  unfold takeAt at hx
  split at hx <;> simp only [List.mem_append, List.mem_cons] at hx ⊢
  · rcases hx with hx | rfl | rfl | hx
    · exact Or.inl (Or.inl hx)
    · exact Or.inr rfl
    · simp at hu
    · exact Or.inl (Or.inr (Or.inr hx))
  · rcases hx with hx | rfl | hx
    · exact Or.inl (Or.inl hx)
    · exact Or.inr rfl
    · exact Or.inl (Or.inr (Or.inr hx))

end Take

theorem Arena.loose_append {mem mem' : Set Nat} {l : List Seg} {a : Seg} (h : Arena mem l)
    (hs : mem ⊆ mem') (hf : a.used = false) (hp : 0 < a.addr ∧ 0 < a.size ∧ 64 ∣ a.size)
    (hap : ∀ x ∈ l, Seg.Apart x a) (hw : a.bytes ⊆ mem') : Loose mem' l a [] := by
  refine ⟨hf, ?_, ?_, ?_, h.merged, by simp⟩
  · intro x hx
    rcases List.mem_append.mp hx with hx | hx
    · exact h.pos x hx
    · rw [List.mem_singleton.mp hx]; exact hp
  · refine List.pairwise_append.mpr ⟨h.apart, by simp, ?_⟩
    intro x hx y hy
    rw [List.mem_singleton.mp hy]
    exact hap x hx
  · intro x hx
    rcases List.mem_append.mp hx with hx | hx
    · exact (h.within x hx).trans hs
    · rw [List.mem_singleton.mp hx]; exact hw

theorem Arena.loose_free {mem : Set Nat} {pre post : List Seg} {x : Seg}
    (h : Arena mem (pre ++ x :: post)) : Loose mem pre { x with used := false } post := by
  obtain ⟨hpos, hap, hwi⟩ := h.beside.retag false
  obtain ⟨hleft, hright, -⟩ := List.isChain_append.mp h.merged
  exact ⟨rfl, hpos, hap, hwi, hleft, hright.tail⟩

theorem Arena.mono {mem mem' : Set Nat} {l : List Seg} (h : Arena mem l) (hs : mem ⊆ mem') :
    Arena mem' l :=
  ⟨h.nonempty, h.pos, h.apart, fun x hx => (h.within x hx).trans hs, h.merged⟩

theorem Arena.inner_not_addr {mem : Set Nat} {pre post : List Seg} {b : Seg} {k : Nat}
    (h : Arena mem (pre ++ b :: post)) (h0 : 0 < k) (hk : k < b.size) :
    b.addr + k ∉ (pre ++ b :: post).map Seg.addr := by
  intro hm
  obtain ⟨x, hx, he⟩ := List.mem_map.mp hm
  have hpos := (h.pos x hx).2.1
  have hap := h.apart
  rw [List.pairwise_append, List.pairwise_cons] at hap
  simp only [List.mem_append, List.mem_cons] at hx
  rcases hx with hx | rfl | hx
  · have := hap.2.2 x hx b (by simp)
    unfold Seg.Apart at this
    omega
  · omega
  · have := hap.2.1.1 x hx
    unfold Seg.Apart at this
    omega

end TayHuang
