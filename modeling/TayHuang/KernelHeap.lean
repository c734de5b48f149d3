import TayHuang.KernelMemory
import TayHuang.LinkedCells
import TayHuang.Segments

/-! The segments in memory and the segment list they spell. Each pointer
operation of kheap.c is the list operation of the same name. -/

namespace TayHuang

open Function (update)
open LinkedCells

def segCell (x : Seg) (prev next : Option Nat) : SegInfo := ⟨x.size, x.used, next, prev⟩

/-- The segment list `l`, spelled by the headers in `m`. -/
def Laid (m : Nat → SegInfo) (l : List Seg) : Prop := Linked Seg.addr segCell m none l none

theorem laid_split {m : Nat → SegInfo} {pre post : List Seg} {a : Seg} :
    Laid m (pre ++ a :: post) ↔
      Linked Seg.addr segCell m none pre (some a.addr) ∧
      m a.addr = segCell a (leave Seg.addr none pre) (entry Seg.addr post none) ∧
      Linked Seg.addr segCell m (some a.addr) post none := by
  rw [Laid, linked_append]
  rfl

/-- Only the back link of the first segment says what stands in front of a list. -/
theorem linked_relink {m : Nat → SegInfo} {x : Seg} {l : List Seg} {prev exit : Option Nat}
    (h : Linked Seg.addr segCell m prev (x :: l) exit) (hx : x.addr ∉ l.map Seg.addr)
    (p : Option Nat) :
    Linked Seg.addr segCell (update m x.addr { m x.addr with last := p }) p (x :: l) exit := by
  refine ⟨?_, h.2.update hx⟩
  rw [Function.update_self, h.1]
  rfl

/-- The segment at `x` takes in the one at `y` behind it. -/
def absorb (m : Nat → SegInfo) (x y : Nat) : Nat → SegInfo :=
  let m' := update m x { m x with size := (m x).size + (m y).size, next := (m y).next }
  match (m y).next with
  | some n => update m' n { m' n with last := some x }
  | none => m'

theorem absorb_laid {m : Nat → SegInfo} {pre post : List Seg} {x y : Seg}
    (h : Laid m (pre ++ x :: y :: post)) (hn : ((pre ++ x :: y :: post).map Seg.addr).Nodup) :
    Laid (absorb m x.addr y.addr) (pre ++ { x with size := x.size + y.size } :: post) := by
  obtain ⟨hpre, hx, hy, hpost⟩ := laid_split.mp h
  simp only [List.map_append, List.map_cons, List.nodup_append, List.nodup_cons, List.mem_cons] at hn
  have hxp : x.addr ∉ pre.map Seg.addr := fun hh => hn.2.2 _ hh x.addr (Or.inl rfl) rfl
  have hxl : x.addr ∉ post.map Seg.addr := fun hh => hn.2.1.1 (Or.inr hh)
  have hcell :
      { m x.addr with size := (m x.addr).size + (m y.addr).size, next := (m y.addr).next } =
      segCell { x with size := x.size + y.size } (leave Seg.addr none pre)
        (entry Seg.addr post none) := by
    rw [hx, hy]
    rfl
  have hnext : (m y.addr).next = entry Seg.addr post none := by
    rw [hy]
    rfl
  cases post with
  | nil =>
    have hr : absorb m x.addr y.addr = update m x.addr
        (segCell { x with size := x.size + y.size } (leave Seg.addr none pre) none) := by
      simp only [entry_nil] at hnext hcell
      simp only [absorb, hnext] at hcell ⊢
      rw [hcell]
    rw [hr, laid_split]
    exact ⟨hpre.update hxp, by simp, trivial⟩
  | cons b post =>
    have hbx : b.addr ≠ x.addr := fun he => hxl (by simp [he])
    have hbl : b.addr ∉ post.map Seg.addr := (List.nodup_cons.mp hn.2.1.2.2).1
    have hbp : b.addr ∉ pre.map Seg.addr := fun hh => hn.2.2 _ hh b.addr (by simp) rfl
    have hr : absorb m x.addr y.addr = update (update m x.addr
        (segCell { x with size := x.size + y.size } (leave Seg.addr none pre) (some b.addr)))
          b.addr { m b.addr with last := some x.addr } := by
      simp only [entry_cons] at hnext hcell
      simp only [absorb, hnext] at hcell ⊢
      rw [hcell, Function.update_of_ne hbx]
    rw [hr, laid_split]
    refine ⟨(hpre.update hxp).update hbp, ?_, ?_⟩
    · rw [Function.update_of_ne hbx.symm, Function.update_self]
      rfl
    · have hh := linked_relink (hpost.update (a := x.addr)
        (v := segCell { x with size := x.size + y.size } (leave Seg.addr none pre)
          (some b.addr)) hxl) hbl (some x.addr)
      rwa [Function.update_of_ne hbx] at hh

theorem combineNext_laid {m : Nat → SegInfo} {pre post : List Seg} {a : Seg}
    (h : Laid m (pre ++ a :: post)) (hn : ((pre ++ a :: post).map Seg.addr).Nodup) :
    Laid (combineNext m a.addr) (pre ++ (joinNext a post).1 :: (joinNext a post).2) := by
  obtain ⟨-, ha, hpost⟩ := laid_split.mp h
  cases post with
  | nil =>
    have hno : combineNext m a.addr = m := by simp [combineNext, ha, segCell]
    rw [hno]
    exact h
  | cons n l =>
    have hnx : (m a.addr).next = some n.addr := by
      rw [ha]
      rfl
    have hiff : ((m n.addr).used = false ∧ a.addr + (m a.addr).size = n.addr) ↔
        (n.used = false ∧ a.addr + a.size = n.addr) := by
      rw [hpost.1, ha]
      rfl
    by_cases hm : n.used = false ∧ a.addr + a.size = n.addr
    · have hj : joinNext a (n :: l) = ({ a with size := a.size + n.size }, l) := by
        simp [joinNext, hm]
      have hr : combineNext m a.addr = absorb m a.addr n.addr := by
        simp only [combineNext, hnx, if_pos (hiff.mpr hm)]
        rfl
      rw [hj, hr]
      exact absorb_laid h hn
    · have hj : joinNext a (n :: l) = (a, n :: l) := by simp [joinNext, hm]
      have hno : combineNext m a.addr = m := by simp only [combineNext, hnx, if_neg (mt hiff.mp hm)]
      rw [hno, hj]
      exact h

theorem combineLast_laid {m : Nat → SegInfo} {pre post : List Seg} {a : Seg}
    (h : Laid m (pre ++ a :: post)) (hn : ((pre ++ a :: post).map Seg.addr).Nodup) :
    Laid (combineLast m a.addr).1 (joinLast pre a post) := by
  obtain ⟨hpre, ha, -⟩ := laid_split.mp h
  cases pre using List.reverseRecOn with
  | nil =>
    have hno : (combineLast m a.addr).1 = m := by simp [combineLast, ha, segCell]
    rw [hno]
    exact h
  | append_singleton pre p =>
    have hl : (m a.addr).last = some p.addr := by
      rw [ha]
      simp [segCell]
    have hcp : m p.addr = segCell p (leave Seg.addr none pre) (some a.addr) :=
      (linked_append.mp hpre).2.1
    have hiff : ((m p.addr).used = false ∧ p.addr + (m p.addr).size = a.addr) ↔
        (p.used = false ∧ p.addr + p.size = a.addr) := by
      rw [hcp]
      rfl
    rw [List.append_assoc, List.singleton_append] at h hn
    rw [joinLast_concat]
    by_cases hm : p.used = false ∧ p.addr + p.size = a.addr
    · have hr : (combineLast m a.addr).1 = absorb m p.addr a.addr := by
        simp only [combineLast, hl, if_pos (hiff.mpr hm), absorb]
        cases (m a.addr).next <;> rfl
      rw [if_pos hm, hr]
      exact absorb_laid h hn
    · have hno : (combineLast m a.addr).1 = m := by
        simp only [combineLast, hl, if_neg (mt hiff.mp hm)]
      rw [if_neg hm, hno]
      exact h

theorem doCombine_laid {mem : Set Nat} {m : Nat → SegInfo} {pre post : List Seg} {a : Seg}
    (h : Laid m (pre ++ a :: post)) (hl : Loose mem pre a post) :
    Laid (doCombine m a.addr).1 (joinAt pre a post) := by
  have hfst : (joinNext a post).1.addr = a.addr := by
    rcases joinNext_cases a post with ⟨he, -⟩ | ⟨n, l, -, -, -, he⟩ <;> rw [he]
  have hh := combineLast_laid (combineNext_laid h hl.beside.addr_nodup) hl.joinNext.1.beside.addr_nodup
  rwa [hfst] at hh

theorem takeSeg_laid {mem : Set Nat} {m : Nat → SegInfo} {pre post : List Seg} {b : Seg}
    {fixed : Nat} (h : Laid m (pre ++ b :: post)) (ha : Arena mem (pre ++ b :: post))
    (h0 : 0 < fixed) :
    Laid (takeSeg m b.addr fixed) (takeAt pre b post fixed) := by
  obtain ⟨hpre, hb, hpost⟩ := laid_split.mp h
  have hn := ha.beside.addr_nodup
  simp only [List.map_append, List.map_cons, List.nodup_append, List.nodup_cons,
    List.mem_cons] at hn
  have hbp : b.addr ∉ pre.map Seg.addr := fun hh => hn.2.2 _ hh b.addr (Or.inl rfl) rfl
  have hbl : b.addr ∉ post.map Seg.addr := hn.2.1.1
  have hbs : (m b.addr).size = b.size := by rw [hb]; rfl
  have hbn : (m b.addr).next = entry Seg.addr post none := by rw [hb]; rfl
  have hbla : (m b.addr).last = leave Seg.addr none pre := by rw [hb]; rfl
  unfold takeSeg takeAt
  rw [hbs]
  split
  · rename_i hsplit
    have hin := ha.inner_not_addr h0 (show fixed < b.size by omega)
    simp only [List.map_append, List.map_cons, List.mem_append, List.mem_cons, not_or] at hin
    have hne : b.addr + fixed ≠ b.addr := by omega
    cases post with
    | nil =>
      simp only [hbs, hbn, hbla, entry_nil]
      rw [laid_split]
      refine ⟨(hpre.update hin.1).update hbp, by rw [Function.update_self]; rfl, ?_, trivial⟩
      rw [Function.update_of_ne hne, Function.update_self]
      rfl
    | cons c post =>
      simp only [hbs, hbn, hbla, entry_cons]
      have hcb : c.addr ≠ b.addr := fun he => hbl (by simp [he])
      have hcf : c.addr ≠ b.addr + fixed := fun he => hin.2.2 (by simp [he])
      have hcp : c.addr ∉ pre.map Seg.addr := fun hh =>
        hn.2.2 _ hh c.addr (by simp) rfl
      have hcl : c.addr ∉ post.map Seg.addr := (List.nodup_cons.mp hn.2.1.2).1
      rw [laid_split]
      refine ⟨((hpre.update hin.1).update hcp).update hbp, by rw [Function.update_self]; rfl,
        ?_, ?_⟩
      · rw [Function.update_of_ne hne, Function.update_of_ne hcf.symm, Function.update_self]
        rfl
      · have hh := linked_relink (hpost.update (a := b.addr + fixed)
          (v := ⟨b.size - fixed, false, some c.addr, some b.addr⟩) hin.2.2) hcl
          (some (b.addr + fixed))
        exact hh.update hbl
  · rw [laid_split]
    refine ⟨hpre.update hbp, ?_, hpost.update hbl⟩
    rw [Function.update_self, hb]
    rfl

/-- Where the search loop of `kmalloc` stops. -/
theorem findSeg_eq {m : Nat → SegInfo} {fixed fuel cur c : Nat} {l : List Seg} {prev : Option Nat}
    (h : Linked Seg.addr segCell m prev l none) (hcur : entry Seg.addr l none = some cur)
    (hf : findSeg m fixed fuel cur = some c) :
    (∃ pre b post, l = pre ++ b :: post ∧ c = b.addr ∧ b.used = false ∧ fixed ≤ b.size ∧
      ∀ x ∈ pre, x.used = false → x.size < fixed) ∨
    (∃ pre b, l = pre ++ [b] ∧ c = b.addr ∧ ∀ x ∈ l, x.used = false → x.size < fixed) := by
  induction fuel generalizing l cur prev with
  | zero => simp [findSeg] at hf
  | succ fuel ih =>
    cases l with
    | nil => simp at hcur
    | cons x l =>
      obtain rfl : x.addr = cur := by simpa using hcur
      have hx := h.1
      by_cases hfit : x.size < fixed ∨ x.used = true
      · have hsmall : x.used = false → x.size < fixed := by
          intro hu
          rcases hfit with hs | hs
          · exact hs
          · simp [hu] at hs
        cases l with
        | nil =>
          have hc : x.addr = c := by simpa [findSeg, hx, segCell, hfit] using hf
          exact Or.inr ⟨[], x, rfl, hc.symm, by simpa using hsmall⟩
        | cons y l =>
          have hf' : findSeg m fixed fuel y.addr = some c := by
            simpa [findSeg, hx, segCell, hfit] using hf
          rcases ih h.2 rfl hf' with ⟨pre, b, post, hl, hc, hu, hs, hp⟩ | ⟨pre, b, hl, hc, hp⟩
          · refine Or.inl ⟨x :: pre, b, post, by simp [hl], hc, hu, hs, ?_⟩
            intro z hz
            rcases List.mem_cons.mp hz with rfl | hz
            · exact hsmall
            · exact hp z hz
          · refine Or.inr ⟨x :: pre, b, by simp [hl], hc, ?_⟩
            intro z hz
            rcases List.mem_cons.mp hz with rfl | hz
            · exact hsmall
            · exact hp z hz
      · have hc : x.addr = c := by simpa [findSeg, hx, segCell, hfit] using hf
        rw [not_or] at hfit
        exact Or.inl ⟨[], x, l, rfl, hc.symm, by simpa using hfit.2, by omega, by simp⟩

/-- The search loop ends within as many steps as there are segments. -/
theorem findSeg_isSome {m : Nat → SegInfo} {fixed fuel cur : Nat} {l : List Seg}
    {prev : Option Nat} (h : Linked Seg.addr segCell m prev l none)
    (hcur : entry Seg.addr l none = some cur) (hfuel : l.length ≤ fuel) :
    ∃ c, findSeg m fixed fuel cur = some c := by
  induction fuel generalizing l cur prev with
  | zero =>
    have : l = [] := List.length_eq_zero_iff.mp (by omega)
    simp [this] at hcur
  | succ fuel ih =>
    cases l with
    | nil => simp at hcur
    | cons x l =>
      obtain rfl : x.addr = cur := by simpa using hcur
      by_cases hfit : x.size < fixed ∨ x.used = true
      · cases l with
        | nil => exact ⟨x.addr, by simp [findSeg, h.1, segCell]⟩
        | cons y l =>
          obtain ⟨c, hc⟩ := ih h.2 rfl (by simpa using hfuel)
          exact ⟨c, by simpa [findSeg, h.1, segCell, hfit] using hc⟩
      · exact ⟨x.addr, by simp [findSeg, h.1, segCell, hfit]⟩

end TayHuang
