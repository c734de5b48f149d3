import TayHuang.LinkedCells

/-! Doubly linked lists whose links are two maps, entered at the first cell. -/

namespace LinkedCells

open Function (update)

variable {α : Type*} {next last : α → Option α} {head : Option α} {l pre post : List α} {a t x : α}

structure IsDList (next last : α → Option α) (head : Option α) (l : List α) : Prop where
  head_eq : head = l.head?
  nodup : l.Nodup
  linked : Linked id (fun _ p n => (p, n)) (fun a => (last a, next a)) none l none

theorem IsDList.congr {next' last' : α → Option α} (h : IsDList next last head l)
    (he : ∀ a ∈ l, next' a = next a ∧ last' a = last a) : IsDList next' last' head l := by
  refine ⟨h.head_eq, h.nodup, h.linked.congr fun a ha => ?_⟩
  simp [he a ha]

theorem isDList_singleton (hn : next x = none) (hl : last x = none) :
    IsDList next last (some x) [x] := by
  refine ⟨rfl, by simp, ?_, trivial⟩
  simp [hn, hl]

theorem Linked.chained {prev : Option α}
    (h : Linked id (fun _ p n => (p, n)) (fun a => (last a, next a)) prev l none) :
    Chained id (fun _ n => n) next l none := by
  induction l generalizing prev with
  | nil => trivial
  | cons x l ih => exact ⟨(Prod.mk.inj h.1).2, ih h.2⟩

variable [DecidableEq α]

theorem IsDList.push (h : IsDList next last head (l ++ [a])) (hx : x ∉ l ++ [a])
    (hnext : next x = none) :
    IsDList (update next a (some x)) (update last x (some a)) head (l ++ [a, x]) := by
  have hxl : x ∉ l := fun hm => hx (List.mem_append_left _ hm)
  have hxa : x ≠ a := fun he => hx (by simp [he])
  have hal : a ∉ l := fun hm => (List.nodup_append.mp h.nodup).2.2 a hm a (by simp) rfl
  obtain ⟨hl, ha⟩ := linked_append.mp h.linked
  have hlast : last a = leave id none l := (Prod.mk.inj ha.1).1
  refine ⟨?_, ?_, linked_append.mpr ⟨hl.congr fun y hy => ?_, ?_, ?_, trivial⟩⟩
  · rw [h.head_eq]
    cases l <;> rfl
  · have he : l ++ [a, x] = (l ++ [a]) ++ [x] := by simp
    rw [he]
    refine List.nodup_append.mpr ⟨h.nodup, by simp, ?_⟩
    intro y hy z hz hyz
    rw [List.mem_singleton.mp hz] at hyz
    exact hx (hyz ▸ hy)
  · have hya : y ≠ a := fun he => hal (he ▸ hy)
    have hyx : y ≠ x := fun he => hxl (he ▸ hy)
    simp [hya, hyx]
  · simp [Ne.symm hxa, hlast]
  · simp [hxa, hnext]

/-- The last link of a cell that lost its predecessor. -/
def relink (last : α → Option α) (n p : Option α) : α → Option α :=
  match n with
  | none => last
  | some n => update last n p

theorem IsDList.erase (h : IsDList next last head (pre ++ a :: t :: post)) :
    last t = some a ∧ next t = post.head? ∧
      IsDList (update next a (next t)) (relink last (next t) (last t)) head (pre ++ a :: post) := by
  obtain ⟨hpre, ha, ht, hpost⟩ := linked_append.mp h.linked
  have hlt : last t = some a := (Prod.mk.inj ht).1
  have hnt : next t = post.head? := by simpa [entry] using (Prod.mk.inj ht).2
  have hla : last a = leave id none pre := (Prod.mk.inj ha).1
  have hn := h.nodup
  rw [List.nodup_append, List.nodup_cons, List.nodup_cons] at hn
  obtain ⟨hnpre, ⟨ha1, ht1, hnpost⟩, hdisj⟩ := hn
  have hat : a ∉ post := fun hm => ha1 (List.mem_cons_of_mem t hm)
  have hrelink : ∀ y, y ∉ post → relink last (next t) (last t) y = last y := by
    intro y hy
    rw [hnt]
    cases post with
    | nil => rfl
    | cons n post =>
      refine Function.update_of_ne ?_ ..
      rintro rfl
      exact hy (List.mem_cons_self ..)
  refine ⟨hlt, hnt, ?_, ?_, linked_append.mpr ⟨hpre.congr fun y hy => ?_, ?_, ?_⟩⟩
  · rw [h.head_eq]
    cases pre <;> rfl
  · refine List.nodup_append.mpr ⟨hnpre, List.nodup_cons.mpr ⟨hat, hnpost⟩, ?_⟩
    intro y hy z hz
    refine hdisj y hy z ?_
    rcases List.mem_cons.mp hz with rfl | hz
    · exact List.mem_cons_self ..
    · exact List.mem_cons_of_mem _ (List.mem_cons_of_mem _ hz)
  · have hya : y ≠ a := fun he => hdisj y hy a (List.mem_cons_self ..) he
    have hyp : y ∉ post := fun hm =>
      hdisj y hy y (List.mem_cons_of_mem _ (List.mem_cons_of_mem _ hm)) rfl
    simp [hya, hrelink y hyp]
  · refine Prod.ext ((hrelink a hat).trans hla) ?_
    simp [hnt, entry]
  · cases post with
    | nil => trivial
    | cons n post =>
      have hnt' : next t = some n := hnt
      have hna : n ≠ a := fun he => hat (he ▸ List.mem_cons_self ..)
      have hnn := List.nodup_cons.mp hnpost
      have hnl : next n = entry id post none := (Prod.mk.inj hpost.1).2
      refine ⟨?_, hpost.2.congr fun y hy => ?_⟩
      · simp [relink, hnt', hna, hlt, hnl]
      · have hya : y ≠ a := fun he => hat (he ▸ List.mem_cons_of_mem _ hy)
        have hyn : y ≠ n := fun he => hnn.1 (he ▸ hy)
        simp [relink, hnt', hya, hyn]

end LinkedCells
