import TayHuang.SegmentLoading

/-! What segments leave in a content. A page that begins before its segment is only there if
another segment brings it, and a segment that brings a page again takes away what was there. -/

namespace TayHuang

namespace Vm

variable {b : Nat → UInt8} {addr : Nat} {h : Elf64Phdr}
  {V : Nat → Option (Option UInt8)} {hs : List Elf64Phdr}

/-! ### Reading the content -/

/-- A segment brings the page of an address. -/
def Brings (h : Elf64Phdr) (a : Nat) : Prop := segStart h ≤ a ∧ a < segStart h + 4096 * pagesOf h

instance decidableBrings (h : Elf64Phdr) (a : Nat) : Decidable (Brings h a) :=
  inferInstanceAs (Decidable (_ ∧ _))

theorem cleared_brings (h : Elf64Phdr) (a : Nat) : cleared V (segStart h) (pagesOf h) a =
    if Brings h a then some none else V a := rfl

/-- The byte of a segment that its file wants. -/
def want (b : Nat → UInt8) (addr : Nat) (h : Elf64Phdr) (k : Nat) : UInt8 :=
  if k < h.pFilesz then b (addr + h.pOffset + k) else 0

/-- The loops come to the byte. -/
def Covered (h : Elf64Phdr) (k : Nat) : Prop :=
  k < intTurns h.pFilesz ∨ h.pFilesz ≤ k ∧ k - h.pFilesz < intTurns (h.pMemsz - h.pFilesz)

theorem segContent_outside {a : Nat} (hf : h.pFilesz ≤ h.pMemsz)
    (ha : ¬ (h.pVaddr ≤ a ∧ a < h.pVaddr + h.pMemsz)) :
    segContent b addr h V a = if Brings h a then some none else V a := by
  have h1 := Nat.min_le_left h.pFilesz (2 ^ 31)
  have h2 := Nat.min_le_left (h.pMemsz - h.pFilesz) (2 ^ 31)
  rw [segContent, written, if_neg (by unfold intTurns; omega), written,
    if_neg (by unfold intTurns; omega)]
  rfl

theorem segContent_inside (b : Nat → UInt8) (addr : Nat) {k : Nat}
    (hV : V (h.pVaddr + k) = none ∨ V (h.pVaddr + k) = some none) :
    segContent b addr h V (h.pVaddr + k) = some (some (want b addr h k)) ↔
      (V (h.pVaddr + k) ≠ none ∨ Brings h (h.pVaddr + k)) ∧ Covered h k := by
  have h1 := Nat.min_le_left h.pFilesz (2 ^ 31)
  have hclear : cleared V (segStart h) (pagesOf h) (h.pVaddr + k) =
      if V (h.pVaddr + k) ≠ none ∨ Brings h (h.pVaddr + k) then some none else none := by
    rw [cleared_brings]
    by_cases hb : Brings h (h.pVaddr + k)
    · rw [if_pos hb, if_pos (.inr hb)]
    · rw [if_neg hb]
      rcases hV with hV | hV <;> simp [hV, hb]
  rw [segContent, written, written, hclear]
  unfold Covered want
  by_cases hk : k < h.pFilesz
  · rw [if_neg (by omega), if_pos hk]
    by_cases hin : k < intTurns h.pFilesz
    · rw [if_pos (by omega)]
      by_cases hm : V (h.pVaddr + k) ≠ none ∨ Brings h (h.pVaddr + k)
      · simp [hm, hin]
      · simp [hm]
    · rw [if_neg (by omega)]
      by_cases hm : V (h.pVaddr + k) ≠ none ∨ Brings h (h.pVaddr + k)
      · simp [hm, hin]
        omega
      · simp [hm]
  · have hno : ¬ k < intTurns h.pFilesz := by
      unfold intTurns
      omega
    rw [if_neg hk]
    by_cases hin : k - h.pFilesz < intTurns (h.pMemsz - h.pFilesz)
    · rw [if_pos (by omega), if_neg (by omega)]
      by_cases hm : V (h.pVaddr + k) ≠ none ∨ Brings h (h.pVaddr + k)
      · simp [hm, hin]
        omega
      · simp [hm]
    · rw [if_neg (by omega), if_neg (by omega)]
      by_cases hm : V (h.pVaddr + k) ≠ none ∨ Brings h (h.pVaddr + k)
      · simp [hm, hno, hin]
      · simp [hm]

/-- The content after all segments. -/
def allContent (b : Nat → UInt8) (addr : Nat) (hs : List Elf64Phdr)
    (V : Nat → Option (Option UInt8)) : Nat → Option (Option UInt8) :=
  hs.foldl (fun V h => segContent b addr h V) V

theorem allContent_outside (b : Nat → UInt8) (addr : Nat) {a : Nat} (hf : ∀ h ∈ hs, h.pFilesz ≤ h.pMemsz)
    (ha : ∀ h ∈ hs, ¬ (h.pVaddr ≤ a ∧ a < h.pVaddr + h.pMemsz)) :
    allContent b addr hs V a = if ∃ h ∈ hs, Brings h a then some none else V a := by
  induction hs generalizing V with
  | nil => simp [allContent]
  | cons h hs ih =>
    have hrest := ih (V := segContent b addr h V) (fun k hk => hf k (List.mem_cons_of_mem _ hk))
      fun k hk => ha k (List.mem_cons_of_mem _ hk)
    rw [allContent, List.foldl_cons, ← allContent, hrest,
      segContent_outside (hf h List.mem_cons_self) (ha h List.mem_cons_self)]
    by_cases hex : ∃ k ∈ hs, Brings k a
    · have hcons : ∃ k ∈ h :: hs, Brings k a := hex.imp fun k hk => ⟨List.mem_cons_of_mem _ hk.1, hk.2⟩
      rw [if_pos hex, if_pos hcons]
    · have hcons : (∃ k ∈ h :: hs, Brings k a) ↔ Brings h a := by simp [hex]
      simp only [if_neg hex, hcons]

/-- Every byte of a segment is on a page that the segment or one before it brings and none
after it brings again, and the loops do not stop before it. -/
structure Placed (hs : List Elf64Phdr) : Prop where
  pages : ∀ pre h post, hs = pre ++ h :: post → ∀ k < h.pMemsz,
    (∃ i ∈ pre ++ [h], Brings i (h.pVaddr + k)) ∧ ∀ i ∈ post, ¬ Brings i (h.pVaddr + k)
  sizes : ∀ h ∈ hs, h.pFilesz ≤ 2 ^ 31 ∧ h.pMemsz - h.pFilesz ≤ 2 ^ 31

theorem covered_iff (hf : h.pFilesz ≤ h.pMemsz) :
    (∀ k < h.pMemsz, Covered h k) ↔ h.pFilesz ≤ 2 ^ 31 ∧ h.pMemsz - h.pFilesz ≤ 2 ^ 31 := by
  unfold Covered intTurns
  constructor
  · intro hall
    refine ⟨?_, ?_⟩
    · by_contra hbig
      have := hall (2 ^ 31) (by omega)
      omega
    · by_contra hbig
      have := hall (h.pFilesz + 2 ^ 31) (by omega)
      omega
  · intro hh k hk
    omega

theorem placed_of_aligned (hseg : Segments hs) (h4 : ∀ h ∈ hs, 4096 ∣ h.pVaddr)
    (hsz : ∀ h ∈ hs, h.pFilesz ≤ 2 ^ 31 ∧ h.pMemsz - h.pFilesz ≤ 2 ^ 31) : Placed hs := by
  have hbrings : ∀ h ∈ hs, ∀ a, Brings h a ↔
      h.pVaddr ≤ a ∧ a < h.pVaddr + (h.pMemsz + 4095) / 4096 * 4096 := by
    intro h hh a
    have hu := hseg.user h hh
    have hv := h4 h hh
    rw [Brings, segStart_eq hu, pagesOf]
    omega
  refine ⟨fun pre h post he k hk => ?_, hsz⟩
  subst he
  have hh : h ∈ pre ++ h :: post := by simp
  refine ⟨⟨h, by simp, (hbrings h hh _).mpr (by omega)⟩, fun i hi hb => ?_⟩
  have hin : i ∈ pre ++ h :: post := by simp [hi]
  have hb' := (hbrings i hin _).mp hb
  have hv := h4 h hh
  have hvi := h4 i hin
  have hapart := (List.pairwise_cons.mp (List.pairwise_append.mp hseg.apart).2.1).1 i hi
  -- the last byte of the earlier range on that page belongs to both
  rcases Nat.lt_or_ge (h.pVaddr + k) (i.pVaddr + i.pMemsz) with hlt | hge
  · exact hapart _ (by omega) (by omega) ⟨hb'.1, hlt⟩
  · exact hapart (i.pVaddr + i.pMemsz - 1) (by omega) (by omega) (by omega)

/-- A byte of a segment is what the file wants if and only if it is well placed. -/
theorem allContent_inside (b : Nat → UInt8) (addr : Nat) {pre post : List Elf64Phdr} {k : Nat}
    (hs : Segments (pre ++ h :: post)) (hk : k < h.pMemsz) :
    allContent b addr (pre ++ h :: post) (fun _ => none) (h.pVaddr + k) =
        some (some (want b addr h k)) ↔
      ((∃ i ∈ pre ++ [h], Brings i (h.pVaddr + k)) ∧ ∀ i ∈ post, ¬ Brings i (h.pVaddr + k)) ∧
        Covered h k := by
  obtain ⟨-, hapart, hcross⟩ := List.pairwise_append.mp hs.apart
  have hpre : ∀ i ∈ pre, ¬ (i.pVaddr ≤ h.pVaddr + k ∧ h.pVaddr + k < i.pVaddr + i.pMemsz) :=
    fun i hi hin => hcross i hi h List.mem_cons_self _ hin.1 hin.2 ⟨by omega, by omega⟩
  have hpost : ∀ i ∈ post, ¬ (i.pVaddr ≤ h.pVaddr + k ∧ h.pVaddr + k < i.pVaddr + i.pMemsz) :=
    fun i hi => (List.pairwise_cons.mp hapart).1 i hi _ (by omega) (by omega)
  have hfit := hs.fits
  have hV := allContent_outside b addr (V := fun _ => none)
    (fun i hi => hfit i (by simp [hi])) hpre
  have hin := segContent_inside b addr (k := k)
    (V := allContent b addr pre fun _ => none) (by
      rw [hV]
      by_cases hex : ∃ i ∈ pre, Brings i (h.pVaddr + k)
      · exact .inr (if_pos hex)
      · exact .inl (if_neg hex))
  have hout := allContent_outside b addr
    (V := segContent b addr h (allContent b addr pre fun _ => none))
    (fun i hi => hfit i (by simp [hi])) hpost
  have hfold : allContent b addr (pre ++ h :: post) (fun _ => none) = allContent b addr post
      (segContent b addr h (allContent b addr pre fun _ => none)) := by
    simp [allContent]
  have hbrought : (∃ i ∈ pre ++ [h], Brings i (h.pVaddr + k)) ↔
      allContent b addr pre (fun _ => none) (h.pVaddr + k) ≠ none ∨ Brings h (h.pVaddr + k) := by
    rw [hV]
    by_cases hex : ∃ i ∈ pre, Brings i (h.pVaddr + k)
    · obtain ⟨i, hi, hb⟩ := id hex
      rw [if_pos hex]
      exact ⟨fun _ => .inl (by simp), fun _ => ⟨i, by simp [hi], hb⟩⟩
    · rw [if_neg hex]
      refine ⟨?_, ?_⟩
      · rintro ⟨i, hi, hb⟩
        rcases List.mem_append.mp hi with hi | hi
        · exact absurd ⟨i, hi, hb⟩ hex
        · exact .inr (List.mem_singleton.mp hi ▸ hb)
      · rintro (hne | hb)
        · simp at hne
        · exact ⟨h, by simp, hb⟩
  rw [hfold, hout, hbrought]
  by_cases hex : ∃ i ∈ post, Brings i (h.pVaddr + k)
  · rw [if_pos hex]
    obtain ⟨i, hi, hb⟩ := hex
    refine ⟨fun he => ?_, fun hc => absurd hb (hc.1.2 i hi)⟩
    simp at he
  · rw [if_neg hex, hin]
    have hnone : ∀ i ∈ post, ¬ Brings i (h.pVaddr + k) := fun i hi hb => hex ⟨i, hi, hb⟩
    exact ⟨fun hc => ⟨⟨hc.1, hnone⟩, hc.2⟩, fun hc => ⟨hc.1.1, hc.2⟩⟩

end Vm

end TayHuang
