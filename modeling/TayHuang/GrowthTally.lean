import TayHuang.PageConservation

/-! A heap that keeps growing, 256 KiB at a time. The blocks it grows by come one
after the other off the free lists, so it is known beforehand which they are; and
of its segments only the last one counts, the others having been too small before. -/

namespace TayHuang

open Function (update)

/-! ### The last segment -/

/-- The free units of a heap in front of its last segment, those of the last
segment, and where this ends. -/
structure Tally where
  front : Nat
  tail : Nat
  stop : Nat

def tally (l : List Seg) : Tally where
  front := room l.dropLast
  tail := room l.getLast?.toList
  stop := (l.getLast?.map fun b => b.addr + b.size).getD 0

namespace Tally

/-- 256 KiB at `a` are linked behind the last segment. -/
def extend (t : Tally) (a : Nat) : Tally :=
  if 0 < t.tail ∧ t.stop = a then ⟨t.front, t.tail + 4096, a + 4096 * 2 ^ 6⟩
  else ⟨t.front + t.tail, 4096, a + 4096 * 2 ^ 6⟩

/-- `n` units are used up. -/
def carve (t : Tally) (n : Nat) : Tally := ⟨t.front - n, t.tail - (n - t.front), t.stop⟩

/-- Growth by the 256 KiB at `c.1`, with `c.2` nodes for what is left of the block. -/
def grow (t : Tally) (c : Nat × Nat) : Tally := (t.extend c.1).carve c.2

theorem carve_carve (t : Tally) (n k : Nat) : (t.carve n).carve k = t.carve (k + n) := by
  simp only [carve, mk.injEq, and_true]
  omega

end Tally

@[simp] theorem tally_concat (pre : List Seg) (b : Seg) :
    tally (pre ++ [b]) = ⟨room pre, room [b], b.addr + b.size⟩ := by
  simp [tally]

/-- Segments are made of whole units. -/
def Units (l : List Seg) : Prop := ∀ x ∈ l, 0 < x.size ∧ 64 ∣ x.size

theorem Arena.units {mem : Set Nat} {l : List Seg} (h : Arena mem l) : Units l :=
  fun x hx => (h.pos x hx).2

/-- The free segments in front of the last one are smaller than `n`. -/
def FrontBelow (n : Nat) (l : List Seg) : Prop := ∀ x ∈ l.dropLast, x.used = false → x.size < n

theorem Units.takeAt {pre post : List Seg} {b : Seg} (h : Units (pre ++ b :: post)) :
    Units (takeAt pre b post 64) := by
  have hb := h b (by simp)
  intro x hx
  unfold TayHuang.takeAt at hx
  split at hx <;> simp only [List.mem_append, List.mem_cons] at hx
  · rcases hx with hx | rfl | rfl | hx
    · exact h x (by simp [hx])
    · simp
    · simp only
      omega
    · exact h x (by simp [hx])
  · rcases hx with hx | rfl | hx
    · exact h x (by simp [hx])
    · exact hb
    · exact h x (by simp [hx])

theorem room_used {l : List Seg} (h : ∀ x ∈ l, x.used = true) : room l = 0 := by
  induction l with
  | nil => rfl
  | cons x l ih =>
    rw [room_cons, ih fun y hy => h y (by simp [hy]), if_pos (h x (by simp))]

theorem tally_takeAt {pre post : List Seg} {b : Seg} (h : Units (pre ++ b :: post))
    (hpre : ∀ x ∈ pre, x.used = true) (hu : b.used = false) :
    tally (takeAt pre b post 64) = (tally (pre ++ b :: post)).carve 1 := by
  have hb := h b (by simp)
  have h0 := room_used hpre
  rcases List.eq_nil_or_concat post with rfl | ⟨post, z, rfl⟩
  · unfold takeAt
    split
    · have he : pre ++ ⟨b.addr, 64, true⟩ :: [⟨b.addr + 64, b.size - 64, false⟩] =
          (pre ++ [⟨b.addr, 64, true⟩]) ++ [⟨b.addr + 64, b.size - 64, false⟩] := by simp
      rw [he, tally_concat, tally_concat, Tally.carve]
      simp [h0, hu]
      omega
    · rw [tally_concat, tally_concat, Tally.carve]
      simp [h0, hu]
      omega
  · rw [List.concat_eq_append]
    have he : ∀ r : List Seg, pre ++ b :: (r ++ [z]) = (pre ++ b :: r) ++ [z] := by simp
    unfold takeAt
    split
    · have he' : pre ++ ⟨b.addr, 64, true⟩ :: ⟨b.addr + 64, b.size - 64, false⟩ :: (post ++ [z]) =
          (pre ++ ⟨b.addr, 64, true⟩ :: ⟨b.addr + 64, b.size - 64, false⟩ :: post) ++ [z] := by
        simp
      rw [he', he, tally_concat, tally_concat, Tally.carve]
      simp [h0, hu]
      omega
    · have he' : pre ++ { b with used := true } :: (post ++ [z]) =
          (pre ++ { b with used := true } :: post) ++ [z] := by simp
      rw [he', he, tally_concat, tally_concat, Tally.carve]
      simp [h0, hu]
      omega

theorem FrontBelow.takeAt {n : Nat} {pre post : List Seg} {b : Seg} (hu : b.used = false)
    (h : FrontBelow n (pre ++ b :: post)) : FrontBelow n (takeAt pre b post 64) := by
  rcases List.eq_nil_or_concat post with rfl | ⟨post, z, rfl⟩
  · rw [FrontBelow, List.dropLast_concat] at h
    unfold TayHuang.takeAt
    split
    · have he : pre ++ ⟨b.addr, 64, true⟩ :: [⟨b.addr + 64, b.size - 64, false⟩] =
          (pre ++ [⟨b.addr, 64, true⟩]) ++ [⟨b.addr + 64, b.size - 64, false⟩] := by simp
      rw [he, FrontBelow, List.dropLast_concat]
      intro x hx hxu
      rcases List.mem_append.mp hx with hx | hx
      · exact h x hx hxu
      · rw [List.mem_singleton.mp hx] at hxu
        simp at hxu
    · rw [FrontBelow, List.dropLast_concat]
      exact h
  · rw [List.concat_eq_append] at h ⊢
    have he : pre ++ b :: (post ++ [z]) = (pre ++ b :: post) ++ [z] := by simp
    rw [he, FrontBelow, List.dropLast_concat] at h
    have hb := h b (by simp) hu
    unfold TayHuang.takeAt
    split
    · have he' : pre ++ ⟨b.addr, 64, true⟩ :: ⟨b.addr + 64, b.size - 64, false⟩ :: (post ++ [z]) =
          (pre ++ ⟨b.addr, 64, true⟩ :: ⟨b.addr + 64, b.size - 64, false⟩ :: post) ++ [z] := by
        simp
      rw [he', FrontBelow, List.dropLast_concat]
      intro x hx hxu
      simp only [List.mem_append, List.mem_cons] at hx
      rcases hx with hx | rfl | rfl | hx
      · exact h x (by simp [hx]) hxu
      · simp at hxu
      · simp only
        omega
      · exact h x (by simp [hx]) hxu
    · have he' : pre ++ { b with used := true } :: (post ++ [z]) =
          (pre ++ { b with used := true } :: post) ++ [z] := by simp
      rw [he', FrontBelow, List.dropLast_concat]
      intro x hx hxu
      simp only [List.mem_append, List.mem_cons] at hx
      rcases hx with hx | rfl | hx
      · exact h x (by simp [hx]) hxu
      · simp at hxu
      · exact h x (by simp [hx]) hxu

theorem Carved.tally {n : Nat} {l l' : List Seg} (h : Carved n l l') (hl : Units l) :
    tally l' = (tally l).carve n ∧ Units l' ∧ ∀ k, FrontBelow k l → FrontBelow k l' := by
  induction h with
  | none l => exact ⟨by simp [Tally.carve], hl, fun k hk => hk⟩
  | unit hpre hu _ ih =>
    obtain ⟨h1, h2, h3⟩ := ih hl.takeAt
    refine ⟨?_, h2, fun k hk => h3 k (hk.takeAt hu)⟩
    rw [h1, tally_takeAt hl hpre hu, Tally.carve_carve]

theorem tally_joinAt {l : List Seg} {a n : Nat} (hl : Units l) (hne : l ≠ [])
    (hsmall : ∀ x ∈ l, x.used = false → x.size < n) :
    tally (joinAt l ⟨a, 4096 * 2 ^ 6, false⟩ []) = (tally l).extend a ∧
      Units (joinAt l ⟨a, 4096 * 2 ^ 6, false⟩ []) ∧
      FrontBelow n (joinAt l ⟨a, 4096 * 2 ^ 6, false⟩ []) := by
  obtain ⟨pre, b, rfl⟩ : ∃ pre b, l = pre ++ [b] :=
    ⟨_, _, (List.dropLast_append_getLast hne).symm⟩
  have hb := hl b (by simp)
  have hpos : 0 < b.size / 64 := Nat.div_pos (Nat.le_of_dvd hb.1 hb.2) (by decide)
  have hblk : (4096 * 2 ^ 6 : Nat) = 262144 := rfl
  simp only [joinAt, joinNext, joinLast_concat, hblk]
  split
  · rename_i hj
    refine ⟨?_, ?_, ?_⟩
    · rw [tally_concat, tally_concat, Tally.extend]
      simp [hj.1, hj.2, hpos]
      omega
    · intro x hx
      rcases List.mem_append.mp hx with hx | hx
      · exact hl x (by simp [hx])
      · rw [List.mem_singleton.mp hx]
        simp only
        omega
    · rw [FrontBelow, List.dropLast_concat]
      exact fun x hx => hsmall x (by simp [hx])
  · rename_i hj
    have he : pre ++ b :: [⟨a, 262144, false⟩] = (pre ++ [b]) ++ [⟨a, 262144, false⟩] := by simp
    rw [he]
    refine ⟨?_, ?_, ?_⟩
    · rw [tally_concat, tally_concat, Tally.extend, if_neg]
      · simp
      · simp only [room_cons, room_nil]
        rintro ⟨h1, h2⟩
        cases hu : b.used
        · exact hj ⟨hu, h2⟩
        · simp [hu] at h1
    · intro x hx
      rcases List.mem_append.mp hx with hx | hx
      · exact hl x hx
      · rw [List.mem_singleton.mp hx]
        exact ⟨by simp, ⟨4096, by simp⟩⟩
    · rw [FrontBelow, List.dropLast_concat]
      exact hsmall

theorem fits_iff_tail {l : List Seg} {n k : Nat} (hl : Units l) (hne : l ≠ [])
    (hf : FrontBelow n l) (hk : n ≤ k) (h0 : 0 < k) :
    (∃ x ∈ l, x.used = false ∧ k ≤ x.size) ↔ k ≤ 64 * (tally l).tail := by
  obtain ⟨pre, b, rfl⟩ : ∃ pre b, l = pre ++ [b] :=
    ⟨_, _, (List.dropLast_append_getLast hne).symm⟩
  rw [FrontBelow, List.dropLast_concat] at hf
  have hb := hl b (by simp)
  simp only [tally_concat, room_cons, room_nil]
  constructor
  · rintro ⟨x, hx, hu, hs⟩
    rcases List.mem_append.mp hx with hx | hx
    · have := hf x hx hu
      omega
    · obtain rfl := List.mem_singleton.mp hx
      simp only [hu, Bool.false_eq_true, if_false]
      omega
  · intro hs
    cases hu : b.used
    · simp only [hu, Bool.false_eq_true, if_false] at hs
      exact ⟨b, by simp, hu, by omega⟩
    · simp only [hu, if_true] at hs
      omega

/-! ### The blocks to grow by -/

/-- A block of order `6 + d` at `a`, as the heap grows by it: 256 KiB after
256 KiB, each with the number of pieces that go back to the free lists. -/
def cut : Nat → Nat → List (Nat × Nat)
  | 0, a => [(a, 0)]
  | d + 1, a => (a, d + 1) :: ((cut d a).tail ++ cut d (a + 4096 * 2 ^ (6 + d)))

/-- All that the heap can grow by, in order. -/
def chunks (L : Nat → List (Nat × Nat)) : List (Nat × Nat) :=
  (List.range 4).flatMap fun d => ((L (6 + d)).map Prod.snd).flatMap (cut d)

theorem chunks_eq_nil {L : Nat → List (Nat × Nat)} (h : ∀ i, 6 ≤ i → i ≤ 9 → L i = []) :
    chunks L = [] := by
  rw [chunks, List.flatMap_eq_nil_iff]
  intro d hd
  have hd := List.mem_range.mp hd
  rw [h (6 + d) (by omega) (by omega)]
  rfl

theorem fileAll_addresses {M : Nat → List (Nat × Nat)} {ns : List (Nat × Nat × Nat)} (o : Nat) :
    (fileAll M ns o).map Prod.snd = (M o).map Prod.snd ++
      ((ns.map fun n => (n.1, n.2.2)).filter fun b => b.1 = o).map Prod.snd := by
  rw [fileAll, List.map_append, List.filter_map, List.map_map, List.map_map]
  rfl

theorem chunks_grown {L : Nat → List (Nat × Nat)} {i : Nat} {x : Nat × Nat}
    {rest : List (Nat × Nat)} {ns : List (Nat × Nat × Nat)} (hf : Found L 6 i) (hx : L i = x :: rest)
    (hns : (ns.map fun n => (n.1, n.2.2)) =
      ((List.range i).filter (6 ≤ ·)).map fun j => (j, x.2 + 4096 * 2 ^ j)) :
    chunks L = (x.2, i - 6) :: chunks (fileAll (update L i rest) ns) := by
  obtain ⟨h6, h9, -, hmin⟩ := hf
  have hrange : List.range 4 = [0, 1, 2, 3] := rfl
  have hlist : ∀ o, (fileAll (update L i rest) ns o).map Prod.snd =
      (update L i rest o).map Prod.snd ++ ((((List.range i).filter (6 ≤ ·)).map
        fun j => (j, x.2 + 4096 * 2 ^ j)).filter fun b => b.1 = o).map Prod.snd := by
    intro o
    rw [fileAll_addresses, hns]
  simp only [chunks, hlist, hrange, List.flatMap_cons, List.flatMap_nil, List.append_nil]
  obtain rfl | rfl | rfl | rfl : i = 6 ∨ i = 7 ∨ i = 8 ∨ i = 9 := by omega
  · have hpieces : (List.range 6).filter (6 ≤ ·) = [] := by decide
    simp [hpieces, hx, cut]
  · have hpieces : (List.range 7).filter (6 ≤ ·) = [6] := by decide
    simp [hpieces, hx, hmin 6 (by omega) (by omega), cut]
  · have hpieces : (List.range 8).filter (6 ≤ ·) = [6, 7] := by decide
    simp [hpieces, hx, hmin 6 (by omega) (by omega), hmin 7 (by omega) (by omega), cut]
  · have hpieces : (List.range 9).filter (6 ≤ ·) = [6, 7, 8] := by decide
    simp [hpieces, hx, hmin 6 (by omega) (by omega), hmin 7 (by omega) (by omega),
      hmin 8 (by omega) (by omega), cut]

end TayHuang
