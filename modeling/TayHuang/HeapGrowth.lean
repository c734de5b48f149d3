import TayHuang.KernelHeap
import Mathlib.Order.Interval.Finset.Nat

/-! What `kmalloc` and the free lists it calls do to the heap, growth included.
The heap occupies the prepared region and every block it was given so far. -/

namespace TayHuang

open Function (update)
open LinkedCells

/-- The memory of the heap: the prepared region, and the first `2 ^ 6` pages of
each block that was asked for. -/
def heapBytes (base sz : Nat) (g : List (Nat × Nat)) : Set Nat :=
  { k | (base ≤ k ∧ k < base + sz) ∨ ∃ b ∈ g, b.1 ≤ k ∧ k < b.1 + 4096 * 2 ^ 6 }

/-- Every growth request so far was answered by a block that lies in memory and
is disjoint from the heap as it was then. -/
def GrownOk (base sz : Nat) (g : List (Nat × Nat)) : Prop :=
  ∀ pre b post, g = pre ++ b :: post → b.1 ≠ 0 ∧ b.1 + 4096 * 2 ^ 6 ≤ 2 ^ 64 ∧
    ∀ k, b.1 ≤ k → k < b.1 + 4096 * 2 ^ 6 → k ∉ heapBytes base sz pre

/-- The heap in memory, as the segment list `l`. -/
structure HeapAt (mem : Set Nat) (s : KMem) (l : List Seg) : Prop where
  start : some s.startAddr = entry Seg.addr l none
  laid : Laid s.seg l
  arena : Arena mem l

/-- Used segments stay where they are. -/
def Kept (l l' : List Seg) : Prop := ∀ x ∈ l, x.used = true → x ∈ l'

/-- `p` points into a used segment of `l'` that has room for `n` bytes behind
its header and was not a used segment of `l`. -/
def Served (l l' : List Seg) (p n : Nat) : Prop :=
  ∃ c ∈ l', c.used = true ∧ p = c.addr + 24 ∧ n + 24 ≤ c.size ∧
    ∀ x ∈ l, x.used = true → x.addr ≠ c.addr

theorem GrownOk.prefix {base sz : Nat} {g g' : List (Nat × Nat)} (h : GrownOk base sz (g ++ g')) :
    GrownOk base sz g := by
  intro pre b post he
  exact h pre b (post ++ g') (by simp [he])

theorem heapBytes_mono {base sz : Nat} {g g' : List (Nat × Nat)} (h : ∀ b ∈ g, b ∈ g') :
    heapBytes base sz g ⊆ heapBytes base sz g' := by
  rintro k (hk | ⟨b, hb, hk⟩)
  · exact Or.inl hk
  · exact Or.inr ⟨b, h b hb, hk⟩

theorem Kept.trans {l₁ l₂ l₃ : List Seg} (h : Kept l₁ l₂) (h' : Kept l₂ l₃) : Kept l₁ l₃ :=
  fun x hx hu => h' x (h x hx hu) hu

theorem HeapAt.congr {mem : Set Nat} {s s' : KMem} {l : List Seg} (h : HeapAt mem s l)
    (hs : s'.startAddr = s.startAddr) (hm : s'.seg = s.seg) : HeapAt mem s' l :=
  ⟨hs ▸ h.start, by rw [hm]; exact h.laid, h.arena⟩

/-! ### Sizes -/

theorem fixSize_eq {n : Nat} (h : n + 63 < 2 ^ 64) : fixSize n = (n + 63) / 64 * 64 := by
  rw [fixSize, Nat.mod_eq_of_lt h]

theorem fixSize_spec {n : Nat} (h : n + 63 < 2 ^ 64) :
    n ≤ fixSize n ∧ fixSize n < n + 64 ∧ 64 ∣ fixSize n := by
  rw [fixSize_eq h]
  exact ⟨by omega, by omega, Nat.dvd_mul_left 64 _⟩

theorem GrownOk.length_le {base sz : Nat} {g : List (Nat × Nat)} (h : GrownOk base sz g) :
    g.length * (4096 * 2 ^ 6) ≤ 2 ^ 64 := by
  have key : ∀ g : List (Nat × Nat), GrownOk base sz g →
      ∃ F : Finset Nat, F.card = g.length * (4096 * 2 ^ 6) ∧
        (∀ k ∈ F, k < 2 ^ 64 ∧ ∃ b ∈ g, b.1 ≤ k ∧ k < b.1 + 4096 * 2 ^ 6) := by
    intro g
    induction g using List.reverseRecOn with
    | nil => exact fun _ => ⟨∅, by simp, by simp⟩
    | append_singleton g b ih =>
      intro hg
      obtain ⟨F, hc, hF⟩ := ih hg.prefix
      obtain ⟨-, hle, hdis⟩ := hg g b [] rfl
      refine ⟨F ∪ Finset.Ico b.1 (b.1 + 4096 * 2 ^ 6), ?_, ?_⟩
      · rw [Finset.card_union_of_disjoint, hc, Nat.card_Ico, List.length_append,
          List.length_singleton]
        · omega
        · apply Finset.disjoint_left.mpr
          intro k hk hb
          rw [Finset.mem_Ico] at hb
          exact hdis k hb.1 hb.2 (Or.inr (hF k hk).2)
      · intro k hk
        rcases Finset.mem_union.mp hk with hk | hk
        · obtain ⟨h1, c, hc, h2⟩ := hF k hk
          exact ⟨h1, c, by simp [hc], h2⟩
        · rw [Finset.mem_Ico] at hk
          exact ⟨by omega, b, by simp, hk⟩
  obtain ⟨F, hc, hF⟩ := key g h
  have hsub : F ⊆ Finset.range (2 ^ 64) := fun k hk => Finset.mem_range.mpr (hF k hk).1
  have := Finset.card_le_card hsub
  rw [hc, Finset.card_range] at this
  exact this

/-! ### The free lists leave the segments alone -/

theorem allocFreePagesFrom_same (s : KMem) (og k i : Nat) :
    (allocFreePagesFrom s og k i).1.seg = s.seg ∧
      (allocFreePagesFrom s og k i).1.startAddr = s.startAddr ∧
      (allocFreePagesFrom s og k i).1.grown = s.grown := by
  induction k generalizing i with
  | zero => exact ⟨rfl, rfl, rfl⟩
  | succ k ih =>
    unfold allocFreePagesFrom
    split
    · exact ⟨rfl, rfl, rfl⟩
    · exact ih (i + 1)

theorem allocFreePages_same (s : KMem) (order og : Nat) :
    (allocFreePages s order og).1.seg = s.seg ∧
      (allocFreePages s order og).1.startAddr = s.startAddr ∧
      (allocFreePages s order og).1.grown = s.grown :=
  allocFreePagesFrom_same s og _ _

/-! ### Growth -/

/-- Linking a block that is apart from every segment behind the last one. -/
theorem growHeap_link {mem mem' : Set Nat} {s : KMem} {l : List Seg} {c : Nat}
    (h : HeapAt mem s l) (hc : ∃ pre b, l = pre ++ [b] ∧ c = b.addr) (hsub : mem ⊆ mem')
    (h0 : (growHeap s c).2.1 ≠ 0)
    (hap : ∀ x ∈ l, Seg.Apart x ⟨(growHeap s c).2.1, 4096 * 2 ^ 6, false⟩)
    (hnew : Seg.bytes ⟨(growHeap s c).2.1, 4096 * 2 ^ 6, false⟩ ⊆ mem') :
    HeapAt mem' (growHeap s c).1 (joinAt l ⟨(growHeap s c).2.1, 4096 * 2 ^ 6, false⟩ []) := by
  obtain ⟨hseg, hstart, -⟩ := allocFreePages_same s 6 0
  obtain ⟨pre, b, rfl, rfl⟩ := hc
  set r := allocFreePages s 6 0 with hr
  have hblk : (growHeap s b.addr).2.1 = r.2.1 := by simp [growHeap, ← hr]
  rw [hblk] at h0 hap hnew ⊢
  have hloose : Loose mem' (pre ++ [b]) ⟨r.2.1, 4096 * 2 ^ 6, false⟩ [] :=
    h.arena.loose_append hsub rfl ⟨Nat.pos_of_ne_zero h0, by simp, ⟨4096, by simp⟩⟩ hap hnew
  have hnin : r.2.1 ∉ (pre ++ [b]).map Seg.addr := by
    intro hm
    obtain ⟨x, hx, he⟩ := List.mem_map.mp hm
    have h1 := hap x hx
    have h2 := (h.arena.pos x hx).2.1
    unfold Seg.Apart at h1
    simp only at h1
    omega
  obtain ⟨hpre, hb, -⟩ := laid_split.mp h.laid
  have hbn : b.addr ≠ r.2.1 := fun he => hnin (by simp [he])
  have hbp : b.addr ∉ pre.map Seg.addr := by
    have hn := h.arena.beside.addr_nodup
    rw [List.map_append, List.nodup_append] at hn
    exact fun hh => hn.2.2 _ hh b.addr (by simp) rfl
  have hm : Laid (update (update r.1.seg r.2.1 ⟨4096 * 2 ^ 6, false, none, some b.addr⟩) b.addr
      { update r.1.seg r.2.1 ⟨4096 * 2 ^ 6, false, none, some b.addr⟩ b.addr with
        next := toPtr r.2.1 }) ((pre ++ [b]) ++ [⟨r.2.1, 4096 * 2 ^ 6, false⟩]) := by
    rw [hseg, List.append_assoc, List.singleton_append, laid_split]
    have hnp : r.2.1 ∉ pre.map Seg.addr := fun hh => hnin (by simp [List.mem_map.mp hh])
    refine ⟨(hpre.update hnp).update hbp, ?_, ?_, trivial⟩
    · rw [Function.update_self, Function.update_of_ne hbn, hb]
      simp [segCell, toPtr, h0]
    · rw [Function.update_of_ne hbn.symm, Function.update_self]
      rfl
  refine ⟨?_, ?_, hloose.joinAt⟩
  · have hs : (growHeap s b.addr).1.startAddr = s.startAddr := by
      simp [growHeap, ← hr, hstart]
    rw [hs, h.start]
    simp only [joinAt, joinNext, joinLast_concat]
    split <;> cases pre <;> simp
  · have hh := doCombine_laid hm hloose
    simpa [growHeap, ← hr] using hh

theorem growHeap_grown (s : KMem) (c : Nat) :
    (growHeap s c).1.grown = s.grown ++ [(growHeap s c).2] := by
  have := (allocFreePages_same s 6 0).2.2
  simp [growHeap, this]

/-- A block that is disjoint from the heap is apart from its segments. -/
theorem growHeap_heapAt {base sz : Nat} {s : KMem} {l : List Seg} {c : Nat}
    (h : HeapAt (heapBytes base sz s.grown) s l) (hc : ∃ pre b, l = pre ++ [b] ∧ c = b.addr)
    (hg : GrownOk base sz (growHeap s c).1.grown) :
    HeapAt (heapBytes base sz (growHeap s c).1.grown) (growHeap s c).1
      (joinAt l ⟨(growHeap s c).2.1, 4096 * 2 ^ 6, false⟩ []) := by
  rw [growHeap_grown] at hg ⊢
  obtain ⟨h0, hle, hdis⟩ := hg s.grown (growHeap s c).2 [] rfl
  refine growHeap_link h hc (heapBytes_mono (fun b hb => by simp [hb])) h0 ?_ ?_
  · intro x hx
    have hpos := (h.arena.pos x hx).2.1
    have hw := h.arena.within x hx
    by_contra hno
    unfold Seg.Apart at hno
    simp only [not_or, not_le] at hno
    have hm : max x.addr (growHeap s c).2.1 ∈ heapBytes base sz s.grown :=
      hw ⟨le_max_left _ _, by omega⟩
    exact hdis _ (le_max_right _ _) (by omega) hm
  · exact fun k hk => Or.inr ⟨(growHeap s c).2, by simp, hk⟩

end TayHuang
