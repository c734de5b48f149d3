import TayHuang.UserHeapRuns

/-! What `free` makes of the free list of a module's heap. The loop that looks for
the place of the chunk runs off the list behind the last free chunk, and the second
join is at the chunk in front again, so a chunk is joined with the one behind it
only after it went into the one in front. -/

namespace TayHuang

open LinkedCells

/-- The bytes of `x` are bytes of `z`. -/
def Seg.Within (x z : Seg) : Prop := z.addr ≤ x.addr ∧ x.addr + x.size ≤ z.addr + z.size

/-- No chunk of the list ends where a later one starts. -/
def Parted (l : List Seg) : Prop := l.Pairwise fun x y => x.addr + x.size ≠ y.addr

/-! ### The place of a chunk -/

theorem exists_gap {current : Nat} {x : Seg} {l : List Seg} (hx : x.addr < current)
    (hbehind : ∃ n ∈ l, current < n.addr) (hne : ∀ n ∈ l, n.addr ≠ current) :
    ∃ q y n post, x :: l = q ++ y :: n :: post ∧ y.addr < current ∧ current < n.addr := by
  induction l generalizing x with
  | nil => simp at hbehind
  | cons n l ih =>
    by_cases hn : current < n.addr
    · exact ⟨[], x, n, l, rfl, hx, hn⟩
    · have hlt : n.addr < current := by
        have := hne n (by simp)
        omega
      have hbehind' : ∃ z ∈ l, current < z.addr := by
        obtain ⟨z, hz, hcz⟩ := hbehind
        rcases List.mem_cons.mp hz with rfl | hz
        · exact absurd hcz hn
        · exact ⟨z, hz, hcz⟩
      obtain ⟨q, y, n', post, hl, hgap⟩ := ih hlt hbehind' fun z hz => hne z (by simp [hz])
      exact ⟨x :: q, y, n', post, by rw [hl]; rfl, hgap⟩

theorem findGap_of_gap {m : Nat → Chunk} {current : Nat} {q post : List Seg} {x y n : Seg}
    {l : List Seg} (h : Chained Seg.addr chunkCell m (x :: l) none) (hl : x :: l = q ++ y :: n :: post)
    (hy : y.addr < current) (hn : current < n.addr) :
    ∃ fuel last, findGap m current fuel (some x.addr) = some last := by
  induction q generalizing x l with
  | nil =>
    obtain ⟨rfl, rfl⟩ : x = y ∧ l = n :: post := List.cons.inj hl
    refine ⟨1, x.addr, ?_⟩
    rw [findGap, h.1]
    simp [chunkCell, hy, hn]
  | cons w q ih =>
    obtain ⟨-, hlq⟩ : x = w ∧ l = q ++ y :: n :: post := List.cons.inj hl
    cases l with
    | nil => simp at hlq
    | cons z l =>
      have hx : m x.addr = chunkCell x (some z.addr) := h.1
      by_cases hgap : x.addr < current ∧ current < z.addr
      · refine ⟨1, x.addr, ?_⟩
        rw [findGap, hx]
        simp [chunkCell, hgap]
      · obtain ⟨fuel, last, hf⟩ := ih h.2 hlq
        refine ⟨fuel + 1, last, ?_⟩
        rw [findGap, hx]
        simpa only [chunkCell, if_neg hgap] using hf

section Frees

variable {start fin : Nat} {s s' : UHeap} {live : List (Nat × Nat)} {fl : List Seg} {b : Nat × Nat}

/-- The loop of `free` finds a place exactly if a free chunk lies behind. -/
theorem free_returns (h : UHeapKept start fin s live fl) (h0 : 0 < start) (hb : b ∈ live) :
    (∃ fuel s', free fuel s b.1 = some s') ↔ ∃ n ∈ fl, (chunkOf s.chunk b).addr < n.addr := by
  have hheap : toPtr s.heap = some (sentinel start).addr := by
    simp [toPtr, h.heap, sentinel, h0.ne']
  have hal : chunkOf s.chunk b ∈ live.map (chunkOf s.chunk) := List.mem_map_of_mem hb
  constructor
  · rintro ⟨fuel, s', hf⟩
    obtain ⟨last, hgap, -⟩ := Option.map_eq_some_iff.mp hf
    rw [hheap] at hgap
    obtain ⟨q, y, n, post, hl, -, -, hn⟩ := findGap_spec h.chunks.chained hgap
    obtain ⟨p, rfl, -⟩ := sentinel_split hl
    exact ⟨n, by simp, hn⟩
  · intro hbehind
    have hstart : (sentinel start).addr < (chunkOf s.chunk b).addr := by
      have := (h.chunks.packed.inside _ (List.mem_append_right fl hal)).1
      simp only [sentinel]
      omega
    obtain ⟨q, y, n, post, hl, hy, hn⟩ := exists_gap hstart hbehind fun n hn =>
      h.chunks.addr_ne n (by simp [hn]) _ hal
    obtain ⟨fuel, last, hf⟩ := findGap_of_gap h.chunks.chained hl hy hn
    have hlast : findGap s.chunk (b.1 - 16) fuel (some (sentinel start).addr) = some last := hf
    refine ⟨fuel, Option.isSome_iff_exists.mp ?_⟩
    rw [free, hheap, hlast]
    rfl

end Frees

/-! ### Two joins at one chunk -/

section Joins

variable {y d n : Seg} {q post : List Seg}

theorem joinHead_of_ne {l : List Seg} (h : y.addr + y.size ≠ d.addr) :
    joinHead (y :: d :: l) = y :: d :: l := if_neg h

theorem joinHead_of_eq {l : List Seg} (h : y.addr + y.size = d.addr) :
    joinHead (y :: d :: l) = { y with size := y.size + d.size } :: l := if_pos h

/-- Nothing is joined unless the chunk in front ends where the new one starts. -/
theorem joinTwice_of_ne (h : y.addr + y.size ≠ d.addr) :
    joinHead (joinHead (y :: d :: n :: post)) = y :: d :: n :: post := by
  rw [joinHead_of_ne h, joinHead_of_ne h]

theorem joinTwice_of_eq_ne (h : y.addr + y.size = d.addr) (hn : d.addr + d.size ≠ n.addr) :
    joinHead (joinHead (y :: d :: n :: post)) = { y with size := y.size + d.size } :: n :: post := by
  rw [joinHead_of_eq h]
  exact joinHead_of_ne (by simp only; omega)

theorem joinTwice_of_eq (h : y.addr + y.size = d.addr) (hn : d.addr + d.size = n.addr) :
    joinHead (joinHead (y :: d :: n :: post)) =
      { y with size := y.size + d.size + n.size } :: post := by
  rw [joinHead_of_eq h]
  exact joinHead_of_eq (by simp only; omega)

/-- The joins leave no chunks in a row exactly if there were none before and the
chunk behind is met only together with the one in front. -/
theorem parted_joinTwice (hq : ∀ x ∈ q, x.addr + x.size ≠ d.addr ∧ x.addr + x.size ≠ n.addr)
    (hpost : ∀ x ∈ post, d.addr + d.size ≠ x.addr) (hd : ∀ x ∈ n :: post, d.addr ≠ x.addr) :
    Parted (q ++ joinHead (joinHead (y :: d :: n :: post))) ↔
      Parted (q ++ y :: n :: post) ∧ (d.addr + d.size = n.addr → y.addr + y.size = d.addr) := by
  by_cases hy : y.addr + y.size = d.addr
  · by_cases hn : d.addr + d.size = n.addr
    · have hsum : ∀ a, y.addr + (y.size + d.size + n.size) ≠ a ↔ n.addr + n.size ≠ a := by
        intro a
        omega
      rw [joinTwice_of_eq hy hn]
      simp only [Parted, List.pairwise_append, List.pairwise_cons, List.mem_cons, forall_eq_or_imp, hsum] at hd ⊢
      grind
    · have hsum : ∀ a, y.addr + (y.size + d.size) ≠ a ↔ d.addr + d.size ≠ a := by
        intro a
        omega
      rw [joinTwice_of_eq_ne hy hn]
      simp only [Parted, List.pairwise_append, List.pairwise_cons, List.mem_cons, forall_eq_or_imp, hsum] at hd ⊢
      grind
  · rw [joinTwice_of_ne hy]
    simp only [Parted, List.pairwise_append, List.pairwise_cons, List.mem_cons, forall_eq_or_imp] at hd ⊢
    grind

theorem within_joinTwice {x : Seg} (hx : x ∈ d :: (q ++ y :: n :: post)) :
    ∃ z ∈ q ++ joinHead (joinHead (y :: d :: n :: post)), x.Within z ∧
      (z = x ∨ z.addr = y.addr ∧ y.addr + y.size = d.addr) := by
  simp only [List.mem_cons, List.mem_append] at hx
  by_cases hy : y.addr + y.size = d.addr
  · by_cases hn : d.addr + d.size = n.addr
    · rw [joinTwice_of_eq hy hn]
      by_cases hkeep : x ∈ q ∨ x ∈ post
      · exact ⟨x, by simp only [List.mem_append, List.mem_cons]; tauto, ⟨le_rfl, le_rfl⟩, .inl rfl⟩
      · have hjoined : x = y ∨ x = d ∨ x = n := by tauto
        refine ⟨_, List.mem_append_right q List.mem_cons_self, ?_, .inr ⟨rfl, hy⟩⟩
        rcases hjoined with rfl | rfl | rfl <;> exact ⟨by simp only; omega, by simp only; omega⟩
    · rw [joinTwice_of_eq_ne hy hn]
      by_cases hkeep : x ∈ q ∨ x = n ∨ x ∈ post
      · exact ⟨x, by simp only [List.mem_append, List.mem_cons]; tauto, ⟨le_rfl, le_rfl⟩, .inl rfl⟩
      · have hjoined : x = y ∨ x = d := by tauto
        refine ⟨_, List.mem_append_right q List.mem_cons_self, ?_, .inr ⟨rfl, hy⟩⟩
        rcases hjoined with rfl | rfl <;> exact ⟨by simp only; omega, by simp only; omega⟩
  · rw [joinTwice_of_ne hy]
    exact ⟨x, by simp only [List.mem_append, List.mem_cons]; tauto, ⟨le_rfl, le_rfl⟩, .inl rfl⟩

end Joins

/-! ### The list after `free` -/

section Outcome

variable {start fin fuel : Nat} {s s' : UHeap} {live : List (Nat × Nat)} {fl al : List Seg}
variable {b : Nat × Nat} {x : Seg}

theorem sentinel_end_ne (hfin : fin ≤ 2 ^ 47) (h : Packed start fin (fl ++ al)) (hx : x ∈ fl ++ al) :
    (sentinel start).addr + (sentinel start).size ≠ x.addr := by
  have := h.inside x hx
  simp only [sentinel]
  omega

theorem parted_sentinel (hfin : fin ≤ 2 ^ 47) (h : Packed start fin (fl ++ al)) :
    Parted (sentinel start :: fl) ↔ Parted fl := by
  refine ⟨fun hh => (List.pairwise_cons.mp hh).2, fun hh => List.pairwise_cons.mpr ⟨?_, hh⟩⟩
  exact fun x hx => sentinel_end_ne hfin h (List.mem_append_left al hx)

theorem Packed.end_le {l : List Seg} {y : Seg} (h : Packed start fin l) (hx : x ∈ l) (hy : y ∈ l)
    (hlt : x.addr < y.addr) : x.addr + x.size ≤ y.addr := by
  have hne : x ≠ y := by
    rintro rfl
    exact absurd hlt (lt_irrefl _)
  have hsymm : Std.Symm Seg.Spaced := ⟨fun _ _ => Seg.Spaced.symm⟩
  have hs := h.apart.forall hx hy hne
  unfold Seg.Spaced at hs
  omega

/-- The condition under which `free` leaves no free chunks in a row. -/
def Joins (fl : List Seg) (d : Seg) : Prop :=
  ∀ n ∈ fl, d.addr + d.size = n.addr → ∃ y ∈ fl, y.addr + y.size = d.addr

section Place

variable {m : Nat → Chunk} {fl' al' q post : List Seg} {d y n : Seg}

/-- Where the freed chunk is put, nothing but the chunks beside it can touch it. -/
theorem around_freed (hc : Chunks start fin m fl al) (hfin : fin ≤ 2 ^ 47) (hd : d ∈ fl ++ al)
    (hl : sentinel start :: fl = q ++ y :: n :: post) (hyd : y.addr < d.addr) (hdn : d.addr < n.addr) :
    (∀ x ∈ q, x.addr + x.size ≠ d.addr ∧ x.addr + x.size ≠ n.addr) ∧
      (∀ x ∈ post, d.addr + d.size ≠ x.addr) ∧ ∀ x ∈ n :: post, d.addr < x.addr := by
  have hpk := hc.packed
  obtain ⟨hqy, -, -, hr⟩ := hc.order hl
  have hmem : ∀ x ∈ q ++ y :: n :: post, x = sentinel start ∨ x ∈ fl := by
    intro x hx
    rw [← hl] at hx
    exact List.mem_cons.mp hx
  have hn : n ∈ fl := by
    obtain ⟨p, rfl, -⟩ := sentinel_split hl
    simp
  have hdn' := hpk.end_le hd (List.mem_append_left _ hn) hdn
  have hnpost : ∀ x ∈ post, n.addr < x.addr := (List.pairwise_cons.mp hr).1
  refine ⟨fun x hx => ?_, fun x hx => ?_, fun x hx => ?_⟩
  · rcases hmem x (by simp [hx]) with rfl | hxl
    · exact ⟨sentinel_end_ne hfin hpk hd, sentinel_end_ne hfin hpk (List.mem_append_left _ hn)⟩
    · have hxy := hqy x hx
      rcases hmem y (by simp) with rfl | hyl
      · have hxs := (hpk.inside x (List.mem_append_left _ hxl)).1
        simp only [sentinel] at hxy
        omega
      · have hend := hpk.end_le (List.mem_append_left _ hxl) (List.mem_append_left _ hyl) hxy
        omega
  · have hnx := hnpost x hx
    omega
  · rcases List.mem_cons.mp hx with rfl | hx
    · exact hdn
    · exact hdn.trans (hnpost x hx)

/-- The freed chunk and every free one lie in a free chunk afterwards. -/
theorem within_freed (hc : Chunks start fin m fl al) (hfin : fin ≤ 2 ^ 47) (hd : d ∈ fl ++ al)
    (hl : sentinel start :: fl = q ++ y :: n :: post)
    (hl' : sentinel start :: fl' = q ++ joinHead (joinHead (y :: d :: n :: post))) (hx : x ∈ d :: fl) :
    ∃ z ∈ fl', x.Within z := by
  have hpk := hc.packed
  have hin : ∀ z ∈ d :: fl, start + 16 ≤ z.addr := by
    intro z hz
    rcases List.mem_cons.mp hz with rfl | hz
    · exact (hpk.inside _ hd).1
    · exact (hpk.inside _ (List.mem_append_left _ hz)).1
  have hxl : x ∈ d :: (q ++ y :: n :: post) := by
    rw [← hl]
    rcases List.mem_cons.mp hx with rfl | hx
    · simp
    · simp [hx]
  obtain ⟨z, hz, hxz, hzy⟩ := within_joinTwice hxl
  rw [← hl'] at hz
  rcases List.mem_cons.mp hz with rfl | hz
  · exfalso
    -- the sentinel is joined with nothing
    rcases hzy with rfl | ⟨hya, hyend⟩
    · have hxs := hin _ hx
      simp only [sentinel] at hxs
      omega
    · have hymem : y ∈ sentinel start :: fl := by
        rw [hl]
        simp
      rcases List.mem_cons.mp hymem with rfl | hyl
      · exact sentinel_end_ne hfin hpk hd hyend
      · have hys := hin y (List.mem_cons_of_mem _ hyl)
        simp only [sentinel] at hya
        omega
  · exact ⟨z, hz, hxz⟩

/-- The free chunks are apart again exactly if the freed one meets the one behind only
together with the one in front. -/
theorem parted_freed (hc : Chunks start fin m fl al) (hfin : fin ≤ 2 ^ 47) (hd : d ∈ fl ++ al)
    (hl : sentinel start :: fl = q ++ y :: n :: post) (hyd : y.addr < d.addr) (hdn : d.addr < n.addr)
    (hl' : sentinel start :: fl' = q ++ joinHead (joinHead (y :: d :: n :: post)))
    (hpk' : Packed start fin (fl' ++ al')) : Parted fl' ↔ Parted fl ∧ Joins fl d := by
  have hpk := hc.packed
  obtain ⟨hqy, -, -, -⟩ := hc.order hl
  obtain ⟨hbelow, hpost, habove⟩ := around_freed hc hfin hd hl hyd hdn
  have hmem : ∀ x ∈ fl, x ∈ q ++ y :: n :: post := fun x hx => hl ▸ List.mem_cons_of_mem _ hx
  rw [← parted_sentinel hfin hpk', ← parted_sentinel hfin hpk, hl', hl,
    parted_joinTwice hbelow hpost fun x hx => (habove x hx).ne]
  refine and_congr_right fun _ => ⟨fun hjoin x hx hend => ?_, fun hjoin hend => ?_⟩
  · have hxn : x = n := by
      have hxl := hmem x hx
      simp only [List.mem_append, List.mem_cons] at hxl
      rcases hxl with hxq | rfl | rfl | hxp
      · have hxy := hqy x hxq
        omega
      · omega
      · rfl
      · exact absurd hend (hpost x hxp)
    subst hxn
    have hyend := hjoin hend
    have hymem : y ∈ sentinel start :: fl := by
      rw [hl]
      simp
    rcases List.mem_cons.mp hymem with rfl | hyl
    · exact absurd hyend (sentinel_end_ne hfin hpk hd)
    · exact ⟨y, hyl, hyend⟩
  · have hn : n ∈ fl := by
      obtain ⟨p, rfl, -⟩ := sentinel_split hl
      simp
    obtain ⟨z, hz, hzend⟩ := hjoin n hn hend
    rcases List.mem_append.mp (hmem z hz) with hzq | hzr
    · exact absurd hzend (hbelow z hzq).1
    · rcases List.mem_cons.mp hzr with rfl | hzr
      · exact hzend
      · have hdz := habove z hzr
        omega

end Place

theorem free_outcome (h : UHeapKept start fin s live fl) (hfin : fin ≤ 2 ^ 47) (hb : b ∈ live)
    (hf : free fuel s b.1 = some s') : ∃ fl', UHeapKept start fin s' (live.erase b) fl' ∧
      (live.erase b).map (chunkOf s'.chunk) = (live.erase b).map (chunkOf s.chunk) ∧
      (∀ x ∈ chunkOf s.chunk b :: fl, ∃ z ∈ fl', x.Within z) ∧
      (Parted fl' ↔ Parted fl ∧ Joins fl (chunkOf s.chunk b)) := by
  obtain ⟨q, y, n, post, fl', hl, hyd, hdn, hl', hmap, h'⟩ := free_spec h hfin hb hf
  have hd : chunkOf s.chunk b ∈ fl ++ live.map (chunkOf s.chunk) :=
    List.mem_append_right fl (List.mem_map_of_mem hb)
  exact ⟨fl', h', hmap, fun x hx => within_freed h.chunks hfin hd hl hl' hx,
    parted_freed h.chunks hfin hd hl hyd hdn hl' h'.chunks.packed⟩

end Outcome

end TayHuang
