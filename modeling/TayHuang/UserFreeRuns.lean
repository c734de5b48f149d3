import TayHuang.UserFrees

/-! Whether `free` restores the free list of a module's heap, in every state of a
run. The sum of the sizes stays while a split moves the last end by 16 bytes, so
the list that `init_heap` leaves does not come back. -/

namespace TayHuang

open LinkedCells

/-- `free` finds the place of the chunk, the list stays in order and holds the bytes
of the chunk, and no two chunks of it lie in a row. -/
def FreeRestores (s : UHeap) (fl : List Seg) (b : Nat × Nat) : Prop :=
  ∃ fuel s' fl', free fuel s b.1 = some s' ∧ FreeList s' fl' ∧
    fl'.Pairwise (fun x y => x.addr < y.addr) ∧
    (∀ x ∈ chunkOf s.chunk b :: fl, ∃ z ∈ fl', x.Within z) ∧ Parted fl'

/-- A free chunk lies behind `d`, none of the free chunks lie in a row, and one that
starts where `d` ends is met only together with one that ends where `d` starts. -/
structure Returnable (fl : List Seg) (d : Seg) : Prop where
  behind : ∃ n ∈ fl, d.addr < n.addr
  parted : Parted fl
  joins : Joins fl d

section Calls

variable {start fin : Nat} {s s' : UHeap} {live : List (Nat × Nat)} {fl fl' al : List Seg}
variable {b : Nat × Nat} {c d : Seg} {e : Nat}

theorem UHeapKept.freeList (h : UHeapKept start fin s live fl) : FreeList s fl := h.ok.list

theorem freeRestores_iff (h : UHeapKept start fin s live fl) (h0 : 0 < start)
    (hfin : fin ≤ 2 ^ 47) (hb : b ∈ live) :
    FreeRestores s fl b ↔ Returnable fl (chunkOf s.chunk b) := by
  constructor
  · rintro ⟨fuel, s', fl', hf, hlist, -, -, hparted⟩
    obtain ⟨fl₁, h', -, -, hiff⟩ := free_outcome h hfin hb hf
    rw [hlist.unique h'.freeList, hiff] at hparted
    exact ⟨(free_returns h h0 hb).mp ⟨fuel, s', hf⟩, hparted.1, hparted.2⟩
  · rintro ⟨hbehind, hparted, hjoins⟩
    obtain ⟨fuel, s', hf⟩ := (free_returns h h0 hb).mpr hbehind
    obtain ⟨fl', h', -, hwithin, hiff⟩ := free_outcome h hfin hb hf
    exact ⟨fuel, s', fl', hf, h'.freeList, (List.pairwise_cons.mp h'.chunks.sorted).2, hwithin,
      hiff.mpr ⟨hparted, hjoins⟩⟩

/-! ### The last end -/

/-- Some chunk ends behind `e`. -/
def EndsBehind (e : Nat) (l : List Seg) : Prop := ∃ x ∈ l, e < x.addr + x.size

theorem Left.endsBehind (h : Left fl fl' c d) (hl : EndsBehind e (fl ++ al)) :
    EndsBehind e (fl' ++ d :: al) := by
  obtain ⟨hdc, p, post, rfl, hcut⟩ := h
  obtain ⟨x, hx, hlt⟩ := hl
  simp only [List.mem_append, List.mem_cons] at hx
  by_cases hxc : x = c
  · subst hxc
    rcases hcut with ⟨hsize, rfl⟩ | ⟨hle, rfl⟩
    · exact ⟨d, by simp, by rwa [hdc, hsize]⟩
    · refine ⟨_, List.mem_append_left _ (List.mem_append_right p List.mem_cons_self), ?_⟩
      simp only
      omega
  · have hkeep : x ∈ p ∨ x ∈ post ∨ x ∈ al := by tauto
    rcases hcut with ⟨-, rfl⟩ | ⟨-, rfl⟩
    · exact ⟨x, by simp only [List.mem_append, List.mem_cons]; tauto, hlt⟩
    · exact ⟨x, by simp only [List.mem_append, List.mem_cons]; tauto, hlt⟩

theorem EndsBehind.within {al' : List Seg} (hl : EndsBehind e (fl ++ al)) (hal : al.Perm (d :: al'))
    (hwithin : ∀ x ∈ d :: fl, ∃ z ∈ fl', x.Within z) : EndsBehind e (fl' ++ al') := by
  obtain ⟨x, hx, hlt⟩ := hl
  by_cases hfree : x ∈ d :: fl
  · obtain ⟨z, hz, -, hend⟩ := hwithin x hfree
    exact ⟨z, List.mem_append_left _ hz, by omega⟩
  · have hxal : x ∈ al' := by
      simp only [List.mem_append, hal.mem_iff, List.mem_cons] at hx hfree
      tauto
    exact ⟨x, List.mem_append_right _ hxal, hlt⟩

/-- The heap after the first chunk was given away: all of it is in use, or some
chunk ends behind the end of the first one. -/
def Spent (start fin : Nat) (live : List (Nat × Nat)) (fl al : List Seg) : Prop :=
  fl = [] ∧ live ≠ [] ∨
    EndsBehind ((wholeChunk start fin).addr + (wholeChunk start fin).size) (fl ++ al)

theorem Spent.ne_whole (h : Spent start fin [] fl []) : fl ≠ [wholeChunk start fin] := by
  rintro rfl
  rcases h with ⟨-, hne⟩ | ⟨x, hx, hlt⟩
  · exact hne rfl
  · obtain rfl : x = wholeChunk start fin := by simpa using hx
    exact absurd hlt (lt_irrefl _)

/-- The first chunk taken is the whole heap or leaves a chunk that ends 16 bytes
behind it. -/
theorem Left.spent (h : Left [wholeChunk start fin] fl' c d) (hne : live ≠ []) :
    Spent start fin live fl' (d :: al) := by
  obtain ⟨hdc, p, post, hl, hcut⟩ := h
  obtain ⟨rfl, rfl, rfl⟩ : p = [] ∧ c = wholeChunk start fin ∧ post = [] := by
    cases p with
    | nil => simpa [eq_comm] using hl
    | cons x p => simp at hl
  rcases hcut with ⟨-, rfl⟩ | ⟨hle, rfl⟩
  · exact Or.inl ⟨rfl, hne⟩
  · refine Or.inr ⟨_, List.mem_cons_self, ?_⟩
    simp only
    omega

end Calls

/-! ### Runs -/

section Runs

variable {start fin lim : Nat} {s s' : UHeap} {live : List (Nat × Nat)} {fl : List Seg}
variable {op : UserOp} {a a' : UHeap × List (Nat × Nat)}

theorem UserStep.spent (hs : UserStep op a a') (hfits : op.Fits lim a) (h0 : 0 < start)
    (hlim : lim ≤ 2 ^ 47) (h : UHeapKept start lim a.1 a.2 fl)
    (hsp : Spent start fin a.2 fl (a.2.map (chunkOf a.1.chunk))) :
    ∃ fl', UHeapKept start lim a'.1 a'.2 fl' ∧
      Spent start fin a'.2 fl' (a'.2.map (chunkOf a'.1.chunk)) := by
  cases hs with
  | @malloc s s' live fuel n p hn h31 hm =>
    rcases malloc_spec h hlim hn h31 (hfits fl h.freeList) hm with
      ⟨rfl, rfl⟩ | ⟨fl', c, hp, hleft, hmap, h'⟩
    · exact ⟨fl, by simpa using h, by simpa using hsp⟩
    · refine ⟨fl', by simpa [hp] using h', ?_⟩
      simp only [hp, if_false, List.map_cons]
      rw [hmap]
      rcases hsp with ⟨rfl, -⟩ | hend
      · obtain ⟨-, q, post, hl, -⟩ := hleft
        simp at hl
      · exact Or.inr (hleft.endsBehind hend)
  | @free s s' live fuel b hb hf =>
    obtain ⟨fl', h', hmap, hwithin, -⟩ := free_outcome h hlim hb hf
    refine ⟨fl', h', Or.inr ?_⟩
    simp only
    rw [hmap]
    rcases hsp with ⟨rfl, -⟩ | hend
    · obtain ⟨n, hn, -⟩ := (free_returns h h0 hb).mp ⟨fuel, s', hf⟩
      simp at hn
    · exact hend.within ((List.perm_cons_erase hb).map _) hwithin

/-- A heap as `init_heap` leaves it, up to its memory elsewhere, or a spent one. -/
def FreshOrSpent (start fin lim : Nat) (a : UHeap × List (Nat × Nat)) : Prop :=
  ∃ fl, UHeapKept start lim a.1 a.2 fl ∧ (a.2 = [] ∧ fl = [wholeChunk start fin] ∨
    Spent start fin a.2 fl (a.2.map (chunkOf a.1.chunk)))

theorem UserStep.freshOrSpent (hs : UserStep op a a') (hfits : op.Fits lim a) (h0 : 0 < start)
    (hlim : lim ≤ 2 ^ 47) (h : FreshOrSpent start fin lim a) : FreshOrSpent start fin lim a' := by
  obtain ⟨fl, hk, ⟨hlive, rfl⟩ | hsp⟩ := h
  · cases hs with
    | @malloc s s' live fuel n p hn h31 hm =>
      obtain rfl : live = [] := hlive
      rcases malloc_spec hk hlim hn h31 (hfits _ hk.freeList) hm with
        ⟨rfl, rfl⟩ | ⟨fl', c, hp, hleft, -, h'⟩
      · exact ⟨_, hk, Or.inl ⟨rfl, rfl⟩⟩
      · refine ⟨fl', by simpa [hp] using h', Or.inr ?_⟩
        simpa [hp] using hleft.spent (List.cons_ne_nil (p, n) [])
    | @free s s' live fuel b hb hf =>
      obtain rfl : live = [] := hlive
      simp at hb
  · obtain ⟨fl', hk', hsp'⟩ := hs.spent hfits h0 hlim hk hsp
    exact ⟨fl', hk', Or.inr hsp'⟩

theorem FittingRun.freshOrSpent (hrun : FittingRun lim a a') (h0 : 0 < start) (hlim : lim ≤ 2 ^ 47)
    (h : FreshOrSpent start fin lim a) : FreshOrSpent start fin lim a' := by
  induction hrun with
  | refl => exact h
  | tail _ hs ih =>
    obtain ⟨op, hop, hfits⟩ := hs
    exact hop.freshOrSpent hfits h0 hlim ih

theorem FittingRun.spent (hrun : FittingRun lim a a') (h0 : 0 < start) (hlim : lim ≤ 2 ^ 47)
    (h : UHeapKept start lim a.1 a.2 fl) (hsp : Spent start fin a.2 fl (a.2.map (chunkOf a.1.chunk))) :
    ∃ fl', UHeapKept start lim a'.1 a'.2 fl' ∧
      Spent start fin a'.2 fl' (a'.2.map (chunkOf a'.1.chunk)) := by
  induction hrun with
  | refl => exact ⟨fl, h, hsp⟩
  | tail _ hs ih =>
    obtain ⟨op, hop, hfits⟩ := hs
    obtain ⟨fl', h', hsp'⟩ := ih
    exact hop.spent hfits h0 hlim h' hsp'

theorem initHeap_fresh (m : Nat → Chunk) (h32 : start + 32 ≤ fin) (hlim : fin ≤ lim)
    (hsize : asSize (asInt (fin - start) - 16) + 16 ≤ fin - start) :
    FreshOrSpent start fin lim (initHeap m start fin, []) := by
  obtain ⟨hheap, ⟨hch, hsort, hpk⟩, hserved⟩ := initHeap_kept m h32 hsize
  refine ⟨_, ⟨hheap, ⟨hch, hsort, hpk.apart, fun x hx => ?_⟩, hserved⟩, Or.inl ⟨rfl, rfl⟩⟩
  have := hpk.inside x hx
  omega

/-- In every run in which the chunks that are split have 16 unused bytes behind
them, `free` restores the list exactly for the chunks it can take back, and once a
chunk was given away the list of one chunk does not come back. -/
theorem free_restores {m : Nat → Chunk} (h0 : 0 < start) (h32 : start + 32 ≤ fin)
    (hfin : fin ≤ 2 ^ 47) (hsize : asSize (asInt (fin - start) - 16) + 16 ≤ fin - start)
    (hrun : FittingRun (2 ^ 47) (initHeap m start fin, []) (s, live)) :
    ∃ fl, FreeList s fl ∧
      (∀ b ∈ live, FreeRestores s fl b ↔ Returnable fl (chunkOf s.chunk b)) ∧
      (live ≠ [] → ∀ s', FittingRun (2 ^ 47) (s, live) (s', []) →
        ¬ FreeList s' [wholeChunk start fin]) := by
  obtain ⟨fl, hk, hfresh⟩ := hrun.freshOrSpent h0 le_rfl (initHeap_fresh m h32 hfin hsize)
  refine ⟨fl, hk.freeList, fun b hb => freeRestores_iff hk h0 le_rfl hb, ?_⟩
  intro hne s' hrun' hwhole
  have hsp : Spent start fin live fl (live.map (chunkOf s.chunk)) := by
    rcases hfresh with ⟨hlive, -⟩ | hsp
    · exact absurd hlive hne
    · exact hsp
  obtain ⟨fl', hk', hsp'⟩ := hrun'.spent h0 le_rfl hk hsp
  exact hsp'.ne_whole (hk'.freeList.unique hwhole)

/-- A heap of 1024 bytes is split for a request of 100 bytes. -/
theorem free_restores_split : ∃ s fl, FreeList s fl ∧
    (∀ b ∈ [(0x1020, 100)], FreeRestores s fl b ↔ Returnable fl (chunkOf s.chunk b)) ∧
    ([(0x1020, 100)] ≠ [] → ∀ s', FittingRun (2 ^ 47) (s, [(0x1020, 100)]) (s', []) →
      ¬ FreeList s' [wholeChunk 0x1000 0x1400]) := by
  have h : ((malloc 3 (initHeap zeroChunks 0x1000 0x1400) (100 : Nat)).map fun r => r.2) =
      some 0x1020 := by decide +kernel
  obtain ⟨⟨s, p⟩, hm, rfl⟩ := Option.map_eq_some_iff.mp h
  refine ⟨s, free_restores (m := zeroChunks) (by decide) (by decide) (by decide) (by decide)
    (Relation.ReflTransGen.single ⟨.malloc 100, .malloc (by decide) (by decide) hm, ?_⟩)⟩
  intro fl hfl p c post hl _ _ _
  have hc : c ∈ [wholeChunk 0x1000 0x1400] ∧ ∀ x ∈ fl, x ∈ [wholeChunk 0x1000 0x1400] := by
    rw [← hfl.unique (freeList_whole zeroChunks 0x1000 0x1400), hl]
    simp
  rw [List.mem_singleton.mp hc.1]
  refine ⟨by decide, fun x hx => ?_⟩
  obtain rfl : x = wholeChunk 0x1000 0x1400 := by simpa using hc.2 x (by simpa using hx)
  decide

/-- A heap of 144 bytes given away whole does not come back. -/
theorem free_stuck : ¬ ∀ (m : Nat → Chunk) (start fin : Nat) (s : UHeap)
    (live : List (Nat × Nat)), 0 < start → start + 32 ≤ fin → fin ≤ 2 ^ 47 → fin - start < 2 ^ 31 →
      Relation.ReflTransGen (fun a a' => ∃ op, UserStep op a a') (initHeap m start fin, []) (s, live) →
      ∀ b ∈ live, ∃ fl, FreeList s fl ∧ FreeRestores s fl b := by
  intro hall
  have h : ((malloc 3 (initHeap zeroChunks 0x1000 0x1090) (100 : Nat)).map
      fun r => (r.2, r.1.heap, (r.1.chunk 0x1000).next)) = some (0x1020, 0x1000, none) := by
    decide +kernel
  obtain ⟨⟨s, p⟩, hm, hp⟩ := Option.map_eq_some_iff.mp h
  simp only [Prod.mk.injEq] at hp
  obtain ⟨rfl, hheap, hnext⟩ := hp
  obtain ⟨fl, -, fuel, s', -, hf, -⟩ := hall zeroChunks 0x1000 0x1090 s [(0x1020, 100)] (by decide)
    (by decide) (by decide) (by decide)
    (Relation.ReflTransGen.single ⟨.malloc 100, .malloc (by decide) (by decide) hm⟩) _
    List.mem_cons_self
  obtain ⟨last, hgap, -⟩ := Option.map_eq_some_iff.mp hf
  rw [hheap] at hgap
  rcases fuel with _ | _ | fuel <;> simp [toPtr, findGap, hnext] at hgap

end Runs

end TayHuang
