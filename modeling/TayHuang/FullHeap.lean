import TayHuang.BlockFiling

/-! A full heap that is asked for the node of a free list. It takes a block of
order 6 or more off the free lists and returns the rest of it to them. -/

namespace TayHuang

open Function (update)
open LinkedCells Fuel

variable {s : KMem} {l : List Seg} {L : Nat → List (Nat × Nat)}

/-! ### The block the heap takes -/

/-- The state after the head node of order `i` was taken off its list. -/
def popped (s : KMem) (i head : Nat) : KMem :=
  { s with
    listHead := update s.listHead i (s.area head).next
    listTail := if (s.area head).next = none then update s.listTail i none else s.listTail }

theorem allocFreePagesFrom_least {og k j i head : Nat} (hji : j ≤ i) (hik : i < j + k)
    (hempty : ∀ o, j ≤ o → o < i → s.listHead o = none) (hhead : s.listHead i = some head) :
    allocFreePagesFrom s og k j = (popped s i head, (s.area head).address, i) := by
  induction k generalizing j with
  | zero => omega
  | succ k ih =>
    by_cases he : j = i
    · subst he
      simp [allocFreePagesFrom, hhead, popped]
    · rw [allocFreePagesFrom, hempty j le_rfl (by omega)]
      exact ih (by omega) (by omega) (fun o ho => hempty o (by omega))

theorem allocFreePagesFrom_none {og k j : Nat} (h : ∀ o, j ≤ o → o < j + k → s.listHead o = none) :
    allocFreePagesFrom s og k j = (s, 0, og) := by
  induction k generalizing j with
  | zero => rfl
  | succ k ih =>
    rw [allocFreePagesFrom, h j le_rfl (by omega)]
    exact ih (fun o ho hk => h o (by omega) (by omega))

variable {i : Nat} {x : Nat × Nat} {rest : List (Nat × Nat)}

theorem ListsAt.area_head (h : ListsAt s L) (h9 : i ≤ 9) (hL : L i = x :: rest) :
    s.area x.1 = ⟨x.2, rest.head?.map Prod.fst⟩ := by
  have hc := h.chained i h9
  rw [hL] at hc
  simpa [areaCell, entry] using hc.1

theorem ListsAt.pop (h : ListsAt s L) (h9 : i ≤ 9) (hL : L i = x :: rest) :
    ListsAt (popped s i x.1) (update L i rest) := by
  have harea := h.area_head h9 hL
  have hsub : ∀ o, ∀ y ∈ update L i rest o, y ∈ L o := by
    intro o y hy
    by_cases he : o = i
    · subst he
      rw [Function.update_self] at hy
      simp [hL, hy]
    · rwa [Function.update_of_ne he] at hy
  refine ⟨?_, ?_, ?_, ?_, ?_⟩
  · intro o ho
    by_cases he : o = i
    · subst he; simp [popped, harea]
    · simpa [popped, he] using h.head o ho
  · intro o ho
    by_cases he : o = i
    · subst he
      have hc := h.chained o ho
      rw [hL] at hc
      simpa [popped] using hc.2
    · simpa [popped, he] using h.chained o ho
  · intro o ho hne
    by_cases he : o = i
    · subst he
      rw [Function.update_self] at hne ⊢
      obtain ⟨y, rest', rfl⟩ := List.exists_cons_of_ne_nil hne
      have ht := h.tail o ho (by simp [hL])
      simpa [popped, harea, hL, List.getLast?_cons_cons] using ht
    · rw [Function.update_of_ne he] at hne ⊢
      have ht := h.tail o ho hne
      unfold popped
      simp only
      split
      · rw [Function.update_of_ne he, ht]
      · exact ht
  · intro o ho
    by_cases he : o = i
    · subst he
      have hn := h.nodup o ho
      rw [hL, List.map_cons, List.nodup_cons] at hn
      simpa using hn.2
    · simpa [he] using h.nodup o ho
  · exact fun o ho o' ho' hne y hy z hz =>
      h.apart o ho o' ho' hne y (hsub o y hy) z (hsub o' z hz)

theorem TailsAt.pop (ht : TailsAt s L) (h : ListsAt s L) (h9 : i ≤ 9) (hL : L i = x :: rest) :
    TailsAt (popped s i x.1) (update L i rest) := by
  intro o ho
  by_cases hne : update L i rest o = []
  · by_cases he : o = i
    · subst he
      rw [Function.update_self] at hne
      simp [popped, h.area_head h9 hL, hne]
    · rw [Function.update_of_ne he] at hne ⊢
      have := ht o ho
      unfold popped
      simp only
      split
      · rw [Function.update_of_ne he, this]
      · exact this
  · exact (h.pop h9 hL).tail o ho hne

theorem NodesIn.pop (h : NodesIn l L) (hL : L i = x :: rest) : NodesIn l (update L i rest) := by
  intro o ho y hy
  by_cases he : o = i
  · subst he
    rw [Function.update_self] at hy
    exact h o ho y (by simp [hL, hy])
  · rw [Function.update_of_ne he] at hy
    exact h o ho y hy

/-! ### A full heap -/

/-- When no free segment has the size asked for, the search ends at the last one. -/
theorem findSeg_last {mem : Set Nat} {fixed : Nat} (h : HeapAt mem s l)
    (hno : ∀ x ∈ l, x.used = false → x.size < fixed) :
    ∃ pre b, l = pre ++ [b] ∧
      Settles (fun fuel => findSeg s.seg fixed fuel s.startAddr) b.addr ∧
      ((s.seg b.addr).size < fixed ∨ (s.seg b.addr).used = true) := by
  obtain ⟨pre, b, rfl⟩ : ∃ pre b, l = pre ++ [b] :=
    ⟨_, _, (List.dropLast_append_getLast h.arena.nonempty).symm⟩
  have huniq : ∀ fuel d, findSeg s.seg fixed fuel s.startAddr = some d → d = b.addr := by
    intro fuel d hd
    rcases findSeg_eq h.laid h.start.symm hd with ⟨pre', c, post, he, -, hu, hs, -⟩ |
      ⟨pre', c, he, rfl, -⟩
    · have := hno c (by simp [he]) hu
      omega
    · obtain ⟨-, hb⟩ := List.append_inj' he rfl
      rw [(List.cons.inj hb).1]
  refine ⟨pre, b, rfl, ⟨⟨(pre ++ [b]).length, fun fuel hfuel => ?_⟩, huniq⟩, ?_⟩
  · obtain ⟨d, hd⟩ := findSeg_isSome h.laid h.start.symm hfuel
    rw [hd, huniq fuel d hd]
  · rw [(laid_split.mp h.laid).2.1]
    cases hu : b.used
    · exact Or.inl (hno b (by simp) hu)
    · exact Or.inr hu

theorem used_of_room {mem : Set Nat} (h : Arena mem l) (hroom : room l = 0) :
    ∀ y ∈ l, y.used = true := by
  intro y hy
  by_contra hu
  have := (room_pos_iff h).mpr ⟨y, hy, by simpa using hu⟩
  omega

theorem findSeg_full {mem : Set Nat} (h : HeapAt mem s l) (hroom : room l = 0) (fixed : Nat) :
    ∃ pre b, l = pre ++ [b] ∧ b.used = true ∧
      Settles (fun fuel => findSeg s.seg fixed fuel s.startAddr) b.addr := by
  have hused := used_of_room h.arena hroom
  have hno : ∀ x ∈ l, x.used = false → x.size < fixed := by
    intro x hx hu
    rw [hused x hx] at hu
    simp at hu
  obtain ⟨pre, b, rfl, hset, -⟩ := findSeg_last h hno
  exact ⟨pre, b, rfl, hused b (by simp), hset⟩

/-- Where the search ends at a segment that will not do, the heap grows, and the
call starts again. -/
theorem kmalloc_full {fuel n a : Nat} {r : KMem × Nat} (hn : n + 24 < 2 ^ 64)
    (hfind : Settles (fun fuel => findSeg s.seg (fixSize (n + 24)) fuel s.startAddr) a)
    (hfull : (s.seg a).size < fixSize (n + 24) ∨ (s.seg a).used = true)
    (hr : kmalloc fuel s n = some r) : ∃ fuel' t,
      returnPagesWith (kmalloc fuel') (growHeap s a).1 ((growHeap s a).2.1 + 4096 * 2 ^ 6)
        (2 ^ (growHeap s a).2.2 - 2 ^ 6) = some t ∧ kmalloc fuel' t (n + 24) = some r := by
  have hmod : (n + 24) % 2 ^ 64 = n + 24 := Nat.mod_eq_of_lt hn
  cases fuel with
  | zero => simp [kmalloc] at hr
  | succ fuel =>
    simp only [kmalloc, hmod] at hr
    obtain ⟨c, hc, hr⟩ := Option.bind_eq_some_iff.mp hr
    obtain rfl := hfind.unique fuel c hc
    rw [if_pos hfull] at hr
    obtain ⟨t, ht, hr⟩ := Option.bind_eq_some_iff.mp hr
    exact ⟨fuel, t, ht, hr⟩

theorem returnPagesWith_eq {km : KMem → Nat → Option (KMem × Nat)} (addr pages : Nat) :
    returnPagesWith km s addr pages =
      addAll km s (bitBlocks (fun i => 4096 * 2 ^ i) 9 0 addr pages ++
        topBlocks (pages / 2 ^ 9) (bitEnd (fun i => 4096 * 2 ^ i) 9 0 addr pages)) := by
  rw [returnPagesWith, addBits_eq, addAll_append]
  cases addAll km s (bitBlocks (fun i => 4096 * 2 ^ i) 9 0 addr pages) with
  | none => rfl
  | some t => simp only [Option.map_some, Option.bind_some, Int.toNat_natCast, addTop_eq]

/-- What is left of a block of order `i` behind its first `2 ^ 6` pages. -/
theorem bitBlocks_surplus (advance : Nat → Nat) (start : Nat) :
    bitBlocks advance 9 0 start (2 ^ 7 - 2 ^ 6) = [(6, start)] ∧
      bitBlocks advance 9 0 start (2 ^ 8 - 2 ^ 6) = [(6, start), (7, start + advance 6)] ∧
      bitBlocks advance 9 0 start (2 ^ 9 - 2 ^ 6) =
        [(6, start), (7, start + advance 6), (8, start + advance 6 + advance 7)] := by
  refine ⟨?_, ?_, ?_⟩ <;> simp [bitBlocks]

theorem returnPagesWith_surplus {km : KMem → Nat → Option (KMem × Nat)} {a : Nat} (h6 : 6 ≤ i)
    (h9 : i ≤ 9) : returnPagesWith km s (a + 4096 * 2 ^ 6) (2 ^ i - 2 ^ 6) =
      addAll km s (((List.range i).filter (6 ≤ ·)).map fun j => (j, a + 4096 * 2 ^ j)) := by
  have hcast : (2 ^ i - 2 ^ 6 : Int) = ((2 ^ i - 2 ^ 6 : Nat) : Int) := by
    have := Nat.pow_le_pow_right (n := 2) (by decide) h6
    push_cast [this]
    rfl
  obtain ⟨h7, h8, h9'⟩ := bitBlocks_surplus (fun i => 4096 * 2 ^ i) (a + 4096 * 2 ^ 6)
  rw [hcast, returnPagesWith_eq]
  obtain rfl | rfl | rfl | rfl : i = 6 ∨ i = 7 ∨ i = 8 ∨ i = 9 := by omega
  · rfl
  · rw [h7]
    rfl
  · rw [h8]
    have e : a + 4096 * 2 ^ 6 + 4096 * 2 ^ 6 = a + 4096 * 2 ^ 7 := by omega
    simp only [e]
    rfl
  · rw [h9']
    have e : a + 4096 * 2 ^ 6 + 4096 * 2 ^ 6 = a + 4096 * 2 ^ 7 := by omega
    have e' : a + 4096 * 2 ^ 7 + 4096 * 2 ^ 7 = a + 4096 * 2 ^ 8 := by omega
    simp only [e, e']
    rfl

/-- The request for `n` bytes went on as one for `n + 24` bytes from the state `t`,
after the heap took the block `x` of order `i`. The nodes `ns` hold what is left
of it. -/
structure Enlarged (mem : Set Nat) (s : KMem) (l : List Seg) (L : Nat → List (Nat × Nat)) (i : Nat)
    (x : Nat × Nat) (rest : List (Nat × Nat)) (n : Nat) (t : KMem) (l₁ : List Seg)
    (ns : List (Nat × Nat × Nat)) : Prop where
  settles : ∀ r, Settles (fun fuel => kmalloc fuel t (n + 24)) r →
    Settles (fun fuel => kmalloc fuel s n) r
  result : ∀ fuel r, kmalloc fuel s n = some r → ∃ fuel', kmalloc fuel' t (n + 24) = some r
  heap : HeapAt mem t l₁
  kept : Kept l l₁
  carved : Carved (i - 6) (joinAt l ⟨x.2, 4096 * 2 ^ 6, false⟩ []) l₁
  room : room l₁ + (i - 6) = room (joinAt l ⟨x.2, 4096 * 2 ^ 6, false⟩ [])
  pieces : (ns.map fun n => (n.1, n.2.2)) = ((List.range i).filter (6 ≤ ·)).map
    fun j => (j, x.2 + 4096 * 2 ^ j)
  lists : ListsAt t (fileAll (update L i rest) ns)
  nodes : NodesIn l₁ (fileAll (update L i rest) ns)
  tails : TailsAt s L → TailsAt t (fileAll (update L i rest) ns)
  off : ∀ n ∈ ns, ∀ c ∈ l, c.used = true → n.2.1 ≠ c.addr + 24
  grown : t.grown = s.grown ++ [(x.2, i)]

theorem room_joinAt (pre : List Seg) {a : Seg} (ha : a.used = false) (h64 : 64 ∣ a.size) :
    room (joinAt pre a []) = room pre + a.size / 64 := by
  rcases List.eq_nil_or_concat pre with rfl | ⟨pre, b, rfl⟩
  · simp [joinAt, joinNext, ha]
  · rw [List.concat_eq_append]
    simp only [joinAt, joinNext, joinLast_concat]
    split
    · rename_i hj
      simp [hj.1]
      omega
    · simp [ha]
      omega

theorem kmalloc_enlarges {mem mem' : Set Nat} {n : Nat} (h : HeapAt mem s l) (hlists : ListsAt s L)
    (hnodes : NodesIn l L) (hn : n + 24 < 2 ^ 64)
    (hno : ∀ y ∈ l, y.used = false → y.size < fixSize (n + 24)) (h6 : 6 ≤ i) (h9 : i ≤ 9)
    (hempty : ∀ o, 6 ≤ o → o < i → L o = []) (hL : L i = x :: rest) (h0 : x.2 ≠ 0)
    (hap : ∀ c ∈ l, Seg.Apart c ⟨x.2, 4096 * 2 ^ 6, false⟩) (hsub : mem ⊆ mem')
    (hnew : Seg.bytes ⟨x.2, 4096 * 2 ^ 6, false⟩ ⊆ mem') :
    ∃ t l₁ ns, Enlarged mem' s l L i x rest n t l₁ ns := by
  obtain ⟨pre, b, rfl, hfind, hfull⟩ := findSeg_last h hno
  have halloc : allocFreePages s 6 0 = (popped s i x.1, x.2, i) := by
    have hhead : s.listHead i = some x.1 := by rw [hlists.head i h9, hL]; rfl
    have hnone : ∀ o, 6 ≤ o → o < i → s.listHead o = none := by
      intro o ho hi
      rw [hlists.head o (by omega), hempty o ho hi]
      rfl
    rw [allocFreePages, allocFreePagesFrom_least h6 (by omega) hnone hhead,
      hlists.area_head h9 hL]
  have hgr : (growHeap s b.addr).2 = (x.2, i) := by simp [growHeap, halloc]
  -- the block becomes a free segment behind the last one
  have hgrow := growHeap_link h ⟨pre, b, rfl, rfl⟩ hsub (by rwa [hgr]) (by rwa [hgr])
    (by rwa [hgr])
  rw [hgr] at hgrow
  have hlists₀ : ListsAt (growHeap s b.addr).1 (update L i rest) :=
    (hlists.pop h9 hL).congr (by simp [growHeap, halloc]) (by simp [growHeap, halloc])
      (by simp [growHeap, halloc])
  have htails₀ : TailsAt s L → TailsAt (growHeap s b.addr).1 (update L i rest) := by
    intro ht o ho
    have := ht.pop hlists h9 hL o ho
    simpa [growHeap, halloc] using this
  have hkept₀ : Kept (pre ++ [b]) (joinAt (pre ++ [b]) ⟨x.2, 4096 * 2 ^ 6, false⟩ []) :=
    fun y hy hu => mem_joinAt_of_used (by simpa using hy) hu
  have hroom := room_joinAt (pre ++ [b]) (a := ⟨x.2, 4096 * 2 ^ 6, false⟩) rfl ⟨4096, by simp⟩
  have hblk : (4096 * 2 ^ 6 / 64 : Nat) = 4096 := by simp
  have hlen : (((List.range i).filter (6 ≤ ·)).map
      fun j => (j, x.2 + 4096 * 2 ^ j)).length = i - 6 := by
    obtain rfl | rfl | rfl | rfl : i = 6 ∨ i = 7 ∨ i = 8 ∨ i = 9 := by omega
    all_goals rfl
  -- the rest of the block goes back to the free lists
  obtain ⟨s₁, l₁, ns, hset₁, hl₁, hk₁, hr₁, hc₁, hns, hL₁, hN₁, hg₁, ht₁, hf₁⟩ :=
    addAll_settles (((List.range i).filter (6 ≤ ·)).map fun j => (j, x.2 + 4096 * 2 ^ j))
      hgrow hlists₀ ((hnodes.pop hL).kept hkept₀)
      (by
        intro c hc
        obtain ⟨j, hj, rfl⟩ := List.mem_map.mp hc
        have := List.mem_range.mp (List.mem_filter.mp hj).1
        simp only
        omega)
      (by
        rw [hroom, hlen]
        simp only [hblk]
        omega)
  rw [hlen] at hr₁ hc₁
  have hmod : (n + 24) % 2 ^ 64 = n + 24 := Nat.mod_eq_of_lt hn
  refine ⟨s₁, l₁, ns, ?_, ?_, hl₁, hkept₀.trans hk₁, hc₁, hr₁, hns, hL₁, hN₁,
    fun ht => ht₁ (htails₀ ht), fun m hm c hc hu => hf₁ m hm c (hkept₀ c hc hu) hu, ?_⟩
  · intro r hr
    apply settles_succ rfl
    simp only [kmalloc, hmod]
    refine hfind.bind ?_
    simp only [if_pos hfull, hgr, returnPagesWith_surplus h6 h9]
    exact hset₁.bind hr
  · intro fuel r hr
    obtain ⟨fuel', u, hu, hr⟩ := kmalloc_full hn hfind hfull hr
    rw [hgr, returnPagesWith_surplus h6 h9] at hu
    obtain rfl := hset₁.unique fuel' u hu
    exact ⟨fuel', hr⟩
  · have := hg₁.trans (growHeap_grown s b.addr)
    rwa [hgr] at this

/-- `kmalloc` gave a node, at `p`, on a full heap. The heap took the block `x` of
order `i`, and the nodes `ns` hold what is left of it. -/
structure Regrown (mem : Set Nat) (s : KMem) (l : List Seg) (L : Nat → List (Nat × Nat)) (i : Nat)
    (x : Nat × Nat) (rest : List (Nat × Nat)) (s' : KMem) (p : Nat) (l₁ l' : List Seg)
    (ns : List (Nat × Nat × Nat)) : Prop where
  settles : Settles (fun fuel => kmalloc fuel s 16) (s', p)
  heap : HeapAt mem s' l'
  kept : Kept l l₁
  kept' : Kept l₁ l'
  served : Served l₁ l' p 40
  pieces : (ns.map fun n => (n.1, n.2.2)) = ((List.range i).filter (6 ≤ ·)).map
    fun j => (j, x.2 + 4096 * 2 ^ j)
  lists : ListsAt s' (fileAll (update L i rest) ns)
  nodes : NodesIn l₁ (fileAll (update L i rest) ns)
  tails : TailsAt s L → TailsAt s' (fileAll (update L i rest) ns)
  off : ∀ o ≤ 9, ∀ y ∈ fileAll (update L i rest) ns o, y.1 ≠ x.1
  grown : s'.grown = s.grown ++ [(x.2, i)]

theorem kmalloc_grows {mem mem' : Set Nat} (h : HeapAt mem s l) (hlists : ListsAt s L)
    (hnodes : NodesIn l L) (hroom : room l = 0) (h6 : 6 ≤ i) (h9 : i ≤ 9)
    (hempty : ∀ o, 6 ≤ o → o < i → L o = []) (hL : L i = x :: rest) (h0 : x.2 ≠ 0)
    (hap : ∀ c ∈ l, Seg.Apart c ⟨x.2, 4096 * 2 ^ 6, false⟩) (hsub : mem ⊆ mem')
    (hnew : Seg.bytes ⟨x.2, 4096 * 2 ^ 6, false⟩ ⊆ mem') :
    ∃ s' p l₁ l' ns, Regrown mem' s l L i x rest s' p l₁ l' ns := by
  have hno : ∀ y ∈ l, y.used = false → y.size < fixSize (16 + 24) := by
    intro y hy hu
    rw [used_of_room h.arena hroom y hy] at hu
    simp at hu
  obtain ⟨s₁, l₁, ns, hs⟩ :=
    kmalloc_enlarges h hlists hnodes (by decide) hno h6 h9 hempty hL h0 hap hsub hnew
  have hroom₁ : 0 < room l₁ := by
    have hr := hs.room
    rw [room_joinAt l rfl ⟨4096, by simp⟩] at hr
    simp only at hr
    omega
  obtain ⟨c, hc, hcu⟩ := (room_pos_iff hs.heap.arena).mp hroom₁
  have hcs : fixSize (40 + 24) ≤ c.size := by
    have h64 : fixSize (40 + 24) = 64 := by decide
    have := hs.heap.arena.pos c hc
    rw [h64]
    exact Nat.le_of_dvd this.2.1 this.2.2
  obtain ⟨m, p, l₂, hset₂, hl₂, hk₂, hserved, -⟩ :=
    kmalloc_settles hs.heap (by decide) ⟨c, hc, hcu, hcs⟩
  refine ⟨withSeg s₁ m, p, l₁, l₂, ns, hs.settles _ hset₂, hl₂, hs.kept, hk₂, hserved, hs.pieces,
    hs.lists.congr rfl rfl rfl, hs.nodes, hs.tails, ?_, hs.grown⟩
  intro o ho y hy
  obtain ⟨d, hd, hdu, hxd⟩ := hnodes i h9 x (by simp [hL])
  rcases List.mem_append.mp hy with hy | hy
  · by_cases he : o = i
    · subst he
      rw [Function.update_self] at hy
      have hn := hlists.nodup o ho
      rw [hL, List.map_cons, List.nodup_cons] at hn
      exact fun he => hn.1 (he ▸ List.mem_map_of_mem hy)
    · rw [Function.update_of_ne he] at hy
      exact hlists.apart o ho i h9 he y hy x (by simp [hL])
  · obtain ⟨n, hn, rfl⟩ := List.mem_map.mp hy
    rw [hxd]
    exact hs.off n (List.mem_filter.mp hn).1 d hd hdu

/-- With no block to grow by, the header of one is written at NULL. -/
theorem growHeap_null {mem : Set Nat} {pre : List Seg} {b : Seg} (h : HeapAt mem s (pre ++ [b]))
    (hbu : b.used = true) (halloc : allocFreePages s 6 0 = (s, 0, 0)) :
    (growHeap s b.addr).1 =
      { s with seg := update s.seg 0 ⟨4096 * 2 ^ 6, false, none, some b.addr⟩
               grown := s.grown ++ [(0, 0)] } := by
  have hb : s.seg b.addr = segCell b (leave Seg.addr none pre) none := (laid_split.mp h.laid).2.1
  have hb0 : b.addr ≠ 0 := Nat.pos_iff_ne_zero.mp (h.arena.pos b (by simp)).1
  have hsame : update (update s.seg 0 ⟨4096 * 2 ^ 6, false, none, some b.addr⟩) b.addr
      ⟨b.size, b.used, none, leave Seg.addr none pre⟩ =
      update s.seg 0 ⟨4096 * 2 ^ 6, false, none, some b.addr⟩ := by
    rw [Function.update_eq_self_iff.mpr]
    rw [Function.update_of_ne hb0, hb]
    rfl
  simp only [growHeap, halloc, Function.update_of_ne hb0, hb, segCell, toPtr, if_true, hsame]
  simp [doCombine, combineNext, combineLast, hb0, hb, segCell, hbu]

theorem returnPagesWith_none {km : KMem → Nat → Option (KMem × Nat)} {addr : Nat} {pages : Int}
    (hodd : pages % 2 ≠ 0) (h : addFreeAreaWith km s 0 addr = none) :
    returnPagesWith km s addr pages = none := by
  rw [returnPagesWith, addBits, if_pos hodd, h]
  rfl

/-- With no block for it to grow by, the heap asks for itself over and over. -/
theorem kmalloc_diverges {mem : Set Nat} (h : HeapAt mem s l) (hroom : room l = 0)
    (hempty : ∀ o, 6 ≤ o → o ≤ 9 → s.listHead o = none) (n : Nat) :
    Diverges (fun fuel => kmalloc fuel s n) := by
  intro fuel
  induction fuel generalizing s n with
  | zero => rfl
  | succ fuel ih =>
    obtain ⟨pre, b, rfl, hbu, hfind⟩ := findSeg_full h hroom (fixSize ((n + 24) % 2 ^ 64))
    show kmalloc (fuel + 1) s n = none
    rw [kmalloc]
    cases hf : findSeg s.seg (fixSize ((n + 24) % 2 ^ 64)) fuel s.startAddr with
    | none => rfl
    | some c =>
      obtain rfl := hfind.unique fuel c hf
      have hfull : (s.seg b.addr).used = true := by
        rw [(laid_split.mp h.laid).2.1]
        exact hbu
      have halloc : allocFreePages s 6 0 = (s, 0, 0) :=
        allocFreePagesFrom_none fun o ho hk => hempty o ho (by omega)
      have hgr : (growHeap s b.addr).2 = (0, 0) := by simp [growHeap, halloc]
      have hstill : HeapAt mem (growHeap s b.addr).1 (pre ++ [b]) := by
        rw [growHeap_null h hbu halloc]
        refine ⟨h.start, Linked.update h.laid ?_, h.arena⟩
        intro hm
        obtain ⟨y, hy, hy0⟩ := List.mem_map.mp hm
        have := (h.arena.pos y hy).1
        omega
      have hlists : ∀ o, 6 ≤ o → o ≤ 9 → (growHeap s b.addr).1.listHead o = none := by
        rw [growHeap_null h hbu halloc]
        exact hempty
      have hnode : ∀ address, addFreeAreaWith (kmalloc fuel) (growHeap s b.addr).1 0 address =
          none := by
        intro address
        have hk := ih hstill hlists 16
        simp only at hk
        unfold addFreeAreaWith
        split
        · simp [hk]
        · simp [hk]
      have hodd : (2 ^ (growHeap s b.addr).2.2 - 2 ^ 6 : Int) % 2 ≠ 0 := by
        rw [hgr]
        decide
      simp only [Option.bind_some, hfull, or_true, if_true,
        returnPagesWith_none hodd (hnode _), Option.bind_none]

end TayHuang
