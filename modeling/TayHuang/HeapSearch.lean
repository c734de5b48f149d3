import TayHuang.PageConservation

/-! The search for a free segment on a heap that has just grown. The block it grew by
may overlap it, as phantom blocks do: its segments are no longer apart then, but
the search still comes to this block, and nodes are cut off it. -/

namespace TayHuang

open Function (update)
open LinkedCells Fuel

variable {mem : Set Nat} {s s' : KMem} {l : List Seg} {L : Nat → List (Nat × Nat)}
variable {m : Nat → SegInfo} {fuel a c f n p order address : Nat}

/-- The search loop of `kmalloc` comes from `a` to the free segment `f`. -/
inductive Reaches (m : Nat → SegInfo) (f : Nat) : Nat → Prop
  | here (hu : (m f).used = false) : Reaches m f f
  | skip {a b : Nat} (hu : (m a).used = true) (hn : (m a).next = some b) (h : Reaches m f b) :
    Reaches m f a

/-- The first free segment holds at least `n + 1` units. -/
def Roomy (s : KMem) (n : Nat) : Prop :=
  ∃ f, Reaches s.seg f s.startAddr ∧ 64 * (n + 1) ≤ (s.seg f).size

theorem Reaches.free (h : Reaches m f a) : (m f).used = false := by
  induction h with
  | here hu => exact hu
  | skip _ _ _ ih => exact ih

theorem Reaches.findSeg_eq {fixed : Nat} (h : Reaches m f a) (hfit : fixed ≤ (m f).size)
    (hc : findSeg m fixed fuel a = some c) : c = f := by
  induction h generalizing fuel with
  | here hu =>
    cases fuel with
    | zero => simp [findSeg] at hc
    | succ fuel =>
      have hno : ¬ ((m f).size < fixed ∨ (m f).used = true) := by
        rw [hu]
        simpa using hfit
      rw [findSeg, if_neg hno] at hc
      exact (Option.some.inj hc).symm
  | skip hu hn _ ih =>
    cases fuel with
    | zero => simp [findSeg] at hc
    | succ fuel =>
      rw [findSeg, if_pos (Or.inr hu), hn] at hc
      exact ih hc

theorem Reaches.takeSeg {fixed : Nat} (h : Reaches m f a) (h0 : 0 < fixed)
    (hfit : fixed + 64 ≤ (m f).size) : Reaches (takeSeg m f fixed) (f + fixed) a ∧
      (takeSeg m f fixed (f + fixed)).size = (m f).size - fixed := by
  have hne : f + fixed ≠ f := by omega
  have hle : 64 ≤ (m f).size - fixed := by omega
  have hrest : (TayHuang.takeSeg m f fixed (f + fixed)).used = false ∧
      (TayHuang.takeSeg m f fixed (f + fixed)).size = (m f).size - fixed := by
    rw [TayHuang.takeSeg, if_pos hle]
    simp only [Function.update_of_ne hne]
    cases (m f).next with
    | none => simp
    | some n =>
      by_cases hn : f + fixed = n
      · subst hn; simp
      · simp [Function.update_of_ne hn]
  have hfront : (TayHuang.takeSeg m f fixed f).used = true ∧
      (TayHuang.takeSeg m f fixed f).next = some (f + fixed) := by
    rw [TayHuang.takeSeg, if_pos hle]
    simp
  have hother : ∀ b, b ≠ f → b ≠ f + fixed → (TayHuang.takeSeg m f fixed b).used = (m b).used ∧
      (TayHuang.takeSeg m f fixed b).next = (m b).next := by
    intro b hb hb'
    rw [TayHuang.takeSeg, if_pos hle]
    simp only [Function.update_of_ne hb]
    cases (m f).next with
    | none => simp [Function.update_of_ne hb']
    | some n =>
      by_cases hn : b = n
      · subst hn; simp [Function.update_of_ne hb']
      · simp [Function.update_of_ne hn, Function.update_of_ne hb']
  refine ⟨?_, hrest.2⟩
  induction h with
  | here hu => exact .skip hfront.1 hfront.2 (.here hrest.1)
  | @skip a b hu hn hr ih =>
    by_cases ha : a = f + fixed
    · subst ha
      exact .here hrest.1
    · have haf : a ≠ f := by
        rintro rfl
        have hfree := hr.free
        rw [hu] at hfree
        simp at hfree
      obtain ⟨h1, h2⟩ := hother a haf ha
      exact .skip (h1.trans hu) (h2.trans hn) ih

/-! ### Runs that leave the front of the list of single pages alone -/

/-- Head and tail of the list of single pages are the same. -/
def SameSingles (s s' : KMem) : Prop :=
  s'.listHead 0 = s.listHead 0 ∧ s'.listTail 0 = s.listTail 0

theorem SameSingles.trans {t : KMem} (h : SameSingles s t) (h' : SameSingles t s') :
    SameSingles s s' := ⟨h'.1.trans h.1, h'.2.trans h.2⟩

/-- The node of a block, or the same request after the heap has grown. -/
theorem Roomy.kmalloc {b : Nat} (h : Roomy s (n + 1)) (hb : b = 16 ∨ b = 40)
    (hk : kmalloc fuel s b = some (s', p)) : ∃ m, s' = withSeg s m ∧ Roomy s' n := by
  obtain ⟨f, hr, hsize⟩ := h
  have hfix : fixSize ((b + 24) % 2 ^ 64) = 64 := by
    rcases hb with rfl | rfl <;> decide
  cases fuel with
  | zero => simp [TayHuang.kmalloc] at hk
  | succ fuel =>
    simp only [TayHuang.kmalloc, hfix] at hk
    obtain ⟨c, hc, hk⟩ := Option.bind_eq_some_iff.mp hk
    obtain rfl := hr.findSeg_eq (by omega) hc
    have hfit : ¬ ((s.seg c).size < 64 ∨ (s.seg c).used = true) := by
      rw [hr.free]
      simp
      omega
    rw [if_neg hfit] at hk
    obtain ⟨rfl, -⟩ := Prod.mk.inj (Option.some.inj hk)
    obtain ⟨hr', hs'⟩ := hr.takeSeg (show 0 < 64 by decide) (by omega)
    exact ⟨_, rfl, c + 64, hr', by rw [hs']; omega⟩

theorem addFreeAreaWith_link {km : KMem → Nat → Option (KMem × Nat)}
    (hs : addFreeAreaWith km s order address = some s') : ∃ r, km s 16 = some r ∧
      s'.seg = r.1.seg ∧ s'.startAddr = r.1.startAddr ∧ (1 ≤ order → SameSingles r.1 s') := by
  unfold addFreeAreaWith at hs
  split at hs
  · obtain ⟨r, hr, rfl⟩ := Option.map_eq_some_iff.mp hs
    refine ⟨r, hr, rfl, rfl, fun ho => ?_⟩
    have h0 : (0 : Nat) ≠ order := by omega
    simp [SameSingles, linkEmpty, h0]
  · obtain ⟨tail, -, hs⟩ := Option.bind_eq_some_iff.mp hs
    obtain ⟨r, hr, rfl⟩ := Option.map_eq_some_iff.mp hs
    refine ⟨r, hr, rfl, rfl, fun ho => ?_⟩
    have h0 : (0 : Nat) ≠ order := by omega
    simp [SameSingles, linkTail, h0]

theorem Roomy.congr (h : Roomy s n) (hseg : s'.seg = s.seg) (hstart : s'.startAddr = s.startAddr)
    {k : Nat} (hk : k ≤ n) : Roomy s' k := by
  obtain ⟨f, hr, hsize⟩ := h
  exact ⟨f, by rwa [hseg, hstart], by rw [hseg]; omega⟩

theorem Roomy.file (h : Roomy s (n + 1)) (ho : 1 ≤ order)
    (hs : addFreeAreaWith (TayHuang.kmalloc fuel) s order address = some s') :
    Roomy s' n ∧ SameSingles s s' := by
  obtain ⟨r, hr, hseg, hstart, hsame⟩ := addFreeAreaWith_link hs
  obtain ⟨m, hm, hroom⟩ := h.kmalloc (Or.inl rfl) hr
  refine ⟨hroom.congr hseg hstart le_rfl, SameSingles.trans ?_ (hsame ho)⟩
  rw [hm]
  exact ⟨rfl, rfl⟩

theorem Roomy.fileAll {bs : List (Nat × Nat)} (h : Roomy s (n + bs.length))
    (ho : ∀ b ∈ bs, 1 ≤ b.1) (hs : addAll (TayHuang.kmalloc fuel) s bs = some s') :
    Roomy s' n ∧ SameSingles s s' := by
  induction bs generalizing s with
  | nil =>
    obtain rfl : s = s' := by simpa [addAll] using hs
    exact ⟨h, rfl, rfl⟩
  | cons b bs ih =>
    rw [addAll] at hs
    obtain ⟨t, ht, hs⟩ := Option.bind_eq_some_iff.mp hs
    obtain ⟨h1, hsame⟩ := Roomy.file (n := n + bs.length) h (ho b (by simp)) ht
    obtain ⟨h2, hsame'⟩ := ih h1 (fun c hc => ho c (by simp [hc])) hs
    exact ⟨h2, hsame.trans hsame'⟩

/-- The heap grows by whatever block is at the front, even one that overlaps it:
the search comes to this block. -/
theorem reaches_grown {pre : List Seg} {b : Seg} (h : HeapAt mem s (pre ++ [b]))
    (hused : ∀ x ∈ pre ++ [b], x.used = true) (hi : allocFreePages s 6 0 = (popped s n p, a, c))
    (h0 : a ≠ 0) : Reaches (growHeap s b.addr).1.seg a (growHeap s b.addr).1.startAddr ∧
      ((growHeap s b.addr).1.seg a).size = 4096 * 2 ^ 6 := by
  obtain ⟨m₁, hm₁⟩ : ∃ m₁, m₁ = update (update s.seg a ⟨4096 * 2 ^ 6, false, none, some b.addr⟩)
    b.addr { update s.seg a ⟨4096 * 2 ^ 6, false, none, some b.addr⟩ b.addr with
      next := some a } := ⟨_, rfl⟩
  have hlast := (laid_split.mp h.laid).2.1
  have hbu : b.used = true := hused b (by simp)
  have hblk : (m₁ a).used = false ∧ (m₁ a).size = 4096 * 2 ^ 6 ∧ (m₁ a).last = some b.addr ∧
      (a ≠ b.addr → (m₁ a).next = none ∧ (m₁ b.addr).used = true) := by
    by_cases hab : a = b.addr
    · subst hab
      simp [hm₁]
    · have hba : b.addr ≠ a := fun he => hab he.symm
      simp [hm₁, Function.update_of_ne hab, Function.update_of_ne hba, hlast, segCell, hbu]
  have hnext : (m₁ b.addr).next = some a := by simp [hm₁]
  obtain ⟨hfree, hsize, hback, hne⟩ := hblk
  -- nothing is merged
  have hcomb : doCombine m₁ a = (m₁, a) := by
    by_cases hab : a = b.addr
    · subst hab
      simp [doCombine, combineNext, combineLast, hnext, hback, hsize]
    · obtain ⟨h1, h2⟩ := hne hab
      simp [doCombine, combineNext, combineLast, h1, hback, h2]
  have hseg : (growHeap s b.addr).1.seg = m₁ := by
    simp only [growHeap, hi, toPtr, if_neg h0]
    have hpop : (popped s n p).seg = s.seg := rfl
    rw [hpop, ← hm₁, hcomb]
  have hstart : (growHeap s b.addr).1.startAddr = s.startAddr := by
    simp only [growHeap, hi]
    rfl
  have hwalk : ∀ l prev cur, Linked Seg.addr segCell s.seg prev (l ++ [b]) none →
      (∀ x ∈ l, x.used = true) → entry Seg.addr (l ++ [b]) none = some cur →
      Reaches m₁ a cur := by
    intro l
    induction l with
    | nil =>
      intro prev cur _ _ hcur
      obtain rfl : b.addr = cur := by simpa using hcur
      by_cases hab : a = b.addr
      · rw [← hab]
        exact .here hfree
      · exact .skip (hne hab).2 hnext (.here hfree)
    | cons x l ih =>
      intro prev cur hl hu hcur
      obtain rfl : x.addr = cur := by simpa using hcur
      by_cases hxa : x.addr = a
      · rw [hxa]
        exact .here hfree
      · by_cases hxb : x.addr = b.addr
        · rw [hxb] at hxa ⊢
          exact .skip (hne fun he => hxa he.symm).2 hnext (.here hfree)
        · obtain ⟨y, hy⟩ : ∃ y, entry Seg.addr (l ++ [b]) none = some y := by
            cases l <;> exact ⟨_, rfl⟩
          have hx : m₁ x.addr = segCell x prev (some y) := by
            rw [hm₁, Function.update_of_ne hxb, Function.update_of_ne hxa, hl.1]
            exact congrArg (segCell x prev) hy
          refine .skip (b := y) ?_ ?_ (ih _ _ hl.2 (fun z hz => hu z (by simp [hz])) hy)
          · rw [hx]
            exact hu x (by simp)
          · rw [hx]
            rfl
  rw [hseg, hstart]
  refine ⟨hwalk pre none _ h.laid (fun x hx => hused x (by simp [hx])) ?_, hsize⟩
  rw [h.start]

/-- `kmalloc` gave a node on a full heap. -/
theorem roomy_grown {i : Nat} {x : Nat × Nat} {rest : List (Nat × Nat)} (h : HeapAt mem s l)
    (hL : ListsAt s L) (hroom : room l = 0) (h6 : 6 ≤ i) (h9 : i ≤ 9)
    (hempty : ∀ o, 6 ≤ o → o < i → L o = []) (hx : L i = x :: rest) (h0 : x.2 ≠ 0)
    (hk : kmalloc fuel s 16 = some (s', p)) : Roomy s' 9 ∧ SameSingles s s' := by
  obtain ⟨pre, b, rfl, -, hfind⟩ := findSeg_full h hroom (fixSize (16 + 24))
  have hused := used_of_room h.arena hroom
  have hfound : Found L 6 i := ⟨h6, h9, by simp [hx], hempty⟩
  have halloc := allocFreePages_found hL hfound hx 0
  have hgr : (growHeap s b.addr).2 = (x.2, i) := by simp [growHeap, halloc]
  have hsame : SameSingles s (growHeap s b.addr).1 := by
    have hi0 : (0 : Nat) ≠ i := by omega
    simp only [SameSingles, growHeap, halloc, popped, Function.update_of_ne hi0, true_and]
    split <;> simp [hi0]
  obtain ⟨hr, hsize⟩ := reaches_grown h hused halloc h0
  have hfull : (s.seg b.addr).size < fixSize (16 + 24) ∨ (s.seg b.addr).used = true := by
    right
    rw [(laid_split.mp h.laid).2.1]
    exact hused b (by simp)
  obtain ⟨fuel', t, ht, hk⟩ := kmalloc_full (by decide) hfind hfull hk
  rw [hgr, returnPagesWith_surplus h6 h9] at ht
  have hlen : (((List.range i).filter (6 ≤ ·)).map fun j => (j, x.2 + 4096 * 2 ^ j)).length ≤
      9 := by
    have hle := List.length_filter_le (6 ≤ ·) (List.range i)
    rw [List.length_range] at hle
    rw [List.length_map]
    omega
  have hroomy : Roomy (growHeap s b.addr).1 (10 +
      (((List.range i).filter (6 ≤ ·)).map fun j => (j, x.2 + 4096 * 2 ^ j)).length) :=
    ⟨x.2, hr, by rw [hsize]; omega⟩
  obtain ⟨h1, hsame'⟩ := hroomy.fileAll (by
    intro c hc
    obtain ⟨j, hj, rfl⟩ := List.mem_map.mp hc
    have := (List.mem_filter.mp hj).2
    simp only [decide_eq_true_eq] at this
    simp only
    omega) ht
  obtain ⟨m, rfl, h2⟩ := Roomy.kmalloc (n := 9) h1 (Or.inr rfl) hk
  exact ⟨h2, hsame.trans hsame'⟩

/-- A heap whose segments are apart, with lists of blocks to grow by. -/
structure Steady (s : KMem) (l : List Seg) (L : Nat → List (Nat × Nat)) : Prop where
  heap : HeapAt Set.univ s l
  lists : ListsAt s L
  nodes : NodesIn l L
  nonnull : ∀ o ≤ 9, ∀ x ∈ L o, x.2 ≠ 0

/-- Without room the heap grows, or it asks for itself over and over. -/
theorem Steady.grows (h : Steady s l L) (hroom : room l = 0)
    (hk : kmalloc fuel s 16 = some (s', p)) : Roomy s' 9 ∧ SameSingles s s' := by
  by_cases hany : ∃ i, 6 ≤ i ∧ i ≤ 9 ∧ L i ≠ []
  · obtain ⟨i, h6, h9, hne, hmin⟩ := exists_least hany
    obtain ⟨x, rest, hx⟩ := List.exists_cons_of_ne_nil hne
    exact roomy_grown h.heap h.lists hroom h6 h9 hmin hx (h.nonnull _ h9 x (by simp [hx])) hk
  · have hdiv : kmalloc fuel s 16 = none :=
      kmalloc_diverges h.heap hroom (h.lists.no_heads hany) 16 fuel
    simp [hdiv] at hk

theorem Steady.fileAll {bs : List (Nat × Nat)} (h : Steady s l L) (hlen : bs.length ≤ 8)
    (ho : ∀ b ∈ bs, 1 ≤ b.1 ∧ b.1 ≤ 9) (h0 : ∀ b ∈ bs, b.2 ≠ 0)
    (hs : addAll (kmalloc fuel) s bs = some s') : SameSingles s s' := by
  induction bs generalizing s l L with
  | nil =>
    obtain rfl : s = s' := by simpa [addAll] using hs
    exact ⟨rfl, rfl⟩
  | cons b bs ih =>
    rw [addAll] at hs
    obtain ⟨t, ht, hs⟩ := Option.bind_eq_some_iff.mp hs
    rw [List.length_cons] at hlen
    obtain ⟨ho1, ho9⟩ := ho b (by simp)
    have hos : ∀ c ∈ bs, 1 ≤ c.1 ∧ c.1 ≤ 9 := fun c hc => ho c (by simp [hc])
    obtain ⟨r, hr, hseg, hstart, hlink⟩ := addFreeAreaWith_link ht
    by_cases hroom : 0 < room l
    · obtain ⟨t', p, l', hset, hl', -, -, -, hL', hN', -⟩ :=
        addFreeArea_settles h.heap h.lists h.nodes ho9 b.2 hroom
      obtain rfl := hset.unique fuel t ht
      have hsteady : Steady t l' (update L b.1 (L b.1 ++ [(p, b.2)])) := by
        refine ⟨hl', hL', hN', ?_⟩
        intro o h9 x hx
        by_cases he : o = b.1
        · subst he
          rw [Function.update_self] at hx
          rcases List.mem_append.mp hx with hx | hx
          · exact h.nonnull _ h9 x hx
          · rw [List.mem_singleton.mp hx]
            exact h0 b (by simp)
        · rw [Function.update_of_ne he] at hx
          exact h.nonnull o h9 x hx
      obtain ⟨x, hx, hu⟩ := (room_pos_iff h.heap.arena).mp hroom
      obtain ⟨m, q, l₁, hkm, -⟩ := kmalloc_settles h.heap (n := 16) (by decide) ⟨x, hx, hu, by
        have := h.heap.arena.pos x hx
        rw [fixSize_node]
        exact Nat.le_of_dvd this.2.1 this.2.2⟩
      have hsame : SameSingles s r.1 := by
        rw [hkm.unique fuel r hr]
        exact ⟨rfl, rfl⟩
      exact (hsame.trans (hlink ho1)).trans
        (ih hsteady (by omega) hos (fun c hc => h0 c (by simp [hc])) hs)
    · obtain ⟨hroomy, hsame⟩ := h.grows (by omega) hr
      have hroomy' : Roomy t (0 + bs.length) := hroomy.congr hseg hstart (by omega)
      obtain ⟨-, hrest⟩ := hroomy'.fileAll (fun c hc => (hos c hc).1) hs
      exact (hsame.trans (hlink ho1)).trans hrest

end TayHuang
