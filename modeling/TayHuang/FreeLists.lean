import TayHuang.Fuel
import TayHuang.HeapRuns

/-! The free lists of pmm.c and the nodes that hold them on the heap. While the
heap has room nothing grows, and every returned block ends up at the end of the
list of its order. -/

namespace TayHuang

open Function (update)
open LinkedCells Fuel

def areaCell (x : Nat × Nat) (next : Option Nat) : FreeArea := ⟨x.2, next⟩

/-- The free lists in memory: `L o` holds the nodes of order `o`, each with the
address of its block. A tail pointer counts only when its list is not empty. -/
structure ListsAt (s : KMem) (L : Nat → List (Nat × Nat)) : Prop where
  head : ∀ o ≤ 9, s.listHead o = (L o).head?.map Prod.fst
  chained : ∀ o ≤ 9, Chained Prod.fst areaCell s.area (L o) none
  tail : ∀ o ≤ 9, L o ≠ [] → s.listTail o = (L o).getLast?.map Prod.fst
  nodup : ∀ o ≤ 9, ((L o).map Prod.fst).Nodup
  apart : ∀ o ≤ 9, ∀ o' ≤ 9, o ≠ o' → ∀ x ∈ L o, ∀ y ∈ L o', x.1 ≠ y.1

/-- Every node is the payload of a used segment. -/
def NodesIn (l : List Seg) (L : Nat → List (Nat × Nat)) : Prop :=
  ∀ o ≤ 9, ∀ x ∈ L o, ∃ c ∈ l, c.used = true ∧ x.1 = c.addr + 24

theorem exists_least {L : Nat → List (Nat × Nat)} {order : Nat}
    (h : ∃ i, order ≤ i ∧ i ≤ 9 ∧ L i ≠ []) :
    ∃ i, order ≤ i ∧ i ≤ 9 ∧ L i ≠ [] ∧ ∀ o, order ≤ o → o < i → L o = [] := by
  obtain ⟨ho, h9, hne⟩ := Nat.find_spec h
  refine ⟨Nat.find h, ho, h9, hne, fun o hlo hlt => ?_⟩
  by_contra hlne
  exact Nat.find_min h hlt ⟨hlo, by omega, hlne⟩

theorem empty_of_none {L : Nat → List (Nat × Nat)} {order : Nat}
    (hany : ¬ ∃ i, order ≤ i ∧ i ≤ 9 ∧ L i ≠ []) : ∀ o, order ≤ o → o ≤ 9 → L o = [] := by
  intro o ho h9
  by_contra hne
  exact hany ⟨o, ho, h9, hne⟩

theorem ListsAt.no_heads {s : KMem} {L : Nat → List (Nat × Nat)} {order : Nat} (h : ListsAt s L)
    (hany : ¬ ∃ i, order ≤ i ∧ i ≤ 9 ∧ L i ≠ []) :
    ∀ o, order ≤ o → o ≤ 9 → s.listHead o = none := by
  intro o ho h9
  rw [h.head o h9, empty_of_none hany o ho h9]
  rfl

/-- How many units the free segments of a heap hold. -/
def room (l : List Seg) : Nat := (l.map fun x => if x.used then 0 else x.size / 64).sum

@[simp] theorem room_nil : room [] = 0 := rfl

@[simp] theorem room_cons (x : Seg) (l : List Seg) :
    room (x :: l) = (if x.used then 0 else x.size / 64) + room l := by simp [room]

@[simp] theorem room_append (l r : List Seg) : room (l ++ r) = room l + room r := by simp [room]

theorem NodesIn.kept {l l' : List Seg} {L : Nat → List (Nat × Nat)} (h : NodesIn l L)
    (hk : Kept l l') : NodesIn l' L := by
  intro o ho x hx
  obtain ⟨c, hc, hu, he⟩ := h o ho x hx
  exact ⟨c, hk c hc hu, hu, he⟩

theorem NodesIn.fresh {l l' : List Seg} {L : Nat → List (Nat × Nat)} {p n : Nat}
    (h : NodesIn l L) (hs : Served l l' p n) : ∀ o ≤ 9, ∀ x ∈ L o, x.1 ≠ p := by
  obtain ⟨c, -, -, hp, -, hf⟩ := hs
  intro o ho x hx he
  obtain ⟨d, hd, hu, hxd⟩ := h o ho x hx
  exact hf d hd hu (by omega)

theorem NodesIn.push {l l' : List Seg} {L : Nat → List (Nat × Nat)} {p n order : Nat}
    {xs : List (Nat × Nat)} (address : Nat) (h : NodesIn l L) (hk : Kept l l')
    (hs : Served l l' p n) (hxs : ∀ x ∈ xs, x ∈ L order) (ho : order ≤ 9) :
    NodesIn l' (update L order (xs ++ [(p, address)])) := by
  intro o h9 x hx
  by_cases he : o = order
  · subst he
    rw [Function.update_self] at hx
    rcases List.mem_append.mp hx with hx | hx
    · exact h.kept hk o ho x (hxs x hx)
    · obtain ⟨c, hc, hu, hp, -⟩ := hs
      exact ⟨c, hc, hu, by simp [List.mem_singleton.mp hx, hp]⟩
  · rw [Function.update_of_ne he] at hx
    exact h.kept hk o h9 x hx

/-! ### Linking a node -/

theorem ListsAt.congr {s s' : KMem} {L : Nat → List (Nat × Nat)} (h : ListsAt s L)
    (ha : s'.area = s.area) (hh : s'.listHead = s.listHead) (ht : s'.listTail = s.listTail) :
    ListsAt s' L :=
  ⟨by rw [hh]; exact h.head, by rw [ha]; exact h.chained, by rw [ht]; exact h.tail, h.nodup,
    h.apart⟩

/-- A list that was found empty becomes the new node alone, whatever has been
added to it in between. -/
theorem ListsAt.link_empty {s : KMem} {L : Nat → List (Nat × Nat)} {p : Nat} (order address : Nat)
    (h : ListsAt s L) (hf : ∀ o ≤ 9, ∀ x ∈ L o, x.1 ≠ p) :
    ListsAt (linkEmpty s order address p) (update L order [(p, address)]) := by
  unfold linkEmpty
  refine ⟨?_, ?_, ?_, ?_, ?_⟩
  · intro o ho
    by_cases he : o = order
    · subst he; simp
    · simpa [he] using h.head o ho
  · intro o ho
    by_cases he : o = order
    · subst he
      simp only [Function.update_self]
      exact ⟨by simp [areaCell], trivial⟩
    · simp only [Function.update_of_ne he]
      apply (h.chained o ho).update
      intro hm
      obtain ⟨x, hx, hxp⟩ := List.mem_map.mp hm
      exact hf o ho x hx hxp
  · intro o ho
    by_cases he : o = order
    · subst he; simp
    · simpa [he] using h.tail o ho
  · intro o ho
    by_cases he : o = order
    · subst he; simp
    · simpa [he] using h.nodup o ho
  · intro o ho o' ho' hne x hx y hy
    by_cases he : o = order <;> by_cases he' : o' = order
    · exact absurd (he.trans he'.symm) hne
    · subst he
      simp only [Function.update_self, List.mem_singleton] at hx
      rw [Function.update_of_ne he'] at hy
      rw [hx]
      exact (hf o' ho' y hy).symm
    · subst he'
      simp only [Function.update_self, List.mem_singleton] at hy
      rw [Function.update_of_ne he] at hx
      rw [hy]
      exact hf o ho x hx
    · rw [Function.update_of_ne he] at hx
      rw [Function.update_of_ne he'] at hy
      exact h.apart o ho o' ho' hne x hx y hy

theorem ListsAt.link_tail {s : KMem} {L : Nat → List (Nat × Nat)} {order p : Nat}
    {pre : List (Nat × Nat)} {t : Nat × Nat} (address : Nat) (h : ListsAt s L) (h9 : order ≤ 9)
    (hL : L order = pre ++ [t]) (hf : ∀ o ≤ 9, ∀ x ∈ L o, x.1 ≠ p) :
    ListsAt (linkTail s order address t.1 p) (update L order (L order ++ [(p, address)])) := by
  unfold linkTail
  have hnd := h.nodup order h9
  have hch := h.chained order h9
  rw [hL, List.map_append, List.nodup_append] at hnd
  rw [hL, chained_append] at hch
  have htpre : t.1 ∉ pre.map Prod.fst := fun hm => hnd.2.2 _ hm t.1 (by simp) rfl
  have hfp : ∀ o ≤ 9, p ∉ (L o).map Prod.fst := by
    intro o ho hm
    obtain ⟨x, hx, hxp⟩ := List.mem_map.mp hm
    exact hf o ho x hx hxp
  have hpt : t.1 ≠ p := hf order h9 t (by simp [hL])
  refine ⟨?_, ?_, ?_, ?_, ?_⟩
  · intro o ho
    by_cases he : o = order
    · subst he
      have := h.head o ho
      simp only [Function.update_self]
      rw [this, hL]
      cases pre <;> simp
    · simpa [he] using h.head o ho
  · intro o ho
    by_cases he : o = order
    · subst he
      simp only [Function.update_self]
      rw [hL, List.append_assoc, List.singleton_append, chained_append]
      have hpp : p ∉ pre.map Prod.fst := fun hm => hfp o ho (by rw [hL]; simp [List.mem_map.mp hm])
      refine ⟨(hch.1.update htpre).update hpp, ?_, ?_, trivial⟩
      · rw [Function.update_of_ne hpt, Function.update_self, hch.2.1]
        rfl
      · rw [Function.update_self]
        rfl
    · simp only [Function.update_of_ne he]
      refine ((h.chained o ho).update ?_).update (hfp o ho)
      intro hm
      obtain ⟨x, hx, hxt⟩ := List.mem_map.mp hm
      exact h.apart o ho order h9 he x hx t (by simp [hL]) hxt
  · intro o ho
    by_cases he : o = order
    · subst he; simp
    · simpa [he] using h.tail o ho
  · intro o ho
    by_cases he : o = order
    · subst he
      simp only [Function.update_self]
      rw [List.map_append, List.nodup_append]
      refine ⟨h.nodup o ho, by simp, ?_⟩
      intro a ha b hb he
      simp only [List.map_cons, List.map_nil, List.mem_singleton] at hb
      exact hfp o ho (by rw [← hb, ← he]; exact ha)
    · simpa [he] using h.nodup o ho
  · intro o ho o' ho' hne x hx y hy
    by_cases he : o = order <;> by_cases he' : o' = order
    · exact absurd (he.trans he'.symm) hne
    · subst he
      rw [Function.update_of_ne he'] at hy
      simp only [Function.update_self, List.mem_append, List.mem_singleton] at hx
      rcases hx with hx | hx
      · exact h.apart o ho o' ho' hne x hx y hy
      · rw [hx]; exact (hf o' ho' y hy).symm
    · subst he'
      rw [Function.update_of_ne he] at hx
      simp only [Function.update_self, List.mem_append, List.mem_singleton] at hy
      rcases hy with hy | hy
      · exact h.apart o ho o' ho' hne x hx y hy
      · rw [hy]; exact hf o ho x hx
    · rw [Function.update_of_ne he] at hx
      rw [Function.update_of_ne he'] at hy
      exact h.apart o ho o' ho' hne x hx y hy

/-- A node linked behind one that is on no list, its own list being empty: the
lists stay what they were. -/
theorem ListsAt.link_cut {s : KMem} {L : Nat → List (Nat × Nat)} {order address t p : Nat}
    (h : ListsAt s L) (hL : L order = []) (ht : ∀ o ≤ 9, ∀ x ∈ L o, x.1 ≠ t)
    (hf : ∀ o ≤ 9, ∀ x ∈ L o, x.1 ≠ p) : ListsAt (linkTail s order address t p) L := by
  have hnot : ∀ a, (∀ o ≤ 9, ∀ x ∈ L o, x.1 ≠ a) → ∀ o ≤ 9, a ∉ (L o).map Prod.fst := by
    intro a ha o ho hm
    obtain ⟨x, hx, he⟩ := List.mem_map.mp hm
    exact ha o ho x hx he
  refine ⟨h.head, ?_, ?_, h.nodup, h.apart⟩
  · exact fun o ho => ((h.chained o ho).update (hnot t ht o ho)).update (hnot p hf o ho)
  · intro o ho hne
    have he : o ≠ order := by
      rintro rfl
      exact hne hL
    simpa [linkTail, he] using h.tail o ho hne

/-! ### Nodes from a heap with room -/

theorem room_pos_iff {mem : Set Nat} {l : List Seg} (h : Arena mem l) :
    0 < room l ↔ ∃ x ∈ l, x.used = false := by
  constructor
  · intro hr
    by_contra hno
    have hz : ∀ l' : List Seg, (∀ x ∈ l', x.used = true) → room l' = 0 := by
      intro l'
      induction l' with
      | nil => simp
      | cons x l' ih =>
        intro hu
        simp [hu x (by simp), ih (fun y hy => hu y (by simp [hy]))]
    have := hz l (fun x hx => by
      cases hu : x.used
      · exact absurd ⟨x, hx, hu⟩ hno
      · rfl)
    omega
  · rintro ⟨x, hx, hu⟩
    obtain ⟨pre, post, rfl⟩ := List.append_of_mem hx
    obtain ⟨-, h1, h2⟩ := h.pos x (by simp)
    have : 0 < x.size / 64 := Nat.div_pos (Nat.le_of_dvd h1 h2) (by decide)
    simp [hu]
    omega

theorem room_takeAt {pre post : List Seg} {b : Seg} {fixed : Nat} (hu : b.used = false)
    (h64 : 64 ∣ fixed) (hb : 64 ∣ b.size) (hle : fixed ≤ b.size) :
    room (takeAt pre b post fixed) + fixed / 64 = room (pre ++ b :: post) := by
  unfold takeAt
  split <;> simp [hu] <;> omega

/-- The state after `kmalloc` took a segment: only the segment headers differ. -/
def withSeg (s : KMem) (m : Nat → SegInfo) : KMem := { s with seg := m }

/-- `kmalloc` takes the first free segment of the size asked for. -/
theorem kmalloc_takes {mem : Set Nat} {s : KMem} {pre post : List Seg} {b : Seg} {n : Nat}
    (h : HeapAt mem s (pre ++ b :: post)) (hn : n + 24 + 63 < 2 ^ 64) (hu : b.used = false)
    (hs : fixSize (n + 24) ≤ b.size)
    (hfirst : ∀ x ∈ pre, x.used = false → x.size < fixSize (n + 24)) :
    ∃ m, Settles (fun fuel => kmalloc fuel s n) (withSeg s m, b.addr + 24) ∧
      HeapAt mem (withSeg s m) (takeAt pre b post (fixSize (n + 24))) ∧
      Served (pre ++ b :: post) (takeAt pre b post (fixSize (n + 24))) (b.addr + 24) n := by
  -- every run of the loop stops at the same segment
  have huniq : ∀ fuel d, findSeg s.seg (fixSize (n + 24)) fuel s.startAddr = some d →
      d = b.addr := by
    intro fuel d hd
    rcases findSeg_eq h.laid h.start.symm hd with ⟨pre', b', post', he, rfl, hu', hs', hfirst'⟩ |
      ⟨pre', b', -, -, hno⟩
    · rcases List.append_eq_append_iff.mp he with ⟨a, ha, hb⟩ | ⟨a, ha, hb⟩
      · cases a with
        | nil => simp at hb; rw [hb.1]
        | cons y a =>
          simp only [List.cons_append, List.cons.injEq] at hb
          have := hfirst' b (by simp [ha, hb.1]) hu
          omega
      · cases a with
        | nil => simp at hb; rw [hb.1]
        | cons y a =>
          simp only [List.cons_append, List.cons.injEq] at hb
          have := hfirst b' (by simp [ha, hb.1]) hu'
          omega
    · have := hno b (by simp) hu
      omega
  obtain ⟨h1, h2⟩ := take_spec h hu hn hs
  have hbm := (laid_split.mp h.laid).2.1
  refine ⟨takeSeg s.seg b.addr (fixSize (n + 24)), ?_, h1, h2⟩
  apply settles_succ rfl
  have hfind : Settles (fun fuel => findSeg s.seg (fixSize (n + 24)) fuel s.startAddr) b.addr := by
    refine ⟨⟨(pre ++ b :: post).length, fun fuel hfuel => ?_⟩, huniq⟩
    obtain ⟨d, hd⟩ := findSeg_isSome h.laid h.start.symm hfuel
    rw [hd, huniq fuel d hd]
  have hmod : (n + 24) % 2 ^ 64 = n + 24 := Nat.mod_eq_of_lt (by omega)
  simp only [kmalloc, hmod]
  refine hfind.bind ?_
  have hfits : ¬ ((s.seg b.addr).size < fixSize (n + 24) ∨ (s.seg b.addr).used = true) := by
    rw [hbm]
    simp only [segCell, hu, not_or]
    exact ⟨by omega, by simp⟩
  simp only [if_neg hfits]
  exact settles_const _

theorem exists_first_fit {l : List Seg} {fixed : Nat}
    (hfit : ∃ x ∈ l, x.used = false ∧ fixed ≤ x.size) :
    ∃ pre b post, l = pre ++ b :: post ∧ b.used = false ∧ fixed ≤ b.size ∧
      ∀ x ∈ pre, x.used = false → x.size < fixed := by
  induction l with
  | nil => simp at hfit
  | cons y l ih =>
    by_cases hy : y.used = false ∧ fixed ≤ y.size
    · exact ⟨[], y, l, rfl, hy.1, hy.2, by simp⟩
    · obtain ⟨x, hx, hu, hs⟩ := hfit
      have hxl : x ∈ l := by
        rcases List.mem_cons.mp hx with rfl | hx
        · exact absurd ⟨hu, hs⟩ hy
        · exact hx
      obtain ⟨pre, b, post, rfl, hbu, hbs, hp⟩ := ih ⟨x, hxl, hu, hs⟩
      refine ⟨y :: pre, b, post, rfl, hbu, hbs, ?_⟩
      intro z hz hzu
      rcases List.mem_cons.mp hz with rfl | hz
      · by_contra hle
        exact hy ⟨hzu, by omega⟩
      · exact hp z hz hzu

/-- With a free segment of the size asked for, `kmalloc` serves the request. -/
theorem kmalloc_settles {mem : Set Nat} {s : KMem} {l : List Seg} {n : Nat} (h : HeapAt mem s l)
    (hn : n + 24 + 63 < 2 ^ 64) (hfit : ∃ x ∈ l, x.used = false ∧ fixSize (n + 24) ≤ x.size) :
    ∃ m p l', Settles (fun fuel => kmalloc fuel s n) (withSeg s m, p) ∧
      HeapAt mem (withSeg s m) l' ∧ Kept l l' ∧ Served l l' p n ∧
      room l' + fixSize (n + 24) / 64 = room l := by
  obtain ⟨pre, b, post, rfl, hu, hs, hfirst⟩ := exists_first_fit hfit
  obtain ⟨m, hset, h1, h2⟩ := kmalloc_takes h hn hu hs hfirst
  exact ⟨m, b.addr + 24, _, hset, h1, fun x hx hxu => mem_takeAt_of_used hu hx hxu, h2,
    room_takeAt hu (fixSize_spec hn).2.2 (h.arena.pos b (by simp)).2.2 hs⟩

/-- `l'` is `l` less `n` units, each of them taken off the first free segment. -/
inductive Carved : Nat → List Seg → List Seg → Prop
  | none (l : List Seg) : Carved 0 l l
  | unit {n : Nat} {pre post l' : List Seg} {b : Seg} (hpre : ∀ x ∈ pre, x.used = true)
    (hu : b.used = false) (h : Carved n (takeAt pre b post 64) l') :
    Carved (n + 1) (pre ++ b :: post) l'

theorem Carved.trans {n k : Nat} {l l' l'' : List Seg} (h : Carved n l l')
    (h' : Carved k l' l'') : Carved (k + n) l l'' := by
  induction h with
  | none l => exact h'
  | unit hpre hu _ ih => exact .unit hpre hu (ih h')

theorem fixSize_node : fixSize (16 + 24) = 64 := by decide

theorem addFreeArea_settles {mem : Set Nat} {s : KMem} {l : List Seg} {L : Nat → List (Nat × Nat)}
    {order : Nat} (h : HeapAt mem s l) (hL : ListsAt s L) (hN : NodesIn l L)
    (h9 : order ≤ 9) (address : Nat) (hroom : 0 < room l) :
    ∃ s' p l', Settles (fun fuel => addFreeAreaWith (kmalloc fuel) s order address) s' ∧
      HeapAt mem s' l' ∧ Kept l l' ∧ room l' + 1 = room l ∧ Carved 1 l l' ∧
      ListsAt s' (update L order (L order ++ [(p, address)])) ∧
      NodesIn l' (update L order (L order ++ [(p, address)])) ∧
      s'.grown = s.grown ∧ (∀ o, o ≠ order → s'.listTail o = s.listTail o) ∧
      ∀ c ∈ l, c.used = true → p ≠ c.addr + 24 := by
  have hsize : ∀ x ∈ l, fixSize (16 + 24) ≤ x.size := by
    intro x hx
    rw [fixSize_node]
    have := h.arena.pos x hx
    exact Nat.le_of_dvd this.2.1 this.2.2
  obtain ⟨x, hx, hu⟩ := (room_pos_iff h.arena).mp hroom
  obtain ⟨pre, b, post, hl, hbu, hbs, hfirst⟩ := exists_first_fit ⟨x, hx, hu, hsize x hx⟩
  have hused : ∀ y ∈ pre, y.used = true := by
    intro y hy
    by_contra hyu
    have h1 := hfirst y hy (by simpa using hyu)
    have h2 := hsize y (by simp [hl, hy])
    omega
  obtain ⟨m, hset, hl', hserved⟩ := kmalloc_takes (hl ▸ h) (by decide) hbu hbs hfirst
  rw [← hl] at hserved
  rw [fixSize_node] at hl' hserved hbs
  obtain ⟨p, hpe⟩ : ∃ p, p = b.addr + 24 := ⟨_, rfl⟩
  obtain ⟨l', hle⟩ : ∃ l', l' = takeAt pre b post 64 := ⟨_, rfl⟩
  have hk : Kept l l' := by
    intro y hy hyu
    rw [hle]
    exact mem_takeAt_of_used hbu (hl ▸ hy) hyu
  have hcarved : Carved 1 l l' := by
    rw [hl, hle]
    exact .unit hused hbu (.none _)
  have hr : room l' + 64 / 64 = room l := by
    rw [hl, hle]
    exact room_takeAt hbu (by decide) (h.arena.pos b (by simp [hl])).2.2 hbs
  rw [← hle] at hl' hserved
  rw [← hpe] at hset hserved
  have hfresh := hN.fresh hserved
  have hp : ∀ c ∈ l, c.used = true → p ≠ c.addr + 24 := by
    obtain ⟨d, -, -, hpd, -, hd⟩ := hserved
    intro c hc hcu he
    exact hd c hc hcu (by omega)
  have hLm : ListsAt (withSeg s m) L := hL.congr rfl rfl rfl
  have hnodes := hN.push address hk hserved (fun x hx => hx) h9
  by_cases he : L order = []
  · have hhead : s.listHead order = none := by rw [hL.head order h9, he]; rfl
    refine ⟨linkEmpty (withSeg s m) order address p, p, l', ?_, hl'.congr rfl rfl, hk, by omega,
      hcarved, ?_, hnodes, rfl, fun o ho => Function.update_of_ne ho _ _, hp⟩
    · simp only [addFreeAreaWith, hhead]
      exact hset.map _
    · have hh := hLm.link_empty order address hfresh
      rw [he, List.nil_append]
      exact hh
  · obtain ⟨pre, t, hpt⟩ : ∃ pre t, L order = pre ++ [t] :=
      ⟨_, _, (List.dropLast_append_getLast he).symm⟩
    have hhead : ∃ y, s.listHead order = some y := by
      rw [hL.head order h9]
      cases hc : L order with
      | nil => exact absurd hc he
      | cons y ys => exact ⟨y.1, rfl⟩
    obtain ⟨y, hhead⟩ := hhead
    have htail : s.listTail order = some t.1 := by
      rw [hL.tail order h9 he, hpt]
      simp
    refine ⟨linkTail (withSeg s m) order address t.1 p, p, l', ?_, hl'.congr rfl rfl, hk, by omega,
      hcarved, hLm.link_tail address h9 hpt hfresh, hnodes, rfl, fun o ho => Function.update_of_ne ho _ _, hp⟩
    simp only [addFreeAreaWith, hhead, htail, Option.bind_some]
    exact hset.map _

end TayHuang
