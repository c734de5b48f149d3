import TayHuang.HeapGrowth
import Mathlib.Logic.Relation

/-! Whole runs of the kernel heap, whatever the page allocator hands out. -/

namespace TayHuang

open Function (update)
open LinkedCells

section Spec

variable {base sz : Nat}

/-- What every step between two states of the allocators keeps of the heap. -/
def Grows (base sz : Nat) (s s' : KMem) : Prop :=
  ∃ g, s'.grown = s.grown ++ g ∧ ∀ l, HeapAt (heapBytes base sz s.grown) s l →
    GrownOk base sz s'.grown → 24 * g.length + 103 < 2 ^ 64 →
    ∃ l', HeapAt (heapBytes base sz s'.grown) s' l' ∧ Kept l l' ∧
      sizes l' = sizes l + 4096 * 2 ^ 6 * g.length

/-- What a call of `kmalloc` does. -/
def KmallocSpec (base sz : Nat) (km : KMem → Nat → Option (KMem × Nat)) : Prop :=
  ∀ s n s' p, km s n = some (s', p) → ∃ g, s'.grown = s.grown ++ g ∧
    ∀ l, HeapAt (heapBytes base sz s.grown) s l → GrownOk base sz s'.grown →
      n + 24 * (g.length + 1) + 63 < 2 ^ 64 →
      ∃ l', HeapAt (heapBytes base sz s'.grown) s' l' ∧ Kept l l' ∧
        sizes l' = sizes l + 4096 * 2 ^ 6 * g.length ∧ Served l l' p n

theorem Grows.of_same {s s' : KMem} (hs : s'.startAddr = s.startAddr) (hm : s'.seg = s.seg)
    (hg : s'.grown = s.grown) : Grows base sz s s' := by
  refine ⟨[], by simp [hg], ?_⟩
  intro l hl _ _
  refine ⟨l, ?_, fun x hx _ => hx, by simp⟩
  rw [hg]
  exact hl.congr hs hm

theorem Grows.trans {s₁ s₂ s₃ : KMem} (h : Grows base sz s₁ s₂) (h' : Grows base sz s₂ s₃) :
    Grows base sz s₁ s₃ := by
  obtain ⟨g, he, hg⟩ := h
  obtain ⟨g', he', hg'⟩ := h'
  refine ⟨g ++ g', by rw [he', he, List.append_assoc], ?_⟩
  intro l hl hok hb
  have hok₂ : GrownOk base sz s₂.grown := by rw [he'] at hok; exact hok.prefix
  rw [List.length_append] at hb ⊢
  obtain ⟨l₂, hl₂, hk₂, hs₂⟩ := hg l hl hok₂ (by omega)
  obtain ⟨l₃, hl₃, hk₃, hs₃⟩ := hg' l₂ hl₂ hok (by omega)
  exact ⟨l₃, hl₃, hk₂.trans hk₃, by rw [hs₃, hs₂, Nat.mul_add]; omega⟩

theorem KmallocSpec.grows {km : KMem → Nat → Option (KMem × Nat)} (h : KmallocSpec base sz km)
    {s s' : KMem} {n p : Nat} (hn : n ≤ 16) (he : km s n = some (s', p)) :
    Grows base sz s s' := by
  obtain ⟨g, hg, hh⟩ := h s n s' p he
  refine ⟨g, hg, fun l hl hok hb => ?_⟩
  obtain ⟨l', hl', hk, hs, -⟩ := hh l hl hok (by omega)
  exact ⟨l', hl', hk, hs⟩

variable {km : KMem → Nat → Option (KMem × Nat)}

theorem addFreeAreaWith_grows (hkm : KmallocSpec base sz km) {s s' : KMem} {order address : Nat}
    (h : addFreeAreaWith km s order address = some s') : Grows base sz s s' := by
  unfold addFreeAreaWith at h
  split at h
  · simp only [Option.map_eq_some_iff] at h
    obtain ⟨⟨t, p⟩, hk, rfl⟩ := h
    exact (hkm.grows (le_refl 16) hk).trans (Grows.of_same rfl rfl rfl)
  · simp only [Option.bind_eq_some_iff, Option.map_eq_some_iff] at h
    obtain ⟨tail, -, ⟨t, p⟩, hk, rfl⟩ := h
    exact (hkm.grows (le_refl 16) hk).trans (Grows.of_same rfl rfl rfl)

theorem addBits_grows (hkm : KmallocSpec base sz km) {advance : Nat → Nat} {k i start : Nat}
    {pages : Int} {s : KMem} {r : KMem × Nat × Int}
    (h : addBits km advance k i s start pages = some r) : Grows base sz s r.1 := by
  induction k generalizing i start pages s with
  | zero =>
    rw [addBits, Option.some.injEq] at h
    exact h ▸ Grows.of_same rfl rfl rfl
  | succ k ih =>
    rw [addBits] at h
    split at h
    · obtain ⟨t, ht, h⟩ := Option.bind_eq_some_iff.mp h
      exact (addFreeAreaWith_grows hkm ht).trans (ih h)
    · exact ih h

theorem addTop_grows (hkm : KmallocSpec base sz km) {n start : Nat} {s s' : KMem}
    (h : addTop km n s start = some s') : Grows base sz s s' := by
  induction n generalizing start s with
  | zero =>
    rw [addTop, Option.some.injEq] at h
    exact h ▸ Grows.of_same rfl rfl rfl
  | succ n ih =>
    rw [addTop] at h
    obtain ⟨t, ht, h⟩ := Option.bind_eq_some_iff.mp h
    exact (addFreeAreaWith_grows hkm ht).trans (ih h)

theorem returnPagesWith_grows (hkm : KmallocSpec base sz km) {s s' : KMem} {addr : Nat} {pages : Int}
    (h : returnPagesWith km s addr pages = some s') : Grows base sz s s' := by
  unfold returnPagesWith at h
  obtain ⟨⟨t, start, rest⟩, ht, h⟩ := Option.bind_eq_some_iff.mp h
  exact (addBits_grows hkm ht).trans (addTop_grows hkm h)

theorem take_spec {mem : Set Nat} {s : KMem} {pre post : List Seg} {b : Seg} {n : Nat}
    (h : HeapAt mem s (pre ++ b :: post)) (hu : b.used = false) (hb : n + 24 + 63 < 2 ^ 64)
    (hle : fixSize (n + 24) ≤ b.size) :
    HeapAt mem { s with seg := takeSeg s.seg b.addr (fixSize (n + 24)) }
        (takeAt pre b post (fixSize (n + 24))) ∧
      Served (pre ++ b :: post) (takeAt pre b post (fixSize (n + 24))) (b.addr + 24) n := by
  obtain ⟨hf1, hf2, hf3⟩ := fixSize_spec hb
  refine ⟨⟨?_, takeSeg_laid h.laid h.arena (by omega), h.arena.takeAt hu (by omega) hf3 hle⟩, ?_⟩
  · rw [h.start]
    unfold takeAt
    split <;> cases pre <;> simp
  · obtain ⟨c, hc, hca, hcu, hcs⟩ := taken_mem_takeAt hle
    refine ⟨c, hc, hcu, by rw [hca], by omega, ?_⟩
    intro x hx hxu he
    have hn := h.arena.beside.addr_nodup
    have hxb : x = b := List.inj_on_of_nodup_map hn hx (by simp) (he.trans hca)
    rw [hxb, hu] at hxu
    exact Bool.noConfusion hxu

theorem kmalloc_spec (base sz fuel : Nat) : KmallocSpec base sz (kmalloc fuel) := by
  induction fuel with
  | zero => intro s n s' p h; simp [kmalloc] at h
  | succ fuel ih =>
    intro s n s' p h
    rw [kmalloc] at h
    obtain ⟨c, hc, h⟩ := Option.bind_eq_some_iff.mp h
    split at h
    · -- growth, then the request starts again
      rename_i hno
      obtain ⟨t, ht, hk⟩ := Option.bind_eq_some_iff.mp h
      have hg0 := growHeap_grown s c
      obtain ⟨g₁, he₁, hg₁⟩ := returnPagesWith_grows ih ht
      obtain ⟨g₂, he₂, hg₂⟩ := ih _ _ _ _ hk
      refine ⟨[(growHeap s c).2] ++ g₁ ++ g₂, by rw [he₂, he₁, hg0]; simp, ?_⟩
      intro l hl hok hb
      simp only [List.length_append, List.length_singleton] at hb ⊢
      rw [Nat.mod_eq_of_lt (by omega : n + 24 < 2 ^ 64)] at hc hno hg₂
      have hlast : ∃ pre b, l = pre ++ [b] ∧ c = b.addr := by
        rcases findSeg_eq hl.laid hl.start.symm hc with ⟨pre, b, post, rfl, rfl, hu, hs, -⟩ |
          ⟨pre, b, hpb, hcb, -⟩
        · have hbm := (laid_split.mp hl.laid).2.1
          rw [hbm] at hno
          simp only [segCell, hu] at hno
          rcases hno with hno | hno
          · omega
          · simp at hno
        · exact ⟨pre, b, hpb, hcb⟩
      have hok₁ : GrownOk base sz t.grown := by rw [he₂] at hok; exact hok.prefix
      have hok₀ : GrownOk base sz (growHeap s c).1.grown := by rw [he₁] at hok₁; exact hok₁.prefix
      have h0 := growHeap_heapAt hl hlast hok₀
      obtain ⟨l₁, hl₁, hk₁, hs₁⟩ := hg₁ _ h0 hok₁ (by omega)
      obtain ⟨l₂, hl₂, hk₂, hs₂, d, hd, hdu, hdp, hds, hdf⟩ := hg₂ l₁ hl₁ hok (by omega)
      have hk0 : Kept l (joinAt l ⟨(growHeap s c).2.1, 4096 * 2 ^ 6, false⟩ []) :=
        fun x hx hu => mem_joinAt_of_used (by simp [hx]) hu
      refine ⟨l₂, hl₂, (hk0.trans hk₁).trans hk₂, ?_, d, hd, hdu, hdp, by omega, ?_⟩
      · rw [hs₂, hs₁, sizes_joinAt]
        simp only [sizes_nil]
        omega
      · exact fun x hx hu => hdf x (hk₁ x (hk0 x hx hu) hu) hu
    · rename_i hfit
      rw [Option.some.injEq, Prod.mk.injEq] at h
      obtain ⟨rfl, rfl⟩ := h
      refine ⟨[], by simp, ?_⟩
      intro l hl _ hb
      simp only [List.length_nil] at hb
      rw [Nat.mod_eq_of_lt (by omega : n + 24 < 2 ^ 64)] at hc hfit ⊢
      obtain ⟨pre, b, post, rfl, rfl, hu, hs⟩ : ∃ pre b post, l = pre ++ b :: post ∧ c = b.addr ∧
          b.used = false ∧ fixSize (n + 24) ≤ b.size := by
        rcases findSeg_eq hl.laid hl.start.symm hc with ⟨pre, b, post, he, hcb, hu, hs, -⟩ |
          ⟨pre, b, rfl, rfl, hp⟩
        · exact ⟨pre, b, post, he, hcb, hu, hs⟩
        · have hbm := (laid_split.mp hl.laid).2.1
          rw [hbm] at hfit
          simp only [segCell, not_or, Bool.not_eq_true] at hfit
          have := hp b (by simp) hfit.2
          omega
      obtain ⟨h1, h2⟩ := take_spec hl hu (by omega) hs
      exact ⟨_, h1, fun x hx hxu => mem_takeAt_of_used hu hx hxu, by rw [sizes_takeAt hs]; simp, h2⟩

end Spec

/-! ### Runs -/

/-- One step of the heap's clients, next to the live pointers with the sizes they
were asked for. The page allocator may rearrange its lists at any time. -/
inductive HeapStep : KMem × List (Nat × Nat) → KMem × List (Nat × Nat) → Prop
  | kmalloc {s s' : KMem} {live : List (Nat × Nat)} {fuel size p : Nat}
      (hsize : size ≤ 256 * 1024 - 48) (h : kmalloc fuel s size = some (s', p)) :
      HeapStep (s, live) (s', (p, size) :: live)
  | kfree {s : KMem} {live : List (Nat × Nat)} {b : Nat × Nat} (hb : b ∈ live) :
      HeapStep (s, live) (kfree s b.1, live.erase b)
  | pages {s : KMem} {live : List (Nat × Nat)} (area : Nat → FreeArea)
      (listHead listTail : Nat → Option Nat) :
      HeapStep (s, live)
        ({ s with area := area, listHead := listHead, listTail := listTail }, live)

abbrev HeapReachable := Relation.ReflTransGen HeapStep

/-- Every live pointer has a used segment of its own with room for its size. -/
structure LiveIn (l : List Seg) (live : List (Nat × Nat)) : Prop where
  held : ∀ b ∈ live, ∃ x ∈ l, x.used = true ∧ b.1 = x.addr + 24 ∧ b.2 + 24 ≤ x.size
  own : (live.map Prod.fst).Nodup

theorem LiveIn.kept {l l' : List Seg} {live : List (Nat × Nat)} (h : LiveIn l live)
    (hk : Kept l l') : LiveIn l' live := by
  refine ⟨?_, h.own⟩
  intro b hb
  obtain ⟨x, hx, hu, hh⟩ := h.held b hb
  exact ⟨x, hk x hx hu, hu, hh⟩

theorem LiveIn.served {l l' : List Seg} {live : List (Nat × Nat)} {p n : Nat} (h : LiveIn l live)
    (hk : Kept l l') (hs : Served l l' p n) : LiveIn l' ((p, n) :: live) := by
  obtain ⟨c, hc, hcu, hp, hn, hfresh⟩ := hs
  refine ⟨?_, ?_⟩
  · intro b hb
    rcases List.mem_cons.mp hb with rfl | hb
    · exact ⟨c, hc, hcu, hp, hn⟩
    · exact (h.kept hk).held b hb
  · refine List.nodup_cons.mpr ⟨?_, h.own⟩
    intro hm
    obtain ⟨b, hb, hbp⟩ := List.mem_map.mp hm
    obtain ⟨x, hx, hu, hxp, -⟩ := h.held b hb
    exact hfresh x hx hu (by omega)

theorem kfree_heapAt {mem : Set Nat} {s : KMem} {pre post : List Seg} {x : Seg}
    (h : HeapAt mem s (pre ++ x :: post)) :
    HeapAt mem (kfree s (x.addr + 24)) (joinAt pre { x with used := false } post) := by
  have hloose := h.arena.loose_free
  obtain ⟨hpre, hx, hpost⟩ := laid_split.mp h.laid
  have hn := h.arena.beside.addr_nodup
  simp only [List.map_append, List.map_cons, List.nodup_append, List.nodup_cons,
    List.mem_cons] at hn
  have hxp : x.addr ∉ pre.map Seg.addr := fun hh => hn.2.2 _ hh x.addr (Or.inl rfl) rfl
  have hm : Laid (update s.seg x.addr { s.seg x.addr with used := false })
      (pre ++ { x with used := false } :: post) := by
    rw [laid_split]
    refine ⟨hpre.update hxp, ?_, hpost.update hn.2.1.1⟩
    rw [Function.update_self, hx]
    rfl
  refine ⟨?_, ?_, hloose.joinAt⟩
  · have hs : (kfree s (x.addr + 24)).startAddr = s.startAddr := rfl
    rw [hs, h.start]
    have hfst : (joinNext { x with used := false } post).1.addr = x.addr := by
      rcases joinNext_cases { x with used := false } post with ⟨he, -⟩ | ⟨n, l, -, -, -, he⟩ <;>
        rw [he]
    unfold joinAt
    cases pre using List.reverseRecOn with
    | nil => simp [hfst]
    | append_singleton pre p =>
      rw [joinLast_concat]
      split <;> cases pre <;> simp
  · have hh := doCombine_laid hm hloose
    simpa only [kfree, Nat.add_sub_cancel] using hh

/-- What every reachable state of the heap satisfies. -/
def HeapKept (base sz : Nat) (s : KMem) (live : List (Nat × Nat)) : Prop :=
  ∃ l, HeapAt (heapBytes base sz s.grown) s l ∧ LiveIn l live ∧
    sizes l = sz + 4096 * 2 ^ 6 * s.grown.length

theorem initKheap_kept {base sz : Nat} (s : KMem) (hb : 0 < base) (h0 : 0 < sz) (h64 : 64 ∣ sz) :
    HeapKept base sz (initKheap s base sz) [] := by
  refine ⟨[⟨base, sz, false⟩], ⟨rfl, ?_, ?_⟩, ⟨by simp, by simp⟩, by simp [initKheap]⟩
  · exact ⟨by simp [initKheap, segCell], trivial⟩
  · refine ⟨by simp, ?_, by simp, ?_, by simp⟩
    · intro x hx
      rw [List.mem_singleton.mp hx]
      exact ⟨hb, h0, h64⟩
    · intro x hx k hk
      rw [List.mem_singleton.mp hx] at hk
      exact Or.inl hk

theorem HeapStep.grown_prefix {a b : KMem × List (Nat × Nat)} (h : HeapStep a b) :
    ∃ g, b.1.grown = a.1.grown ++ g := by
  cases h with
  | kmalloc _ h =>
    obtain ⟨g, hg, -⟩ := kmalloc_spec 0 0 _ _ _ _ _ h
    exact ⟨g, hg⟩
  | kfree _ => exact ⟨[], by simp [TayHuang.kfree]⟩
  | pages _ _ _ => exact ⟨[], by simp⟩

theorem HeapStep.kept {base sz : Nat} {a b : KMem × List (Nat × Nat)} (h : HeapStep a b)
    (ha : HeapKept base sz a.1 a.2) (hok : GrownOk base sz b.1.grown) :
    HeapKept base sz b.1 b.2 := by
  obtain ⟨l, hl, hlive, hsz⟩ := ha
  cases h with
  | @kmalloc s s' live fuel size p hsize h =>
    obtain ⟨g, hg, hh⟩ := kmalloc_spec base sz _ _ _ _ _ h
    have hlen := hok.length_le
    simp only [hg, List.length_append] at hlen hh ⊢
    rw [hg] at hok
    obtain ⟨l', hl', hk, hs, hserved⟩ := hh l hl hok (by omega)
    refine ⟨l', by rw [hg]; exact hl', hlive.served hk hserved, ?_⟩
    simp only [hg, List.length_append] at hs hsz ⊢
    rw [hs, hsz, Nat.mul_add]
    omega
  | @kfree s live b hb =>
    obtain ⟨x, hx, hu, hp, hn⟩ := hlive.held b hb
    obtain ⟨pre, post, rfl⟩ := List.append_of_mem hx
    simp only
    rw [hp]
    refine ⟨_, kfree_heapAt hl, ⟨?_, ?_⟩, ?_⟩
    · intro c hc
      obtain ⟨y, hy, hyu, hyp, hyn⟩ := hlive.held c (List.mem_of_mem_erase hc)
      refine ⟨y, mem_joinAt_of_used ?_ hyu, hyu, hyp, hyn⟩
      have hne : y ≠ x := by
        rintro rfl
        have hbc : b.1 = c.1 := by rw [hp, hyp]
        have hnd : live.Nodup := hlive.own.of_map
        have he : b = c := List.inj_on_of_nodup_map hlive.own hb (List.mem_of_mem_erase hc) hbc
        rw [← he] at hc
        exact (List.Nodup.not_mem_erase hnd) hc
      simpa [hne] using hy
    · exact hlive.own.sublist ((List.erase_sublist).map _)
    · rw [sizes_joinAt]
      simp only [sizes_append, sizes_cons] at hsz
      simp only [TayHuang.kfree]
      omega
  | pages area hd tl => exact ⟨l, hl.congr rfl rfl, hlive, hsz⟩

theorem HeapReachable.kept {base sz : Nat} {a b : KMem × List (Nat × Nat)}
    (h : HeapReachable a b) (ha : HeapKept base sz a.1 a.2) (hok : GrownOk base sz b.1.grown) :
    HeapKept base sz b.1 b.2 := by
  induction h with
  | refl => exact ha
  | tail _ hs ih =>
    obtain ⟨g, hg⟩ := hs.grown_prefix
    have hok' := hok
    rw [hg] at hok'
    exact hs.kept (ih hok'.prefix) hok

/-- Integrity of the heap in memory, with the segments `l` in list order. Free
neighbours in the list never satisfy `touch`. -/
structure KheapOk (touch : Seg → Seg → Prop) (sz : Nat) (s : KMem) (live : List (Nat × Nat))
    (l : List Seg) : Prop where
  start : some s.startAddr = l.head?.map Seg.addr
  spelled : ∀ pre x post, l = pre ++ x :: post → s.seg x.addr =
    ⟨x.size, x.used, post.head?.map Seg.addr, pre.getLast?.map Seg.addr⟩
  back : ∀ x ∈ l, ∀ b, (s.seg x.addr).next = some b → (s.seg b).last = some x.addr
  apart : l.Pairwise (fun x y => Disjoint x.bytes y.bytes)
  units : ∀ x ∈ l, 0 < x.size ∧ 64 ∣ x.size
  total : sizes l = sz + 256 * 1024 * s.grown.length
  merged : l.IsChain (fun x y => ¬ (x.used = false ∧ y.used = false ∧ touch x y))
  live : LiveIn l live

def Follows (x y : Seg) : Prop := x.addr + x.size = y.addr

def Touching (x y : Seg) : Prop := x.addr + x.size = y.addr ∨ y.addr + y.size = x.addr

theorem Seg.Apart.disjoint {x y : Seg} (h : x.Apart y) : Disjoint x.bytes y.bytes := by
  apply Set.disjoint_left.mpr
  intro k hx hy
  have h1 := hx.1
  have h2 := hx.2
  have h3 := hy.1
  have h4 := hy.2
  unfold Seg.Apart at h
  omega

theorem HeapKept.kheapOk {base sz : Nat} {s : KMem} {live : List (Nat × Nat)}
    (h : HeapKept base sz s live) : ∃ l, KheapOk Follows sz s live l := by
  obtain ⟨l, hl, hlive, hs⟩ := h
  refine ⟨l, ?_, ?_, ?_, ?_, ?_, by omega, hl.arena.merged, hlive⟩
  · simpa [entry] using hl.start
  · rintro pre x post rfl
    rw [(laid_split.mp hl.laid).2.1]
    simp [segCell, entry, leave]
  · intro x hx b hb
    exact (hl.laid.next_last (fun _ _ _ => rfl) (fun _ _ _ => rfl) hx hb).2
  · exact hl.arena.apart.imp Seg.Apart.disjoint
  · exact fun x hx => (hl.arena.pos x hx).2

/-- Every reachable state of the heap is intact, as long as every growth
request succeeded with a block disjoint from the heap. -/
theorem kheap_integrity {base sz : Nat} {s₀ s : KMem} {live : List (Nat × Nat)}
    (hb : 0 < base) (h0 : 0 < sz) (h64 : 64 ∣ sz)
    (h : HeapReachable (initKheap s₀ base sz, []) (s, live)) (hok : GrownOk base sz s.grown) :
    ∃ l, KheapOk Follows sz s live l :=
  (h.kept (initKheap_kept s₀ hb h0 h64) hok).kheapOk

/-- A page allocator with one free block of `2 ^ 6` pages at `address`. -/
def oneBlock (address : Nat) : KMem where
  startAddr := 0
  seg _ := ⟨0, false, none, none⟩
  area := update (fun _ => ⟨0, none⟩) 0x1000 ⟨address, none⟩
  listHead := update (fun _ => none) 6 (some 0x1000)
  listTail := update (fun _ => none) 6 (some 0x1000)
  grown := []

theorem grownOk_oneBlock : GrownOk 0x100000 64 [(0xC0000, 6)] := by
  intro pre b post he
  obtain ⟨rfl, rfl, rfl⟩ : pre = [] ∧ b = (0xC0000, 6) ∧ post = [] := by
    cases pre with
    | nil => simpa [eq_comm] using he
    | cons c pre => simp at he
  refine ⟨by decide, by decide, ?_⟩
  rintro k h3 h4 (h5 | ⟨b, hb, -⟩)
  · simp only at h3 h4
    omega
  · simp at hb

/-- The heap of one unit at 1 MiB grows by the 256 KiB in front of it. -/
theorem kheap_integrity_grown : ∃ s live l, s.grown = [(0xC0000, 6)] ∧ live.length = 2 ∧
    KheapOk Follows 64 s live l := by
  have h1 : ∃ r, kmalloc 5 (initKheap (oneBlock 0xC0000) 0x100000 64) 16 = some r :=
    Option.isSome_iff_exists.mp (by decide +kernel)
  obtain ⟨⟨s₁, p₁⟩, h1⟩ := h1
  have h2 : ((kmalloc 5 (initKheap (oneBlock 0xC0000) 0x100000 64) 16).bind
      fun r => (kmalloc 5 r.1 16).map fun r => r.1.grown) = some [(0xC0000, 6)] := by
    decide +kernel
  rw [h1, Option.bind_some, Option.map_eq_some_iff] at h2
  obtain ⟨⟨s₂, p₂⟩, h2, hg⟩ := h2
  have hr : HeapReachable (initKheap (oneBlock 0xC0000) 0x100000 64, [])
      (s₂, [(p₂, 16), (p₁, 16)]) :=
    (Relation.ReflTransGen.single (.kmalloc (by decide) h1)).tail (.kmalloc (by decide) h2)
  have hok : GrownOk 0x100000 64 s₂.grown := hg ▸ grownOk_oneBlock
  obtain ⟨l, hl⟩ := kheap_integrity (by decide) (by decide) (by decide) hr hok
  exact ⟨s₂, _, l, hg, rfl, hl⟩

/-- When both units are freed again, two free neighbours of the list touch in
memory, the second of them in front of the first. -/
theorem kheap_free_neighbours_touch :
    ¬ ∀ (base sz : Nat) (s₀ s : KMem) (live : List (Nat × Nat)), 0 < base → 0 < sz → 64 ∣ sz →
      HeapReachable (initKheap s₀ base sz, []) (s, live) → GrownOk base sz s.grown →
      ∃ l, KheapOk Touching sz s live l := by
  intro hall
  have h1 : ∃ r, kmalloc 5 (initKheap (oneBlock 0xC0000) 0x100000 64) 16 = some r :=
    Option.isSome_iff_exists.mp (by decide +kernel)
  obtain ⟨⟨s₁, p₁⟩, h1⟩ := h1
  have h2 : ((kmalloc 5 (initKheap (oneBlock 0xC0000) 0x100000 64) 16).bind
      fun r => (kmalloc 5 r.1 16).map fun q =>
        ((kfree (kfree q.1 r.2) q.2).grown, (kfree (kfree q.1 r.2) q.2).startAddr,
          (kfree (kfree q.1 r.2) q.2).seg 0x100000, (kfree (kfree q.1 r.2) q.2).seg 0xC0000)) =
      some ([(0xC0000, 6)], 0x100000, ⟨64, false, some 0xC0000, none⟩,
        ⟨0x40000, false, none, some 0x100000⟩) := by
    decide +kernel
  rw [h1, Option.bind_some, Option.map_eq_some_iff] at h2
  obtain ⟨⟨s₂, p₂⟩, h2, he⟩ := h2
  simp only [Prod.mk.injEq] at he
  obtain ⟨hg, hstart, hseg0, hseg1⟩ := he
  have hr : HeapReachable (initKheap (oneBlock 0xC0000) 0x100000 64, [])
      (kfree (kfree s₂ p₁) p₂, (([(p₂, 16), (p₁, 16)].erase (p₁, 16)).erase (p₂, 16))) := by
    refine (((Relation.ReflTransGen.single (.kmalloc (by decide) h1)).tail
      (.kmalloc (by decide) h2)).tail (.kfree (b := (p₁, 16)) (by simp))).tail
      (.kfree (b := (p₂, 16)) ?_)
    by_cases hp : p₂ = p₁ <;> simp [hp]
  obtain ⟨l, hl⟩ := hall 0x100000 64 _ _ _ (by decide) (by decide) (by decide) hr
    (hg ▸ grownOk_oneBlock)
  have hs := hl.start
  rw [hstart] at hs
  cases l with
  | nil => simp at hs
  | cons x l =>
    obtain hx : 0x100000 = x.addr := by simpa using hs
    have hcx := hl.spelled [] x l rfl
    rw [← hx, hseg0] at hcx
    cases l with
    | nil => simp at hcx
    | cons y l =>
      simp only [List.head?_cons, Option.map_some, SegInfo.mk.injEq, Option.some.injEq] at hcx
      obtain ⟨-, hxu, hy, -⟩ := hcx
      have hcy := hl.spelled [x] y l rfl
      rw [← hy, hseg1] at hcy
      simp only [SegInfo.mk.injEq] at hcy
      obtain ⟨hys, hyu, -, -⟩ := hcy
      have hm := (List.isChain_cons_cons.mp hl.merged).1
      exact hm ⟨hxu.symm, hyu.symm, Or.inr (by omega)⟩

end TayHuang
