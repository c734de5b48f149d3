import TayHuang.Refiling
import TayHuang.Tilings
import Mathlib.Order.Interval.Multiset

/-! Accounts of the free memory, byte by byte. Returning blocks that do not
overlap never brings a byte on the lists twice; and as soon as the heap has to
grow for a node, some bytes are on no list any more. -/

namespace TayHuang

open Function (update)
open LinkedCells Fuel

variable {s : KMem} {l : List Seg} {L : Nat → List (Nat × Nat)} {bs : List (Nat × Nat)}

/-- The bytes of the blocks, with repetitions. -/
def bag (m : Multiset (Nat × Nat)) : Multiset Nat :=
  m.bind fun b => Multiset.Ico b.2 (b.2 + 4096 * 2 ^ b.1)

@[simp] theorem bag_zero : bag 0 = 0 := rfl

@[simp] theorem bag_add (m m' : Multiset (Nat × Nat)) : bag (m + m') = bag m + bag m' :=
  Multiset.add_bind _ _ _

theorem bag_singleton (b : Nat × Nat) : bag {b} = Multiset.Ico b.2 (b.2 + 4096 * 2 ^ b.1) :=
  Multiset.singleton_bind _ _

theorem bag_mono {m m' : Multiset (Nat × Nat)} (h : m ≤ m') : bag m ≤ bag m' := by
  obtain ⟨t, rfl⟩ := Multiset.le_iff_exists_add.mp h
  rw [bag_add]
  exact Multiset.le_add_right _ _

theorem mem_bag {m : Multiset (Nat × Nat)} {k : Nat} :
    k ∈ bag m ↔ ∃ b ∈ m, k ∈ Tilings.span Prod.snd (fun b => 4096 * 2 ^ b.1) b := by
  simp [bag, Tilings.span]

/-- The blocks start at pages. -/
def Paged (m : Multiset (Nat × Nat)) : Prop := ∀ b ∈ m, 4096 ∣ b.2

theorem Paged.mono {m m' : Multiset (Nat × Nat)} (h : Paged m) (hle : m' ≤ m) : Paged m' :=
  fun b hb => h b (Multiset.mem_of_le hle hb)

theorem Paged.add {m m' : Multiset (Nat × Nat)} (h : Paged m) (h' : Paged m') : Paged (m + m') := by
  intro b hb
  rcases Multiset.mem_add.mp hb with hb | hb
  · exact h b hb
  · exact h' b hb

theorem paged_surplus {a i : Nat} (h : 4096 ∣ a) : Paged (surplus [(a, i)]) := by
  intro b hb
  simp only [surplus, List.flatMap_cons, List.flatMap_nil, List.append_nil, Multiset.mem_coe,
    List.mem_map] at hb
  obtain ⟨j, -, rfl⟩ := hb
  exact Nat.dvd_add h (Nat.dvd_mul_right _ _)

/-- The block that the heap takes, and what goes back to the lists. -/
theorem bag_surplus {a i : Nat} (h6 : 6 ≤ i) :
    bag {(i, a)} = Multiset.Ico a (a + 4096 * 2 ^ 6) + bag (surplus [(a, i)]) := by
  induction i, h6 using Nat.le_induction with
  | base =>
    rw [bag_singleton]
    simp [surplus, List.range_succ]
  | succ i h6 ih =>
    have hs : surplus [(a, i + 1)] = surplus [(a, i)] + {(i, a + 4096 * 2 ^ i)} := by
      simp [surplus, List.range_succ, h6, ← Multiset.coe_add]
    have hd : a + 4096 * 2 ^ (i + 1) = a + 4096 * 2 ^ i + 4096 * 2 ^ i := by
      rw [Nat.pow_succ]
      omega
    rw [hs, bag_add, ← add_assoc, ← ih, bag_singleton, bag_singleton, bag_singleton]
    simp only
    rw [hd, Multiset.Ico_add_Ico_eq_Ico] <;> omega

/-- The allocators while the blocks `bs` wait to be returned: no byte twice, and
the heap apart from them all. -/
structure Accounted (s : KMem) (l : List Seg) (L : Nat → List (Nat × Nat))
    (bs : List (Nat × Nat)) : Prop where
  heap : HeapAt {k | k ∉ bag (recorded L + bs)} s l
  lists : ListsAt s L
  nodes : NodesIn l L
  once : (bag (recorded L + bs)).Nodup
  null : 0 ∉ bag (recorded L + bs)

theorem HeapAt.mono {mem mem' : Set Nat} (h : HeapAt mem s l) (hs : mem ⊆ mem') :
    HeapAt mem' s l := ⟨h.start, h.laid, h.arena.mono hs⟩

theorem Accounted.of_le {s' : KMem} {l' : List Seg} {L' : Nat → List (Nat × Nat)}
    {bs' : List (Nat × Nat)} {mem : Set Nat} (h : Accounted s l L bs) (hl : HeapAt mem s' l')
    (hL : ListsAt s' L') (hN : NodesIn l' L')
    (hmem : ∀ k ∈ mem, k ∉ bag (recorded L' + bs'))
    (hle : bag (recorded L' + bs') ≤ bag (recorded L + bs)) : Accounted s' l' L' bs' :=
  ⟨hl.mono hmem, hL, hN, Multiset.nodup_of_le hle h.once,
    fun h0 => h.null (Multiset.mem_of_le hle h0)⟩

variable {order address : Nat}

theorem Accounted.file (h : Accounted s l L ((order, address) :: bs)) (h9 : order ≤ 9)
    (hroom : 0 < room l) : ∃ s' l' L',
      Settles (fun fuel => addFreeAreaWith (kmalloc fuel) s order address) s' ∧
      Accounted s' l' L' bs ∧ room l' + 1 = room l ∧
      recorded L' + bs = recorded L + ((order, address) :: bs : List (Nat × Nat)) := by
  obtain ⟨s', p, l', hset, hl', -, hr, -, hL, hN, -, -, -⟩ :=
    addFreeArea_settles h.heap h.lists h.nodes h9 address hroom
  have hrec : recorded (update L order (L order ++ [(p, address)])) + bs =
      recorded L + ((order, address) :: bs : List (Nat × Nat)) := by
    rw [recorded_push h9, add_assoc]
    rfl
  exact ⟨s', l', _, hset, h.of_le hl' hL hN (by rw [hrec]; exact fun k hk => hk) (by rw [hrec]),
    hr, hrec⟩

/-- Linking the node that the heap gave after it grew can only lose blocks. -/
theorem Regrown.link {mem : Set Nat} {i : Nat} {x : Nat × Nat} {rest : List (Nat × Nat)} {s₁ : KMem}
    {p : Nat} {l₁ l' : List Seg} {ns : List (Nat × Nat × Nat)}
    (hr : Regrown mem s l L i x rest s₁ p l₁ l' ns) (hlists : ListsAt s L) (h6 : 6 ≤ i)
    (hempty : ∀ o, 6 ≤ o → o < i → L o = []) (hL : L i = x :: rest) (h9 : order ≤ 9) (address : Nat) :
    ∃ s' L', Settles (fun fuel => addFreeAreaWith (kmalloc fuel) s order address) s' ∧
      HeapAt mem s' l' ∧ ListsAt s' L' ∧ NodesIn l' L' ∧
      recorded L' ≤ recorded (fileAll (update L i rest) ns) + {(order, address)} ∧
      ∀ o ≤ 9, ∀ y ∈ L' o, y.1 = p ∨ y ∈ fileAll (update L i rest) ns o := by
  have hf := hr.nodes.fresh hr.served
  by_cases he : L order = []
  · have hhead : s.listHead order = none := by rw [hlists.head order h9, he]; rfl
    refine ⟨linkEmpty s₁ order address p, update (fileAll (update L i rest) ns) order [(p, address)],
      ?_, hr.heap.congr rfl rfl, hr.lists.link_empty order address hf, ?_, ?_, ?_⟩
    · simp only [addFreeAreaWith, hhead]
      exact hr.settles.map _
    · rw [← List.nil_append [(p, address)]]
      exact hr.nodes.push address hr.kept' hr.served (by simp) h9
    · have hup := recorded_update (L := fileAll (update L i rest) ns) [(p, address)] h9
      have hb : blocksOf order [(p, address)] = {(order, address)} := rfl
      rw [hb] at hup
      rw [← hup]
      exact Multiset.le_add_right _ _
    · intro o _ y hy
      by_cases ho : o = order
      · subst ho
        rw [Function.update_self] at hy
        exact .inl (congrArg Prod.fst (List.mem_singleton.mp hy))
      · rw [Function.update_of_ne ho] at hy
        exact .inr hy
  · obtain ⟨pre, t, hpt⟩ : ∃ pre t, L order = pre ++ [t] :=
      ⟨_, _, (List.dropLast_append_getLast he).symm⟩
    obtain ⟨y, hhead⟩ : ∃ y, s.listHead order = some y := by
      rw [hlists.head order h9]
      cases hc : L order with
      | nil => exact absurd hc he
      | cons y ys => exact ⟨y.1, rfl⟩
    have htail : s.listTail order = some t.1 := by
      rw [hlists.tail order h9 he, hpt]
      simp
    have hset : Settles (fun fuel => addFreeAreaWith (kmalloc fuel) s order address)
        (linkTail s₁ order address t.1 p) := by
      simp only [addFreeAreaWith, hhead, htail, Option.bind_some]
      exact hr.settles.map _
    by_cases hcut : order = i ∧ rest = []
    · -- the last node of the list was taken by the heap
      obtain ⟨rfl, rfl⟩ := hcut
      have htx : t = x := by
        rw [hL] at hpt
        rw [← List.nil_append [x]] at hpt
        exact (List.cons.inj (List.append_inj' hpt rfl).2).1.symm
      subst htx
      refine ⟨_, fileAll (update L order []) ns, hset, hr.heap.congr rfl rfl,
        hr.lists.link_cut ?_ hr.off hf, hr.nodes.kept hr.kept', Multiset.le_add_right _ _,
        fun o _ y hy => .inr hy⟩
      rw [(fileAll_grown hr.pieces).mpr (by omega), Function.update_self]
    · obtain ⟨pre', hpt'⟩ := hr.last_kept hL hempty hpt fun he hn => hcut ⟨he, hn⟩
      refine ⟨_, update (fileAll (update L i rest) ns) order
        (fileAll (update L i rest) ns order ++ [(p, address)]), hset, hr.heap.congr rfl rfl,
        hr.lists.link_tail address h9 hpt' hf,
        hr.nodes.push address hr.kept' hr.served (fun x hx => hx) h9, ?_, ?_⟩
      · rw [recorded_push h9]
      · intro o _ y hy
        by_cases ho : o = order
        · subst ho
          rw [Function.update_self] at hy
          rcases List.mem_append.mp hy with hy | hy
          · exact .inr hy
          · exact .inl (congrArg Prod.fst (List.mem_singleton.mp hy))
        · rw [Function.update_of_ne ho] at hy
          exact .inr hy

/-- A full heap that grows: bytes leave the account, whatever becomes of the block. -/
theorem Accounted.grow (h : Accounted s l L ((order, address) :: bs)) (h9 : order ≤ 9)
    (hroom : room l = 0) {i : Nat} (h6 : 6 ≤ i) (hi : i ≤ 9)
    (hempty : ∀ o, 6 ≤ o → o < i → L o = []) (hne : L i ≠ []) : ∃ s' l' L',
      Settles (fun fuel => addFreeAreaWith (kmalloc fuel) s order address) s' ∧
      Accounted s' l' L' bs ∧
      bag (recorded L' + bs) ≤ bag (recorded L + ((order, address) :: bs : List (Nat × Nat))) ∧
      (Paged (recorded L + ((order, address) :: bs : List (Nat × Nat))) →
        Paged (recorded L' + bs)) ∧
      ∃ k ∈ bag (recorded L + ((order, address) :: bs : List (Nat × Nat))),
        k ∉ bag (recorded L' + bs) := by
  obtain ⟨x, rest, hL⟩ := List.exists_cons_of_ne_nil hne
  -- the account, split into what the heap takes and what remains
  have hpop := recorded_pop hi hL
  obtain ⟨rem, hrem⟩ : ∃ rem, rem = recorded (update L i rest) + surplus [(x.2, i)] +
    ((order, address) :: bs : List (Nat × Nat)) := ⟨_, rfl⟩
  have hsplit : bag (recorded L + ((order, address) :: bs : List (Nat × Nat))) =
      Multiset.Ico x.2 (x.2 + 4096 * 2 ^ 6) + bag rem := by
    rw [← hpop, hrem]
    simp only [bag_add, bag_surplus h6]
    ac_rfl
  have honce := h.once
  rw [hsplit, Multiset.nodup_add] at honce
  have hnull := h.null
  rw [hsplit, Multiset.mem_add, not_or] at hnull
  have hle : bag rem ≤ bag (recorded L + ((order, address) :: bs : List (Nat × Nat))) := by
    rw [hsplit]
    exact Multiset.le_add_left _ _
  have hx : x.2 ∈ Multiset.Ico x.2 (x.2 + 4096 * 2 ^ 6) := by simp
  have h0 : x.2 ≠ 0 := fun he => hnull.1 (he ▸ hx)
  have hap : ∀ c ∈ l, Seg.Apart c ⟨x.2, 4096 * 2 ^ 6, false⟩ := by
    intro c hc
    by_contra hno
    have hpos := (h.heap.arena.pos c hc).2.1
    unfold Seg.Apart at hno
    simp only [not_or, not_le] at hno
    have hout := h.heap.arena.within c hc (show max c.addr x.2 ∈ c.bytes from
      ⟨le_max_left _ _, by omega⟩)
    apply hout
    rw [hsplit, Multiset.mem_add]
    exact Or.inl (Multiset.mem_Ico.mpr ⟨le_max_right _ _, by omega⟩)
  obtain ⟨s₁, p, l₁, l', ns, hr⟩ := kmalloc_grows h.heap h.lists h.nodes
    hroom h6 hi hempty hL h0 hap (fun k hk hkr => hk (Multiset.mem_of_le hle hkr))
    (fun k hk hkr => Multiset.disjoint_left.mp honce.2.2 (Multiset.mem_Ico.mpr hk) hkr)
  have hrec : recorded (fileAll (update L i rest) ns) =
      recorded (update L i rest) + surplus [(x.2, i)] := by
    have htaken : taken [(x.2, i)] = {(i, x.2)} := rfl
    rw [(recorded_grown hi hL hr.pieces).2, htaken, ← hpop, Multiset.add_sub_cancel_right]
  obtain ⟨s', L', hset, hheap, hL', hN', hrec', -⟩ := hr.link h.lists h6 hempty hL h9 address
  have hle' : bag (recorded L' + bs) ≤ bag rem := by
    apply bag_mono
    rw [hrem, ← hrec, ← Multiset.cons_coe, ← Multiset.singleton_add, ← add_assoc]
    exact Multiset.add_le_add_right hrec'
  refine ⟨s', l', L', hset, h.of_le hheap hL' hN'
    (fun k hk hkr => hk (Multiset.mem_of_le hle' hkr)) (hle'.trans hle), hle'.trans hle,
    fun hp => ?_, x.2, ?_, ?_⟩
  · rw [← hpop] at hp
    have hx : 4096 ∣ x.2 := hp (i, x.2) (by simp)
    refine Paged.mono ?_ (Multiset.add_le_add_right hrec')
    rw [hrec]
    have hold : Paged (recorded (update L i rest)) := fun b hb => hp b (by simp [hb])
    have hnew : Paged ({(order, address)} + (bs : Multiset (Nat × Nat))) := by
      intro b hb
      refine hp b ?_
      rw [← Multiset.cons_coe, ← Multiset.singleton_add]
      exact Multiset.mem_add.mpr (.inr hb)
    rw [add_assoc]
    exact (hold.add (paged_surplus hx)).add hnew
  · rw [hsplit, Multiset.mem_add]
    exact Or.inl hx
  · exact fun hk => Multiset.disjoint_left.mp honce.2.2 hx (Multiset.mem_of_le hle' hk)

/-- Without room for all nodes some byte of the account ends on no list. -/
theorem addAll_account {fuel : Nat} {s' : KMem} (h : Accounted s l L bs) (h9 : ∀ b ∈ bs, b.1 ≤ 9)
    (hs : addAll (kmalloc fuel) s bs = some s') : ∃ l' L', Accounted s' l' L' [] ∧
      bag (recorded L') ≤ bag (recorded L + bs) ∧
      (Paged (recorded L + bs) → Paged (recorded L')) ∧
      (room l < bs.length → ∃ k ∈ bag (recorded L + bs), k ∉ bag (recorded L')) := by
  induction bs generalizing s l L with
  | nil =>
    obtain rfl : s = s' := by simpa [addAll] using hs
    exact ⟨l, L, h, by simp, by simp, by simp⟩
  | cons b bs ih =>
    obtain ⟨order, address⟩ := b
    rw [addAll] at hs
    obtain ⟨t, ht, hs⟩ := Option.bind_eq_some_iff.mp hs
    have ho := h9 (order, address) (by simp)
    have hbs : ∀ b ∈ bs, b.1 ≤ 9 := fun b hb => h9 b (by simp [hb])
    by_cases hroom : 0 < room l
    · obtain ⟨s₁, l₁, L₁, hset, h₁, hr, hrec⟩ := h.file ho hroom
      obtain rfl := hset.unique fuel t ht
      obtain ⟨l', L', hok, hle, hpaged, hlost⟩ := ih h₁ hbs hs
      rw [hrec] at hle hlost hpaged
      exact ⟨l', L', hok, hle, hpaged, fun hlt => hlost (by rw [List.length_cons] at hlt; omega)⟩
    · have hroom0 : room l = 0 := by omega
      by_cases hany : ∃ i, 6 ≤ i ∧ i ≤ 9 ∧ L i ≠ []
      · obtain ⟨i, h6, hi, hne, hmin⟩ := exists_least hany
        obtain ⟨s₁, l₁, L₁, hset, h₁, hle₁, hp₁, k, hk, hk₁⟩ := h.grow ho hroom0 h6 hi hmin hne
        obtain rfl := hset.unique fuel t ht
        obtain ⟨l', L', hok, hle, hpaged, -⟩ := ih h₁ hbs hs
        exact ⟨l', L', hok, hle.trans hle₁, fun hp => hpaged (hp₁ hp),
          fun _ => ⟨k, hk, fun hk' => hk₁ (Multiset.mem_of_le hle hk')⟩⟩
      · have hk : kmalloc fuel s 16 = none :=
          kmalloc_diverges h.heap hroom0 (h.lists.no_heads hany) 16 fuel
        unfold addFreeAreaWith at ht
        split at ht <;> simp [hk] at ht

end TayHuang
