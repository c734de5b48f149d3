import TayHuang.UserHeapSteps
import Mathlib.Logic.Relation

/-! Whole runs of a module's heap. A chunk that is split grows by 16 bytes at its
end; nothing else goes wrong. -/

namespace TayHuang

open LinkedCells

inductive UserOp
  | malloc (n : Nat)
  | free (b : Nat × Nat)

/-- One call, next to the live pointers with the sizes they were asked for. -/
inductive UserStep : UserOp → UHeap × List (Nat × Nat) → UHeap × List (Nat × Nat) → Prop
  | malloc {s s' : UHeap} {live : List (Nat × Nat)} {fuel n p : Nat} (h0 : 0 < n)
      (h31 : n < 2 ^ 31) (h : malloc fuel s n = some (s', p)) :
      UserStep (.malloc n) (s, live) (s', if p = 0 then live else (p, n) :: live)
  | free {s s' : UHeap} {live : List (Nat × Nat)} {fuel : Nat} {b : Nat × Nat} (hb : b ∈ live)
      (h : free fuel s b.1 = some s') : UserStep (.free b) (s, live) (s', live.erase b)

def UserOp.Fits (fin : Nat) (a : UHeap × List (Nat × Nat)) : UserOp → Prop
  | .malloc n => ∀ fl, FreeList a.1 fl →
      SplitFits fin fl (a.2.map (chunkOf a.1.chunk)) (fixedSize n)
  | .free _ => True

/-- Integrity of the heap, with the free chunks `fl` in list order. -/
structure UHeapOk (start fin : Nat) (s : UHeap) (live : List (Nat × Nat)) (fl : List Seg) :
    Prop where
  list : FreeList s fl
  apart : (fl ++ live.map (chunkOf s.chunk)).Pairwise fun x y => Disjoint x.span y.span
  inside : ∀ x ∈ fl ++ live.map (chunkOf s.chunk), x.span ⊆ Set.Ico start fin
  served : ∀ b ∈ live, b.1 = (chunkOf s.chunk b).addr + 16 ∧
    Set.Ico b.1 (b.1 + b.2) ⊆ (chunkOf s.chunk b).span

variable {start fin : Nat} {s s' : UHeap} {live : List (Nat × Nat)} {fl : List Seg}

/-- The one chunk of a heap after `init_heap`. -/
def wholeChunk (start fin : Nat) : Seg := ⟨start + 16, asSize (asInt (fin - start) - 16), false⟩

theorem freeList_whole (m : Nat → Chunk) (start fin : Nat) :
    FreeList (initHeap m start fin) [wholeChunk start fin] := by
  have hsent : asSize (-1) = 2 ^ 63 - 1 := by decide
  refine ⟨?_, ?_, trivial⟩
  · simp [initHeap, wholeChunk, sentinel, chunkCell, hsent]
  · simp [initHeap, wholeChunk, chunkCell]

theorem initHeap_kept (m : Nat → Chunk) (h32 : start + 32 ≤ fin)
    (hsize : asSize (asInt (fin - start) - 16) + 16 ≤ fin - start) :
    UHeapKept start fin (initHeap m start fin) [] [wholeChunk start fin] := by
  refine ⟨rfl, ⟨freeList_whole m start fin, ?_, ?_, ?_⟩, by simp⟩
  · simp [sentinel, wholeChunk]
  · simp
  · intro x hx
    obtain rfl : x = _ := by simpa using hx
    simp only [wholeChunk]
    omega

theorem UHeapKept.ok (h : UHeapKept start fin s live fl) : UHeapOk start fin s live fl := by
  refine ⟨?_, h.chunks.packed.apart.imp Seg.spaced_iff_disjoint.mp, ?_, ?_⟩
  · rw [FreeList, h.heap]
    exact h.chunks.chained
  · intro x hx k hk
    have := h.chunks.packed.inside x hx
    have h1 := hk.1
    have h2 := hk.2
    exact ⟨by omega, by omega⟩
  · intro b hb
    obtain ⟨h1, h2⟩ := h.served b hb
    refine ⟨by simp only [chunkOf]; omega, fun k hk => ?_⟩
    have h3 := hk.1
    have h4 := hk.2
    simp only [chunkOf] at h2
    exact ⟨by simp only [chunkOf]; omega, by simp only [chunkOf]; omega⟩

theorem UserStep.kept {op : UserOp} {a b : UHeap × List (Nat × Nat)} (hs : UserStep op a b)
    (hfits : op.Fits fin a) (hfin : fin ≤ 2 ^ 47) (h : ∃ fl, UHeapKept start fin a.1 a.2 fl) :
    ∃ fl, UHeapKept start fin b.1 b.2 fl := by
  obtain ⟨fl, hk⟩ := h
  cases hs with
  | @malloc s s' live fuel n p h0 h31 hm =>
    rcases malloc_spec hk hfin h0 h31 (hfits fl hk.ok.list) hm with ⟨rfl, rfl⟩ | ⟨fl', -, hp, -, -, h⟩
    · exact ⟨fl, by simpa using hk⟩
    · exact ⟨fl', by simpa [hp] using h⟩
  | free hb hf =>
    obtain ⟨-, -, -, -, fl', -, -, -, -, -, h⟩ := free_spec hk hfin hb hf
    exact ⟨fl', h⟩

abbrev FittingRun (fin : Nat) :=
  Relation.ReflTransGen fun a b => ∃ op, UserStep op a b ∧ op.Fits fin a

/-- The heap stays intact in every run in which the chunks that are split have 16
unused bytes behind them. -/
theorem uheap_integrity {m : Nat → Chunk} (h32 : start + 32 ≤ fin) (hfin : fin ≤ 2 ^ 47)
    (hsize : asSize (asInt (fin - start) - 16) + 16 ≤ fin - start)
    (hrun : FittingRun fin (initHeap m start fin, []) (s, live)) :
    ∃ fl, UHeapOk start fin s live fl := by
  have hkept : ∀ b, FittingRun fin (initHeap m start fin, []) b →
      ∃ fl, UHeapKept start fin b.1 b.2 fl := by
    intro b hb
    induction hb with
    | refl => exact ⟨_, initHeap_kept m h32 hsize⟩
    | tail _ hs ih =>
      obtain ⟨op, hop, hfits⟩ := hs
      exact hop.kept hfits hfin ih
  obtain ⟨fl, h⟩ := hkept _ hrun
  exact ⟨fl, h.ok⟩

/-- Memory full of zeros. -/
def zeroChunks (_ : Nat) : Chunk := ⟨0, false, none⟩

theorem FreeList.unique {fl' : List Seg} (h : FreeList s fl) (h' : FreeList s fl') : fl = fl' := by
  refine (List.cons.inj (Chained.unique h h' rfl ?_)).2
  intro x y n n' hxy hc
  obtain ⟨h1, h2, h3⟩ := Chunk.mk.inj hc
  exact ⟨by cases x; cases y; simp_all, h3⟩

/-- A heap of 144 bytes gives all of them to one request for 100. -/
theorem uheap_integrity_whole : ∃ s live fl, live.length = 1 ∧ UHeapOk 0x1000 0x1090 s live fl := by
  have h : ((malloc 3 (initHeap zeroChunks 0x1000 0x1090) (100 : Nat)).map fun r => r.2) =
      some 0x1020 := by decide +kernel
  obtain ⟨⟨s, p⟩, hm, hp⟩ := Option.map_eq_some_iff.mp h
  have hrun : FittingRun 0x1090 (initHeap zeroChunks 0x1000 0x1090, [])
      (s, if p = 0 then [] else [(p, 100)]) := by
    refine Relation.ReflTransGen.single ⟨.malloc 100, .malloc (by decide) (by decide) hm, ?_⟩
    intro fl hfl p c post hl _ _ hdiv
    have hc : c ∈ [wholeChunk 0x1000 0x1090] := by
      rw [← hfl.unique (freeList_whole zeroChunks 0x1000 0x1090), hl]
      simp
    rw [List.mem_singleton.mp hc] at hdiv
    exact absurd hdiv (by decide)
  obtain ⟨fl, hok⟩ := uheap_integrity (by decide) (by decide) (by decide) hrun
  exact ⟨s, _, fl, by simp [show p = 0x1020 from hp], hok⟩

/-- In a heap of 256 bytes the first split leaves a free chunk that ends 16 bytes
behind the end of the heap. -/
theorem uheap_leaves_range : ¬ ∀ (m : Nat → Chunk) (start fin : Nat) (s : UHeap)
    (live : List (Nat × Nat)), 16 ∣ start → 16 ∣ fin → start + 32 ≤ fin → fin ≤ 2 ^ 47 →
      Relation.ReflTransGen (fun a b => ∃ op, UserStep op a b) (initHeap m start fin, []) (s, live) →
      ∃ fl, UHeapOk start fin s live fl := by
  intro hall
  have h : ((malloc 3 (initHeap zeroChunks 0x1000 0x1100) (1 : Nat)).map
      fun r => (r.1.heap, (r.1.chunk 0x1000).next, r.1.chunk 0x1040)) =
      some (0x1000, some 0x1040, ⟨208, false, none⟩) := by decide +kernel
  obtain ⟨⟨s, p⟩, hm, hp⟩ := Option.map_eq_some_iff.mp h
  simp only [Prod.mk.injEq] at hp
  obtain ⟨hheap, hnext, hcell⟩ := hp
  obtain ⟨fl, hok⟩ := hall zeroChunks 0x1000 0x1100 s _ (by decide) (by decide) (by decide)
    (by decide) (Relation.ReflTransGen.single ⟨.malloc 1, .malloc (by decide) (by decide) hm⟩)
  have hlist := hok.list
  rw [FreeList, hheap] at hlist
  have hs : s.chunk 0x1000 = chunkCell (sentinel 0x1000) (entry Seg.addr fl none) := hlist.1
  rw [hs] at hnext
  cases fl with
  | nil => simp [chunkCell] at hnext
  | cons x fl =>
    have hx : x.addr = 0x1040 := by simpa [chunkCell] using hnext
    have hxc := hlist.2.1
    rw [hx, hcell] at hxc
    have hsz : 208 = x.size := (Chunk.mk.inj hxc).1
    have hin := hok.inside x (by simp) (show x.addr + 207 ∈ x.span from ⟨by omega, by omega⟩)
    have := hin.2
    omega

end TayHuang
