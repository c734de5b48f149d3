import TayHuang.LoaderHeap
import TayHuang.Runs
import Mathlib.Data.List.Perm.Basic

/-! Runs of `lmalloc` and `lfree`: what is handed out, and where. -/

namespace TayHuang

open Fuel Runs

/-- A block that `lmalloc` returned, with the size that was asked for. -/
structure LBlock where
  start : Nat
  size : Nat
  deriving DecidableEq, Repr

def LBlock.seg (b : LBlock) : LhSeg := ⟨b.start, b.start + b.size - 1⟩

/-- A call of `lmalloc` with what it returned, or of `lfree`. -/
inductive LHeapCall
  | lmalloc (size p : Nat)
  | lfree (b : LBlock)

/-- A call on a heap with its live blocks; only these are freed. -/
def lheapStep (s : LHeap × List LBlock) : LHeapCall → LHeap × List LBlock → Prop
  | .lmalloc n p, s' => 1 ≤ n ∧ n < 2 ^ 31 ∧ ∃ h, Settles (fun fuel => lmalloc fuel s.1 n) (h, p) ∧
    s' = (h, if p = 0 then s.2 else ⟨p, n⟩ :: s.2)
  | .lfree b, s' => b ∈ s.2 ∧ s' = (lfree s.1 b.start, s.2.erase b)

def LHeapStart (s : LHeap × List LBlock) : Prop := s = (initLheap 0x800000, [])

abbrev LHeapRun : List LHeapCall → LHeap × List LBlock → Prop := Run LHeapStart lheapStep

variable {es : List LHeapCall} {s s' : LHeap × List LBlock} {n : Nat}

theorem lheapStep_valid {c : LHeapCall} (hv : s.1.Valid) (h : lheapStep s c s') : s'.1.Valid := by
  cases c with
  | lmalloc n p =>
    obtain ⟨hn, hn', h', hset, rfl⟩ := h
    obtain ⟨h2, p2, hset2, hv2, -⟩ := lmalloc_settles hv hn hn'
    obtain ⟨rfl, rfl⟩ := Prod.mk.inj (hset.eq hset2)
    exact hv2
  | lfree b =>
    obtain ⟨-, rfl⟩ := h
    exact lfree_valid hv b.start

theorem LHeapRun.valid (h : LHeapRun es s) : s.1.Valid :=
  Run.invariant h (fun _ hs => hs ▸ initLheap_valid) fun _ _ _ _ hv hstep => lheapStep_valid hv hstep

/-! ### First fit -/

/-- `n` bytes from `q` on are free below the top. -/
def FreeAt (s : LHeap × List LBlock) (n q : Nat) : Prop :=
  s.1.bottom ≤ q ∧ q < s.1.top ∧ ∀ b ∈ s.2, q + n ≤ b.start ∨ b.start + b.size ≤ q

/-- Blocks of two bytes at least, and less of them than the table has items. -/
def SmallRun (s : LHeap × List LBlock) : LHeapCall → Prop
  | .lmalloc n _ => 2 ≤ n ∧ s.2.length < 8192
  | .lfree _ => True

/-- The items in use are the live blocks, in some order. -/
structure LHeapHolds (s : LHeap × List LBlock) : Prop where
  valid : s.1.Valid
  length : s.1.segments.length = 8192
  perm : (s.1.segments.filter (· ≠ .free)).Perm (s.2.map LBlock.seg)
  block : ∀ b ∈ s.2, 0 < b.start ∧ 2 ≤ b.size

theorem LHeapHolds.mem_iff (h : LHeapHolds s) {t : LhSeg} :
    (t ∈ s.1.segments ∧ t ≠ .free) ↔ ∃ b ∈ s.2, b.seg = t := by
  rw [← List.mem_map, ← h.perm.mem_iff, List.mem_filter, decide_eq_true_eq]

theorem LHeapHolds.clear_iff (h : LHeapHolds s) {q : Nat} :
    s.1.Clear q n ↔ ∀ b ∈ s.2, q + n ≤ b.start ∨ b.start + b.size ≤ q := by
  constructor
  · intro hclear b hb
    obtain ⟨hpos, hsize⟩ := h.block b hb
    obtain ⟨hmem, -⟩ := h.mem_iff.mpr ⟨b, hb, rfl⟩
    have hvis : b.seg.Visible := by
      show b.start < b.start + b.size - 1
      omega
    have hbytes : q + n ≤ b.start ∨ b.start + b.size - 1 < q := hclear b.seg hmem hvis
    omega
  · intro hfree t ht hvis
    have hne : t ≠ .free := by
      rintro rfl
      exact absurd hvis (by decide)
    obtain ⟨b, hb, rfl⟩ := h.mem_iff.mp ⟨ht, hne⟩
    obtain ⟨hpos, hsize⟩ := h.block b hb
    have hbytes := hfree b hb
    show q + n ≤ b.start ∨ b.start + b.size - 1 < q
    omega

theorem LHeapHolds.disjoint (h : LHeapHolds s) :
    s.2.Pairwise fun a b => a.start + a.size ≤ b.start ∨ b.start + b.size ≤ a.start := by
  have hseg : (s.2.map LBlock.seg).Pairwise LhSeg.Apart :=
    (h.perm.pairwise_iff fun hab => Std.Symm.symm _ _ hab).mp (h.valid.apart.sublist List.filter_sublist)
  rw [List.pairwise_map] at hseg
  refine hseg.imp_of_mem fun {a b} ha hb hab => ?_
  obtain ⟨ha0, ha2⟩ := h.block a ha
  obtain ⟨hb0, hb2⟩ := h.block b hb
  have hapart : a.start + a.size - 1 < b.start ∨ b.start + b.size - 1 < a.start :=
    hab (by show a.start < a.start + a.size - 1; omega) (by show b.start < b.start + b.size - 1; omega)
  omega

theorem LHeapHolds.free_mem (h : LHeapHolds s) (hlen : s.2.length < 8192) : LhSeg.free ∈ s.1.segments := by
  by_contra hno
  have hall : s.1.segments.filter (· ≠ .free) = s.1.segments :=
    List.filter_eq_self.mpr fun t ht => decide_eq_true fun he => hno (he ▸ ht)
  have hperm := h.perm.length_eq
  rw [hall, h.length, List.length_map] at hperm
  omega

/-- What `lmalloc` returns, and that the table goes on holding the live blocks. -/
theorem LHeapHolds.lmalloc (h : LHeapHolds s) (hn : 2 ≤ n) (hn' : n < 2 ^ 31) (hlen : s.2.length < 8192) :
    ∃ h' p, Settles (fun fuel => lmalloc fuel s.1 n) (h', p) ∧
      ((p = 0 ∧ ∀ q, ¬ FreeAt s n q) ∨ p ≠ 0 ∧ FreeAt s n p ∧ ∀ q, FreeAt s n q → p ≤ q) ∧
      LHeapHolds (h', if p = 0 then s.2 else ⟨p, n⟩ :: s.2) := by
  obtain ⟨h', p, hset, hv, hp⟩ := lmalloc_settles h.valid (by omega : 1 ≤ n) hn'
  refine ⟨h', p, hset, ?_⟩
  rcases hp with ⟨rfl, rfl, hnone | hfull⟩ | ⟨hp0, ⟨hle, hlt, hclear, hfirst⟩, before, after, hl, rfl⟩
  · exact ⟨Or.inl ⟨rfl, fun q hq => hnone q hq.1 hq.2.1 (h.clear_iff.mpr hq.2.2)⟩, h⟩
  · exact absurd (h.free_mem hlen) hfull
  · refine ⟨Or.inr ⟨hp0, ⟨hle, hlt, h.clear_iff.mp hclear⟩, fun q hq => ?_⟩, ?_⟩
    · exact hfirst q hq.1 (h.clear_iff.mpr hq.2.2)
    rw [if_neg hp0]
    obtain ⟨-, hlength, hperm, hblock⟩ := h
    rw [hl] at hlength hperm
    have hne : (⟨p, p + n - 1⟩ : LhSeg) ≠ .free := fun he => hp0 (congrArg LhSeg.start he)
    refine ⟨hv, by simpa using hlength, ?_, fun b hb => ?_⟩
    · simp only [List.filter_append, List.filter_cons, ne_eq, not_true_eq_false, decide_false,
        Bool.false_eq_true, if_false] at hperm
      simp only [List.filter_append, List.filter_cons, decide_eq_true hne, if_true, List.map_cons]
      exact List.perm_middle.trans (hperm.cons _)
    · rcases List.mem_cons.mp hb with rfl | hb
      · exact ⟨Nat.pos_of_ne_zero hp0, hn⟩
      · exact hblock b hb

theorem LHeapHolds.lfree (h : LHeapHolds s) {b : LBlock} (hb : b ∈ s.2) :
    LHeapHolds (lfree s.1 b.start, s.2.erase b) := by
  have hv := lfree_valid h.valid b.start
  obtain ⟨hpos, hsize⟩ := h.block b hb
  obtain ⟨hmem, hfree⟩ := h.mem_iff.mpr ⟨b, hb, rfl⟩
  rcases deleteLhSeg_split s.1 b.start with ⟨-, hno⟩ | ⟨before, t, after, hl, ht, he⟩
  · exact absurd rfl (hno b.seg hmem)
  · have htmem : t ∈ s.1.segments := by
      rw [hl]
      exact List.mem_append_right _ (List.mem_cons_self ..)
    have htne : t ≠ .free := by
      rintro rfl
      exact absurd ht (Nat.ne_of_lt hpos)
    -- two live blocks with one start would overlap
    have htb : b.seg = t := by
      obtain ⟨c, hc, rfl⟩ := h.mem_iff.mp ⟨htmem, htne⟩
      obtain ⟨-, hcsize⟩ := h.block c hc
      have hstart : c.start = b.start := ht
      by_contra hne
      have hapart : b.start + b.size - 1 < c.start ∨ c.start + c.size - 1 < b.start :=
        h.valid.apart.forall hmem htmem hne (by show b.start < b.start + b.size - 1; omega)
          (by show c.start < c.start + c.size - 1; omega)
      omega
    subst htb
    obtain ⟨-, hlength, hperm, hblock⟩ := h
    rw [hl] at hlength hperm
    have hlive : (s.2.map LBlock.seg).Perm (b.seg :: (s.2.erase b).map LBlock.seg) :=
      (List.perm_cons_erase hb).map _
    simp only [List.filter_append, List.filter_cons, decide_eq_true hfree, if_true] at hperm
    have hrest := (List.perm_middle.symm.trans (hperm.trans hlive)).cons_inv
    rw [show TayHuang.lfree s.1 b.start = _ from he] at hv ⊢
    refine ⟨hv, by simpa using hlength, ?_, fun c hc => hblock c (List.mem_of_mem_erase hc)⟩
    simpa only [List.filter_append, List.filter_cons, ne_eq, not_true_eq_false, decide_false,
      Bool.false_eq_true, if_false] using hrest

theorem initLheap_holds : LHeapHolds (initLheap 0x800000, []) where
  valid := initLheap_valid
  length := List.length_replicate
  perm := by
    rw [List.filter_eq_nil_iff.mpr fun t ht => by simp [List.eq_of_mem_replicate ht]]
    exact List.Perm.nil
  block b hb := absurd hb List.not_mem_nil

theorem holds_of_run (h : Run LHeapStart (Guarded SmallRun lheapStep) es s) : LHeapHolds s := by
  refine Run.invariant (I := fun _ => LHeapHolds) h (fun s hs => hs ▸ initLheap_holds) fun _ s c s' hs hstep => ?_
  obtain ⟨hsmall, hstep⟩ := hstep
  cases c with
  | lmalloc n p =>
    obtain ⟨-, hn', h', hset, rfl⟩ := hstep
    obtain ⟨h2, p2, hset2, -, hs2⟩ := hs.lmalloc hsmall.1 hn' hsmall.2
    obtain ⟨rfl, rfl⟩ := Prod.mk.inj (hset.eq hset2)
    exact hs2
  | lfree b =>
    obtain ⟨hb, rfl⟩ := hstep
    exact hs.lfree hb

/-- In every run live blocks are disjoint, and `lmalloc` finds the lowest free address. -/
theorem lheap_first_fit (h : Run LHeapStart (Guarded SmallRun lheapStep) es s) :
    (s.2.Pairwise fun a b => a.start + a.size ≤ b.start ∨ b.start + b.size ≤ a.start) ∧
    ∀ n : Nat, 2 ≤ n → n < 2 ^ 31 → s.2.length < 8192 →
      ∃ h' p, Settles (fun fuel => lmalloc fuel s.1 n) (h', p) ∧
        ((p = 0 ∧ ∀ q, ¬ FreeAt s n q) ∨ p ≠ 0 ∧ FreeAt s n p ∧ ∀ q, FreeAt s n q → p ≤ q) := by
  have hs := holds_of_run h
  refine ⟨hs.disjoint, fun n hn hn' hlen => ?_⟩
  obtain ⟨h', p, hset, hp, -⟩ := hs.lmalloc hn hn' hlen
  exact ⟨h', p, hset, hp⟩

/-- The first block of a fresh heap. -/
theorem lmalloc_fresh (hn : 1 ≤ n) (hn' : n < 2 ^ 31) :
    ∃ h', Settles (fun fuel => lmalloc fuel (initLheap 0x800000) n) (h', lheapBase) := by
  have hclear : (initLheap 0x800000).Clear lheapBase n := fun t ht hvis => by
    rw [List.eq_of_mem_replicate ht] at hvis
    exact absurd hvis (by decide)
  obtain ⟨h', p, hset, -, hp⟩ := lmalloc_settles initLheap_valid hn hn'
  rcases hp with ⟨-, -, hnone | hfull⟩ | ⟨-, ⟨hle, -, -, hfirst⟩, -⟩
  · exact absurd hclear (hnone _ (Nat.le_refl _) (by decide))
  · exact absurd (List.mem_replicate.mpr ⟨by decide, rfl⟩) hfull
  · have hp : p = lheapBase := Nat.le_antisymm (hfirst _ (Nat.le_refl _) hclear) hle
    exact ⟨h', hp ▸ hset⟩

theorem lheap_first_fit_two : ∃ s : LHeap × List LBlock, s.2 = [⟨lheapBase, 512⟩] ∧
    (s.2.Pairwise fun a b => a.start + a.size ≤ b.start ∨ b.start + b.size ≤ a.start) ∧
    ∀ n : Nat, 2 ≤ n → n < 2 ^ 31 → s.2.length < 8192 →
      ∃ h' p, Settles (fun fuel => lmalloc fuel s.1 n) (h', p) ∧
        ((p = 0 ∧ ∀ q, ¬ FreeAt s n q) ∨ p ≠ 0 ∧ FreeAt s n p ∧ ∀ q, FreeAt s n q → p ≤ q) := by
  obtain ⟨h', hset⟩ := lmalloc_fresh (n := 512) (by decide) (by decide)
  have hrun : Run LHeapStart (Guarded SmallRun lheapStep) ([] ++ [.lmalloc 512 lheapBase])
      (h', [⟨lheapBase, 512⟩]) :=
    .snoc (.start rfl) ⟨⟨by decide, by decide⟩, by decide, by decide, h', hset, by simp [lheapBase]⟩
  exact ⟨_, rfl, lheap_first_fit hrun⟩

/-! ### The arena -/

/-- There is room for `n` bytes in the arena, or `lmalloc` returns `NULL`: no address
below the top is clear, or the table is full. -/
def LHeap.Room (h : LHeap) (n : Nat) : Prop :=
  (∃ q, h.bottom ≤ q ∧ q + n ≤ h.top ∧ h.Clear q n) ∨
    (∀ q, h.bottom ≤ q → q < h.top → ¬ h.Clear q n) ∨ LhSeg.free ∉ h.segments

def HasRoom (s : LHeap × List LBlock) : LHeapCall → Prop
  | .lmalloc n _ => s.1.Room n
  | .lfree _ => True

theorem lmalloc_arena {h h' : LHeap} {p : Nat} (hv : h.Valid) (hn : 1 ≤ n) (hn' : n < 2 ^ 31)
    (hset : Settles (fun fuel => lmalloc fuel h n) (h', p)) :
    (p ≠ 0 → h.bottom ≤ p ∧ p + n ≤ h.top) ↔ h.Room n := by
  obtain ⟨h2, p2, hset2, -, hp⟩ := lmalloc_settles hv hn hn'
  obtain ⟨rfl, rfl⟩ := Prod.mk.inj (hset.eq hset2)
  rcases hp with ⟨rfl, -, hnull⟩ | ⟨hp0, ⟨hle, hlt, hclear, hfirst⟩, before, after, hl, -⟩
  · exact ⟨fun _ => Or.inr hnull, fun _ hne => absurd rfl hne⟩
  · constructor
    · intro hin
      exact Or.inl ⟨p, hle, (hin hp0).2, hclear⟩
    · rintro (⟨q, hq, htop, hq'⟩ | hnone | hfull) _
      · have := hfirst q hq hq'
        omega
      · exact absurd hclear (hnone p hle hlt)
      · exact absurd (hl ▸ List.mem_append_right _ (List.mem_cons_self ..)) hfull

/-- Every block of a run lies in the arena exactly when there was room at each call. -/
theorem lheap_in_arena (h : LHeapRun es s) :
    (∀ n p, .lmalloc n p ∈ es → p ≠ 0 → lheapBase ≤ p ∧ p + n ≤ 0x29F0000) ↔
      Run LHeapStart (Guarded HasRoom lheapStep) es s := by
  constructor
  · intro hin
    induction h with
    | start hs => exact .start hs
    | @snoc es s s' c run hstep ih =>
      refine .snoc (ih fun n p hmem => hin n p (List.mem_append_left _ hmem)) ⟨?_, hstep⟩
      cases c with
      | lfree b => trivial
      | lmalloc n p =>
        have hv := LHeapRun.valid run
        obtain ⟨hn, hn', h', hset, -⟩ := hstep
        refine (lmalloc_arena hv hn hn' hset).mp ?_
        rw [hv.bottom, hv.top]
        exact hin n p (List.mem_append_right _ (List.mem_cons_self ..))
  · intro hroom
    clear h
    induction hroom with
    | start hs => simp
    | @snoc es s s' c run hstep ih =>
      intro n p hmem hp0
      rcases List.mem_append.mp hmem with hmem | hmem
      · exact ih n p hmem hp0
      · obtain rfl := List.mem_singleton.mp hmem
        have hv := LHeapRun.valid run.unguarded
        obtain ⟨hfits, hn, hn', h', hset, -⟩ := hstep
        have harena := (lmalloc_arena hv hn hn' hset).mpr hfits hp0
        rwa [hv.bottom, hv.top] at harena

theorem lheap_run_one (hn : 1 ≤ n) (hn' : n < 2 ^ 31) :
    ∃ s, LHeapRun ([] ++ [.lmalloc n lheapBase]) s := by
  obtain ⟨h', hset⟩ := lmalloc_fresh hn hn'
  exact ⟨_, .snoc (.start rfl) ⟨hn, hn', h', hset, rfl⟩⟩

theorem lheap_in_arena_sector : ∃ s,
    (∀ n p, LHeapCall.lmalloc n p ∈ [LHeapCall.lmalloc 512 lheapBase] → p ≠ 0 →
      lheapBase ≤ p ∧ p + n ≤ 0x29F0000) ↔
      Run LHeapStart (Guarded HasRoom lheapStep) [.lmalloc 512 lheapBase] s := by
  obtain ⟨s, hrun⟩ := lheap_run_one (n := 512) (by decide) (by decide)
  exact ⟨s, lheap_in_arena hrun⟩

/-- One byte more than the arena has is handed out at its bottom. -/
theorem lheap_off_arena : ∃ es s, LHeapRun es s ∧
    ∃ n p, .lmalloc n p ∈ es ∧ p ≠ 0 ∧ ¬ p + n ≤ 0x29F0000 := by
  obtain ⟨s, hrun⟩ := lheap_run_one (n := 0x7F0001) (by decide) (by decide)
  exact ⟨_, s, hrun, _, _, List.mem_singleton_self _, by decide, by decide⟩

end TayHuang
