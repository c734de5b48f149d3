import TayHuang.Fuel
import TayHuang.UserMalloc
import Mathlib.Data.List.Pairwise

/-! The heap of the loader, lheap.c: a table of segments behind the memory that is
handed out. Pointers have 32 bits, and 0 is `NULL`. -/

namespace TayHuang

open Fuel

/-- `lh_seg`; `size` is the last byte of the segment, and both are 0 in a free item. -/
structure LhSeg where
  start : Nat
  size : Nat
  deriving DecidableEq, Repr

def LhSeg.free : LhSeg := ⟨0, 0⟩

/-- `LHEAP_SEGMENTS`, `LHEAP_TOP` and `LHEAP_BOTTOM`. -/
structure LHeap where
  segments : List LhSeg
  top : Nat
  bottom : Nat

def lheapBase : Nat := 0x2200000

/-- `init_lheap`; an `lh_seg` has eight bytes. -/
def initLheap (lheapSize : Nat) : LHeap where
  segments := List.replicate 8192 .free
  top := asDword (lheapBase + lheapSize - 8 * 8192)
  bottom := lheapBase

/-- `__get_segment_size`. -/
def getSegmentSize (h : LHeap) (base : Nat) (size : Int) : Nat :=
  match h.segments.find? fun s => max s.start base < min s.size (asDword (base + size)) with
  | some s => s.size
  | none => 0

/-- `__lookup_free_mem`, from `i` on. -/
def lookupFreeMem (h : LHeap) (size : Int) : Nat → Nat → Option Nat
  | 0, _ => none
  | fuel + 1, i =>
    if i < h.top then
      let sz := getSegmentSize h i size
      if sz = 0 then some i else lookupFreeMem h size fuel (asDword (sz + 1))
    else some 0

/-- `__lookup_free_lh_seg`. -/
def lookupFreeLhSeg (h : LHeap) : Option Nat := h.segments.findIdx? (· = .free)

/-- `__insert_lh_seg`. -/
def insertLhSeg (h : LHeap) (start size : Nat) : LHeap × Bool :=
  match lookupFreeLhSeg h with
  | none => (h, false)
  | some idx => ({ h with segments := h.segments.set idx ⟨start, size⟩ }, true)

/-- `__delete_lh_seg`. -/
def deleteLhSeg (h : LHeap) (start : Nat) : LHeap :=
  match h.segments.findIdx? fun s => s.start = start with
  | none => h
  | some idx => { h with segments := h.segments.set idx .free }

def lmalloc (fuel : Nat) (h : LHeap) (size : Int) : Option (LHeap × Nat) :=
  (lookupFreeMem h size fuel h.bottom).map fun mem =>
    if mem = 0 then (h, 0)
    else
      let r := insertLhSeg h mem (asDword (mem + size - 1))
      if r.2 then (r.1, mem) else (r.1, 0)

def lfree (h : LHeap) (ptr : Nat) : LHeap := deleteLhSeg h ptr

/-! ### Segments -/

/-- A segment that the search can see: it has two bytes at least. -/
def LhSeg.Visible (s : LhSeg) : Prop := s.start < s.size

instance : DecidablePred LhSeg.Visible := fun s => inferInstanceAs (Decidable (s.start < s.size))

/-- Two segments without a byte in common, if both are visible. -/
def LhSeg.Apart (s t : LhSeg) : Prop := s.Visible → t.Visible → s.size < t.start ∨ t.size < s.start

instance : Std.Symm LhSeg.Apart := ⟨fun _ _ h ht hs => (h hs ht).symm⟩

/-- What the table always holds: visible segments do not overlap. -/
structure LHeap.Valid (h : LHeap) : Prop where
  top : h.top = 0x29F0000
  bottom : h.bottom = lheapBase
  item : ∀ s ∈ h.segments, s = .free ∨ lheapBase ≤ s.start ∧ s.start ≤ s.size ∧ s.size < 2 ^ 32 - 1
  apart : h.segments.Pairwise LhSeg.Apart

/-- The `n` bytes from `q` on avoid every visible segment. -/
def LHeap.Clear (h : LHeap) (q n : Nat) : Prop :=
  ∀ s ∈ h.segments, s.Visible → q + n ≤ s.start ∨ s.size < q

/-- `p` is the lowest address below the top at which `n` bytes are clear. -/
def FirstClear (h : LHeap) (n p : Nat) : Prop :=
  h.bottom ≤ p ∧ p < h.top ∧ h.Clear p n ∧ ∀ q, h.bottom ≤ q → h.Clear q n → p ≤ q

theorem initLheap_valid : (initLheap 0x800000).Valid where
  top := rfl
  bottom := rfl
  item s hs := Or.inl (List.eq_of_mem_replicate hs)
  apart := List.pairwise_replicate.mpr (Or.inr fun hv => absurd hv (by decide))

/-! ### The search -/

variable {h : LHeap} {n i : Nat}

/-- What a turn finds: a segment in the way, or none up to the one that ends at `i`. -/
theorem getSegmentSize_eq (hn : 1 ≤ n) (hsum : i + n < 2 ^ 32) :
    (getSegmentSize h i n = 0 ∧ ∀ s ∈ h.segments, s.Visible → i + n ≤ s.start ∨ s.size ≤ i) ∨
      ∃ s ∈ h.segments, getSegmentSize h i n = s.size ∧ s.Visible ∧ s.start < i + n ∧ i < s.size := by
  have hend : asDword ((i : Int) + n) = i + n := by
    rw [asDword_eq (by omega) (by omega)]
    omega
  rw [getSegmentSize, hend]
  cases hfind : h.segments.find? fun s => decide (max s.start i < min s.size (i + n)) with
  | none =>
    refine Or.inl ⟨rfl, fun s hs hv => ?_⟩
    have hno := List.find?_eq_none.mp hfind s hs
    rw [decide_eq_true_eq] at hno
    rw [LhSeg.Visible] at hv
    omega
  | some s =>
    have hyes := List.find?_some hfind
    rw [decide_eq_true_eq] at hyes
    refine Or.inr ⟨s, List.mem_of_find?_eq_some hfind, rfl, ?_, ?_, ?_⟩
    · rw [LhSeg.Visible]
      omega
    · omega
    · omega

/-- A candidate of the search: no address below it is clear, and it follows a segment
that the search can see. -/
structure LHeap.Candidate (h : LHeap) (n i : Nat) : Prop where
  lowest : ∀ q, h.bottom ≤ q → h.Clear q n → i ≤ q
  behind : i = h.bottom ∨ ∃ s ∈ h.segments, s.Visible ∧ i = s.size + 1

theorem LHeap.Candidate.bottom_le (hv : h.Valid) (hc : h.Candidate n i) : h.bottom ≤ i := by
  rcases hc.behind with rfl | ⟨s, hs, hvis, rfl⟩
  · exact Nat.le_refl _
  · rw [hv.bottom]
    rcases hv.item s hs with rfl | hin
    · exact absurd hvis (by decide)
    · omega

theorem LHeap.Valid.visible (hv : h.Valid) {s : LhSeg} (hs : s ∈ h.segments) (hvis : s.Visible) :
    lheapBase ≤ s.start ∧ s.start < s.size ∧ s.size < 2 ^ 32 - 1 := by
  rcases hv.item s hs with rfl | ⟨h1, -, h3⟩
  · exact absurd hvis (by decide)
  · exact ⟨h1, hvis, h3⟩

/-- The test with a strict comparison misses no segment: the one that ends at `i` would
hold the byte in front of `i` too. -/
theorem LHeap.Candidate.clear (hv : h.Valid) (hc : h.Candidate n i)
    (hmiss : ∀ s ∈ h.segments, s.Visible → i + n ≤ s.start ∨ s.size ≤ i) : h.Clear i n := by
  intro s hs hvis
  rcases hmiss s hs hvis with hle | hle
  · exact Or.inl hle
  · refine Or.inr (Nat.lt_of_le_of_ne hle fun heq => ?_)
    obtain ⟨hbase, hlt, -⟩ := hv.visible hs hvis
    rcases hc.behind with hi | ⟨t, ht, htv, hi⟩
    · rw [hv.bottom] at hi
      omega
    · have hne : s ≠ t := by
        rintro rfl
        omega
      have hapart := hv.apart.forall hs ht hne hvis htv
      obtain ⟨-, hlt', -⟩ := hv.visible ht htv
      omega

/-- No clear address is jumped over: `n` bytes from one of them on would meet the segment. -/
theorem LHeap.Candidate.next (hc : h.Candidate n i) {s : LhSeg} (hs : s ∈ h.segments) (hvis : s.Visible)
    (hlt : s.start < i + n) : h.Candidate n (s.size + 1) where
  lowest q hq hclear := by
    have hle := hc.lowest q hq hclear
    rcases hclear s hs hvis with hfree | hfree <;> omega
  behind := Or.inr ⟨s, hs, hvis, rfl⟩

/-- From a candidate on, the search finds the first clear address, or none below the top. -/
theorem lookup_from (hv : h.Valid) (hn : 1 ≤ n) (hn' : n < 2 ^ 31) (hc : h.Candidate n i) :
    ∃ p, Settles (fun fuel => lookupFreeMem h n fuel i) p ∧
      ((p ≠ 0 ∧ FirstClear h n p) ∨ p = 0 ∧ ∀ q, h.bottom ≤ q → q < h.top → ¬ h.Clear q n) := by
  obtain ⟨k, hk⟩ : ∃ k, h.top - i ≤ k := ⟨_, Nat.le_refl _⟩
  induction k generalizing i with
  | zero =>
    have htop : ¬ i < h.top := by omega
    refine ⟨0, ?_, Or.inr ⟨rfl, fun q hq hlt hclear => ?_⟩⟩
    · apply settles_succ rfl
      simp only [lookupFreeMem, if_neg htop]
      exact settles_const _
    · have := hc.lowest q hq hclear
      omega
  | succ k ih =>
    have htop := hv.top
    have hbottom := hv.bottom
    have hbase : lheapBase = 0x2200000 := rfl
    have hle := hc.bottom_le hv
    by_cases hi : i < h.top
    · have hin : i + n < 2 ^ 32 := by omega
      rcases getSegmentSize_eq (h := h) hn hin with ⟨hsz, hmiss⟩ | ⟨s, hs, hsz, hvis, hlt, hend⟩
      · refine ⟨i, ?_, Or.inl ⟨by omega, hle, hi, hc.clear hv hmiss, hc.lowest⟩⟩
        apply settles_succ rfl
        simp only [lookupFreeMem, if_pos hi, hsz, if_true]
        exact settles_const _
      · obtain ⟨-, -, hsize⟩ := hv.visible hs hvis
        have hnext : asDword ((s.size : Int) + 1) = s.size + 1 := by
          rw [asDword_eq (by omega) (by omega)]
          omega
        obtain ⟨p, hset, hp⟩ := ih (hc.next hs hvis hlt) (by omega)
        refine ⟨p, ?_, hp⟩
        apply settles_succ rfl
        simp only [lookupFreeMem, if_pos hi, hsz, if_neg (by omega : s.size ≠ 0), hnext]
        exact hset
    · refine ⟨0, ?_, Or.inr ⟨rfl, fun q hq hlt hclear => ?_⟩⟩
      · apply settles_succ rfl
        simp only [lookupFreeMem, if_neg hi]
        exact settles_const _
      · have := hc.lowest q hq hclear
        omega

/-- `__lookup_free_mem`. -/
theorem lookupFreeMem_settles (hv : h.Valid) (hn : 1 ≤ n) (hn' : n < 2 ^ 31) :
    ∃ p, Settles (fun fuel => lookupFreeMem h n fuel h.bottom) p ∧
      ((p ≠ 0 ∧ FirstClear h n p) ∨ p = 0 ∧ ∀ q, h.bottom ≤ q → q < h.top → ¬ h.Clear q n) :=
  lookup_from hv hn hn' ⟨fun _ hq _ => hq, Or.inl rfl⟩

/-! ### The table -/

/-- The first item that a search finds, and the table with another in its place. -/
theorem set_found {α : Type} {p : α → Bool} {l : List α} {idx : Nat} (y : α) (hidx : l.findIdx? p = some idx) :
    ∃ before x after, l = before ++ x :: after ∧ p x = true ∧ (∀ z ∈ before, p z = false) ∧
      l.set idx y = before ++ y :: after := by
  induction l generalizing idx with
  | nil => simp at hidx
  | cons x l ih =>
    rw [List.findIdx?_cons] at hidx
    split at hidx
    · rename_i hx
      obtain rfl := Option.some.inj hidx
      exact ⟨[], x, l, rfl, hx, by simp, rfl⟩
    · rename_i hx
      obtain ⟨j, hj, rfl⟩ := Option.map_eq_some_iff.mp hidx
      obtain ⟨before, z, after, rfl, hz, hbefore, hset⟩ := ih hj
      refine ⟨x :: before, z, after, rfl, hz, ?_, by rw [List.set_cons_succ, hset]; rfl⟩
      intro w hw
      rcases List.mem_cons.mp hw with rfl | hw
      · simpa using hx
      · exact hbefore w hw

theorem insertLhSeg_full (hfull : LhSeg.free ∉ h.segments) (start size : Nat) :
    insertLhSeg h start size = (h, false) := by
  have hnone : lookupFreeLhSeg h = none := by
    rw [lookupFreeLhSeg, List.findIdx?_eq_none_iff]
    intro s hs
    simpa using fun he : s = .free => hfull (he ▸ hs)
  rw [insertLhSeg, hnone]

/-- A segment takes the place of the first free item. -/
theorem insertLhSeg_split (hfree : LhSeg.free ∈ h.segments) (start size : Nat) :
    ∃ before after, h.segments = before ++ .free :: after ∧ insertLhSeg h start size =
      ({ h with segments := before ++ ⟨start, size⟩ :: after }, true) := by
  rw [insertLhSeg, lookupFreeLhSeg]
  cases hidx : h.segments.findIdx? fun s => decide (s = .free) with
  | none =>
    rw [List.findIdx?_eq_none_iff] at hidx
    exact absurd (hidx _ hfree) (by simp)
  | some idx =>
    obtain ⟨before, s, after, hl, hs, -, hset⟩ := set_found ⟨start, size⟩ hidx
    obtain rfl := of_decide_eq_true hs
    exact ⟨before, after, hl, by simp only [hset]⟩

theorem deleteLhSeg_split (h : LHeap) (start : Nat) :
    (deleteLhSeg h start = h ∧ ∀ s ∈ h.segments, s.start ≠ start) ∨
    ∃ before s after, h.segments = before ++ s :: after ∧ s.start = start ∧
      deleteLhSeg h start = { h with segments := before ++ .free :: after } := by
  rw [deleteLhSeg]
  cases hidx : h.segments.findIdx? fun s => decide (s.start = start) with
  | none =>
    rw [List.findIdx?_eq_none_iff] at hidx
    exact Or.inl ⟨rfl, fun s hs => by simpa using hidx s hs⟩
  | some idx =>
    obtain ⟨before, s, after, hl, hs, -, hset⟩ := set_found .free hidx
    exact Or.inr ⟨before, s, after, hl, of_decide_eq_true hs, by simp only [hset]⟩

/-- A new item in the place of another keeps the table valid if it is apart from the
others. -/
theorem LHeap.Valid.replace (hv : h.Valid) {before after : List LhSeg} {s t : LhSeg}
    (hl : h.segments = before ++ s :: after)
    (ht : t = .free ∨ lheapBase ≤ t.start ∧ t.start ≤ t.size ∧ t.size < 2 ^ 32 - 1)
    (hapart : ∀ u ∈ before ++ after, t.Apart u) :
    LHeap.Valid { h with segments := before ++ t :: after } := by
  obtain ⟨htop, hbottom, hitem, hpair⟩ := hv
  rw [hl] at hitem hpair
  refine ⟨htop, hbottom, fun u hu => ?_, ?_⟩
  · rcases List.mem_append.mp hu with hu | hu
    · exact hitem u (List.mem_append_left _ hu)
    · rcases List.mem_cons.mp hu with rfl | hu
      · exact ht
      · exact hitem u (List.mem_append_right _ (List.mem_cons_of_mem _ hu))
  · rw [List.pairwise_append, List.pairwise_cons] at hpair ⊢
    obtain ⟨hb, ⟨-, ha⟩, hba⟩ := hpair
    refine ⟨hb, ⟨fun u hu => hapart u (List.mem_append_right _ hu), ha⟩, fun u hu w hw => ?_⟩
    rcases List.mem_cons.mp hw with rfl | hw
    · exact Std.Symm.symm _ _ (hapart u (List.mem_append_left _ hu))
    · exact hba u hu w (List.mem_cons_of_mem _ hw)

theorem lfree_valid (hv : h.Valid) (ptr : Nat) : (lfree h ptr).Valid := by
  rw [lfree]
  rcases deleteLhSeg_split h ptr with ⟨he, -⟩ | ⟨before, s, after, hl, -, he⟩
  · rw [he]
    exact hv
  · rw [he]
    exact hv.replace hl (Or.inl rfl) fun u _ hfree => absurd hfree (by decide)

/-! ### `lmalloc` -/

theorem lmalloc_of_lookup {p : Nat} (hset : Settles (fun fuel => lookupFreeMem h n fuel h.bottom) p) :
    Settles (fun fuel => lmalloc fuel h n) (if p = 0 then (h, 0)
      else if (insertLhSeg h p (asDword (p + n - 1))).2 then ((insertLhSeg h p (asDword (p + n - 1))).1, p)
      else ((insertLhSeg h p (asDword (p + n - 1))).1, 0)) :=
  hset.map fun mem => if mem = 0 then (h, 0)
    else if (insertLhSeg h mem (asDword (mem + n - 1))).2 then ((insertLhSeg h mem (asDword (mem + n - 1))).1, mem)
    else ((insertLhSeg h mem (asDword (mem + n - 1))).1, 0)

/-- What `lmalloc` does: it finds nothing, the table is full, or the first clear bytes
become a segment. -/
theorem lmalloc_settles (hv : h.Valid) (hn : 1 ≤ n) (hn' : n < 2 ^ 31) :
    ∃ h' p, Settles (fun fuel => lmalloc fuel h n) (h', p) ∧ h'.Valid ∧
      ((p = 0 ∧ h' = h ∧
        ((∀ q, h.bottom ≤ q → q < h.top → ¬ h.Clear q n) ∨ LhSeg.free ∉ h.segments)) ∨
        p ≠ 0 ∧ FirstClear h n p ∧ ∃ before after, h.segments = before ++ .free :: after ∧
          h' = { h with segments := before ++ ⟨p, p + n - 1⟩ :: after }) := by
  obtain ⟨p, hset, hp⟩ := lookupFreeMem_settles hv hn hn'
  have hmap := lmalloc_of_lookup hset
  rcases hp with ⟨hp0, hfirst⟩ | ⟨rfl, hnone⟩
  · obtain ⟨hle, hlt, hclear, -⟩ := id hfirst
    have htop := hv.top
    have hend : asDword ((p : Int) + n - 1) = p + n - 1 := by
      rw [asDword_eq (by omega) (by omega)]
      omega
    by_cases hfree : LhSeg.free ∈ h.segments
    · obtain ⟨before, after, hl, hins⟩ := insertLhSeg_split hfree p (p + n - 1)
      refine ⟨_, p, ?_, ?_, Or.inr ⟨hp0, hfirst, before, after, hl, rfl⟩⟩
      · simpa only [if_neg hp0, hend, hins, if_true] using hmap
      · refine hv.replace hl (Or.inr ⟨by rwa [← hv.bottom], ?_, ?_⟩) fun u hu _ hvis => ?_
        · show p ≤ p + n - 1
          omega
        · show p + n - 1 < 2 ^ 32 - 1
          omega
        · have hmem : u ∈ h.segments := by
            rw [hl]
            rcases List.mem_append.mp hu with hu | hu
            · exact List.mem_append_left _ hu
            · exact List.mem_append_right _ (List.mem_cons_of_mem _ hu)
          have hclear := hclear u hmem hvis
          show p + n - 1 < u.start ∨ u.size < p
          omega
    · refine ⟨h, 0, ?_, hv, Or.inl ⟨rfl, rfl, Or.inr hfree⟩⟩
      simpa only [if_neg hp0, insertLhSeg_full hfree, Bool.false_eq_true, if_false] using hmap
  · refine ⟨h, 0, ?_, hv, Or.inl ⟨rfl, rfl, Or.inl hnone⟩⟩
    simpa only [if_true] using hmap

end TayHuang
