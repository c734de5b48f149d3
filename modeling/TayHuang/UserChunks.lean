import TayHuang.UserMalloc
import TayHuang.LinkedCells
import TayHuang.Segments

/-! The chunks of a module's heap: those on the free list, in order of their
addresses, and those given away. -/

namespace TayHuang

open Function (update)
open LinkedCells

namespace Seg

/-- The bytes of a chunk. A header of 16 bytes is there whatever the size says. -/
def span (x : Seg) : Set Nat := Set.Ico x.addr (x.addr + max 16 x.size)

def Spaced (x y : Seg) : Prop :=
  x.addr + max 16 x.size ≤ y.addr ∨ y.addr + max 16 y.size ≤ x.addr

instance (x y : Seg) : Decidable (Spaced x y) := inferInstanceAs (Decidable (_ ∨ _))

theorem Spaced.symm {x y : Seg} (h : Spaced x y) : Spaced y x := Or.symm h

theorem spaced_iff_disjoint {x y : Seg} : Spaced x y ↔ Disjoint x.span y.span := by
  constructor
  · intro h
    apply Set.disjoint_left.mpr
    rintro k ⟨h1, h2⟩ ⟨h3, h4⟩
    unfold Spaced at h
    omega
  · intro h
    by_contra hno
    unfold Spaced at hno
    have hx : max x.addr y.addr ∈ x.span := ⟨by omega, by omega⟩
    exact Set.disjoint_left.mp h hx ⟨by omega, by omega⟩

end Seg

/-- The chunks lie apart from each other, behind the list head and before the end. -/
structure Packed (start fin : Nat) (l : List Seg) : Prop where
  apart : l.Pairwise Seg.Spaced
  inside : ∀ x ∈ l, start + 16 ≤ x.addr ∧ x.addr + max 16 x.size ≤ fin

section Packed

variable {start fin : Nat} {l l' : List Seg} {x y d : Seg}

theorem Packed.perm (h : Packed start fin l) (hp : l.Perm l') : Packed start fin l' :=
  ⟨(hp.pairwise_iff fun h => Seg.Spaced.symm h).mp h.apart,
    fun x hx => h.inside x (hp.mem_iff.mpr hx)⟩

theorem Packed.tail (h : Packed start fin (x :: l)) : Packed start fin l :=
  ⟨(List.pairwise_cons.mp h.apart).2, fun y hy => h.inside y (by simp [hy])⟩

theorem Packed.cons_iff : Packed start fin (x :: l) ↔
    (∀ y ∈ l, x.Spaced y) ∧ (start + 16 ≤ x.addr ∧ x.addr + max 16 x.size ≤ fin) ∧
      Packed start fin l := by
  constructor
  · intro h
    exact ⟨(List.pairwise_cons.mp h.apart).1, h.inside x (by simp), h.tail⟩
  · rintro ⟨h1, h2, h3⟩
    refine ⟨List.pairwise_cons.mpr ⟨h1, h3.apart⟩, ?_⟩
    intro y hy
    rcases List.mem_cons.mp hy with rfl | hy
    · exact h2
    · exact h3.inside y hy

theorem Packed.retag (h : Packed start fin (x :: l)) (ha : d.addr = x.addr)
    (hs : d.size = x.size) : Packed start fin (d :: l) := by
  rw [Packed.cons_iff] at h ⊢
  obtain ⟨h1, h2, h3⟩ := h
  refine ⟨fun y hy => ?_, by rwa [ha, hs], h3⟩
  have := h1 y hy
  unfold Seg.Spaced at this ⊢
  rwa [ha, hs]

theorem Packed.join (h : Packed start fin (x :: y :: l)) (hend : x.addr + x.size = y.addr) :
    Packed start fin ({ x with size := x.size + y.size } :: l) := by
  rw [Packed.cons_iff, Packed.cons_iff] at h
  rw [Packed.cons_iff]
  obtain ⟨h1, h2, h3, h4, h5⟩ := h
  have hxy := h1 y (by simp)
  unfold Seg.Spaced at hxy
  refine ⟨fun z hz => ?_, ?_, h5⟩
  · have hx := h1 z (by simp [hz])
    have hy := h3 z hz
    unfold Seg.Spaced at hx hy ⊢
    simp only
    omega
  · simp only
    omega

/-- What `malloc` makes of a chunk that it splits: the rest starts 16 bytes behind
the part given away, and ends 16 bytes behind the end of the chunk. -/
theorem Packed.divide (h : Packed start fin (x :: l)) {f : Nat} {u v : Bool} (hf : 16 ≤ f)
    (hle : f + 16 ≤ x.size) (hfin : x.addr + x.size + 16 ≤ fin)
    (hbehind : ∀ y ∈ l, Seg.Spaced ⟨x.addr + x.size, 16, false⟩ y) :
    Packed start fin (⟨x.addr, f, u⟩ :: ⟨x.addr + 16 + f, x.size - f, v⟩ :: l) := by
  rw [Packed.cons_iff] at h
  rw [Packed.cons_iff, Packed.cons_iff]
  obtain ⟨h1, h2, h3⟩ := h
  refine ⟨?_, ?_, ?_, ?_, h3⟩
  · intro z hz
    rcases List.mem_cons.mp hz with rfl | hz
    · left
      simp only
      omega
    · have hx := h1 z hz
      unfold Seg.Spaced at hx ⊢
      simp only
      omega
  · simp only
    omega
  · intro z hz
    have hx := h1 z hz
    have hb := hbehind z hz
    unfold Seg.Spaced at hx hb ⊢
    simp only at hb ⊢
    omega
  · simp only
    omega

end Packed

/-! ### The free list in memory -/

def chunkCell (x : Seg) (next : Option Nat) : Chunk := ⟨x.size, x.used, next⟩

/-- The head of the free list, which is no chunk itself. -/
def sentinel (start : Nat) : Seg := ⟨start, 2 ^ 63 - 1, false⟩

/-- A heap with the free list `fl` and the chunks `al` given away. -/
structure Chunks (start fin : Nat) (m : Nat → Chunk) (fl al : List Seg) : Prop where
  chained : Chained Seg.addr chunkCell m (sentinel start :: fl) none
  sorted : (sentinel start :: fl).Pairwise fun x y => x.addr < y.addr
  packed : Packed start fin (fl ++ al)

variable {start fin : Nat} {m m' : Nat → Chunk} {fl al al' p q r r' post : List Seg}
variable {y y' c d n : Seg}

theorem Chunks.addr_ne (h : Chunks start fin m fl al) :
    ∀ x ∈ sentinel start :: fl, ∀ y ∈ al, x.addr ≠ y.addr := by
  intro x hx y hy he
  rcases List.mem_cons.mp hx with rfl | hx
  · have := (h.packed.inside y (by simp [hy])).1
    simp only [sentinel] at he
    omega
  · have := (List.pairwise_append.mp h.packed.apart).2.2 x hx y hy
    unfold Seg.Spaced at this
    omega

theorem sentinel_split (hl : sentinel start :: fl = q ++ y :: r) :
    ∃ p, fl = p ++ r ∧ ∀ r', sentinel start :: (p ++ r') = q ++ y :: r' := by
  cases q with
  | nil =>
    obtain ⟨hs, rfl⟩ := List.cons.inj hl
    exact ⟨[], rfl, fun r' => by rw [hs]; rfl⟩
  | cons z q =>
    obtain ⟨hs, rfl⟩ := List.cons.inj hl
    exact ⟨q ++ [y], by simp, fun r' => by rw [hs]; simp⟩

/-- Everything up to `y` stays, what follows it is replaced. -/
theorem Chunks.relink (h : Chunks start fin m fl al) (hl : sentinel start :: fl = q ++ y :: r)
    (hl' : sentinel start :: p = q ++ y' :: r') (haddr : y'.addr = y.addr)
    (hq : ∀ x ∈ q, m' x.addr = m x.addr) (hy : m' y.addr = chunkCell y' (entry Seg.addr r' none))
    (hr : Chained Seg.addr chunkCell m' r' none)
    (hsort : (y' :: r').Pairwise fun x y => x.addr < y.addr)
    (hbound : ∀ x ∈ q, ∀ z ∈ r', x.addr < z.addr) (hp : Packed start fin (p ++ al')) :
    Chunks start fin m' p al' := by
  have hch := h.chained
  have hs := h.sorted
  rw [hl] at hch hs
  rw [chained_append] at hch
  rw [List.pairwise_append] at hs
  refine ⟨?_, ?_, hp⟩
  · rw [hl', chained_append]
    refine ⟨?_, by rw [haddr]; exact hy, hr⟩
    have hh := hch.1.congr hq
    rwa [entry_cons, ← haddr] at hh
  · rw [hl', List.pairwise_append]
    refine ⟨hs.1, hsort, fun x hx z hz => ?_⟩
    rcases List.mem_cons.mp hz with rfl | hz
    · rw [haddr]
      exact hs.2.2 x hx y (by simp)
    · exact hbound x hx z hz

theorem Chunks.order (h : Chunks start fin m fl al) (hl : sentinel start :: fl = q ++ y :: r) :
    (∀ x ∈ q, x.addr < y.addr) ∧ (∀ x ∈ r, y.addr < x.addr) ∧ (∀ x ∈ q, ∀ z ∈ r, x.addr < z.addr) ∧
      r.Pairwise fun x y => x.addr < y.addr := by
  have hs := h.sorted
  rw [hl, List.pairwise_append, List.pairwise_cons] at hs
  exact ⟨fun x hx => hs.2.2 x hx y (by simp), hs.2.1.1, fun x hx z hz => hs.2.2 x hx z (by simp [hz]),
    hs.2.1.2⟩

/-! ### Giving chunks away -/

/-- The chunk `c` goes from the list to those given away. -/
theorem Chunks.take (m' : Nat → Chunk) (h : Chunks start fin m fl al)
    (hl : sentinel start :: fl = q ++ y :: c :: post)
    (hy : m' y.addr = chunkCell y (entry Seg.addr post none))
    (hother : ∀ a, a ≠ y.addr → a ≠ c.addr → m' a = m a) (hdc : d.addr = c.addr)
    (hds : d.size = c.size) :
    ∃ p, fl = p ++ c :: post ∧ Chunks start fin m' (p ++ post) (d :: al) := by
  obtain ⟨p, rfl, hp⟩ := sentinel_split hl
  obtain ⟨hqy, hyr, hqr, hr⟩ := h.order hl
  have hch := h.chained
  rw [hl, chained_append] at hch
  have hcp := (List.pairwise_cons.mp hr).1
  refine ⟨p, rfl, h.relink hl (hp post) rfl ?_ hy ?_ ?_ ?_ ?_⟩
  · exact fun x hx => hother _ (hqy x hx).ne (hqr x hx c (by simp)).ne
  · exact hch.2.2.2.congr fun x hx => hother _ (hyr x (by simp [hx])).ne' (hcp x hx).ne'
  · exact List.pairwise_cons.mpr ⟨fun x hx => hyr x (by simp [hx]), (List.pairwise_cons.mp hr).2⟩
  · exact fun x hx z hz => hqr x hx z (by simp [hz])
  · have hperm : (p ++ c :: post ++ al).Perm (c :: (p ++ post ++ al)) := by
      rw [List.append_assoc, List.cons_append, List.append_assoc]
      exact List.perm_middle
    exact ((h.packed.perm hperm).retag hdc hds).perm List.perm_middle.symm

/-- The front of the chunk `c` goes to those given away, the rest back to the list. -/
theorem Chunks.divide (m' : Nat → Chunk) (h : Chunks start fin m fl al)
    (hl : sentinel start :: fl = q ++ y :: c :: post) {f : Nat} (hf : 16 ≤ f)
    (hle : f + 16 ≤ c.size) (hfin : c.addr + c.size + 16 ≤ fin)
    (hbehind : ∀ x ∈ fl ++ al, Seg.Spaced ⟨c.addr + c.size, 16, false⟩ x)
    (hy : m' y.addr = chunkCell y (some (c.addr + 16 + f)))
    (hn : m' (c.addr + 16 + f) =
      chunkCell ⟨c.addr + 16 + f, c.size - f, false⟩ (entry Seg.addr post none))
    (hother : ∀ a, a ≠ y.addr → a ≠ c.addr → a ≠ c.addr + 16 + f → m' a = m a) :
    ∃ p, fl = p ++ c :: post ∧ Chunks start fin m' (p ++ ⟨c.addr + 16 + f, c.size - f, false⟩ :: post)
      (⟨c.addr, f, true⟩ :: al) := by
  obtain ⟨p, rfl, hp⟩ := sentinel_split hl
  obtain ⟨hqy, hyr, hqr, hr⟩ := h.order hl
  have hch := h.chained
  rw [hl, chained_append] at hch
  have hcp := (List.pairwise_cons.mp hr).1
  have hyc := hyr c (by simp)
  -- the next chunk starts behind the rest
  have hpost : ∀ x ∈ post, c.addr + 16 + f < x.addr := by
    intro x hx
    have hlt := hcp x hx
    have hb := hbehind x (by simp [hx])
    have hs := h.packed.apart
    have hcx : c.Spaced x := by
      rw [List.append_assoc, List.pairwise_append] at hs
      exact (List.pairwise_cons.mp hs.2.1).1 x (by simp [hx])
    unfold Seg.Spaced at hb hcx
    simp only at hb
    omega
  refine ⟨p, rfl, h.relink hl (hp _) rfl ?_ hy ⟨hn, ?_⟩ ?_ ?_ ?_⟩
  · intro x hx
    have h1 := hqy x hx
    exact hother _ (by omega) (by omega) (by omega)
  · refine hch.2.2.2.congr fun x hx => ?_
    have h1 := hpost x hx
    exact hother _ (by omega) (by omega) (by omega)
  · refine List.pairwise_cons.mpr ⟨fun x hx => ?_, List.pairwise_cons.mpr
      ⟨hpost, (List.pairwise_cons.mp hr).2⟩⟩
    rcases List.mem_cons.mp hx with rfl | hx
    · simp only
      omega
    · exact hyr x (by simp [hx])
  · intro x hx z hz
    have h1 := hqr x hx c (by simp)
    rcases List.mem_cons.mp hz with rfl | hz
    · simp only
      omega
    · exact hqr x hx z (by simp [hz])
  · have hperm : (p ++ c :: post ++ al).Perm (c :: (p ++ post ++ al)) := by
      rw [List.append_assoc, List.cons_append, List.append_assoc]
      exact List.perm_middle
    have hdiv := (h.packed.perm hperm).divide (u := true) (v := false) hf hle hfin
      (fun x hx => hbehind x (by simp at hx ⊢; tauto))
    refine hdiv.perm ((List.Perm.cons _ ?_).trans List.perm_middle.symm)
    rw [List.append_assoc p, List.append_assoc p, List.cons_append]
    exact List.perm_middle.symm

/-! ### Taking a chunk back -/

/-- The chunk `d` is put between `y` and `n`. -/
theorem Chunks.insert (m' : Nat → Chunk) (h : Chunks start fin m fl al)
    (hl : sentinel start :: fl = q ++ y :: n :: post)
    (hal : al.Perm (d :: al')) (hyd : y.addr < d.addr) (hdn : d.addr < n.addr)
    (hy : m' y.addr = chunkCell y (some d.addr)) (hd : m' d.addr = chunkCell d (some n.addr))
    (hother : ∀ a, a ≠ y.addr → a ≠ d.addr → m' a = m a) :
    ∃ fl', sentinel start :: fl' = q ++ y :: d :: n :: post ∧ Chunks start fin m' fl' al' := by
  obtain ⟨p, rfl, hp⟩ := sentinel_split hl
  obtain ⟨hqy, hyr, hqr, hr⟩ := h.order hl
  have hch := h.chained
  rw [hl, chained_append] at hch
  have hnp := (List.pairwise_cons.mp hr).1
  have hdr : ∀ x ∈ n :: post, d.addr < x.addr := by
    intro x hx
    rcases List.mem_cons.mp hx with rfl | hx
    · exact hdn
    · exact hdn.trans (hnp x hx)
  refine ⟨p ++ d :: n :: post, hp _, h.relink hl (hp _) rfl ?_ hy ⟨hd, ?_⟩ ?_ ?_ ?_⟩
  · intro x hx
    have h1 := hqy x hx
    exact hother _ (by omega) (by omega)
  · exact hch.2.2.congr fun x hx => hother _ (hyr x hx).ne' (hdr x hx).ne'
  · refine List.pairwise_cons.mpr ⟨fun x hx => ?_, List.pairwise_cons.mpr ⟨hdr, hr⟩⟩
    rcases List.mem_cons.mp hx with rfl | hx
    · exact hyd
    · exact hyr x hx
  · intro x hx z hz
    rcases List.mem_cons.mp hz with rfl | hz
    · exact (hqy x hx).trans hyd
    · exact hqr x hx z hz
  · have hperm : (p ++ n :: post ++ al).Perm (p ++ d :: n :: post ++ al') := by
      rw [List.append_assoc, List.append_assoc]
      refine List.Perm.append_left p ?_
      rw [List.cons_append]
      exact (hal.append_left (n :: post)).trans List.perm_middle
    exact h.packed.perm hperm

/-- `y` takes in the chunk that follows it on the list and in memory. -/
theorem Chunks.join (h : Chunks start fin m fl al) (hl : sentinel start :: fl = q ++ y :: n :: post)
    (hq : q ≠ []) (hend : y.addr + y.size = n.addr)
    (hy : m' y.addr = chunkCell { y with size := y.size + n.size } (entry Seg.addr post none))
    (hother : ∀ a, a ≠ y.addr → m' a = m a) :
    ∃ fl', sentinel start :: fl' = q ++ { y with size := y.size + n.size } :: post ∧
      Chunks start fin m' fl' al := by
  obtain ⟨z, q, rfl⟩ := List.exists_cons_of_ne_nil hq
  obtain ⟨hz, rfl⟩ : sentinel start = z ∧ fl = q ++ y :: n :: post := List.cons.inj hl
  obtain ⟨hqy, hyr, hqr, hr⟩ := h.order hl
  have hch := h.chained
  rw [hl, chained_append] at hch
  have hl' : sentinel start :: (q ++ { y with size := y.size + n.size } :: post) =
      (z :: q) ++ { y with size := y.size + n.size } :: post := by rw [hz]; rfl
  refine ⟨_, hl', h.relink hl hl' rfl ?_ hy ?_ ?_ ?_ ?_⟩
  · exact fun x hx => hother _ (hqy x hx).ne
  · exact hch.2.2.2.congr fun x hx => hother _ (hyr x (by simp [hx])).ne'
  · exact List.pairwise_cons.mpr ⟨fun x hx => hyr x (by simp [hx]), (List.pairwise_cons.mp hr).2⟩
  · exact fun x hx z hz => hqr x hx z (by simp [hz])
  · have hperm : (q ++ y :: n :: post ++ al).Perm (y :: n :: (q ++ post ++ al)) := by
      simp only [List.append_assoc, List.cons_append]
      exact List.perm_middle.trans (List.Perm.cons _ List.perm_middle)
    have hj := (h.packed.perm hperm).join hend
    refine hj.perm ?_
    simp only [List.append_assoc, List.cons_append]
    exact List.perm_middle.symm

end TayHuang
