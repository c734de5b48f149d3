import TayHuang.UserChunks

/-! What one call of `malloc` or `free` does to the chunks of a module's heap. -/

namespace TayHuang

open Function (update)
open LinkedCells

/-- The chunk behind a pointer that was given away. -/
def chunkOf (m : Nat → Chunk) (b : Nat × Nat) : Seg :=
  ⟨b.1 - 16, (m (b.1 - 16)).size, (m (b.1 - 16)).used⟩

def FreeList (s : UHeap) (fl : List Seg) : Prop :=
  Chained Seg.addr chunkCell s.chunk (sentinel s.heap :: fl) none

/-- If `malloc` splits the first chunk that is large enough, then the 16 bytes
behind this chunk lie in the heap and belong to no other chunk. -/
def SplitFits (fin : Nat) (fl al : List Seg) (fixed : Int) : Prop :=
  ∀ p c post, fl = p ++ c :: post → (∀ z ∈ p, z.size < asSize fixed) → asSize fixed ≤ c.size →
    Divided c.size fixed → c.addr + c.size + 16 ≤ fin ∧
      ∀ x ∈ fl ++ al, Seg.Spaced ⟨c.addr + c.size, 16, false⟩ x

/-- What the runs keep. -/
structure UHeapKept (start fin : Nat) (s : UHeap) (live : List (Nat × Nat)) (fl : List Seg) :
    Prop where
  heap : s.heap = start
  chunks : Chunks start fin s.chunk fl (live.map (chunkOf s.chunk))
  served : ∀ b ∈ live, 16 ≤ b.1 ∧ b.2 + 16 ≤ (chunkOf s.chunk b).size

/-! ### Integers -/

theorem asInt_le {x : Int} (h : 0 ≤ x) : asInt x ≤ x := by
  unfold asInt
  rw [Int.bmod_def]
  split <;> omega

theorem fixedSize_spec {n : Nat} (h0 : 0 < n) (h31 : n < 2 ^ 31)
    (hs : asSize (fixedSize n) < 2 ^ 62) : ∃ f : Nat, fixedSize n = f ∧
      asSize (fixedSize n) = f ∧ n + 16 ≤ f ∧ 32 ≤ f := by
  unfold fixedSize asSize asInt at *
  rw [Int.bmod_def] at *
  refine ⟨(n + 31) / 16 * 16, ?_⟩
  split at hs <;> rename_i hlt
  · rw [if_pos hlt]
    omega
  · omega

theorem divided_spec {size f : Nat} (h : Divided size f) (hle : f ≤ size) (hs : size < 2 ^ 62) :
    f + 16 ≤ size ∧ asSize (size - f : Int) = size - f := by
  have hsz : asSize (size - f : Int) = size - f := by
    unfold asSize
    omega
  obtain ⟨-, h16⟩ := h
  rw [remainSize, hsz] at h16
  have := asInt_le (x := ((size - f : Nat) : Int)) (by omega)
  exact ⟨by omega, hsz⟩

/-! ### The loops -/

theorem findChunk_spec {m : Nat → Chunk} {fixed : Int} {fuel : Nat} {x : Seg} {l : List Seg}
    {r : Nat × Option Nat} (h : Chained Seg.addr chunkCell m (x :: l) none)
    (hf : findChunk m fixed fuel x.addr (entry Seg.addr l none) = some r) : r.2 = none ∨
      ∃ q y c post, x :: l = q ++ y :: c :: post ∧ r = (y.addr, some c.addr) ∧
        asSize fixed ≤ c.size ∧ ∀ p, l = p ++ c :: post → ∀ z ∈ p, z.size < asSize fixed := by
  induction fuel generalizing x l with
  | zero => simp [findChunk] at hf
  | succ fuel ih =>
    cases l with
    | nil =>
      obtain rfl : (x.addr, none) = r := by simpa [findChunk] using hf
      exact Or.inl rfl
    | cons c l =>
      have hc : (m c.addr).size = c.size ∧ (m c.addr).next = entry Seg.addr l none := by
        rw [h.2.1]
        exact ⟨rfl, rfl⟩
      rw [entry_cons, findChunk] at hf
      by_cases hlt : c.size < asSize fixed
      · rw [if_pos (by rwa [hc.1]), hc.2] at hf
        rcases ih h.2 hf with hr | ⟨q, y, d, post, hl, hr, hfit, hp⟩
        · exact Or.inl hr
        · refine Or.inr ⟨x :: q, y, d, post, by rw [hl]; rfl, hr, hfit, ?_⟩
          intro p hpl z hz
          cases p with
          | nil => simp at hz
          | cons w p =>
            obtain ⟨hcw, hlp⟩ : c = w ∧ l = p ++ d :: post := List.cons.inj hpl
            rcases List.mem_cons.mp hz with rfl | hz
            · exact hcw ▸ hlt
            · exact hp p hlp z hz
      · rw [if_neg (by rwa [hc.1])] at hf
        obtain rfl : (x.addr, some c.addr) = r := by simpa using hf
        refine Or.inr ⟨[], x, c, l, rfl, rfl, Nat.not_lt.mp hlt, ?_⟩
        intro p hpl z hz
        have hlen := congrArg List.length hpl
        rw [List.length_append] at hlen
        have hp : p = [] := List.length_eq_zero_iff.mp (by omega)
        simp [hp] at hz

theorem findGap_spec {m : Nat → Chunk} {current fuel last : Nat} {x : Seg} {l : List Seg}
    (h : Chained Seg.addr chunkCell m (x :: l) none)
    (hf : findGap m current fuel (some x.addr) = some last) : ∃ q y n post,
      x :: l = q ++ y :: n :: post ∧ last = y.addr ∧ y.addr < current ∧ current < n.addr := by
  induction fuel generalizing x l with
  | zero => simp [findGap] at hf
  | succ fuel ih =>
    have hx : m x.addr = chunkCell x (entry Seg.addr l none) := h.1
    rw [findGap, hx] at hf
    cases l with
    | nil =>
      cases fuel <;> simp [chunkCell, findGap] at hf
    | cons n l =>
      simp only [chunkCell, entry_cons] at hf
      by_cases hgap : x.addr < current ∧ current < n.addr
      · rw [if_pos hgap] at hf
        exact ⟨[], x, n, l, rfl, (Option.some.inj hf).symm, hgap⟩
      · rw [if_neg hgap] at hf
        obtain ⟨q, y, n', post, hl, hr⟩ := ih h.2 hf
        exact ⟨x :: q, y, n', post, by rw [hl]; rfl, hr⟩

/-! ### Steps -/

/-- `fl'` is left of the free list when the chunk `c` is given away as `d`, whole
or in part. -/
def Left (fl fl' : List Seg) (c d : Seg) : Prop :=
  d.addr = c.addr ∧ ∃ p post, fl = p ++ c :: post ∧ (d.size = c.size ∧ fl' = p ++ post ∨
    d.size ≤ c.size ∧ fl' = p ++ ⟨c.addr + 16 + d.size, c.size - d.size, false⟩ :: post)

/-- The first chunk takes in the second one when they meet. -/
def joinHead : List Seg → List Seg
  | y :: n :: l =>
    if y.addr + y.size = n.addr then { y with size := y.size + n.size } :: l else y :: n :: l
  | l => l

section Steps

variable {start fin : Nat} {m : Nat → Chunk} {fl al q post : List Seg} {y c : Seg} {f : Nat}

/-- What `malloc` writes, in terms of the chunks. -/
theorem takeChunk_spec (h : Chunks start fin m fl al) (hfin : fin ≤ 2 ^ 47)
    (hl : sentinel start :: fl = q ++ y :: c :: post) (h32 : 32 ≤ f)
    (hsize : asSize (f : Int) = f) (hle : f ≤ c.size)
    (hfits : Divided c.size f → c.addr + c.size + 16 ≤ fin ∧
      ∀ x ∈ fl ++ al, Seg.Spaced ⟨c.addr + c.size, 16, false⟩ x) :
    ∃ fl' sz, f ≤ sz ∧ Left fl fl' c ⟨c.addr, sz, true⟩ ∧
      Chunks start fin (takeChunk m f y.addr c.addr) fl' (⟨c.addr, sz, true⟩ :: al) ∧
      takeChunk m f y.addr c.addr c.addr = ⟨sz, true, none⟩ ∧
      ∀ x ∈ al, takeChunk m f y.addr c.addr x.addr = m x.addr := by
  have hch := h.chained
  rw [hl, chained_append] at hch
  have hmy : m y.addr = chunkCell y (some c.addr) := hch.2.1
  have hmc : m c.addr = chunkCell c (entry Seg.addr post none) := hch.2.2.1
  have hyc : y.addr < c.addr := (h.order hl).2.1 c (by simp)
  have hcl : c ∈ fl := by
    obtain ⟨p, rfl, -⟩ := sentinel_split hl
    simp
  have hyl : y ∈ sentinel start :: fl := by simp [hl]
  have hin := h.packed.inside c (by simp [hcl])
  have hne : ∀ x ∈ al, x.addr ≠ y.addr ∧ x.addr ≠ c.addr := fun x hx =>
    ⟨(h.addr_ne y hyl x hx).symm, (h.addr_ne c (by simp [hcl]) x hx).symm⟩
  by_cases hdiv : Divided c.size f
  · obtain ⟨h16, hrest⟩ := divided_spec hdiv hle (by omega)
    obtain ⟨hend, hbehind⟩ := hfits hdiv
    have hnew : ((c.addr : Int) + 16 + f).toNat = c.addr + 16 + f := by omega
    have htake : takeChunk m f y.addr c.addr =
        update (update (update m (c.addr + 16 + f)
          (chunkCell ⟨c.addr + 16 + f, c.size - f, false⟩ (entry Seg.addr post none))) y.addr
          (chunkCell y (some (c.addr + 16 + f)))) c.addr ⟨f, true, none⟩ := by
      have h1 : y.addr ≠ c.addr + 16 + f := by omega
      have h2 : c.addr ≠ c.addr + 16 + f := by omega
      simp only [takeChunk, hmc, chunkCell, if_pos hdiv, hnew, hrest, hsize,
        Function.update_self, Function.update_of_ne h1, Function.update_of_ne h2,
        Function.update_of_ne hyc.ne', hmy, Function.update_idem]
    have hxnew : ∀ x ∈ al, x.addr ≠ c.addr + 16 + f := by
      intro x hx he
      have hb := hbehind x (by simp [hx])
      have hcx : c.Spaced x := (List.pairwise_append.mp h.packed.apart).2.2 c hcl x hx
      unfold Seg.Spaced at hb hcx
      simp only at hb
      omega
    rw [htake]
    obtain ⟨p, hp, hfl'⟩ := h.divide (update (update (update m (c.addr + 16 + f)
          (chunkCell ⟨c.addr + 16 + f, c.size - f, false⟩ (entry Seg.addr post none))) y.addr
          (chunkCell y (some (c.addr + 16 + f)))) c.addr ⟨f, true, none⟩) hl (by omega) h16 hend hbehind
      (by rw [Function.update_of_ne hyc.ne, Function.update_self])
      (by
        rw [Function.update_of_ne (by omega), Function.update_of_ne (by omega),
          Function.update_self])
      (fun a h1 h2 h3 => by
        rw [Function.update_of_ne h2, Function.update_of_ne h1, Function.update_of_ne h3])
    refine ⟨_, f, le_rfl, ⟨rfl, p, post, hp, .inr ⟨hle, rfl⟩⟩, hfl', Function.update_self _ _ _,
      fun x hx => ?_⟩
    rw [Function.update_of_ne (hne x hx).2, Function.update_of_ne (hne x hx).1,
      Function.update_of_ne (hxnew x hx)]
  · have htake : takeChunk m f y.addr c.addr =
        update (update m y.addr (chunkCell y (entry Seg.addr post none))) c.addr
          ⟨c.size, true, none⟩ := by
      simp only [takeChunk, hmc, chunkCell, if_neg hdiv, Function.update_of_ne hyc.ne', hmy]
    rw [htake]
    obtain ⟨p, hp, hfl'⟩ := h.take (d := ⟨c.addr, c.size, true⟩)
      (update (update m y.addr (chunkCell y (entry Seg.addr post none))) c.addr
          ⟨c.size, true, none⟩) hl
      (by rw [Function.update_of_ne hyc.ne, Function.update_self])
      (fun a h1 h2 => by rw [Function.update_of_ne h2, Function.update_of_ne h1]) rfl rfl
    refine ⟨_, c.size, hle, ⟨rfl, p, post, hp, .inl ⟨rfl, rfl⟩⟩, hfl', Function.update_self _ _ _,
      fun x hx => ?_⟩
    rw [Function.update_of_ne (hne x hx).2, Function.update_of_ne (hne x hx).1]

/-- One join at `y`, in terms of the chunks. -/
theorem joinChunk_spec (h : Chunks start fin m fl al) (hfin : fin ≤ 2 ^ 47)
    (hl : sentinel start :: fl = q ++ y :: post) : ∃ fl' y' post',
      joinHead (y :: post) = y' :: post' ∧ sentinel start :: fl' = q ++ y' :: post' ∧
      y'.addr = y.addr ∧ Chunks start fin (joinChunk m y.addr) fl' al ∧
      ∀ x ∈ al, joinChunk m y.addr x.addr = m x.addr := by
  have hch := h.chained
  rw [hl, chained_append] at hch
  have hmy : m y.addr = chunkCell y (entry Seg.addr post none) := hch.2.1
  have hyl : y ∈ sentinel start :: fl := by simp [hl]
  cases post with
  | nil =>
    have hj : joinChunk m y.addr = m := by simp [joinChunk, hmy, chunkCell]
    rw [hj]
    exact ⟨fl, y, [], rfl, hl, rfl, h, fun x hx => rfl⟩
  | cons n post =>
    have hmn : m n.addr = chunkCell n (entry Seg.addr post none) := hch.2.2.1
    have hnl : n ∈ fl := by
      obtain ⟨p, rfl, -⟩ := sentinel_split hl
      simp
    have hn := h.packed.inside n (by simp [hnl])
    have hlt : y.addr + y.size < 2 ^ 64 := by
      rcases List.mem_cons.mp hyl with rfl | hy
      · simp only [sentinel]
        omega
      · have := h.packed.inside y (by simp [hy])
        omega
    by_cases hend : y.addr + y.size = n.addr
    · have hq : q ≠ [] := by
        rintro rfl
        obtain ⟨rfl, -⟩ : sentinel start = y ∧ fl = n :: post := List.cons.inj hl
        simp only [sentinel] at hend
        omega
      have hy : y ∈ fl := by
        obtain ⟨z, q, rfl⟩ := List.exists_cons_of_ne_nil hq
        obtain ⟨-, rfl⟩ : sentinel start = z ∧ fl = q ++ y :: n :: post := List.cons.inj hl
        simp
      have hyin := h.packed.inside y (by simp [hy])
      have hsum : (y.size + n.size) % 2 ^ 63 = y.size + n.size := Nat.mod_eq_of_lt (by omega)
      have hj : joinChunk m y.addr = update m y.addr
          (chunkCell { y with size := y.size + n.size } (entry Seg.addr post none)) := by
        simp only [joinChunk, hmy, hmn, chunkCell, entry_cons, Nat.mod_eq_of_lt hlt, if_pos hend, hsum]
      rw [hj]
      obtain ⟨fl', hl', hfl'⟩ := h.join hl hq hend
        (Function.update_self _ _ _) (fun a ha => Function.update_of_ne ha _ _)
      refine ⟨fl', _, post, by rw [joinHead, if_pos hend], hl', rfl, hfl', fun x hx => ?_⟩
      exact Function.update_of_ne (h.addr_ne y hyl x hx).symm _ _
    · have hj : joinChunk m y.addr = m := by
        simp only [joinChunk, hmy, chunkCell, entry_cons, Nat.mod_eq_of_lt hlt, if_neg hend]
      rw [hj]
      exact ⟨fl, y, n :: post, by rw [joinHead, if_neg hend], hl, rfl, h, fun x hx => rfl⟩

end Steps

/-! ### Calls -/

variable {start fin : Nat} {s s' : UHeap} {live : List (Nat × Nat)} {fl : List Seg}

/-- `malloc` fails without effect or gives a chunk of the free list away, as long
as its splits fit. -/
theorem malloc_spec {fuel n p : Nat} (h : UHeapKept start fin s live fl) (hfin : fin ≤ 2 ^ 47)
    (h0 : 0 < n) (h31 : n < 2 ^ 31)
    (hfits : SplitFits fin fl (live.map (chunkOf s.chunk)) (fixedSize n))
    (hm : malloc fuel s n = some (s', p)) :
    s' = s ∧ p = 0 ∨ ∃ fl' c, p ≠ 0 ∧ Left fl fl' c (chunkOf s'.chunk (p, n)) ∧
      live.map (chunkOf s'.chunk) = live.map (chunkOf s.chunk) ∧
      UHeapKept start fin s' ((p, n) :: live) fl' := by
  have hch := h.chunks.chained
  have hnext : (s.chunk s.heap).next = entry Seg.addr fl none := by
    have hs : s.chunk start = chunkCell (sentinel start) (entry Seg.addr fl none) := hch.1
    rw [h.heap, hs]
    rfl
  rw [malloc, if_neg (by omega), hnext, h.heap] at hm
  obtain ⟨r, hr, hm⟩ := Option.map_eq_some_iff.mp hm
  rcases findChunk_spec hch hr with hnone | ⟨q, y, c, post, hl, rfl, hfit, hfirst⟩
  · rw [hnone] at hm
    obtain ⟨rfl, rfl⟩ := Prod.mk.inj hm
    exact Or.inl ⟨rfl, rfl⟩
  · obtain ⟨rfl, rfl⟩ := Prod.mk.inj hm
    obtain ⟨p, hp, -⟩ := sentinel_split hl
    have hc := h.chunks.packed.inside c (by simp [hp])
    obtain ⟨f, hf, hfs, hnf, h32⟩ := fixedSize_spec h0 h31 (by omega)
    rw [hfs] at hfit
    have hsplit := hfits p c post hp (hfirst p hp) (by rwa [hfs])
    rw [hf] at hsplit hfs ⊢
    obtain ⟨fl', sz, hsz, hleft, hfl', hcell, hsame⟩ :=
      takeChunk_spec h.chunks hfin hl h32 hfs hfit hsplit
    have hmap : live.map (chunkOf (takeChunk s.chunk f y.addr c.addr)) =
        live.map (chunkOf s.chunk) := by
      refine List.map_congr_left fun b hb => ?_
      have := hsame _ (List.mem_map_of_mem hb)
      simp only [chunkOf] at this ⊢
      rw [this]
    have hnew : chunkOf (takeChunk s.chunk f y.addr c.addr) (c.addr + 16, n) =
        ⟨c.addr, sz, true⟩ := by
      simp [chunkOf, hcell]
    refine Or.inr ⟨fl', c, by omega, by rwa [hnew], hmap, rfl, ?_, ?_⟩
    · rw [List.map_cons, hnew, hmap]
      exact hfl'
    · intro b hb
      rcases List.mem_cons.mp hb with rfl | hb
      · rw [hnew]
        exact ⟨by omega, by simp only; omega⟩
      · obtain ⟨h1, h2⟩ := h.served b hb
        have := hsame _ (List.mem_map_of_mem hb)
        simp only [chunkOf] at this h2 ⊢
        rw [this]
        exact ⟨h1, h2⟩

/-- `free` puts the chunk where its address belongs and joins twice at the one
before it. -/
theorem free_spec {fuel : Nat} {b : Nat × Nat} (h : UHeapKept start fin s live fl)
    (hfin : fin ≤ 2 ^ 47) (hb : b ∈ live) (hf : free fuel s b.1 = some s') :
    ∃ q y n post fl', sentinel start :: fl = q ++ y :: n :: post ∧ y.addr < b.1 - 16 ∧
      b.1 - 16 < n.addr ∧
      sentinel start :: fl' = q ++ joinHead (joinHead (y :: chunkOf s.chunk b :: n :: post)) ∧
      (live.erase b).map (chunkOf s'.chunk) = (live.erase b).map (chunkOf s.chunk) ∧
      UHeapKept start fin s' (live.erase b) fl' := by
  obtain ⟨last, hgap, rfl⟩ := Option.map_eq_some_iff.mp hf
  have hheap : toPtr s.heap = some (sentinel start).addr := by
    rw [h.heap]
    by_cases h0 : start = 0
    · rw [h.heap, h0] at hgap
      cases fuel <;> simp [toPtr, findGap] at hgap
    · simp [toPtr, h0, sentinel]
  rw [hheap] at hgap
  obtain ⟨q, y, n, post, hl, rfl, hyd, hdn⟩ := findGap_spec h.chunks.chained hgap
  have hch := h.chunks.chained
  rw [hl, chained_append] at hch
  have hmy : s.chunk y.addr = chunkCell y (some n.addr) := hch.2.1
  have hal : (live.map (chunkOf s.chunk)).Perm
      (chunkOf s.chunk b :: (live.erase b).map (chunkOf s.chunk)) :=
    (List.perm_cons_erase hb).map _
  have hmem : ∀ c ∈ live.erase b, chunkOf s.chunk c ∈ live.map (chunkOf s.chunk) := fun c hc =>
    List.mem_map_of_mem (List.mem_of_mem_erase hc)
  have hyl : y ∈ sentinel start :: fl := by simp [hl]
  -- the chunk that comes back is apart from the other ones given away
  have hbne : ∀ c ∈ live.erase b, c.1 - 16 ≠ b.1 - 16 := by
    intro c hc he
    have hs := h.chunks.packed.perm (hal.append_left fl)
    have hp := (List.pairwise_append.mp hs.apart).2.1
    have hsp := (List.pairwise_cons.mp hp).1 _ (List.mem_map_of_mem hc)
    unfold Seg.Spaced at hsp
    simp only [chunkOf] at hsp
    omega
  obtain ⟨fl₁, hl₁, h₁⟩ := h.chunks.insert
    (update (update s.chunk (b.1 - 16) { s.chunk (b.1 - 16) with next := some n.addr })
      y.addr (chunkCell y (some (b.1 - 16))))
    hl hal hyd hdn (Function.update_self _ _ _)
    (by
      rw [Function.update_of_ne (by simp only [chunkOf]; omega)]
      simp [chunkOf, chunkCell])
    (fun a h1 h2 => by
      rw [Function.update_of_ne h1, Function.update_of_ne (by simpa [chunkOf] using h2)])
  obtain ⟨fl₂, y₂, post₂, hj₂, hl₂, hy₂, h₂, hsame₂⟩ := joinChunk_spec h₁ hfin hl₁
  obtain ⟨fl₃, y₃, post₃, hj₃, hl₃, hy₃, h₃, hsame₃⟩ := joinChunk_spec h₂ hfin hl₂
  rw [hy₂] at h₃ hsame₃
  have hwrite : update (update s.chunk (b.1 - 16)
      { s.chunk (b.1 - 16) with next := (s.chunk y.addr).next }) y.addr
      { update s.chunk (b.1 - 16) { s.chunk (b.1 - 16) with next := (s.chunk y.addr).next } y.addr
        with next := some (b.1 - 16) } =
      update (update s.chunk (b.1 - 16) { s.chunk (b.1 - 16) with next := some n.addr })
        y.addr (chunkCell y (some (b.1 - 16))) := by
    rw [Function.update_of_ne (by omega : y.addr ≠ b.1 - 16), hmy]
    rfl
  simp only [hwrite]
  have hsame : ∀ c ∈ live.erase b, joinChunk (joinChunk (update (update s.chunk (b.1 - 16)
      { s.chunk (b.1 - 16) with next := some n.addr }) y.addr (chunkCell y (some (b.1 - 16))))
      y.addr) y.addr (c.1 - 16) = s.chunk (c.1 - 16) := by
    intro c hc
    have h3 := hsame₃ _ (List.mem_map_of_mem hc)
    have h2 := hsame₂ _ (List.mem_map_of_mem hc)
    have hyc := h.chunks.addr_ne y hyl _ (hmem c hc)
    simp only [chunkOf] at h3 h2 hyc
    rw [h3, h2, Function.update_of_ne hyc.symm, Function.update_of_ne (hbne c hc)]
  have hmap : (live.erase b).map (chunkOf (joinChunk (joinChunk (update (update s.chunk (b.1 - 16)
      { s.chunk (b.1 - 16) with next := some n.addr }) y.addr (chunkCell y (some (b.1 - 16))))
      y.addr) y.addr)) = (live.erase b).map (chunkOf s.chunk) := by
    refine List.map_congr_left fun c hc => ?_
    simp only [chunkOf, hsame c hc]
  refine ⟨q, y, n, post, fl₃, hl, hyd, hdn, by rw [hl₃, hj₂, hj₃], hmap, h.heap, ?_, ?_⟩
  · simp only [hmap]
    exact h₃
  · intro c hc
    obtain ⟨h1, h2⟩ := h.served c (List.mem_of_mem_erase hc)
    simp only [chunkOf, hsame c hc] at h2 ⊢
    exact ⟨h1, h2⟩

end TayHuang
