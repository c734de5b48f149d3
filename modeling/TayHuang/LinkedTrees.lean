import TayHuang.SearchTrees

/-! Trees laid out in memory with pointers to the children and to the parent. -/

namespace SearchTrees

variable {α : Type*}

/-- The pointers of a node. -/
structure Link (α : Type*) where
  left : Option α
  right : Option α
  parent : Option α

def rootOf : BinaryTree α → Option α
  | .nil => none
  | .node a _ _ => some a

/-- The nodes of the tree are linked up, and its root points up to `up`. -/
def TreeAt (m : α → Link α) : Option α → BinaryTree α → Prop
  | _, .nil => True
  | up, .node a l r => m a = ⟨rootOf l, rootOf r, up⟩ ∧ TreeAt m (some a) l ∧ TreeAt m (some a) r

/-- The node above a hole. -/
def top (p : Path α) : Option α := p.head?.map Above.value

/-- The nodes above a hole are linked up, and point down to `c`. -/
def HoleAt (m : α → Link α) : Option α → Path α → Prop
  | _, [] => True
  | c, ⟨.left, a, s⟩ :: p =>
    m a = ⟨c, rootOf s, top p⟩ ∧ TreeAt m (some a) s ∧ HoleAt m (some a) p
  | c, ⟨.right, a, s⟩ :: p =>
    m a = ⟨rootOf s, c, top p⟩ ∧ TreeAt m (some a) s ∧ HoleAt m (some a) p

/-- The link with another child. -/
def Link.child (n : Link α) (side : Side) (c : Option α) : Link α :=
  match side with
  | .left => { n with left := c }
  | .right => { n with right := c }

/-- The root of a tree with a hole that `c` points into. -/
def rootAbove : Option α → Path α → Option α
  | c, [] => c
  | _, u :: p => rootAbove (some u.value) p

variable {m m' : α → Link α} {t : BinaryTree α} {p : Path α} {c up : Option α}

theorem rootOf_fill (t : BinaryTree α) (p : Path α) : rootOf (fill t p) = rootAbove (rootOf t) p := by
  induction p generalizing t with
  | nil => rfl
  | cons u p ih =>
    obtain ⟨side, a, s⟩ := u
    rw [fill, ih]
    cases side with
    | left => rfl
    | right => rfl

theorem rootOf_above (u : Above α) (t : BinaryTree α) : rootOf (u.fill t) = some u.value := by
  obtain ⟨side, a, s⟩ := u
  cases side with
  | left => rfl
  | right => rfl

/-- Below a leaning root, the inner grandchild is even only where the leaning ends. -/
theorem Leaning.inner {factor : α → Int} {a : α} {l r : BinaryTree α} {w : Side} {ways : List Side}
    (h : Leaning factor (.node a l r) (w :: ways)) :
    (factor a = -1 → ∀ c, rootOf l = some c → factor c = 0) ↔
      ¬ ((w :: ways).head? = some .left ∧ 1 < (w :: ways).length) := by
  cases w with
  | right =>
    have hne : factor a ≠ -1 := by
      rw [h.1]
      decide
    simp [hne]
  | left =>
    obtain ⟨ha, hl⟩ := h
    cases l with
    | nil => exact hl.elim
    | node c cl cr =>
      rcases ways with _ | ⟨_ | _, ways⟩
      · have hc : factor c = 0 := hl
        simp [rootOf, hc]
      · have hc : factor c = -1 := hl.1
        simp [rootOf, ha, hc]
      · have hc : factor c = 1 := hl.1
        simp [rootOf, ha, hc]

theorem treeAt_fill : TreeAt m none (fill t p) ↔ TreeAt m (top p) t ∧ HoleAt m (rootOf t) p := by
  induction p generalizing t with
  | nil => simp [fill, top, HoleAt]
  | cons u p ih =>
    obtain ⟨side, a, s⟩ := u
    rw [fill, ih]
    cases side with
    | left =>
      simp only [Above.fill, TreeAt, rootOf, HoleAt, top, List.head?_cons, Option.map_some]
      tauto
    | right =>
      simp only [Above.fill, TreeAt, rootOf, HoleAt, top, List.head?_cons, Option.map_some]
      tauto

theorem TreeAt.unique {t' : BinaryTree α} {up' : Option α} (h : TreeAt m up t)
    (h' : TreeAt m up' t') (hroot : rootOf t = rootOf t') : t = t' := by
  induction t generalizing t' up up' with
  | nil =>
    cases t' with
    | nil => rfl
    | node b l r => simp [rootOf] at hroot
  | node a l r ihl ihr =>
    cases t' with
    | nil => simp [rootOf] at hroot
    | node b l' r' =>
      obtain rfl : a = b := Option.some.inj hroot
      obtain ⟨ha, hl, hr⟩ := h
      obtain ⟨hb, hl', hr'⟩ := h'
      have hlink := ha.symm.trans hb
      rw [ihl hl hl' (congrArg Link.left hlink), ihr hr hr' (congrArg Link.right hlink)]

theorem TreeAt.congr (h : TreeAt m up t) (he : ∀ a ∈ inorder t, m' a = m a) : TreeAt m' up t := by
  induction t generalizing up with
  | nil => trivial
  | node a l r ihl ihr =>
    obtain ⟨ha, hl, hr⟩ := h
    refine ⟨(he a (by simp [inorder])).trans ha, ihl hl fun b hb => he b ?_,
      ihr hr fun b hb => he b ?_⟩
    · simp [inorder, hb]
    · simp [inorder, hb]

theorem TreeAt.move {up' : Option α} (h : TreeAt m up t) (hn : (inorder t).Nodup)
    (hroot : ∀ a, rootOf t = some a → m' a = { m a with parent := up' })
    (he : ∀ a ∈ inorder t, rootOf t ≠ some a → m' a = m a) : TreeAt m' up' t := by
  cases t with
  | nil => trivial
  | node a l r =>
    obtain ⟨ha, hl, hr⟩ := h
    have hd := List.nodup_append.mp hn
    have hnl : ∀ b ∈ inorder l, b ≠ a := fun b hb => hd.2.2 b hb a (by simp)
    have hnr : ∀ b ∈ inorder r, b ≠ a := by
      rintro b hb rfl
      exact (List.nodup_cons.mp hd.2.1).1 hb
    refine ⟨?_, hl.congr fun b hb => he b (by simp [inorder, hb]) ?_,
      hr.congr fun b hb => he b (by simp [inorder, hb]) ?_⟩
    · rw [hroot a rfl, ha]
    · exact fun hh => hnl b hb (Option.some.inj hh).symm
    · exact fun hh => hnr b hb (Option.some.inj hh).symm

theorem HoleAt.congr (h : HoleAt m c p) (he : ∀ a ∈ before p ++ after p, m' a = m a) :
    HoleAt m' c p := by
  induction p generalizing c with
  | nil => trivial
  | cons u p ih =>
    obtain ⟨side, a, s⟩ := u
    cases side with
    | left =>
      obtain ⟨ha, hs, hp⟩ := h
      refine ⟨(he a (by simp [after])).trans ha, hs.congr fun b hb => he b ?_,
        ih hp fun b hb => he b ?_⟩
      · simp [after, hb]
      · rcases List.mem_append.mp hb with hb | hb
        · simp [before, hb]
        · simp [after, hb]
    | right =>
      obtain ⟨ha, hs, hp⟩ := h
      refine ⟨(he a (by simp [before])).trans ha, hs.congr fun b hb => he b ?_,
        ih hp fun b hb => he b ?_⟩
      · simp [before, hb]
      · rcases List.mem_append.mp hb with hb | hb
        · simp [before, hb]
        · simp [after, hb]

theorem HoleAt.relink {u : Above α} {c' : Option α} (h : HoleAt m c (u :: p))
    (hn : (before (u :: p) ++ after (u :: p)).Nodup)
    (hu : m' u.value = (m u.value).child u.side c')
    (he : ∀ y ∈ before (u :: p) ++ after (u :: p), y ≠ u.value → m' y = m y) :
    HoleAt m' c' (u :: p) := by
  have hperm := around_perm u p
  have hnot := (List.nodup_cons.mp (hperm.nodup hn)).1
  have hin : ∀ y ∈ inorder u.sibling ++ (before p ++ after p), m' y = m y := by
    intro y hy
    refine he y (hperm.mem_iff.mpr (List.mem_cons_of_mem _ hy)) ?_
    rintro rfl
    exact hnot hy
  obtain ⟨side, a, s⟩ := u
  cases side with
  | left =>
    obtain ⟨ha, hs, hp⟩ := h
    refine ⟨hu.trans ?_, hs.congr fun y hy => hin y (List.mem_append_left _ hy),
      hp.congr fun y hy => hin y (List.mem_append_right _ hy)⟩
    simp only [Link.child, ha]
  | right =>
    obtain ⟨ha, hs, hp⟩ := h
    refine ⟨hu.trans ?_, hs.congr fun y hy => hin y (List.mem_append_left _ hy),
      hp.congr fun y hy => hin y (List.mem_append_right _ hy)⟩
    simp only [Link.child, ha]

end SearchTrees
