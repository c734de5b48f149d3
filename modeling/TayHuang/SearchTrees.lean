import Mathlib.Data.Tree.Basic
import Mathlib.Algebra.Order.Ring.Int
import Mathlib.Data.List.Basic

/-! Binary trees with a position in them: the path from a hole up to the root, the
order of the nodes, and balance factors that a labelling of the nodes tells. -/

namespace SearchTrees

variable {α : Type*}

/-- The nodes from left to right. -/
def inorder : BinaryTree α → List α
  | .nil => []
  | .node a l r => inorder l ++ a :: inorder r

inductive Side
  | left
  | right
  deriving DecidableEq, Repr

def Side.other : Side → Side
  | .left => .right
  | .right => .left

/-- A node above a hole: the side of the hole, the node, and its other subtree. -/
structure Above (α : Type*) where
  side : Side
  value : α
  sibling : BinaryTree α

/-- From a hole up to the root. -/
abbrev Path (α : Type*) := List (Above α)

def Above.fill (u : Above α) (t : BinaryTree α) : BinaryTree α :=
  match u.side with
  | .left => .node u.value t u.sibling
  | .right => .node u.value u.sibling t

def fill (t : BinaryTree α) : Path α → BinaryTree α
  | [] => t
  | u :: p => fill (u.fill t) p

/-- The nodes to the left of a hole. -/
def before : Path α → List α
  | [] => []
  | ⟨.left, _, _⟩ :: p => before p
  | ⟨.right, a, s⟩ :: p => before p ++ (inorder s ++ [a])

/-- The nodes to the right of a hole. -/
def after : Path α → List α
  | [] => []
  | ⟨.left, a, s⟩ :: p => (a :: inorder s) ++ after p
  | ⟨.right, _, _⟩ :: p => after p

variable {t l r : BinaryTree α} {p : Path α} {a b : α}

theorem length_inorder (t : BinaryTree α) : (inorder t).length = t.numNodes := by
  induction t with
  | nil => rfl
  | node a l r ihl ihr =>
    simp only [inorder, BinaryTree.numNodes, List.length_append, List.length_cons, ihl, ihr]
    omega

theorem inorder_fill (t : BinaryTree α) (p : Path α) :
    inorder (fill t p) = before p ++ (inorder t ++ after p) := by
  induction p generalizing t with
  | nil => simp [fill, before, after]
  | cons u p ih =>
    obtain ⟨side, a, s⟩ := u
    rw [fill, ih]
    cases side with
    | left => simp [Above.fill, before, after, inorder]
    | right => simp [Above.fill, before, after, inorder]

theorem around_perm (u : Above α) (p : Path α) : (before (u :: p) ++ after (u :: p)).Perm
    (u.value :: (inorder u.sibling ++ (before p ++ after p))) := by
  obtain ⟨side, a, s⟩ := u
  cases side with
  | left =>
    simp only [before, after]
    rw [← List.append_assoc, ← List.cons_append]
    refine (List.perm_append_comm.append_right (after p)).trans ?_
    rw [List.append_assoc]
  | right =>
    simp only [before, after]
    have hs : (before p ++ (inorder s ++ [a])).Perm (a :: inorder s ++ before p) :=
      List.perm_append_comm.trans ((List.perm_append_singleton a _).append_right _)
    refine (hs.append_right (after p)).trans ?_
    rw [List.append_assoc, List.cons_append]

theorem inorder_fill_perm (t : BinaryTree α) (p : Path α) :
    (inorder (fill t p)).Perm (inorder t ++ (before p ++ after p)) := by
  rw [inorder_fill, ← List.append_assoc, ← List.append_assoc]
  exact List.perm_append_comm.append_right (after p)

theorem left_of_before (h : before p = []) : ∀ u ∈ p, u.side = .left := by
  induction p with
  | nil => simp
  | cons u p ih =>
    obtain ⟨side, a, s⟩ := u
    cases side with
    | left =>
      intro v hv
      rcases List.mem_cons.mp hv with rfl | hv
      · rfl
      · exact ih h v hv
    | right => simp [before] at h

/-- Every node knows by how much its right subtree is higher, at most by one. -/
def Balanced (factor : α → Int) : BinaryTree α → Prop
  | .nil => True
  | .node a l r => factor a = (r.height : Int) - l.height ∧ -1 ≤ factor a ∧ factor a ≤ 1 ∧
      Balanced factor l ∧ Balanced factor r

/-- The nodes above a hole do, for a subtree of height `h` in it. -/
def Hung (factor : α → Int) (h : Nat) : Path α → Prop
  | [] => True
  | ⟨.left, a, s⟩ :: p => factor a = (s.height : Int) - h ∧ -1 ≤ factor a ∧ factor a ≤ 1 ∧
      Balanced factor s ∧ Hung factor (max h s.height + 1) p
  | ⟨.right, a, s⟩ :: p => factor a = (h : Int) - s.height ∧ -1 ≤ factor a ∧ factor a ≤ 1 ∧
      Balanced factor s ∧ Hung factor (max s.height h + 1) p

variable {factor factor' : α → Int}

theorem balanced_fill : Balanced factor (fill t p) ↔
    Balanced factor t ∧ Hung factor t.height p := by
  induction p generalizing t with
  | nil => simp [fill, Hung]
  | cons u p ih =>
    obtain ⟨side, a, s⟩ := u
    rw [fill, ih]
    cases side with
    | left =>
      simp only [Above.fill, Balanced, Hung, BinaryTree.height]
      tauto
    | right =>
      simp only [Above.fill, Balanced, Hung, BinaryTree.height]
      tauto

theorem Balanced.congr (h : Balanced factor t) (he : ∀ a ∈ inorder t, factor' a = factor a) :
    Balanced factor' t := by
  induction t with
  | nil => trivial
  | node a l r ihl ihr =>
    obtain ⟨h1, h2, h3, hl, hr⟩ := h
    have ha := he a (by simp [inorder])
    refine ⟨ha.trans h1, ha ▸ h2, ha ▸ h3, ihl hl fun b hb => he b ?_, ihr hr fun b hb => he b ?_⟩
    · simp [inorder, hb]
    · simp [inorder, hb]

theorem Hung.congr {h : Nat} (hp : Hung factor h p)
    (he : ∀ a ∈ before p ++ after p, factor' a = factor a) : Hung factor' h p := by
  induction p generalizing h with
  | nil => trivial
  | cons u p ih =>
    obtain ⟨side, a, s⟩ := u
    cases side with
    | left =>
      obtain ⟨h1, h2, h3, hs, hp⟩ := hp
      have ha := he a (by simp [after])
      refine ⟨ha.trans h1, ha ▸ h2, ha ▸ h3, hs.congr fun b hb => he b ?_, ih hp fun b hb => he b ?_⟩
      · simp [after, hb]
      · rcases List.mem_append.mp hb with hb | hb
        · simp [before, hb]
        · simp [after, hb]
    | right =>
      obtain ⟨h1, h2, h3, hs, hp⟩ := hp
      have ha := he a (by simp [before])
      refine ⟨ha.trans h1, ha ▸ h2, ha ▸ h3, hs.congr fun b hb => he b ?_, ih hp fun b hb => he b ?_⟩
      · simp [before, hb]
      · rcases List.mem_append.mp hb with hb | hb
        · simp [before, hb]
        · simp [after, hb]

/-- What a higher subtree on a side does to the factor. -/
def Side.weight : Side → Int
  | .left => -1
  | .right => 1

theorem hung_cons {u : Above α} {h : Nat} : Hung factor h (u :: p) ↔
    factor u.value = u.side.weight * (h - u.sibling.height) ∧ -1 ≤ factor u.value ∧
      factor u.value ≤ 1 ∧ Balanced factor u.sibling ∧
      Hung factor (max h u.sibling.height + 1) p := by
  obtain ⟨side, a, s⟩ := u
  cases side with
  | left =>
    simp only [Hung, Side.weight, Int.neg_mul, Int.one_mul, Int.neg_sub]
  | right =>
    simp only [Hung, Side.weight, Int.one_mul, Nat.max_comm]

theorem balanced_above {u : Above α} : Balanced factor (u.fill t) ↔
    factor u.value = u.side.weight * (t.height - u.sibling.height) ∧ -1 ≤ factor u.value ∧
      factor u.value ≤ 1 ∧ Balanced factor t ∧ Balanced factor u.sibling := by
  obtain ⟨side, a, s⟩ := u
  cases side with
  | left =>
    simp only [Above.fill, Balanced, Side.weight, Int.neg_mul, Int.one_mul, Int.neg_sub]
  | right =>
    simp only [Above.fill, Balanced, Side.weight, Int.one_mul, and_comm]

theorem height_above (u : Above α) (t : BinaryTree α) :
    (u.fill t).height = max t.height u.sibling.height + 1 := by
  obtain ⟨side, a, s⟩ := u
  cases side with
  | left => rfl
  | right => exact congrArg (· + 1) (Nat.max_comm _ _)

/-- The lower subtree of a node has caught up. -/
theorem balanced_even {u : Above α} (ht : Balanced factor t) (hs : Balanced factor u.sibling)
    (hu : factor u.value = 0) (hheight : t.height = u.sibling.height)
    (hhung : Hung factor (u.sibling.height + 1) p) : Balanced factor (fill t (u :: p)) := by
  refine balanced_fill.mpr ⟨ht, hung_cons.mpr ⟨?_, by omega, by omega, hs, ?_⟩⟩
  · rw [hu, hheight, Int.sub_self, Int.mul_zero]
  · rw [hheight, Nat.max_self]
    exact hhung

/-- A subtree of an even node has grown. -/
theorem balanced_grown {u : Above α} (ht : Balanced factor t) (hs : Balanced factor u.sibling)
    (hu : factor u.value = u.side.weight) (hheight : t.height = u.sibling.height + 1) :
    Balanced factor (u.fill t) ∧ (u.fill t).height = u.sibling.height + 2 := by
  have hone : (t.height : Int) - u.sibling.height = 1 := by omega
  have hw : u.side.weight = -1 ∨ u.side.weight = 1 := by
    cases u.side with
    | left => exact .inl rfl
    | right => exact .inr rfl
  refine ⟨balanced_above.mpr ⟨?_, by omega, by omega, ht, hs⟩, ?_⟩
  · rw [hu, hone, Int.mul_one]
  · rw [height_above]
    omega

/-- A subtree is replaced, and nothing changes above it. -/
theorem balanced_lift {told tnew : BinaryTree α} {h : Nat} (hn : (inorder (fill told p)).Nodup)
    (hkeep : ∀ a, a ∉ inorder told → factor' a = factor a) (hheight : tnew.height = h)
    (hhung : Hung factor h p) : Balanced factor' (fill tnew p) ↔ Balanced factor' tnew := by
  obtain ⟨-, -, hapart⟩ := List.nodup_append.mp ((inorder_fill_perm told p).nodup hn)
  have hhung' : Hung factor' tnew.height p :=
    hheight ▸ hhung.congr fun b hb => hkeep b fun hm => hapart b hm b hb rfl
  rw [balanced_fill]
  exact and_iff_left hhung'

/-- The rotation that lifts the left child `b` of `a`. -/
theorem Balanced.rotate {ll lr : BinaryTree α} {h : Nat} (hll : Balanced factor ll)
    (hlr : Balanced factor lr) (hr : Balanced factor r) (h1 : ll.height = h + 1)
    (h2 : lr.height = h) (h3 : r.height = h) (ha : factor a = 0) (hb : factor b = 0) :
    Balanced factor (.node b ll (.node a lr r)) ∧
      (BinaryTree.node b ll (.node a lr r)).height = h + 2 := by
  simp only [Balanced, BinaryTree.height, ha, hb]
  refine ⟨⟨?_, by omega, by omega, hll, ⟨?_, by omega, by omega, hlr, hr⟩⟩, ?_⟩
  · omega
  · omega
  · omega

/-- The rotation that lifts the right child `b` of `a`. -/
theorem Balanced.rotate' {rl rr : BinaryTree α} {h : Nat} (hl : Balanced factor l)
    (hrl : Balanced factor rl) (hrr : Balanced factor rr) (h1 : l.height = h) (h2 : rl.height = h)
    (h3 : rr.height = h + 1) (ha : factor a = 0) (hb : factor b = 0) :
    Balanced factor (.node b (.node a l rl) rr) ∧
      (BinaryTree.node b (.node a l rl) rr).height = h + 2 := by
  simp only [Balanced, BinaryTree.height, ha, hb]
  refine ⟨⟨?_, by omega, by omega, ⟨?_, by omega, by omega, hl, hrl⟩, hrr⟩, ?_⟩
  · omega
  · omega
  · omega

/-- The double rotation that lifts the inner grandchild `c`: the subtrees of `c` are divided
between the other two nodes, so one of these is uneven if `c` was. -/
theorem balanced_double {c : α} {tl tr : BinaryTree α} {h : Nat} (hl : Balanced factor l)
    (htl : Balanced factor tl) (htr : Balanced factor tr) (hr : Balanced factor r)
    (h1 : l.height = h) (h2 : max tl.height tr.height = h) (h3 : r.height = h)
    (hc : factor c = 0) : Balanced factor (.node c (.node a l tl) (.node b tr r)) ↔
      factor a = (tl.height : Int) - h ∧ factor b = (h : Int) - tr.height ∧
        -1 ≤ (tr.height : Int) - tl.height ∧ (tr.height : Int) - tl.height ≤ 1 := by
  simp only [Balanced, BinaryTree.height, hc, h1, h3]
  constructor
  · rintro ⟨-, -, -, ⟨ha, hlow, -⟩, hb, -, hhigh, -⟩
    exact ⟨ha, hb, by omega, by omega⟩
  · rintro ⟨ha, hb, hlow, hhigh⟩
    refine ⟨?_, by omega, by omega, ⟨ha, ?_, ?_, hl, htl⟩, hb, ?_, ?_, htr, hr⟩
    · omega
    · omega
    · omega
    · omega
    · omega

/-- The way down from a tree to a place below it, on top of the path that leads there. -/
def wayDown (left : α → Bool) : BinaryTree α → Path α → Path α
  | .nil, p => p
  | .node a l r, p =>
    if left a then wayDown left l (⟨.left, a, r⟩ :: p) else wayDown left r (⟨.right, a, l⟩ :: p)

theorem fill_wayDown (left : α → Bool) (t : BinaryTree α) (p : Path α) :
    fill .nil (wayDown left t p) = fill t p := by
  induction t generalizing p with
  | nil => rfl
  | node a l r ihl ihr =>
    rw [wayDown]
    split
    · exact ihl _
    · exact ihr _

theorem wayDown_congr {left left' : α → Bool} (h : ∀ a ∈ inorder t, left' a = left a) (p : Path α) :
    wayDown left' t p = wayDown left t p := by
  induction t generalizing p with
  | nil => rfl
  | node a l r ihl ihr =>
    have ha := h a (by simp [inorder])
    have hl := fun p => ihl (fun b hb => h b (by simp [inorder, hb])) p
    have hr := fun p => ihr (fun b hb => h b (by simp [inorder, hb])) p
    rw [wayDown, wayDown, ha, hl, hr]

/-- From its root on the tree leans along `ways`, to a node that is even. -/
def Leaning (factor : α → Int) : BinaryTree α → List Side → Prop
  | .nil, _ => False
  | .node a _ _, [] => factor a = 0
  | .node a l _, .left :: ways => factor a = -1 ∧ Leaning factor l ways
  | .node a _ r, .right :: ways => factor a = 1 ∧ Leaning factor r ways

/-- The nodes above are even up to one that leans to the right, and from it `ways` go right,
left and on to a further node. -/
def Zigzag (factor : α → Int) : List Side → Path α → Prop
  | _, [] => False
  | ways, u :: p =>
    if factor u.value = 0 then Zigzag factor (u.side :: ways) p
    else u.side = .right ∧ factor u.value = 1 ∧ ways.head? = some .left ∧ 1 < ways.length

theorem Leaning.above {u : Above α} {ways : List Side} (h : Leaning factor t ways)
    (hu : factor u.value = u.side.weight) : Leaning factor (u.fill t) (u.side :: ways) := by
  obtain ⟨side, a, s⟩ := u
  cases side with
  | left => exact ⟨hu, h⟩
  | right => exact ⟨hu, h⟩

theorem Leaning.congr {ways : List Side} (h : Leaning factor t ways)
    (he : ∀ a ∈ inorder t, factor' a = factor a) : Leaning factor' t ways := by
  induction t generalizing ways with
  | nil => exact h
  | node a l r ihl ihr =>
    have ha := he a (by simp [inorder])
    rcases ways with _ | ⟨_ | _, ways⟩
    · exact ha.trans h
    · exact ⟨ha.trans h.1, ihl h.2 fun b hb => he b (by simp [inorder, hb])⟩
    · exact ⟨ha.trans h.1, ihr h.2 fun b hb => he b (by simp [inorder, hb])⟩

theorem not_zigzag_left {ways : List Side} (h : ∀ u ∈ p, u.side = .left) :
    ¬ Zigzag factor ways p := by
  induction p generalizing ways with
  | nil => exact id
  | cons u p ih =>
    have hu := h u (List.mem_cons_self ..)
    rw [Zigzag]
    split
    · exact ih fun v hv => h v (List.mem_cons_of_mem _ hv)
    · simp [hu]

theorem zigzag_congr {ways : List Side} (he : ∀ a ∈ before p ++ after p, factor' a = factor a) :
    Zigzag factor' ways p ↔ Zigzag factor ways p := by
  induction p generalizing ways with
  | nil => rfl
  | cons u p ih =>
    have hmem : ∀ a, a = u.value ∨ a ∈ before p ++ after p → a ∈ before (u :: p) ++ after (u :: p) :=
      fun a ha => (around_perm u p).mem_iff.mpr (by simpa using ha.imp id fun h => .inr (by simpa using h))
    have hu := he u.value (hmem _ (.inl rfl))
    simp only [Zigzag, hu, ih fun a ha => he a (hmem a (.inr ha))]

end SearchTrees
