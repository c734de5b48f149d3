import TayHuang.LinkedTrees
import TayHuang.SignalTree

/-! The pointers of the semaphores' nodes as a linked tree, and what the repairs do
to it. -/

namespace TayHuang

open Function (update)
open SearchTrees

namespace SignalTree

def links (s : SignalTree) (a : Nat) : Link Nat :=
  ⟨(s.node a).left, (s.node a).right, (s.node a).parent⟩

def factors (s : SignalTree) (a : Nat) : Int := (s.node a).factor

/-- The nodes of `t`, each once, are linked up from the root. -/
structure Shape (s : SignalTree) (t : BinaryTree Nat) : Prop where
  root : s.root = rootOf t
  linked : TreeAt s.links none t
  nodup : (inorder t).Nodup

/-- Pointers and factors may differ. -/
structure SameSignals (s s' : SignalTree) : Prop where
  id : ∀ x, (s'.node x).id = (s.node x).id
  signal : ∀ x, (s'.node x).signal = (s.node x).signal
  live : s'.live = s.live
  curId : s'.curId = s.curId

variable {s s' s'' : SignalTree} {a b : Nat} {p : Path Nat}

theorem SameSignals.refl (s : SignalTree) : SameSignals s s :=
  ⟨fun _ => rfl, fun _ => rfl, rfl, rfl⟩

theorem SameSignals.trans (h : SameSignals s s') (h' : SameSignals s' s'') : SameSignals s s'' :=
  ⟨fun x => (h'.id x).trans (h.id x), fun x => (h'.signal x).trans (h.signal x),
    h'.live.trans h.live, h'.curId.trans h.curId⟩

theorem SameSignals.update (s : SignalTree) (a : Nat) {n : SignalNode} (hid : n.id = (s.node a).id)
    (hsignal : n.signal = (s.node a).signal) :
    SameSignals s { s with node := Function.update s.node a n } := by
  refine ⟨fun x => ?_, fun x => ?_, rfl, rfl⟩
  · by_cases hx : x = a
    · simp [hx, hid]
    · simp [hx]
  · by_cases hx : x = a
    · simp [hx, hsignal]
    · simp [hx]

section Setters

variable (s) (a : Nat) (c : Option Nat) (x : Int)

theorem links_setLeft : (s.setLeft a c).links = update s.links a { s.links a with left := c } := by
  funext y
  by_cases hy : y = a
  · simp [links, setLeft, hy]
  · simp [links, setLeft, hy]

theorem links_setRight : (s.setRight a c).links = update s.links a { s.links a with right := c } := by
  funext y
  by_cases hy : y = a
  · simp [links, setRight, hy]
  · simp [links, setRight, hy]

theorem links_setParent :
    (s.setParent a c).links = update s.links a { s.links a with parent := c } := by
  funext y
  by_cases hy : y = a
  · simp [links, setParent, hy]
  · simp [links, setParent, hy]

theorem links_setFactor : (s.setFactor a x).links = s.links := by
  funext y
  by_cases hy : y = a
  · simp [links, setFactor, hy]
  · simp [links, setFactor, hy]

theorem factors_setFactor : (s.setFactor a x).factors = update s.factors a x := by
  funext y
  by_cases hy : y = a
  · simp [factors, setFactor, hy]
  · simp [factors, setFactor, hy]

theorem factors_setLeft : (s.setLeft a c).factors = s.factors := by
  funext y
  by_cases hy : y = a
  · simp [factors, setLeft, hy]
  · simp [factors, setLeft, hy]

theorem factors_setRight : (s.setRight a c).factors = s.factors := by
  funext y
  by_cases hy : y = a
  · simp [factors, setRight, hy]
  · simp [factors, setRight, hy]

theorem factors_setParent : (s.setParent a c).factors = s.factors := by
  funext y
  by_cases hy : y = a
  · simp [factors, setParent, hy]
  · simp [factors, setParent, hy]

theorem same_setLeft : SameSignals s (s.setLeft a c) := .update s a rfl rfl

theorem same_setRight : SameSignals s (s.setRight a c) := .update s a rfl rfl

theorem same_setParent : SameSignals s (s.setParent a c) := .update s a rfl rfl

theorem same_setFactor : SameSignals s (s.setFactor a x) := .update s a rfl rfl

def setChild : Side → Nat → Option Nat → SignalTree
  | .left => s.setLeft
  | .right => s.setRight

variable (side : Side)

theorem links_setChild :
    (s.setChild side a c).links = update s.links a ((s.links a).child side c) := by
  cases side with
  | left => exact links_setLeft s a c
  | right => exact links_setRight s a c

theorem setChild_rest : (s.setChild side a c).root = s.root ∧
    (s.setChild side a c).factors = s.factors ∧ SameSignals s (s.setChild side a c) := by
  cases side with
  | left => exact ⟨rfl, factors_setLeft s a c, same_setLeft s a c⟩
  | right => exact ⟨rfl, factors_setRight s a c, same_setRight s a c⟩

end Setters

theorem mem_of_rootOf {t : BinaryTree Nat} (h : rootOf t = some a) : a ∈ inorder t := by
  cases t with
  | nil => simp [rootOf] at h
  | node b l r =>
    obtain rfl : b = a := Option.some.inj h
    simp [inorder]

theorem mem_of_top (h : top p = some a) : a ∈ before p ++ after p := by
  cases p with
  | nil => simp [top] at h
  | cons u p =>
    obtain ⟨side, b, t⟩ := u
    obtain rfl : b = a := Option.some.inj h
    cases side with
    | left => simp [after]
    | right => simp [before]

/-- The hole of a path is filled by `b` instead of `a`. -/
theorem replaceChild_spec (h : HoleAt s.links (some a) p) (hn : (before p ++ after p).Nodup)
    (ha : a ∉ before p ++ after p) (hroot : s.root = rootAbove (some a) p) (b : Nat) :
    HoleAt (s.replaceChild (top p) a b).links (some b) p ∧
      (s.replaceChild (top p) a b).root = rootAbove (some b) p ∧
      (∀ y, top p ≠ some y → (s.replaceChild (top p) a b).links y = s.links y) ∧
      (s.replaceChild (top p) a b).factors = s.factors ∧
      SameSignals s (s.replaceChild (top p) a b) := by
  cases p with
  | nil => exact ⟨trivial, rfl, fun _ _ => rfl, rfl, ⟨fun _ => rfl, fun _ => rfl, rfl, rfl⟩⟩
  | cons u p =>
    obtain ⟨side, q, t⟩ := u
    cases side with
    | left =>
      have hleft : (s.node q).left = some a := congrArg Link.left h.1
      have he : s.replaceChild (top (⟨.left, q, t⟩ :: p)) a b = s.setLeft q (some b) := if_pos hleft
      rw [he, links_setLeft]
      refine ⟨h.relink hn (Function.update_self ..) fun y _ hy => Function.update_of_ne hy ..,
        hroot, fun y hy => Function.update_of_ne ?_ .., factors_setLeft s q _, same_setLeft s q _⟩
      rintro rfl
      exact hy rfl
    | right =>
      have hleft : (s.node q).left ≠ some a := by
        intro hh
        have ht : rootOf t = some a := (congrArg Link.left h.1).symm.trans hh
        exact ha ((around_perm ⟨.right, q, t⟩ p).mem_iff.mpr (by simp [mem_of_rootOf ht]))
      have he : s.replaceChild (top (⟨.right, q, t⟩ :: p)) a b = s.setRight q (some b) := if_neg hleft
      rw [he, links_setRight]
      refine ⟨h.relink hn (Function.update_self ..) fun y _ hy => Function.update_of_ne hy ..,
        hroot, fun y hy => Function.update_of_ne ?_ .., factors_setRight s q _, same_setRight s q _⟩
      rintro rfl
      exact hy rfl

/-- The nodes around a rotation of `a` with its left child `b` are all different. -/
theorem rotate_apart {ll lr r : BinaryTree Nat}
    (hn : (inorder (fill (.node a (.node b ll lr) r) p)).Nodup) :
    a ≠ b ∧ (inorder lr).Nodup ∧ (before p ++ after p).Nodup ∧
      (∀ y ∈ inorder ll, y ≠ a ∧ y ≠ b ∧ y ∉ inorder lr ∧ y ∉ before p ++ after p) ∧
      (∀ y ∈ inorder lr, y ≠ a ∧ y ≠ b ∧ y ∉ before p ++ after p) ∧
      (∀ y ∈ inorder r, y ≠ a ∧ y ≠ b ∧ y ∉ inorder lr ∧ y ∉ before p ++ after p) ∧
      ∀ y ∈ before p ++ after p, y ≠ a ∧ y ≠ b := by
  have hp := (inorder_fill_perm _ p).nodup hn
  generalize before p ++ after p = c at hp ⊢
  simp only [inorder, List.nodup_append, List.nodup_cons, List.mem_append, List.mem_cons] at hp
  obtain ⟨⟨⟨hll, ⟨hblr, hlr⟩, hl⟩, ⟨har, hr⟩, hlar⟩, hc, hout⟩ := hp
  refine ⟨?_, hlr, hc, fun y hy => ⟨?_, ?_, ?_, ?_⟩, fun y hy => ⟨?_, ?_, ?_⟩,
    fun y hy => ⟨?_, ?_, ?_, ?_⟩, fun y hy => ⟨?_, ?_⟩⟩
  all_goals grind

theorem setParentOf_links {c d : Option Nat} :
    (∀ x, c = some x → (s.setParentOf c d).links x = { s.links x with parent := d }) ∧
      ∀ y, c ≠ some y → (s.setParentOf c d).links y = s.links y := by
  cases c with
  | none => exact ⟨fun x hx => absurd hx (by simp), fun y _ => rfl⟩
  | some x =>
    have he : (s.setParentOf (some x) d).links = _ := links_setParent s x d
    rw [he]
    refine ⟨fun y hy => ?_, fun y hy => Function.update_of_ne ?_ ..⟩
    · obtain rfl := Option.some.inj hy
      exact Function.update_self ..
    · rintro rfl
      exact hy rfl

theorem setParentOf_rest (s : SignalTree) (c d : Option Nat) : (s.setParentOf c d).root = s.root ∧
    (s.setParentOf c d).factors = s.factors ∧ SameSignals s (s.setParentOf c d) := by
  cases c with
  | none => exact ⟨rfl, rfl, .refl s⟩
  | some x => exact ⟨rfl, factors_setParent s x d, same_setParent s x d⟩

/-- How both rotations end: the lifted node is put below the parent of the old one. -/
theorem Shape.lift {told tnew : BinaryTree Nat} (h : Shape s (fill told p)) (ha : rootOf told = some a)
    (hb : rootOf tnew = some b) (horder : inorder tnew = inorder told)
    (htree : TreeAt s'.links (top p) tnew)
    (hkeep : ∀ y ∈ before p ++ after p, s'.links y = s.links y) (hroot : s'.root = s.root) :
    Shape (((s'.replaceChild (top p) a b).setFactor a 0).setFactor b 0) (fill tnew p) ∧
      (((s'.replaceChild (top p) a b).setFactor a 0).setFactor b 0).factors =
        update (update s'.factors a 0) b 0 ∧
      SameSignals s' (((s'.replaceChild (top p) a b).setFactor a 0).setFactor b 0) := by
  obtain ⟨-, hnp, hapart⟩ := List.nodup_append.mp ((inorder_fill_perm told p).nodup h.nodup)
  obtain ⟨-, hhole⟩ := treeAt_fill.mp h.linked
  have hap : a ∉ before p ++ after p := fun hm => hapart a (mem_of_rootOf ha) a hm rfl
  have hroot' : s'.root = rootAbove (some a) p := by
    rw [hroot, h.root, rootOf_fill, ha]
  obtain ⟨hhole', hroot'', hy, hfactors, hsame⟩ :=
    replaceChild_spec ((ha ▸ hhole).congr hkeep) hnp hap hroot' b
  have hoff : ∀ y ∈ inorder tnew, top p ≠ some y := by
    intro y hm ht
    rw [horder] at hm
    exact hapart y hm y (mem_of_top ht) rfl
  refine ⟨⟨?_, ?_, ?_⟩, ?_, ?_⟩
  · rw [rootOf_fill, hb]
    exact hroot''
  · rw [links_setFactor, links_setFactor]
    refine treeAt_fill.mpr ⟨htree.congr fun y hm => hy y (hoff y hm), ?_⟩
    rw [hb]
    exact hhole'
  · rw [inorder_fill, horder, ← inorder_fill]
    exact h.nodup
  · rw [factors_setFactor, factors_setFactor, hfactors]
  · exact hsame.trans ((same_setFactor _ a 0).trans (same_setFactor _ b 0))

/-- The pointers of a rotation before the parent's one is replaced: `c` changes sides between
`a` and its child `b`. -/
def relink (s : SignalTree) (side : Side) (a b : Nat) (c up : Option Nat) : SignalTree :=
  let s := s.setChild side a c
  let s := s.setParentOf c (some a)
  let s := s.setChild side.other b (some a)
  let s := s.setParent a (some b)
  s.setParent b up

theorem relink_links (side : Side) {c : Option Nat} (up : Option Nat) (hab : a ≠ b) (hca : c ≠ some a)
    (hcb : c ≠ some b) :
    (s.relink side a b c up).links a = { (s.links a).child side c with parent := some b } ∧
      (s.relink side a b c up).links b =
        { (s.links b).child side.other (some a) with parent := up } ∧
      (∀ x, c = some x → (s.relink side a b c up).links x = { s.links x with parent := some a }) ∧
      ∀ y, y ≠ a → y ≠ b → c ≠ some y → (s.relink side a b c up).links y = s.links y := by
  obtain ⟨s1, hs1⟩ : ∃ s1, s1 = s.setChild side a c := ⟨_, rfl⟩
  obtain ⟨s2, hs2⟩ : ∃ s2, s2 = s1.setParentOf c (some a) := ⟨_, rfl⟩
  have h1 : s1.links = update s.links a ((s.links a).child side c) := hs1 ▸ links_setChild s a c side
  obtain ⟨h2x, h2y⟩ := setParentOf_links (s := s1) (c := c) (d := some a)
  rw [← hs2] at h2x h2y
  have h3 : (s.relink side a b c up).links = update (update (update s2.links b
      ((s2.links b).child side.other (some a))) a { s2.links a with parent := some b }) b
      { (s2.links b).child side.other (some a) with parent := up } := by
    simp only [relink, ← hs1, ← hs2]
    rw [links_setParent, links_setParent, links_setChild, Function.update_of_ne hab,
      Function.update_of_ne hab.symm, Function.update_self]
  refine ⟨?_, ?_, fun x hx => ?_, fun y hya hyb hyc => ?_⟩
  · rw [h3, Function.update_of_ne hab, Function.update_self, h2y a hca, h1, Function.update_self]
  · rw [h3, Function.update_self, h2y b hcb, h1, Function.update_of_ne hab.symm]
  · have hxa : x ≠ a := fun he => hca (he ▸ hx)
    have hxb : x ≠ b := fun he => hcb (he ▸ hx)
    rw [h3, Function.update_of_ne hxb, Function.update_of_ne hxa, Function.update_of_ne hxb, h2x x hx,
      h1, Function.update_of_ne hxa]
  · rw [h3, Function.update_of_ne hyb, Function.update_of_ne hya, Function.update_of_ne hyb, h2y y hyc,
      h1, Function.update_of_ne hya]

theorem relink_rest (s : SignalTree) (side : Side) (a b : Nat) (c up : Option Nat) :
    (s.relink side a b c up).root = s.root ∧ (s.relink side a b c up).factors = s.factors ∧
      SameSignals s (s.relink side a b c up) := by
  obtain ⟨s1, hs1⟩ : ∃ s1, s1 = s.setChild side a c := ⟨_, rfl⟩
  obtain ⟨h1root, h1factors, h1same⟩ := setChild_rest s a c side
  obtain ⟨s2, hs2⟩ : ∃ s2, s2 = s1.setParentOf c (some a) := ⟨_, rfl⟩
  obtain ⟨h2root, h2factors, h2same⟩ := setParentOf_rest s1 c (some a)
  obtain ⟨h3root, h3factors, h3same⟩ := setChild_rest s2 b (some a) side.other
  rw [← hs1] at h1root h1factors h1same
  rw [← hs2] at h2root h2factors h2same
  simp only [relink, ← hs1, ← hs2]
  refine ⟨h3root.trans (h2root.trans h1root), ?_, ?_⟩
  · rw [factors_setParent, factors_setParent, h3factors, h2factors, h1factors]
  · exact (((h1same.trans h2same).trans h3same).trans (same_setParent _ a _)).trans
      (same_setParent _ b _)

theorem fixLl_spec {ll lr r : BinaryTree Nat} (h : Shape s (fill (.node a (.node b ll lr) r) p)) :
    ∃ s', s.__fixLl a = some s' ∧ Shape s' (fill (.node b ll (.node a lr r)) p) ∧
      s'.factors = update (update s.factors a 0) b 0 ∧ SameSignals s s' := by
  obtain ⟨hab, hnlr, -, hll', hlr', hr', hp'⟩ := rotate_apart h.nodup
  obtain ⟨⟨ha, ⟨hb, hll, hlr⟩, hr⟩, -⟩ := treeAt_fill.mp h.linked
  have haLeft : (s.node a).left = some b := congrArg Link.left ha
  have haParent : (s.node a).parent = top p := congrArg Link.parent ha
  have hbRight : (s.node b).right = rootOf lr := congrArg Link.right hb
  have hca : rootOf lr ≠ some a := fun he => (hlr' a (mem_of_rootOf he)).1 rfl
  have hcb : rootOf lr ≠ some b := fun he => (hlr' b (mem_of_rootOf he)).2.1 rfl
  obtain ⟨s3, hs3⟩ : ∃ s3, s3 = s.relink .left a b (rootOf lr) (top p) := ⟨_, rfl⟩
  have hfix : s.__fixLl a = some (((s3.replaceChild (top p) a b).setFactor a 0).setFactor b 0) := by
    simp only [__fixLl, haLeft, Option.map_some, hbRight, haParent, hs3]
    rfl
  obtain ⟨h3a, h3b, h3x, h3y⟩ := relink_links (s := s) .left (top p) hab hca hcb
  obtain ⟨hroot, hfactors, hsame⟩ := relink_rest s .left a b (rootOf lr) (top p)
  rw [← hs3] at h3a h3b h3x h3y hroot hfactors hsame
  have htree : TreeAt s3.links (top p) (.node b ll (.node a lr r)) := by
    refine ⟨h3b.trans (by rw [hb]; rfl), hll.congr fun y hy => ?_, h3a.trans (by rw [ha]; rfl),
      hlr.move hnlr h3x fun y hy hx => ?_, hr.congr fun y hy => ?_⟩
    · obtain ⟨hya, hyb, hyx, -⟩ := hll' y hy
      exact h3y y hya hyb fun he => hyx (mem_of_rootOf he)
    · exact h3y y (hlr' y hy).1 (hlr' y hy).2.1 hx
    · obtain ⟨hya, hyb, hyx, -⟩ := hr' y hy
      exact h3y y hya hyb fun he => hyx (mem_of_rootOf he)
  have hkeep : ∀ y ∈ before p ++ after p, s3.links y = s.links y := by
    intro y hy
    refine h3y y (hp' y hy).1 (hp' y hy).2 fun he => ?_
    exact (hlr' y (mem_of_rootOf he)).2.2 hy
  have horder : inorder (.node b ll (.node a lr r)) = inorder (.node a (.node b ll lr) r) := by
    simp only [inorder, List.append_assoc, List.cons_append]
  obtain ⟨hshape, hfactors', hsame'⟩ := h.lift rfl rfl horder htree hkeep hroot
  exact ⟨_, hfix, hshape, by rw [hfactors', hfactors], hsame.trans hsame'⟩

theorem fixRr_spec {l rl rr : BinaryTree Nat} (h : Shape s (fill (.node a l (.node b rl rr)) p)) :
    ∃ s', s.__fixRr a = some s' ∧ Shape s' (fill (.node b (.node a l rl) rr) p) ∧
      s'.factors = update (update s.factors a 0) b 0 ∧ SameSignals s s' := by
  have horder : inorder (.node b (.node a l rl) rr) = inorder (.node a l (.node b rl rr)) := by
    simp only [inorder, List.append_assoc, List.cons_append]
  have hnodup : (inorder (fill (.node b (.node a l rl) rr) p)).Nodup := by
    rw [inorder_fill, horder, ← inorder_fill]
    exact h.nodup
  obtain ⟨hba, hnrl, -, hl', hrl', hrr', hp'⟩ := rotate_apart hnodup
  obtain ⟨⟨ha, hl, ⟨hb, hrl, hrr⟩⟩, -⟩ := treeAt_fill.mp h.linked
  have haRight : (s.node a).right = some b := congrArg Link.right ha
  have haParent : (s.node a).parent = top p := congrArg Link.parent ha
  have hbLeft : (s.node b).left = rootOf rl := congrArg Link.left hb
  have hca : rootOf rl ≠ some a := fun he => (hrl' a (mem_of_rootOf he)).2.1 rfl
  have hcb : rootOf rl ≠ some b := fun he => (hrl' b (mem_of_rootOf he)).1 rfl
  obtain ⟨s3, hs3⟩ : ∃ s3, s3 = s.relink .right a b (rootOf rl) (top p) := ⟨_, rfl⟩
  have hfix : s.__fixRr a = some (((s3.replaceChild (top p) a b).setFactor a 0).setFactor b 0) := by
    simp only [__fixRr, haRight, Option.map_some, hbLeft, haParent, hs3]
    rfl
  obtain ⟨h3a, h3b, h3x, h3y⟩ := relink_links (s := s) .right (top p) hba.symm hca hcb
  obtain ⟨hroot, hfactors, hsame⟩ := relink_rest s .right a b (rootOf rl) (top p)
  rw [← hs3] at h3a h3b h3x h3y hroot hfactors hsame
  have htree : TreeAt s3.links (top p) (.node b (.node a l rl) rr) := by
    refine ⟨h3b.trans (by rw [hb]; rfl), ⟨h3a.trans (by rw [ha]; rfl), hl.congr fun y hy => ?_,
      hrl.move hnrl h3x fun y hy hx => ?_⟩, hrr.congr fun y hy => ?_⟩
    · obtain ⟨hyb, hya, hyx, -⟩ := hl' y hy
      exact h3y y hya hyb fun he => hyx (mem_of_rootOf he)
    · exact h3y y (hrl' y hy).2.1 (hrl' y hy).1 hx
    · obtain ⟨hyb, hya, hyx, -⟩ := hrr' y hy
      exact h3y y hya hyb fun he => hyx (mem_of_rootOf he)
  have hkeep : ∀ y ∈ before p ++ after p, s3.links y = s.links y := by
    intro y hy
    refine h3y y (hp' y hy).2 (hp' y hy).1 fun he => ?_
    exact (hrl' y (mem_of_rootOf he)).2.2 hy
  obtain ⟨hshape, hfactors', hsame'⟩ := h.lift rfl rfl horder htree hkeep hroot
  exact ⟨_, hfix, hshape, by rw [hfactors', hfactors], hsame.trans hsame'⟩

/-- Both double rotations lift the inner grandchild `c`. Its factor tells `__fix_lr` the
factors of the other two. -/
theorem fixLr_spec {c : Nat} {bl cl cr r : BinaryTree Nat}
    (h : Shape s (fill (.node a (.node b bl (.node c cl cr)) r) p)) :
    ∃ s', s.__fixLr a = some s' ∧ Shape s' (fill (.node c (.node b bl cl) (.node a cr r)) p) ∧
      s'.factors a = (if s.factors c = -1 then 1 else 0) ∧
      s'.factors b = (if s.factors c = 1 then -1 else 0) ∧ s'.factors c = 0 ∧
      (∀ y, y ≠ a → y ≠ b → y ≠ c → s'.factors y = s.factors y) ∧ SameSignals s s' := by
  have h' : Shape s (fill (.node b bl (.node c cl cr)) (⟨.left, a, r⟩ :: p)) := h
  obtain ⟨s1, hs1, hshape1, hfactors1, hsame1⟩ := fixRr_spec h'
  obtain ⟨s2, hs2, hshape2, hfactors2, hsame2⟩ := fixLl_spec (s := s1) (p := p) (a := a) hshape1
  obtain ⟨hac, hbc, hab⟩ : a ≠ c ∧ b ≠ c ∧ a ≠ b := by
    have hn := (List.nodup_append.mp ((inorder_fill_perm _ p).nodup h.nodup)).1
    simp only [inorder, List.nodup_append, List.nodup_cons, List.mem_append, List.mem_cons] at hn
    grind
  have hleft : (s.node a).left = some b := by
    obtain ⟨⟨ha, -⟩, -⟩ := treeAt_fill.mp h.linked
    exact congrArg Link.left ha
  have hright : (s.node b).right = some c := by
    obtain ⟨⟨-, ⟨hb, -⟩, -⟩, -⟩ := treeAt_fill.mp h.linked
    exact congrArg Link.right hb
  have hfix : s.__fixLr a = some (if s.factors c = 1 then s2.setFactor b (-1)
      else if s.factors c = -1 then s2.setFactor a 1 else s2) := by
    simp only [__fixLr, hleft, hright, Option.bind_some, hs1, hs2, Option.map_some]
    rfl
  have hkeep : ∀ y, y ≠ a → y ≠ b → y ≠ c → s2.factors y = s.factors y := by
    intro y hya hyb hyc
    rw [hfactors2, Function.update_of_ne hyc, Function.update_of_ne hya, hfactors1,
      Function.update_of_ne hyc, Function.update_of_ne hyb]
  have ha2 : s2.factors a = 0 := by
    rw [hfactors2, Function.update_of_ne hac, Function.update_self]
  have hb2 : s2.factors b = 0 := by
    rw [hfactors2, Function.update_of_ne hbc, Function.update_of_ne hab.symm, hfactors1,
      Function.update_of_ne hbc, Function.update_self]
  have hc2 : s2.factors c = 0 := by rw [hfactors2, Function.update_self]
  have hsame := hsame1.trans hsame2
  have hset : ∀ y x, Shape (s2.setFactor y x) (fill (.node c (.node b bl cl) (.node a cr r)) p) :=
    fun y x => ⟨hshape2.root, links_setFactor s2 y x ▸ hshape2.linked, hshape2.nodup⟩
  refine ⟨_, hfix, ?_⟩
  by_cases h1 : s.factors c = 1
  · have hm : s.factors c ≠ -1 := by omega
    simp only [if_pos h1, if_neg hm, factors_setFactor]
    refine ⟨hset b (-1), ?_, Function.update_self .., ?_, fun y hya hyb hyc => ?_,
      hsame.trans (same_setFactor s2 b _)⟩
    · rw [Function.update_of_ne hab, ha2]
    · rw [Function.update_of_ne hbc.symm, hc2]
    · rw [Function.update_of_ne hyb, hkeep y hya hyb hyc]
  · by_cases hm : s.factors c = -1
    · simp only [if_neg h1, if_pos hm, factors_setFactor]
      refine ⟨hset a 1, Function.update_self .., ?_, ?_, fun y hya hyb hyc => ?_,
        hsame.trans (same_setFactor s2 a _)⟩
      · rw [Function.update_of_ne hab.symm, hb2]
      · rw [Function.update_of_ne hac.symm, hc2]
      · rw [Function.update_of_ne hya, hkeep y hya hyb hyc]
    · simp only [if_neg h1, if_neg hm]
      exact ⟨hshape2, ha2, hb2, hc2, hkeep, hsame⟩

theorem fixRl_spec {c : Nat} {l cl cr br : BinaryTree Nat}
    (h : Shape s (fill (.node a l (.node b (.node c cl cr) br)) p)) :
    ∃ s', s.__fixRl a = some s' ∧ Shape s' (fill (.node c (.node a l cl) (.node b cr br)) p) ∧
      s'.factors a = 0 ∧ s'.factors b = 0 ∧ s'.factors c = 0 ∧
      (∀ y, y ≠ a → y ≠ b → y ≠ c → s'.factors y = s.factors y) ∧ SameSignals s s' := by
  have h' : Shape s (fill (.node b (.node c cl cr) br) (⟨.right, a, l⟩ :: p)) := h
  obtain ⟨s1, hs1, hshape1, hfactors1, hsame1⟩ := fixLl_spec h'
  obtain ⟨s2, hs2, hshape2, hfactors2, hsame2⟩ := fixRr_spec (s := s1) (p := p) (a := a) hshape1
  obtain ⟨hac, hbc, hab⟩ : a ≠ c ∧ b ≠ c ∧ a ≠ b := by
    have hn := (List.nodup_append.mp ((inorder_fill_perm _ p).nodup h.nodup)).1
    simp only [inorder, List.nodup_append, List.nodup_cons, List.mem_append, List.mem_cons] at hn
    grind
  have hright : (s.node a).right = some b := by
    obtain ⟨⟨ha, -⟩, -⟩ := treeAt_fill.mp h.linked
    exact congrArg Link.right ha
  have hfix : s.__fixRl a = some s2 := by
    simp only [__fixRl, hright, Option.bind_some, hs1, hs2]
  refine ⟨s2, hfix, hshape2, ?_, ?_, ?_, fun y hya hyb hyc => ?_, hsame1.trans hsame2⟩
  · rw [hfactors2, Function.update_of_ne hac, Function.update_self]
  · rw [hfactors2, Function.update_of_ne hbc, Function.update_of_ne hab.symm, hfactors1,
      Function.update_of_ne hbc, Function.update_self]
  · rw [hfactors2, Function.update_self]
  · rw [hfactors2, Function.update_of_ne hyc, Function.update_of_ne hya, hfactors1,
      Function.update_of_ne hyc, Function.update_of_ne hyb]

end SignalTree

end TayHuang
