import TayHuang.SignalTreeShape

/-! The repairs of a balanced tree in which one subtree has become too high. -/

namespace TayHuang

open SearchTrees

namespace SignalTree

variable {s : SignalTree} {a x c n : Nat} {p : Path Nat} {t l r tl tr sib : BinaryTree Nat}
  {side w : Side} {ways : List Side}

theorem fixLl_balanced (h : Shape s (fill (.node a (.node x l r) sib) p))
    (hl : Balanced s.factors l) (hr : Balanced s.factors r) (hsib : Balanced s.factors sib)
    (h1 : l.height = sib.height + 1) (h2 : r.height = sib.height)
    (hhung : Hung s.factors (sib.height + 2) p) :
    ∃ s' t', s.__fixLl a = some s' ∧ Shape s' t' ∧
      inorder t' = inorder (fill (.node a (.node x l r) sib) p) ∧ SameSignals s s' ∧
      Balanced s'.factors t' := by
  obtain ⟨hax, -, -, hl', hr', hsib', -⟩ := rotate_apart h.nodup
  obtain ⟨s', hfix, hshape, hfactors, hsame⟩ := fixLl_spec h
  have hkeep : ∀ y, y ≠ a → y ≠ x → s'.factors y = s.factors y := by
    intro y hya hyx
    rw [hfactors, Function.update_of_ne hyx, Function.update_of_ne hya]
  have ha0 : s'.factors a = 0 := by
    rw [hfactors, Function.update_of_ne hax, Function.update_self]
  have hx0 : s'.factors x = 0 := by rw [hfactors, Function.update_self]
  obtain ⟨hbal, hheight⟩ := Balanced.rotate
    (hl.congr fun y hy => hkeep y (hl' y hy).1 (hl' y hy).2.1)
    (hr.congr fun y hy => hkeep y (hr' y hy).1 (hr' y hy).2.1)
    (hsib.congr fun y hy => hkeep y (hsib' y hy).1 (hsib' y hy).2.1) h1 h2 rfl ha0 hx0
  refine ⟨s', _, hfix, hshape, ?_, hsame,
    (balanced_lift h.nodup (fun y hy => hkeep y ?_ ?_) hheight hhung).mpr hbal⟩
  · simp only [inorder_fill, inorder, List.append_assoc, List.cons_append]
  · rintro rfl
    simp [inorder] at hy
  · rintro rfl
    simp [inorder] at hy

theorem fixRr_balanced (h : Shape s (fill (.node a sib (.node x l r)) p))
    (hl : Balanced s.factors l) (hr : Balanced s.factors r) (hsib : Balanced s.factors sib)
    (h1 : l.height = sib.height) (h2 : r.height = sib.height + 1)
    (hhung : Hung s.factors (sib.height + 2) p) :
    ∃ s' t', s.__fixRr a = some s' ∧ Shape s' t' ∧
      inorder t' = inorder (fill (.node a sib (.node x l r)) p) ∧ SameSignals s s' ∧
      Balanced s'.factors t' := by
  obtain ⟨s', hfix, hshape, hfactors, hsame⟩ := fixRr_spec h
  obtain ⟨hxa, -, -, hsib', hl', hr', -⟩ := rotate_apart hshape.nodup
  have hkeep : ∀ y, y ≠ a → y ≠ x → s'.factors y = s.factors y := by
    intro y hya hyx
    rw [hfactors, Function.update_of_ne hyx, Function.update_of_ne hya]
  have ha0 : s'.factors a = 0 := by
    rw [hfactors, Function.update_of_ne hxa.symm, Function.update_self]
  have hx0 : s'.factors x = 0 := by rw [hfactors, Function.update_self]
  obtain ⟨hbal, hheight⟩ := Balanced.rotate'
    (hsib.congr fun y hy => hkeep y (hsib' y hy).2.1 (hsib' y hy).1)
    (hl.congr fun y hy => hkeep y (hl' y hy).2.1 (hl' y hy).1)
    (hr.congr fun y hy => hkeep y (hr' y hy).2.1 (hr' y hy).1) rfl h1 h2 ha0 hx0
  refine ⟨s', _, hfix, hshape, ?_, hsame,
    (balanced_lift h.nodup (fun y hy => hkeep y ?_ ?_) hheight hhung).mpr hbal⟩
  · simp only [inorder_fill, inorder, List.append_assoc, List.cons_append]
  · rintro rfl
    simp [inorder] at hy
  · rintro rfl
    simp [inorder] at hy

/-- The three nodes of a double rotation are none of those below them. -/
theorem double_apart {s' : SignalTree} (hn : (inorder (fill (.node c (.node x l tl) (.node a tr r)) p)).Nodup)
    (hkeep : ∀ y, y ≠ a → y ≠ x → y ≠ c → s'.factors y = s.factors y) :
    ∀ y, y ∈ inorder l ∨ y ∈ inorder tl ∨ y ∈ inorder tr ∨ y ∈ inorder r →
      s'.factors y = s.factors y := by
  intro y hy
  have hn := (List.nodup_append.mp ((inorder_fill_perm _ p).nodup hn)).1
  simp only [inorder, List.nodup_append, List.nodup_cons, List.mem_append, List.mem_cons] at hn
  refine hkeep y ?_ ?_ ?_
  all_goals grind

theorem fixLr_balanced (h : Shape s (fill (.node a (.node x l (.node c tl tr)) sib) p))
    (hl : Balanced s.factors l) (hc : Balanced s.factors (.node c tl tr))
    (hsib : Balanced s.factors sib) (h1 : l.height = sib.height)
    (h2 : (BinaryTree.node c tl tr).height = sib.height + 1)
    (hhung : Hung s.factors (sib.height + 2) p) :
    ∃ s' t', s.__fixLr a = some s' ∧ Shape s' t' ∧
      inorder t' = inorder (fill (.node a (.node x l (.node c tl tr)) sib) p) ∧ SameSignals s s' ∧
      Balanced s'.factors t' := by
  obtain ⟨s', hfix, hshape, ha', hx', hc', hkeep, hsame⟩ := fixLr_spec h
  obtain ⟨hcf, hlow, hhigh, htl, htr⟩ := hc
  have hmax : max tl.height tr.height + 1 = sib.height + 1 := h2
  have hout := double_apart hshape.nodup hkeep
  have hbal := (balanced_double (a := x) (b := a)
    (hl.congr fun y hy => hout y (.inl hy)) (htl.congr fun y hy => hout y (.inr (.inl hy)))
    (htr.congr fun y hy => hout y (.inr (.inr (.inl hy))))
    (hsib.congr fun y hy => hout y (.inr (.inr (.inr hy)))) h1 (by omega) rfl hc').mpr
    ⟨by rw [hx']; split <;> omega, by rw [ha']; split <;> omega, by omega, by omega⟩
  have hheight : (BinaryTree.node c (.node x l tl) (.node a tr sib)).height = sib.height + 2 := by
    simp only [BinaryTree.height]
    omega
  refine ⟨s', _, hfix, hshape, ?_, hsame,
    (balanced_lift h.nodup (fun y hy => hkeep y ?_ ?_ ?_) hheight hhung).mpr hbal⟩
  · simp only [inorder_fill, inorder, List.append_assoc, List.cons_append]
  all_goals
    rintro rfl
    simp [inorder] at hy

/-- Both outer nodes get the factor 0, so both subtrees of `c` have to be as high as the
others. -/
theorem fixRl_balanced (h : Shape s (fill (.node a sib (.node x (.node c tl tr) r)) p))
    (hc : Balanced s.factors (.node c tl tr)) (hr : Balanced s.factors r)
    (hsib : Balanced s.factors sib) (h1 : (BinaryTree.node c tl tr).height = sib.height + 1)
    (h2 : r.height = sib.height) (hhung : Hung s.factors (sib.height + 2) p) :
    ∃ s' t', s.__fixRl a = some s' ∧ Shape s' t' ∧
      inorder t' = inorder (fill (.node a sib (.node x (.node c tl tr) r)) p) ∧ SameSignals s s' ∧
      (Balanced s'.factors t' ↔ s.factors c = 0) := by
  obtain ⟨s', hfix, hshape, ha', hx', hc', hkeep, hsame⟩ := fixRl_spec h
  obtain ⟨hcf, hlow, hhigh, htl, htr⟩ := hc
  have hmax : max tl.height tr.height + 1 = sib.height + 1 := h1
  have hout := double_apart hshape.nodup fun y hyx hya => hkeep y hya hyx
  have hbal := balanced_double (a := a) (b := x)
    (hsib.congr fun y hy => hout y (.inl hy)) (htl.congr fun y hy => hout y (.inr (.inl hy)))
    (htr.congr fun y hy => hout y (.inr (.inr (.inl hy))))
    (hr.congr fun y hy => hout y (.inr (.inr (.inr hy)))) rfl (by omega) h2 hc'
  have hheight : (BinaryTree.node c (.node a sib tl) (.node x tr r)).height = sib.height + 2 := by
    simp only [BinaryTree.height]
    omega
  refine ⟨s', _, hfix, hshape, ?_, hsame,
    ((balanced_lift h.nodup (fun y hy => hkeep y ?_ ?_ ?_) hheight hhung).trans hbal).trans ?_⟩
  · simp only [inorder_fill, inorder, List.append_assoc, List.cons_append]
  · rintro rfl
    simp [inorder] at hy
  · rintro rfl
    simp [inorder] at hy
  · rintro rfl
    simp [inorder] at hy
  · rw [ha', hx']
    omega

theorem repair_left (h : Shape s (fill (.node a (.node x l r) sib) p)) (ha : s.factors a = -2)
    (hx : s.factors x = -1 ∨ s.factors x = 1) (hbal : Balanced s.factors (.node x l r))
    (hsib : Balanced s.factors sib) (hheight : (BinaryTree.node x l r).height = sib.height + 2)
    (hhung : Hung s.factors (sib.height + 2) p) :
    ∃ s' t', s.repair a = some s' ∧ Shape s' t' ∧
      inorder t' = inorder (fill (.node a (.node x l r) sib) p) ∧ SameSignals s s' ∧
      Balanced s'.factors t' := by
  obtain ⟨⟨hlink, -⟩, -⟩ := treeAt_fill.mp h.linked
  have hleft : (s.node a).left = some x := congrArg Link.left hlink
  obtain ⟨hfactor, -, -, hl, hr⟩ := hbal
  have hmax : max l.height r.height + 1 = sib.height + 2 := hheight
  have hrepair : s.repair a = if s.factors x = -1 then s.__fixLl a else s.__fixLr a := by
    simp only [repair, show (s.node a).factor = -2 from ha, if_true, hleft, Option.bind_some]
    rfl
  rw [hrepair]
  by_cases hxm : s.factors x = -1
  · rw [if_pos hxm]
    exact fixLl_balanced h hl hr hsib (by omega) (by omega) hhung
  · have hxp : s.factors x = 1 := hx.resolve_left hxm
    rw [if_neg hxm]
    cases r with
    | nil =>
      simp only [BinaryTree.height] at hfactor
      omega
    | node c tl tr => exact fixLr_balanced h hl hr hsib (by omega) (by omega) hhung

theorem repair_right (h : Shape s (fill (.node a sib (.node x l r)) p)) (ha : s.factors a = 2)
    (hx : s.factors x = -1 ∨ s.factors x = 1) (hbal : Balanced s.factors (.node x l r))
    (hsib : Balanced s.factors sib) (hheight : (BinaryTree.node x l r).height = sib.height + 2)
    (hhung : Hung s.factors (sib.height + 2) p) :
    ∃ s' t', s.repair a = some s' ∧ Shape s' t' ∧
      inorder t' = inorder (fill (.node a sib (.node x l r)) p) ∧ SameSignals s s' ∧
      (Balanced s'.factors t' ↔ (s.factors x = -1 → ∀ c, rootOf l = some c → s.factors c = 0)) := by
  obtain ⟨⟨hlink, -⟩, -⟩ := treeAt_fill.mp h.linked
  have hright : (s.node a).right = some x := congrArg Link.right hlink
  obtain ⟨hfactor, -, -, hl, hr⟩ := hbal
  have hmax : max l.height r.height + 1 = sib.height + 2 := hheight
  have hrepair : s.repair a = if s.factors x = 1 then s.__fixRr a else s.__fixRl a := by
    simp only [repair, show (s.node a).factor = 2 from ha, if_true, hright, Option.bind_some]
    rfl
  rw [hrepair]
  by_cases hxp : s.factors x = 1
  · have hxm : s.factors x ≠ -1 := by omega
    rw [if_pos hxp]
    obtain ⟨s', t', hfix, hshape, horder, hsame, hbal'⟩ :=
      fixRr_balanced h hl hr hsib (by omega) (by omega) hhung
    exact ⟨s', t', hfix, hshape, horder, hsame, iff_of_true hbal' fun he => absurd he hxm⟩
  · have hxm : s.factors x = -1 := hx.resolve_right hxp
    rw [if_neg hxp]
    cases l with
    | nil =>
      simp only [BinaryTree.height] at hfactor
      omega
    | node c tl tr =>
      obtain ⟨s', t', hfix, hshape, horder, hsame, hiff⟩ :=
        fixRl_balanced h hl hr hsib (by omega) (by omega) hhung
      refine ⟨s', t', hfix, hshape, horder, hsame, hiff.trans ?_⟩
      simp only [hxm, true_imp_iff, rootOf, Option.some.injEq, forall_eq']

/-- The repair goes wrong where it lifts an inner grandchild that is uneven from the left of
the right child. -/
theorem repair_settles (h : Shape s (fill (.node x l r) (⟨side, a, sib⟩ :: p)))
    (ha : s.factors a = 2 * side.weight) (hlean : Leaning s.factors (.node x l r) (w :: ways))
    (hbal : Balanced s.factors (.node x l r)) (hsib : Balanced s.factors sib)
    (hheight : (BinaryTree.node x l r).height = sib.height + 2)
    (hhung : Hung s.factors (sib.height + 2) p) :
    ∃ s' t', s.repair a = some s' ∧ Shape s' t' ∧
      inorder t' = inorder (fill (.node x l r) (⟨side, a, sib⟩ :: p)) ∧ SameSignals s s' ∧
      (Balanced s'.factors t' ↔ ¬ (side = .right ∧ (w :: ways).head? = some .left ∧
        1 < (w :: ways).length)) := by
  have hx : s.factors x = -1 ∨ s.factors x = 1 := by
    cases w with
    | left => exact .inl hlean.1
    | right => exact .inr hlean.1
  cases side with
  | left =>
    obtain ⟨s', t', hrepair, hshape, horder, hsame, hbal'⟩ :=
      repair_left h ha hx hbal hsib hheight hhung
    exact ⟨s', t', hrepair, hshape, horder, hsame, iff_of_true hbal' fun hh => nomatch hh.1⟩
  | right =>
    obtain ⟨s', t', hrepair, hshape, horder, hsame, hiff⟩ :=
      repair_right h ha hx hbal hsib hheight hhung
    refine ⟨s', t', hrepair, hshape, horder, hsame, hiff.trans ?_⟩
    simpa only [true_and] using hlean.inner

end SignalTree

end TayHuang
