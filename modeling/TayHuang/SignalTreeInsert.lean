import TayHuang.Fuel
import TayHuang.SignalTreeRepairs

/-! Inserting a node: the walk down to its place, and the walk up that repairs the
factors. -/

namespace TayHuang

open Function (update)
open Fuel
open SearchTrees

namespace SignalTree

variable {s s' : SignalTree} {x a : Nat} {p : Path Nat} {t : BinaryTree Nat}

/-- Larger ids are on the left. -/
def Sorted (s : SignalTree) (t : BinaryTree Nat) : Prop :=
  (inorder t).Pairwise fun u v => (s.node v).id < (s.node u).id

theorem Shape.link {u : Above Nat} (h : Shape s (fill .nil (u :: p)))
    (hx : x ∉ inorder (fill .nil (u :: p))) (hroot : s'.root = s.root)
    (hlinks : s'.links = update (update s.links x ⟨none, none, some u.value⟩) u.value
      ((s.links u.value).child u.side (some x))) :
    Shape s' (fill (.node x .nil .nil) (u :: p)) := by
  have hperm := inorder_fill_perm .nil (u :: p)
  have hnodup := hperm.nodup h.nodup
  rw [hperm.mem_iff] at hx
  have hu : u.value ∈ before (u :: p) ++ after (u :: p) :=
    (around_perm u p).mem_iff.mpr (List.mem_cons_self ..)
  have hxu : x ≠ u.value := by
    rintro rfl
    exact hx hu
  obtain ⟨-, hhole⟩ := treeAt_fill.mp h.linked
  refine ⟨?_, treeAt_fill.mpr ⟨?_, ?_⟩, ?_⟩
  · rw [hroot, h.root, rootOf_fill, rootOf_fill]
    rfl
  · refine ⟨?_, trivial, trivial⟩
    rw [hlinks, Function.update_of_ne hxu, Function.update_self]
    rfl
  · refine hhole.relink hnodup ?_ fun y hy hyu => ?_
    · rw [hlinks, Function.update_self]
      rfl
    · have hyx : y ≠ x := by
        rintro rfl
        exact hx hy
      rw [hlinks, Function.update_of_ne hyu, Function.update_of_ne hyx]
  · refine (inorder_fill_perm (.node x .nil .nil) (u :: p)).nodup_iff.mpr ?_
    exact List.nodup_cons.mpr ⟨hx, hnodup⟩

theorem Sorted.around {l r : BinaryTree Nat} (h : Sorted s (fill (.node a l r) p)) :
    (∀ y ∈ inorder l, (s.node a).id < (s.node y).id) ∧
      ∀ y ∈ inorder r, (s.node y).id < (s.node a).id := by
  have hh : (inorder (fill (.node a l r) p)).Pairwise fun u v => (s.node v).id < (s.node u).id := h
  rw [inorder_fill] at hh
  have hmid := (List.pairwise_append.mp (List.pairwise_append.mp hh).2.1).1
  obtain ⟨-, hr, hl⟩ := List.pairwise_append.mp hmid
  exact ⟨fun y hy => hl y hy a (List.mem_cons_self ..), (List.pairwise_cons.mp hr).1⟩

/-- The walk down: everything before the new place has a larger id, everything after
it a smaller one. -/
theorem place_settles (h : Shape s (fill t p)) (hsorted : Sorted s (fill t p))
    (ha : rootOf t = some a) (hx : x ∉ inorder (fill t p)) (hnew : s.links x = ⟨none, none, none⟩)
    (hid : ∀ y ∈ inorder (fill t p), (s.node y).id ≠ (s.node x).id)
    (hbefore : ∀ y ∈ before p, (s.node x).id < (s.node y).id)
    (hafter : ∀ y ∈ after p, (s.node y).id < (s.node x).id) :
    ∃ s' u q, wayDown (fun y => (s.node y).id < (s.node x).id) t p = u :: q ∧
      Settles (fun fuel => s.place x fuel a) (some (s', u.value)) ∧
      Shape s' (fill (.node x .nil .nil) (u :: q)) ∧ s'.factors = s.factors ∧ SameSignals s s' ∧
      (∀ y ∈ before (u :: q), (s.node x).id < (s.node y).id) ∧
      ∀ y ∈ after (u :: q), (s.node y).id < (s.node x).id := by
  induction t generalizing p a with
  | nil => exact absurd ha (by simp [rootOf])
  | node b l r ihl ihr =>
    obtain rfl : b = a := Option.some.inj ha
    obtain ⟨⟨hb, -, -⟩, -⟩ := treeAt_fill.mp h.linked
    have hleft : (s.node b).left = rootOf l := congrArg Link.left hb
    have hright : (s.node b).right = rootOf r := congrArg Link.right hb
    obtain ⟨hl, hr⟩ := hsorted.around
    have hbt : b ∈ inorder (fill (.node b l r) p) := by
      rw [inorder_fill]
      simp [inorder]
    have hne : (s.node x).id ≠ (s.node b).id := (hid b hbt).symm
    have hbx : b ≠ x := by
      rintro rfl
      exact hx hbt
    by_cases hlt : (s.node b).id < (s.node x).id
    · have hafter' : ∀ y ∈ after (⟨.left, b, r⟩ :: p), (s.node y).id < (s.node x).id := by
        intro y hy
        rcases List.mem_append.mp hy with hy | hy
        · rcases List.mem_cons.mp hy with rfl | hy
          · exact hlt
          · exact (hr y hy).trans hlt
        · exact hafter y hy
      cases l with
      | nil =>
        refine ⟨(s.setParent x (some b)).setLeft b (some x), ⟨.left, b, r⟩, p, ?_, ?_, ?_, ?_, ?_,
          hbefore, hafter'⟩
        · simp only [wayDown, hlt, decide_true, if_true]
        · refine settles_succ rfl ?_
          simp only [place, if_neg hne, if_pos hlt, hleft, rootOf]
          exact settles_const _
        · refine Shape.link h hx rfl ?_
          rw [links_setLeft, links_setParent, hnew, Function.update_of_ne hbx]
          rfl
        · rw [factors_setLeft, factors_setParent]
        · exact (same_setParent s x _).trans (same_setLeft _ b _)
      | node c cl cr =>
        obtain ⟨s', u, q, hway, hsettles, hrest⟩ :=
          ihl (p := ⟨.left, b, r⟩ :: p) h hsorted rfl hx hid hbefore hafter'
        refine ⟨s', u, q, ?_, settles_succ rfl ?_, hrest⟩
        · rw [wayDown, if_pos (by simpa using hlt), hway]
        simp only [place, if_neg hne, if_pos hlt, hleft, rootOf]
        exact hsettles
    · have hbefore' : ∀ y ∈ before (⟨.right, b, l⟩ :: p), (s.node x).id < (s.node y).id := by
        intro y hy
        have hxb : (s.node x).id < (s.node b).id := by omega
        rcases List.mem_append.mp hy with hy | hy
        · exact hbefore y hy
        · rcases List.mem_append.mp hy with hy | hy
          · exact hxb.trans (hl y hy)
          · rw [List.mem_singleton.mp hy]
            exact hxb
      cases r with
      | nil =>
        refine ⟨(s.setParent x (some b)).setRight b (some x), ⟨.right, b, l⟩, p, ?_, ?_, ?_, ?_, ?_,
          hbefore', hafter⟩
        · simp only [wayDown, hlt, decide_false, Bool.false_eq_true, if_false]
        · refine settles_succ rfl ?_
          simp only [place, if_neg hne, if_neg hlt, hright, rootOf]
          exact settles_const _
        · refine Shape.link h hx rfl ?_
          rw [links_setRight, links_setParent, hnew, Function.update_of_ne hbx]
          rfl
        · rw [factors_setRight, factors_setParent]
        · exact (same_setParent s x _).trans (same_setRight _ b _)
      | node c cl cr =>
        obtain ⟨s', u, q, hway, hsettles, hrest⟩ :=
          ihr (p := ⟨.right, b, l⟩ :: p) h hsorted rfl hx hid hbefore' hafter
        refine ⟨s', u, q, ?_, settles_succ rfl ?_, hrest⟩
        · rw [wayDown, if_neg (by simpa using hlt), hway]
        simp only [place, if_neg hne, if_neg hlt, hright, rootOf]
        exact hsettles

variable {side : Side} {sib l r : BinaryTree Nat} {ways : List Side}

/-- One turn of the walk up, before a repair. -/
theorem rebalance_step (h : Shape s (fill t (⟨side, a, sib⟩ :: p))) (hx : rootOf t = some x) :
    ∃ s', Shape s' (fill t (⟨side, a, sib⟩ :: p)) ∧ s'.factors a = s.factors a + side.weight ∧
      (∀ y, y ∈ inorder t ∨ y ∈ inorder sib ∨ y ∈ before p ++ after p → s'.factors y = s.factors y) ∧
      SameSignals s s' ∧
      ∀ fuel, rebalance (fuel + 1) s x (some a) =
        if s'.factors a = 0 then some s'
        else if s'.factors a = 1 ∨ s'.factors a = -1 then rebalance fuel s' a (top p)
        else s'.repair a := by
  obtain ⟨ht, hhole⟩ := treeAt_fill.mp h.linked
  have hn := ((inorder_fill_perm _ _).trans
    ((around_perm ⟨side, a, sib⟩ p).append_left _)).nodup h.nodup
  obtain ⟨-, hctx, hapart⟩ := List.nodup_append.mp hn
  have ha := (List.nodup_cons.mp hctx).1
  obtain ⟨s', hs'⟩ : ∃ s', s' = s.setFactor a ((s.node a).factor + side.weight) := ⟨_, rfl⟩
  have hlinks : s'.links = s.links := hs' ▸ links_setFactor s a _
  have hfactors : s'.factors = update s.factors a (s.factors a + side.weight) :=
    hs' ▸ factors_setFactor s a _
  have hup : (s.node a).parent = top p := by
    cases side with
    | left => exact congrArg Link.parent hhole.1
    | right => exact congrArg Link.parent hhole.1
  have hxup : (s.node x).parent = some a := by
    cases t with
    | nil => simp [rootOf] at hx
    | node y l r =>
      obtain rfl : y = x := Option.some.inj hx
      exact congrArg Link.parent ht.1
  have hside : (if (s.node a).left = some x then (s.node a).factor - 1
      else (s.node a).factor + 1) = (s.node a).factor + side.weight := by
    cases side with
    | left =>
      have hleft : (s.node a).left = some x := (congrArg Link.left hhole.1).trans hx
      rw [if_pos hleft, Side.weight, Int.sub_eq_add_neg]
    | right =>
      have hleft : (s.node a).left ≠ some x := by
        intro he
        have hxs : rootOf sib = some x := (congrArg Link.left hhole.1).symm.trans he
        exact hapart x (mem_of_rootOf hx) x (by simp [mem_of_rootOf hxs]) rfl
      rw [if_neg hleft, Side.weight]
  refine ⟨s', ⟨(hs' ▸ rfl : s'.root = s.root).trans h.root, hlinks ▸ h.linked, h.nodup⟩, ?_,
    fun y hy => ?_, hs' ▸ same_setFactor s a _, fun fuel => ?_⟩
  · rw [hfactors, Function.update_self]
  · have hya : y ≠ a := by
      rintro rfl
      rcases hy with hy | hy
      · exact hapart y hy y (List.mem_cons_self ..) rfl
      · exact ha (List.mem_append.mpr hy)
    rw [hfactors, Function.update_of_ne hya]
  · have hxup' : (s'.node x).parent = some a := (congrArg Link.parent (congrFun hlinks x)).trans hxup
    have haup' : (s'.node a).parent = top p := (congrArg Link.parent (congrFun hlinks a)).trans hup
    simp only [rebalance, hside, ← hs', hxup', haup', Option.bind_some]
    rfl

theorem rebalance_settles (h : Shape s (fill t p)) (hx : rootOf t = some x)
    (hbal : Balanced s.factors t) (hlean : Leaning s.factors t ways)
    (hheight : t.height = ways.length + 1) (hhung : Hung s.factors ways.length p) :
    ∃ s' t', Settles (fun fuel => rebalance fuel s x (top p)) s' ∧ Shape s' t' ∧
      inorder t' = inorder (fill t p) ∧ SameSignals s s' ∧
      (Balanced s'.factors t' ↔ ¬ Zigzag s.factors ways p) := by
  induction p generalizing s t x ways with
  | nil =>
    refine ⟨s, t, settles_succ rfl (settles_const s), h, rfl, .refl s, ?_⟩
    simp only [Zigzag, not_false_eq_true, iff_true]
    exact hbal
  | cons u p ih =>
    obtain ⟨side, a, sib⟩ := u
    obtain ⟨s1, h1, ha1, hkeep, hsame1, hstep⟩ := rebalance_step h hx
    have hbal1 : Balanced s1.factors t := hbal.congr fun y hy => hkeep y (.inl hy)
    have hlean1 : Leaning s1.factors t ways := hlean.congr fun y hy => hkeep y (.inl hy)
    have hzigzag : ∀ ways, Zigzag s1.factors ways p ↔ Zigzag s.factors ways p := fun ways =>
      zigzag_congr fun y hy => hkeep y (.inr (.inr hy))
    obtain ⟨hfactor, hlow, hhigh, hsib, hhung⟩ := hung_cons.mp hhung
    dsimp only at hfactor hlow hhigh hsib hhung
    have hsib1 : Balanced s1.factors sib := hsib.congr fun y hy => hkeep y (.inr (.inl hy))
    have hhung1 : Hung s1.factors (max ways.length sib.height + 1) p :=
      hhung.congr fun y hy => hkeep y (.inr (.inr hy))
    have hzero : s.factors a = 0 ↔ ways.length = sib.height := by
      cases side with
      | left => simp only [Side.weight] at hfactor; omega
      | right => simp only [Side.weight] at hfactor; omega
    rcases Nat.lt_trichotomy ways.length sib.height with hlt | heq | hgt
    · -- the other side was higher
      obtain ⟨hz, hsibh, hright⟩ : s1.factors a = 0 ∧ t.height = sib.height ∧
          ¬ (side = .right ∧ s.factors a = 1) := by
        cases side with
        | left => simp only [Side.weight] at hfactor ha1; simp; omega
        | right => simp only [Side.weight] at hfactor ha1; simp; omega
      have hmax : max ways.length sib.height + 1 = sib.height + 1 := by omega
      have hwhole : Balanced s1.factors (fill t (⟨side, a, sib⟩ :: p)) :=
        balanced_even hbal1 hsib1 hz hsibh (hmax ▸ hhung1)
      refine ⟨s1, _, settles_succ rfl ?_, h1, rfl, hsame1, iff_of_true hwhole ?_⟩
      · simpa only [top, List.head?_cons, Option.map_some, hstep, if_pos hz] using settles_const s1
      · simp only [Zigzag, if_neg (mt hzero.mp hlt.ne)]
        exact fun hh => hright ⟨hh.1, hh.2.1⟩
    · -- the growth goes on above
      have hw : s1.factors a = side.weight := by
        rw [ha1, hzero.mpr heq, Int.zero_add]
      have hw1 : side.weight ≠ 0 ∧ (side.weight = 1 ∨ side.weight = -1) := by
        cases side with
        | left => decide
        | right => decide
      obtain ⟨hbal2, hheight2⟩ : Balanced s1.factors ((⟨side, a, sib⟩ : Above Nat).fill t) ∧
          ((⟨side, a, sib⟩ : Above Nat).fill t).height = sib.height + 2 :=
        balanced_grown hbal1 hsib1 hw (by rw [hheight, heq])
      have hmax : max ways.length sib.height + 1 = (side :: ways).length := by
        rw [List.length_cons]
        omega
      obtain ⟨s', t', hsettles, hshape, horder, hsame, hiff⟩ :=
        ih (x := a) h1 (rootOf_above ..) hbal2 (hlean1.above hw)
          (by rw [hheight2, List.length_cons, heq]) (hmax ▸ hhung1)
      refine ⟨s', t', settles_succ rfl ?_, hshape, horder, hsame1.trans hsame, hiff.trans ?_⟩
      · simpa only [top, List.head?_cons, Option.map_some, hstep, hw, if_neg hw1.1, if_pos hw1.2]
          using hsettles
      · simp only [Zigzag, if_pos (hzero.mpr heq), hzigzag]
    · -- the repair
      obtain ⟨l, r, rfl⟩ : ∃ l r, t = .node x l r := by
        cases t with
        | nil => simp [rootOf] at hx
        | node y l r => exact ⟨l, r, by rw [Option.some.inj hx]⟩
      obtain ⟨w, ws, rfl⟩ : ∃ w ws, ways = w :: ws := by
        cases ways with
        | nil => simp at hgt
        | cons w ws => exact ⟨w, ws, rfl⟩
      have hlen : (w :: ws).length = sib.height + 1 ∧ s.factors a = side.weight ∧
          s1.factors a = 2 * side.weight ∧ s1.factors a ≠ 0 ∧
          ¬ (s1.factors a = 1 ∨ s1.factors a = -1) := by
        cases side with
        | left => simp only [Side.weight] at hfactor ha1 ⊢; omega
        | right => simp only [Side.weight] at hfactor ha1 ⊢; omega
      obtain ⟨hlen, hweight, ha2, hz, ho⟩ := hlen
      have hmax : max (w :: ws).length sib.height + 1 = sib.height + 2 := by omega
      obtain ⟨s', t', hrepair, hshape, horder, hsame, hiff⟩ :=
        repair_settles h1 ha2 hlean1 hbal1 hsib1 (by rw [hheight, hlen]) (hmax ▸ hhung1)
      refine ⟨s', t', settles_succ rfl ?_, hshape, horder, hsame1.trans hsame,
        hiff.trans (not_congr ?_)⟩
      · simpa only [top, List.head?_cons, Option.map_some, hstep, if_neg hz, if_neg ho, hrepair]
          using settles_const s'
      · rw [show Zigzag s.factors (w :: ws) (⟨side, a, sib⟩ :: p) ↔ _ from
          iff_of_eq (if_neg (mt hzero.mp hgt.ne')), hweight]
        exact and_congr_right fun hside => by simp only [hside, Side.weight, true_and]

/-- The way down to the place of a new id. -/
def placeOf (s : SignalTree) (id : Nat) (t : BinaryTree Nat) : Path Nat :=
  wayDown (fun y => (s.node y).id < id) t []

theorem inorder_placeOf (s : SignalTree) (id : Nat) (t : BinaryTree Nat) :
    inorder t = before (placeOf s id t) ++ after (placeOf s id t) := by
  have hfill : fill .nil (placeOf s id t) = t := fill_wayDown _ t []
  rw [← hfill, inorder_fill, hfill]
  rfl

theorem Sorted.insert (h : Sorted s t) (hbefore : ∀ y ∈ before p, (s.node x).id < (s.node y).id)
    (hafter : ∀ y ∈ after p, (s.node y).id < (s.node x).id) (hp : inorder t = before p ++ after p) :
    (before p ++ x :: after p).Pairwise fun u v => (s.node v).id < (s.node u).id := by
  have hh : (before p ++ after p).Pairwise fun u v => (s.node v).id < (s.node u).id := hp ▸ h
  obtain ⟨hb, ha, hba⟩ := List.pairwise_append.mp hh
  refine List.pairwise_append.mpr ⟨hb, List.pairwise_cons.mpr ⟨hafter, ha⟩, fun u hu v hv => ?_⟩
  rcases List.mem_cons.mp hv with rfl | hv
  · exact hbefore u hu
  · exact hba u hu v hv

/-- The nodes of a tree are as before. -/
theorem Shape.outside (h : Shape s t) (hsorted : Sorted s t) (hbal : Balanced s.factors t)
    (hroot : s'.root = s.root) (hin : ∀ y ∈ inorder t, s'.node y = s.node y) :
    Shape s' t ∧ Sorted s' t ∧ Balanced s'.factors t := by
  refine ⟨⟨hroot.trans h.root, h.linked.congr fun y hy => ?_, h.nodup⟩, ?_,
    hbal.congr fun y hy => ?_⟩
  · simp only [links, hin y hy]
  · refine List.Pairwise.imp_of_mem (fun {u v} hu hv huv => ?_) hsorted
    rw [hin u hu, hin v hv]
    exact huv
  · simp only [factors, hin y hy]

/-- One call of `insert_signal`. The factors are right afterwards unless a double rotation
below a node that leans to the right finds an uneven inner grandchild. -/
theorem insertSignal_settles (h : Shape s t) (hsorted : Sorted s t) (hbal : Balanced s.factors t)
    (hx : x ∉ inorder t) (hnew : s.links x = ⟨none, none, none⟩) (hfactor : s.factors x = 0)
    (hid : ∀ y ∈ inorder t, (s.node y).id ≠ (s.node x).id) :
    ∃ s' t', Settles (fun fuel => s.insertSignal fuel x) s' ∧ Shape s' t' ∧
      inorder t' = before (placeOf s (s.node x).id t) ++ x :: after (placeOf s (s.node x).id t) ∧
      Sorted s' t' ∧ SameSignals s s' ∧
      (Balanced s'.factors t' ↔ ¬ Zigzag s.factors [] (placeOf s (s.node x).id t)) := by
  have hleaf : Balanced s.factors (.node x .nil .nil) :=
    ⟨hfactor, by omega, by omega, trivial, trivial⟩
  cases ht : rootOf t with
  | none =>
    obtain rfl : t = .nil := by
      cases t with
      | nil => rfl
      | node b l r => simp [rootOf] at ht
    have hroot : s.root = none := h.root
    refine ⟨{ s with root := some x }, .node x .nil .nil, ?_, ⟨rfl, ⟨hnew, trivial, trivial⟩,
      by simp [inorder]⟩, rfl, List.pairwise_singleton .., ⟨fun _ => rfl, fun _ => rfl, rfl, rfl⟩,
      iff_of_true hleaf fun hh => hh⟩
    simpa only [insertSignal, hroot] using settles_const _
  | some a =>
    have hroot : s.root = some a := h.root.trans ht
    obtain ⟨s1, u, q, hway, hplace, hshape1, hfactors1, hsame1, hbefore, hafter⟩ :=
      place_settles (p := []) h hsorted ht hx hnew hid (by simp [before]) (by simp [after])
    have hq : placeOf s (s.node x).id t = u :: q := hway
    have horder : inorder t = before (u :: q) ++ after (u :: q) := hq ▸ inorder_placeOf s (s.node x).id t
    have hfill : fill .nil (u :: q) = t := hway ▸ fill_wayDown _ t []
    obtain ⟨-, hhung⟩ := balanced_fill.mp (hfill.symm ▸ hbal)
    obtain ⟨s2, t2, hreb, hshape2, horder2, hsame2, hiff⟩ :=
      rebalance_settles hshape1 rfl (hfactors1 ▸ hleaf)
        (show Leaning s1.factors (.node x .nil .nil) [] from hfactors1 ▸ hfactor) rfl
        (hfactors1 ▸ hhung)
    have hsame := hsame1.trans hsame2
    have horder' : inorder t2 = before (u :: q) ++ x :: after (u :: q) := by
      rw [horder2, inorder_fill]
      rfl
    rw [hq]
    refine ⟨s2, t2, ?_, hshape2, horder', ?_, hsame, hfactors1 ▸ hiff⟩
    · simp only [insertSignal, hroot]
      exact hplace.bind (by exact hreb)
    · rw [Sorted, horder']
      refine (hsorted.insert hbefore hafter horder).imp fun {u v} huv => ?_
      rw [hsame.id, hsame.id]
      exact huv

/-- The largest id goes to the left end. -/
theorem insertSignal_largest (h : Shape s t) (hsorted : Sorted s t) (hbal : Balanced s.factors t)
    (hx : x ∉ inorder t) (hnew : s.links x = ⟨none, none, none⟩) (hfactor : s.factors x = 0)
    (hid : ∀ y ∈ inorder t, (s.node y).id < (s.node x).id) :
    ∃ s' t', Settles (fun fuel => s.insertSignal fuel x) s' ∧ Shape s' t' ∧
      Balanced s'.factors t' ∧ inorder t' = x :: inorder t ∧ SameSignals s s' := by
  obtain ⟨s', t', hsettles, hshape, horder, hsorted', hsame, hiff⟩ :=
    insertSignal_settles h hsorted hbal hx hnew hfactor fun y hy => (hid y hy).ne
  have hnone : before (placeOf s (s.node x).id t) = [] := by
    refine List.eq_nil_iff_forall_not_mem.mpr fun y hy => ?_
    rw [Sorted, horder] at hsorted'
    have hlt := (List.pairwise_append.mp hsorted').2.2 y hy x (List.mem_cons_self ..)
    rw [hsame.id, hsame.id] at hlt
    have hgt := hid y (inorder_placeOf s (s.node x).id t ▸ List.mem_append_left _ hy)
    omega
  refine ⟨s', t', hsettles, hshape, hiff.mpr (not_zigzag_left (left_of_before hnone)), ?_, hsame⟩
  rw [horder, inorder_placeOf s (s.node x).id t, hnone]
  rfl

end SignalTree

end TayHuang
