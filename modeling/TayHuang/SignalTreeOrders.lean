import TayHuang.SignalTreeInsert
import Mathlib.Data.List.Induction

/-! Semaphores with any ids, inserted in any order. -/

namespace TayHuang

open Function (update)
open Fuel
open SearchTrees

/-- A node for `insert_signal`; `p` is where `kmalloc` puts it. -/
structure NewSignal where
  p : Nat
  id : Nat
  signal : Signal Nat

namespace SignalTree

/-- The node as `create_signal_node` and its caller fill it in. -/
def withNode (s : SignalTree) (e : NewSignal) : SignalTree :=
  { s with
    live := update s.live e.p true
    node := update s.node e.p ⟨e.id, e.signal, none, none, none, 0⟩ }

def insertAll (s : SignalTree) (fuel : Nat) (es : List NewSignal) : Option SignalTree :=
  es.foldlM (fun s e => (s.withNode e).insertSignal fuel e.p) s

/-- The tree has exactly the nodes of `es`, by their ids. -/
structure Filed (s : SignalTree) (es : List NewSignal) (t : BinaryTree Nat) : Prop where
  shape : Shape s t
  sorted : Sorted s t
  nodes : (inorder t).Perm (es.map NewSignal.p)
  ids : ∀ e ∈ es, (s.node e.p).id = e.id ∧ (s.node e.p).signal = e.signal

variable {s s' : SignalTree} {es : List NewSignal} {e : NewSignal} {t t' : BinaryTree Nat}

theorem Shape.unique (h : Shape s t) (h' : Shape s t') : t = t' :=
  h.linked.unique h'.linked (h.root.symm.trans h'.root)

theorem Filed.mem (h : Filed s es t) {y : Nat} (hy : y ∈ inorder t) :
    ∃ e ∈ es, e.p = y ∧ (s.node y).id = e.id := by
  obtain ⟨e, he, rfl⟩ := List.mem_map.mp (h.nodes.mem_iff.mp hy)
  exact ⟨e, he, rfl, (h.ids e he).1⟩

/-- One insertion into a balanced tree. -/
theorem Filed.insert (h : Filed s es t) (hbal : Balanced s.factors t) (hp : e.p ∉ es.map NewSignal.p)
    (hid : e.id ∉ es.map NewSignal.id) :
    ∃ s' t', Settles (fun fuel => (s.withNode e).insertSignal fuel e.p) s' ∧
      Filed s' (es ++ [e]) t' ∧
      (Balanced s'.factors t' ↔ ¬ Zigzag s.factors [] (placeOf s e.id t)) := by
  obtain ⟨s1, hs1⟩ : ∃ s1, s1 = s.withNode e := ⟨_, rfl⟩
  have hnode : s1.node e.p = ⟨e.id, e.signal, none, none, none, 0⟩ := by
    rw [hs1]
    exact Function.update_self ..
  have hold : ∀ y, y ≠ e.p → s1.node y = s.node y := by
    intro y hy
    rw [hs1]
    exact Function.update_of_ne hy ..
  have hpt : e.p ∉ inorder t := fun hm => hp (h.nodes.mem_iff.mp hm)
  have hin : ∀ y ∈ inorder t, s1.node y = s.node y := by
    intro y hy
    refine hold y ?_
    rintro rfl
    exact hpt hy
  obtain ⟨hshape1, hsorted1, hbal1⟩ := h.shape.outside h.sorted hbal (hs1 ▸ rfl) hin
  have hne : ∀ y ∈ inorder t, (s1.node y).id ≠ (s1.node e.p).id := by
    intro y hy he
    obtain ⟨d, hd, -, hyd⟩ := h.mem hy
    rw [hin y hy, hnode, hyd] at he
    exact hid (List.mem_map.mpr ⟨d, hd, he⟩)
  obtain ⟨s', t', hsettles, hshape, horder, hsorted, hsame, hiff⟩ := insertSignal_settles hshape1
    hsorted1 hbal1 hpt (by simp only [links, hnode]) (by simp only [factors, hnode]) hne
  have hplace : placeOf s1 (s1.node e.p).id t = placeOf s e.id t := by
    rw [hnode]
    exact wayDown_congr (fun y hy => by rw [hin y hy]) []
  have haround := inorder_placeOf s e.id t
  rw [hplace] at horder hiff
  refine ⟨s', t', hs1 ▸ hsettles, ⟨hshape, hsorted, ?_, fun d hd => ?_⟩, hiff.trans (not_congr ?_)⟩
  · rw [horder, List.map_append, List.map_singleton]
    refine List.perm_middle.trans ?_
    rw [← haround]
    exact (h.nodes.cons e.p).trans (List.perm_append_singleton _ _).symm
  · rw [hsame.id, hsame.signal]
    rcases List.mem_append.mp hd with hd | hd
    · have hdp : d.p ≠ e.p := fun he => hp (he ▸ List.mem_map_of_mem hd)
      rw [hold _ hdp]
      exact h.ids d hd
    · rw [List.mem_singleton.mp hd, hnode]
      exact ⟨rfl, rfl⟩
  · exact zigzag_congr fun y hy => by simp only [factors, hin y (haround ▸ hy)]

theorem insertAll_snoc (s : SignalTree) (es : List NewSignal) (e : NewSignal) :
    (fun fuel => s.insertAll fuel (es ++ [e])) = fun fuel =>
      (s.insertAll fuel es).bind fun s => (s.withNode e).insertSignal fuel e.p := by
  funext fuel
  simp only [insertAll, List.foldlM_append, List.foldlM_cons, List.foldlM_nil, bind_pure]
  rfl

/-- After each insertion the nodes form the search tree of the ids so far, and all factors
are right, exactly when no insertion takes a way that zigzags below a node leaning to the
right, further than to a new grandchild. -/
theorem signal_factors_iff (hroot : s.root = none) (hp : (es.map NewSignal.p).Nodup)
    (hid : (es.map NewSignal.id).Nodup) :
    (∀ ds, ds <+: es → ∃ s' t, Settles (fun fuel => s.insertAll fuel ds) s' ∧ Filed s' ds t ∧
        Balanced s'.factors t) ↔
      ∀ ds d, ds ++ [d] <+: es → ∀ s' t, Settles (fun fuel => s.insertAll fuel ds) s' →
        Shape s' t → ¬ Zigzag s'.factors [] (placeOf s' d.id t) := by
  have hfresh : ∀ ds d, ds ++ [d] <+: es →
      d.p ∉ ds.map NewSignal.p ∧ d.id ∉ ds.map NewSignal.id := by
    intro ds d hds
    have hp' := (hds.map NewSignal.p).sublist.nodup hp
    have hid' := (hds.map NewSignal.id).sublist.nodup hid
    rw [List.map_append, List.map_singleton, List.nodup_append] at hp' hid'
    exact ⟨fun hm => hp'.2.2 _ hm _ (List.mem_singleton_self _) rfl,
      fun hm => hid'.2.2 _ hm _ (List.mem_singleton_self _) rfl⟩
  constructor
  · intro h ds d hds s' t hs' ht
    obtain ⟨s0, t0, hs0, hfiled, hbal⟩ := h ds ((List.prefix_append ds [d]).trans hds)
    obtain rfl := hs0.eq hs'
    obtain rfl := hfiled.shape.unique ht
    obtain ⟨s1, t1, hs1, hfiled1, hiff⟩ :=
      hfiled.insert hbal (hfresh ds d hds).1 (hfresh ds d hds).2
    obtain ⟨s2, t2, hs2, hfiled2, hbal2⟩ := h (ds ++ [d]) hds
    rw [insertAll_snoc] at hs2
    obtain rfl := hs2.eq (hs0.bind hs1)
    obtain rfl := hfiled2.shape.unique hfiled1.shape
    exact hiff.mp hbal2
  · intro h ds
    induction ds using List.reverseRecOn with
    | nil =>
      refine fun _ => ⟨s, .nil, settles_const s, ⟨⟨hroot, trivial, List.nodup_nil⟩, ?_, ?_, ?_⟩,
        trivial⟩
      · exact List.Pairwise.nil
      · exact List.Perm.nil
      · simp
    | append_singleton ds d ih =>
      intro hds
      obtain ⟨s1, t1, hs1, hfiled, hbal⟩ := ih ((List.prefix_append ds [d]).trans hds)
      obtain ⟨s2, t2, hs2, hfiled2, hiff⟩ :=
        hfiled.insert hbal (hfresh ds d hds).1 (hfresh ds d hds).2
      refine ⟨s2, t2, ?_, hfiled2, hiff.mpr (h ds d hds s1 t1 hs1 hfiled.shape)⟩
      rw [insertAll_snoc]
      exact hs1.bind hs2

/-- `create_signal_node`, with the ids of a list in turn. -/
def numbered (ids : List Nat) : List NewSignal :=
  (ids.zipIdx 1).map fun x => ⟨x.2, x.1, createSignal 1 1 false⟩

def emptyTree : SignalTree :=
  ⟨fun _ => ⟨0, createSignal 0 0 false, none, none, none, 0⟩, fun _ => false, none, 0⟩

/-- The third node is lifted twice, and is even: it has just been inserted. -/
theorem signal_factors_three :
    ∃ s' t, Settles (fun fuel => emptyTree.insertAll fuel (numbered [20, 10, 15])) s' ∧
      Filed s' (numbered [20, 10, 15]) t ∧ Balanced s'.factors t := by
  refine (signal_factors_iff rfl (by decide) (by decide)).mpr ?_ _ (List.prefix_refl _)
  intro ds d hds s' t hsettles ht
  obtain ⟨k, hk, hd, rfl⟩ : ∃ k < 3, (numbered [20, 10, 15])[k]? = some d ∧
      (numbered [20, 10, 15]).take k = ds := by
    have hlen := hds.length_le
    rw [List.length_append, List.length_singleton] at hlen
    obtain ⟨l, hl⟩ := hds
    refine ⟨ds.length, hlen, ?_, ?_⟩
    · simp [← hl]
    · simp [← hl]
  obtain rfl | rfl | rfl : k = 0 ∨ k = 1 ∨ k = 2 := by omega
  · obtain rfl := hsettles.unique 9 _ rfl
    obtain rfl := ht.unique (show Shape _ .nil from ⟨rfl, trivial, List.nodup_nil⟩)
    exact fun hh => hh
  · obtain rfl := hsettles.unique 9 _ rfl
    obtain rfl := ht.unique (show Shape _ (.node 1 .nil .nil) from
      ⟨rfl, ⟨rfl, trivial, trivial⟩, by decide⟩)
    obtain rfl := Option.some.inj hd
    exact fun hh : False => hh
  · obtain rfl := hsettles.unique 9 _ rfl
    obtain rfl := ht.unique (show Shape _ (.node 1 .nil (.node 2 .nil .nil)) from
      ⟨rfl, ⟨rfl, trivial, rfl, trivial, trivial⟩, by decide⟩)
    obtain rfl := Option.some.inj hd
    exact fun hh => absurd hh.2.2.2 (by decide)

/-- The node of 15 is lifted between those of 20 and 10 when 17 has been put below it: that
of 10 keeps no left child, and its factor is 0. -/
theorem signal_factors_lost :
    ((numbered [20, 30, 10, 15, 5, 17]).map NewSignal.p).Nodup ∧
    ((numbered [20, 30, 10, 15, 5, 17]).map NewSignal.id).Nodup ∧
    ¬ ∃ s' t, Settles (fun fuel => emptyTree.insertAll fuel (numbered [20, 30, 10, 15, 5, 17])) s' ∧
      Filed s' (numbered [20, 30, 10, 15, 5, 17]) t ∧ Balanced s'.factors t := by
  refine ⟨by decide, by decide, ?_⟩
  rintro ⟨s', t, hsettles, hfiled, hbal⟩
  obtain ⟨s6, hs6⟩ : ∃ s6, s6 = (emptyTree.insertAll 9 (numbered [20, 30, 10, 15, 5, 17])).getD
    emptyTree := ⟨_, rfl⟩
  have hs' : s' = s6 := by
    rw [hs6]
    exact (hsettles.unique 9 _ rfl).symm
  subst hs'
  have hshape : Shape s' (.node 4 (.node 1 (.node 2 .nil .nil) (.node 6 .nil .nil))
      (.node 3 .nil (.node 5 .nil .nil))) := by
    rw [hs6]
    exact ⟨rfl, ⟨rfl, ⟨rfl, ⟨rfl, trivial, trivial⟩, rfl, trivial, trivial⟩, rfl, trivial, rfl,
      trivial, trivial⟩, by decide⟩
  obtain rfl := hfiled.shape.unique hshape
  have h3 : s'.factors 3 = 1 := hbal.2.2.2.2.1
  rw [hs6] at h3
  exact absurd h3 (by decide)

end SignalTree

end TayHuang
