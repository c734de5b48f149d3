import TayHuang.Runs
import TayHuang.SignalTreeInsert
import Mathlib.Algebra.Ring.Nat

/-! Any run of `__create_signal`, `__up_signal` and `__down_signal`. -/

namespace TayHuang

open Function (update)
open Fuel
open Runs
open SearchTrees

/-- `p` is where `kmalloc` puts the node. -/
inductive SignalEvent
  | create (p : Nat) (maxSignals value : Int) (soft : Bool)
  | up (id : Nat)
  | down (id t : Nat)

namespace SignalTree

def step (fuel : Nat) (s : SignalTree) : SignalEvent → Option SignalTree
  | .create p maxSignals value soft => (s.__createSignal fuel p maxSignals value soft).map Prod.fst
  | .up id => (s.__upSignal fuel id).map Prod.fst
  | .down id t => (s.__downSignal fuel id t).map Prod.fst

def Step (s : SignalTree) (e : SignalEvent) (s' : SignalTree) : Prop :=
  ∃ fuel, s.step fuel e = some s'

/-- `kmalloc` gives free memory. -/
def Fits (s : SignalTree) : SignalEvent → Prop
  | .create p _ _ _ => s.live p = false
  | _ => True

/-- The kernel before its first semaphore. -/
def Start (s : SignalTree) : Prop := s.root = none ∧ s.curId = 0 ∧ ∀ p, s.live p = false

/-- The nodes that the calls of `__create_signal` made, in order. -/
def creates (es : List SignalEvent) : List Nat :=
  es.filterMap fun e =>
    match e with
    | .create p _ _ _ => some p
    | _ => none

/-- The nodes `ps` are the tree, and the `i`-th one has the id `i`. -/
structure TreeOk (s : SignalTree) (ps : List Nat) (t : BinaryTree Nat) : Prop where
  shape : Shape s t
  balanced : Balanced s.factors t
  order : inorder t = ps.reverse
  live : ∀ p, s.live p = true ↔ p ∈ ps
  ids : ∀ i p, ps[i]? = some p → (s.node p).id = i
  curId : s.curId = ps.length

variable {s s' : SignalTree} {ps : List Nat} {t : BinaryTree Nat} {es : List SignalEvent}
  {e : SignalEvent}

theorem TreeOk.mem_iff (h : TreeOk s ps t) {p : Nat} : p ∈ inorder t ↔ p ∈ ps := by
  rw [h.order, List.mem_reverse]

theorem TreeOk.id_lt (h : TreeOk s ps t) {p : Nat} (hp : p ∈ ps) : (s.node p).id < ps.length := by
  obtain ⟨i, hi⟩ := List.mem_iff_getElem?.mp hp
  rw [h.ids i p hi]
  exact (List.getElem?_eq_some_iff.mp hi).1

theorem TreeOk.sorted (h : TreeOk s ps t) : Sorted s t := by
  rw [Sorted, h.order, List.pairwise_reverse, List.pairwise_iff_getElem]
  intro i j hi hj hij
  rw [h.ids i _ (List.getElem?_eq_getElem hi), h.ids j _ (List.getElem?_eq_getElem hj)]
  exact hij

theorem findSignal_settles {up : Option Nat} (h : TreeAt s.links up t) (hsorted : Sorted s t)
    (id : Nat) : Settles (fun fuel => findSignal s.node id fuel (rootOf t))
      ((inorder t).find? fun p => (s.node p).id = id) := by
  induction t generalizing up with
  | nil => exact settles_succ rfl (settles_const none)
  | node a l r ihl ihr =>
    obtain ⟨ha, hl, hr⟩ := h
    have hleft : (s.node a).left = rootOf l := congrArg Link.left ha
    have hright : (s.node a).right = rootOf r := congrArg Link.right ha
    obtain ⟨hlarge, hsmall⟩ := Sorted.around (p := []) hsorted
    obtain ⟨hsl, hsr, -⟩ := List.pairwise_append.mp (show (inorder l ++ a :: inorder r).Pairwise _
      from hsorted)
    have hsr := (List.pairwise_cons.mp hsr).2
    simp only [inorder, List.find?_append]
    refine settles_succ rfl ?_
    have hroot : rootOf (.node a l r) = some a := rfl
    simp only [hroot, findSignal, hleft, hright]
    by_cases hid : (s.node a).id = id
    · have hnone : (inorder l).find? (fun p => (s.node p).id = id) = none := by
        refine List.find?_eq_none.mpr fun y hy => ?_
        have hlt := hlarge y hy
        simp only [decide_eq_true_eq]
        omega
      rw [hnone, Option.none_or, List.find?_cons_of_pos (by simpa using hid)]
      simpa only [if_pos hid] using settles_const _
    · rw [List.find?_cons_of_neg (by simpa using hid)]
      simp only [if_neg hid]
      by_cases hlt : (s.node a).id < id
      · have hnone : (inorder r).find? (fun p => (s.node p).id = id) = none := by
          refine List.find?_eq_none.mpr fun y hy => ?_
          have hy := hsmall y hy
          simp only [decide_eq_true_eq]
          omega
        rw [hnone, Option.or_none]
        simpa only [if_pos hlt] using ihl hl hsl
      · have hnone : (inorder l).find? (fun p => (s.node p).id = id) = none := by
          refine List.find?_eq_none.mpr fun y hy => ?_
          have hy := hlarge y hy
          simp only [decide_eq_true_eq]
          omega
        rw [hnone, Option.none_or]
        simpa only [if_neg hlt] using ihr hr hsr

theorem TreeOk.getSignal (h : TreeOk s ps t) (i : Nat) :
    Settles (fun fuel => s.getSignal fuel i) ps[i]? := by
  have hfind : (inorder t).find? (fun p => (s.node p).id = i) = ps[i]? := by
    cases hf : (inorder t).find? fun p => (s.node p).id = i with
    | none =>
      refine (List.getElem?_eq_none_iff.mpr ?_).symm
      by_contra hi
      have hget : ps[i]? = some ps[i] := List.getElem?_eq_getElem (by omega)
      have hne := List.find?_eq_none.mp hf _ (h.mem_iff.mpr (List.mem_of_getElem? hget))
      exact hne (by simpa using h.ids i _ hget)
    | some p =>
      have hid : (s.node p).id = i := by simpa using List.find?_some hf
      obtain ⟨j, hj⟩ := List.mem_iff_getElem?.mp (h.mem_iff.mp (List.mem_of_find?_eq_some hf))
      rw [h.ids j p hj] at hid
      rw [← hid, hj]
  rw [← hfind]
  simp only [SignalTree.getSignal, h.shape.root]
  exact findSignal_settles h.shape.linked h.sorted i

theorem TreeOk.congr (h : TreeOk s ps t) (hroot : s'.root = s.root) (hlinks : s'.links = s.links)
    (hfactors : s'.factors = s.factors) (hlive : s'.live = s.live)
    (hid : ∀ p, (s'.node p).id = (s.node p).id) (hcur : s'.curId = s.curId) : TreeOk s' ps t := by
  refine ⟨⟨hroot.trans h.shape.root, hlinks ▸ h.shape.linked, h.shape.nodup⟩, hfactors ▸ h.balanced,
    h.order, fun p => ?_, fun i p hp => (hid p).trans (h.ids i p hp), hcur.trans h.curId⟩
  rw [hlive]
  exact h.live p

theorem TreeOk.setSignal (h : TreeOk s ps t) (a : Nat) (x : Signal Nat) :
    TreeOk (s.setSignal a x) ps t := by
  refine h.congr rfl ?_ ?_ rfl (fun p => ?_) rfl
  · funext p
    by_cases hp : p = a
    · simp [links, SignalTree.setSignal, hp]
    · simp [links, SignalTree.setSignal, hp]
  · funext p
    by_cases hp : p = a
    · simp [factors, SignalTree.setSignal, hp]
    · simp [factors, SignalTree.setSignal, hp]
  · by_cases hp : p = a
    · simp [SignalTree.setSignal, hp]
    · simp [SignalTree.setSignal, hp]

/-- One call of `__create_signal`. -/
theorem TreeOk.create (h : TreeOk s ps t) {p : Nat} (hp : s.live p = false) (maxSignals value : Int) (soft : Bool) :
    ∃ s' t', Settles (fun fuel => s.__createSignal fuel p maxSignals value soft)
        (s', ps.length) ∧ (ps.length + 1 < 2 ^ 32 → TreeOk s' (ps ++ [p]) t') ∧
      (s'.node p).signal = createSignal maxSignals value soft ∧
      ∀ q ∈ ps, (s'.node q).signal = (s.node q).signal := by
  have hpps : p ∉ ps := by
    intro hm
    rw [(h.live p).mpr hm] at hp
    exact Bool.noConfusion hp
  obtain ⟨s1, hs1⟩ : ∃ s1 : SignalTree, s1 = { s with
    curId := (s.curId + 1) % 2 ^ 32
    live := update s.live p true
    node := update s.node p ⟨s.curId, createSignal maxSignals value soft, none, none, none, 0⟩ } :=
    ⟨_, rfl⟩
  have hnode : s1.node p = ⟨s.curId, createSignal maxSignals value soft, none, none, none, 0⟩ := by
    rw [hs1]
    exact Function.update_self ..
  have hold : ∀ q, q ≠ p → s1.node q = s.node q := by
    intro q hq
    rw [hs1]
    exact Function.update_of_ne hq ..
  have hne : ∀ q ∈ ps, q ≠ p := by
    rintro q hq rfl
    exact hpps hq
  have hin : ∀ q ∈ inorder t, s1.node q = s.node q := fun q hq => hold q (hne q (h.mem_iff.mp hq))
  obtain ⟨hshape1, hsorted1, hbal1⟩ := h.shape.outside h.sorted h.balanced (hs1 ▸ rfl) hin
  obtain ⟨s2, t2, hinsert, hshape2, hbal2, horder2, hsame2⟩ := insertSignal_largest hshape1 hsorted1
    hbal1 (fun hm => hpps (h.mem_iff.mp hm)) (by simp only [links, hnode])
    (by simp only [factors, hnode]) fun y hy => by
      rw [hin y hy, hnode, h.curId]
      exact h.id_lt (h.mem_iff.mp hy)
  refine ⟨s2, t2, ?_, fun hlt' => ⟨hshape2, hbal2, ?_, fun q => ?_, fun i q hq => ?_, ?_⟩, ?_,
    fun q hq => ?_⟩
  · have hcreate : ∀ fuel, s.__createSignal fuel p maxSignals value soft =
        (s1.insertSignal fuel p).map fun s => (s, ps.length) := by
      intro fuel
      simp only [__createSignal, hs1, h.curId]
    simp only [hcreate]
    exact hinsert.map _
  · rw [horder2, h.order, List.reverse_append]
    rfl
  · rw [hsame2.live, hs1, List.mem_append, List.mem_singleton]
    by_cases hq : q = p
    · simp [hq]
    · simp [hq, h.live]
  · rw [hsame2.id]
    rcases Nat.lt_or_ge i ps.length with hi | hi
    · rw [List.getElem?_append_left hi] at hq
      rw [hold q (hne q (List.mem_of_getElem? hq))]
      exact h.ids i q hq
    · rw [List.getElem?_append_right hi] at hq
      obtain ⟨hi', rfl⟩ := List.getElem?_eq_some_iff.mp hq
      rw [List.length_singleton] at hi'
      rw [List.getElem_singleton, hnode]
      change s.curId = i
      rw [h.curId]
      omega
  · rw [hsame2.curId, hs1, List.length_append, List.length_singleton]
    change (s.curId + 1) % 2 ^ 32 = _
    rw [h.curId, Nat.mod_eq_of_lt hlt']
  · rw [hsame2.signal, hnode]
  · rw [hsame2.signal, hold q (hne q hq)]

/-- The semaphores by their ids, without the tree. -/
def table (s : SignalTree) (ps : List Nat) : List (Signal Nat) := ps.map fun p => (s.node p).signal

def tableStep (l : List (Signal Nat)) : SignalEvent → Option (List (Signal Nat))
  | .create _ maxSignals value soft => some (l ++ [createSignal maxSignals value soft])
  | .up id => l[id]?.bind fun x => (upSignal x).map fun r => l.set id r.1
  | .down id t => l[id]?.map fun x => l.set id (downSignal x t).1

theorem TreeOk.table_setSignal (h : TreeOk s ps t) {i a : Nat} (ha : ps[i]? = some a)
    (x : Signal Nat) : table (s.setSignal a x) ps = (table s ps).set i x := by
  refine List.ext_getElem? fun j => ?_
  obtain ⟨hi, -⟩ := List.getElem?_eq_some_iff.mp ha
  simp only [table, List.getElem?_map, List.getElem?_set, List.length_map, if_pos hi]
  by_cases hj : i = j
  · subst hj
    simp [ha, SignalTree.setSignal]
  · simp only [if_neg hj]
    cases hb : ps[j]? with
    | none => rfl
    | some b =>
      have hba : b ≠ a := by
        rintro rfl
        exact hj ((h.ids i b ha).symm.trans (h.ids j b hb))
      simp [SignalTree.setSignal, hba]

theorem creates_snoc (es : List SignalEvent) (e : SignalEvent) :
    creates (es ++ [e]) = creates es ++ creates [e] := List.filterMap_append

theorem TreeOk.step (h : TreeOk s (creates es) t) (hfits : Fits s e) (hs : Step s e s')
    (hlt : (creates (es ++ [e])).length < 2 ^ 32) :
    (∃ t', TreeOk s' (creates (es ++ [e])) t') ∧
      tableStep (table s (creates es)) e = some (table s' (creates (es ++ [e]))) := by
  obtain ⟨fuel, hs⟩ := hs
  rw [creates_snoc] at hlt ⊢
  cases e with
  | create p maxSignals value soft =>
    obtain ⟨s1, t1, hsettles, hok, hnew, hold⟩ := h.create hfits maxSignals value soft
    obtain ⟨r, hr, rfl⟩ := Option.map_eq_some_iff.mp hs
    obtain rfl := hsettles.unique fuel r hr
    have hlen : (creates es).length + 1 < 2 ^ 32 := by simpa [creates] using hlt
    refine ⟨⟨t1, hok hlen⟩, ?_⟩
    have htable : table s1 (creates es) = table s (creates es) := List.map_congr_left hold
    simp only [tableStep, table, creates, List.filterMap_cons, List.filterMap_nil, List.map_append,
      List.map_cons, List.map_nil, hnew]
    exact congrArg (fun l => some (l ++ _)) htable.symm
  | up id =>
    obtain ⟨r, hr, rfl⟩ := Option.map_eq_some_iff.mp hs
    obtain ⟨found, hfound, hr⟩ := Option.bind_eq_some_iff.mp hr
    obtain rfl := (h.getSignal id).unique fuel found hfound
    obtain ⟨a, ha, hr⟩ := Option.bind_eq_some_iff.mp hr
    obtain ⟨x, hx, rfl⟩ := Option.map_eq_some_iff.mp hr
    rw [show creates [SignalEvent.up id] = [] from rfl, List.append_nil]
    refine ⟨⟨t, h.setSignal a x.1⟩, ?_⟩
    have hget : (table s (creates es))[id]? = some (s.node a).signal := by
      simp only [table, List.getElem?_map, ha, Option.map_some]
    simp only [tableStep, hget, Option.bind_some, hx, Option.map_some, h.table_setSignal ha]
  | down id u =>
    obtain ⟨r, hr, rfl⟩ := Option.map_eq_some_iff.mp hs
    obtain ⟨found, hfound, hr⟩ := Option.bind_eq_some_iff.mp hr
    obtain rfl := (h.getSignal id).unique fuel found hfound
    obtain ⟨a, ha, rfl⟩ := Option.map_eq_some_iff.mp hr
    rw [show creates [SignalEvent.down id u] = [] from rfl, List.append_nil]
    refine ⟨⟨t, h.setSignal a _⟩, ?_⟩
    have hget : (table s (creates es))[id]? = some (s.node a).signal := by
      simp only [table, List.getElem?_map, ha, Option.map_some]
    simp only [tableStep, hget, Option.map_some, h.table_setSignal ha]

theorem TreeOk.start (h : Start s) : TreeOk s [] .nil := by
  obtain ⟨hroot, hcur, hlive⟩ := h
  refine ⟨⟨hroot, trivial, List.nodup_nil⟩, trivial, rfl, fun p => ?_, fun i p hp => ?_, hcur⟩
  · simp [hlive]
  · simp at hp

theorem TreeOk.run (h : Run Start (Guarded Fits Step) es s)
    (hlt : (creates es).length < 2 ^ 32) : (∃ t, TreeOk s (creates es) t) ∧
      es.foldlM tableStep [] = some (table s (creates es)) := by
  refine h.invariant (I := fun es s => (creates es).length < 2 ^ 32 →
    (∃ t, TreeOk s (creates es) t) ∧ es.foldlM tableStep [] = some (table s (creates es)))
    (fun s h0 _ => ⟨⟨_, .start h0⟩, rfl⟩) ?_ hlt
  rintro es s e s' ih ⟨hfits, hs⟩ hlt
  have hlt' : (creates es).length < 2 ^ 32 := by
    rw [creates_snoc, List.length_append] at hlt
    omega
  obtain ⟨⟨t, hok⟩, hfold⟩ := ih hlt'
  obtain ⟨hok', htable⟩ := hok.step hfits hs hlt
  refine ⟨hok', ?_⟩
  rw [List.foldlM_append, hfold]
  simpa using htable

theorem signal_tree_refines_table (h : Run Start (Guarded Fits Step) es s)
    (hlt : (creates es).length < 2 ^ 32) :
    Run (fun l => l = []) (fun l e l' => tableStep l e = some l') es (table s (creates es)) :=
  .ofFold es rfl (TreeOk.run h hlt).2

/-- After `n` calls of `__create_signal` the tree has the ids below `n`, is balanced, and
`get_signal` finds the `i`-th semaphore, and nothing else; the next call goes through. -/
theorem signal_index (h : Run Start (Guarded Fits Step) es s)
    (hlt : (creates es).length < 2 ^ 32) :
    ∃ t, s.root = rootOf t ∧ TreeAt s.links none t ∧ (inorder t).Nodup ∧
      t.numNodes = (creates es).length ∧
      (inorder t).map (fun p => (s.node p).id) = (List.range (creates es).length).reverse ∧
      Balanced s.factors t ∧
      (∀ i, Settles (fun fuel => s.getSignal fuel i) (creates es)[i]?) ∧
      ∀ p maxSignals value soft, s.live p = false → ∃ s',
        Settles (fun fuel => s.__createSignal fuel p maxSignals value soft)
          (s', (creates es).length) := by
  obtain ⟨⟨t, hok⟩, -⟩ := TreeOk.run h hlt
  refine ⟨t, hok.shape.root, hok.shape.linked, hok.shape.nodup, ?_, ?_, hok.balanced, hok.getSignal,
    fun p maxSignals value soft hp => ?_⟩
  · rw [← length_inorder, hok.order, List.length_reverse]
  · rw [hok.order, List.map_reverse]
    refine congrArg List.reverse (List.ext_getElem (by simp) fun i hi hj => ?_)
    rw [List.length_map] at hi
    rw [List.getElem_map, List.getElem_range]
    exact hok.ids i _ (List.getElem?_eq_getElem hi)
  · obtain ⟨s', -, hsettles, -⟩ := hok.create hp maxSignals value soft
    exact ⟨s', hsettles⟩

/-- The third semaphore turns the second one into the root. -/
theorem signal_index_three : ∃ (s : SignalTree) (t : BinaryTree Nat), s.root = some 200 ∧
    s.root = rootOf t ∧ TreeAt s.links none t ∧
    (inorder t).map (fun p => (s.node p).id) = [2, 1, 0] ∧ Balanced s.factors t ∧
    Settles (fun fuel => s.getSignal fuel 2) (some 300) := by
  let s0 : SignalTree :=
    ⟨fun _ => ⟨0, createSignal 0 0 false, none, none, none, 0⟩, fun _ => false, none, 0⟩
  let s1 := (s0.step 9 (.create 100 1 1 false)).getD s0
  let s2 := (s1.step 9 (.create 200 1 0 false)).getD s1
  let s3 := (s2.step 9 (.create 300 8 0 true)).getD s2
  have h0 : Run Start (Guarded Fits Step) [] s0 := .start ⟨rfl, rfl, fun _ => rfl⟩
  have h1 : Run Start (Guarded Fits Step) [.create 100 1 1 false] s1 := .snoc h0 ⟨rfl, 9, rfl⟩
  have h2 : Run Start (Guarded Fits Step)
      [.create 100 1 1 false, .create 200 1 0 false] s2 := .snoc h1 ⟨rfl, 9, rfl⟩
  have h3 : Run Start (Guarded Fits Step)
      [.create 100 1 1 false, .create 200 1 0 false, .create 300 8 0 true] s3 :=
    .snoc h2 ⟨rfl, 9, rfl⟩
  obtain ⟨t, hroot, hlinked, -, -, hids, hbalanced, hget, -⟩ := signal_index h3 (by decide)
  exact ⟨s3, t, rfl, hroot, hlinked, hids, hbalanced, hget 2⟩

end SignalTree

end TayHuang
