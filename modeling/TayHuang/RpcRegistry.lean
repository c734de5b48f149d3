import TayHuang.Fuel
import TayHuang.LinkedCells
import TayHuang.Runs

/-! The registry of outstanding remote calls, ipc.c of libkmod: a linked list
from message ids to the signal and the buffer that wait for the result. -/

namespace TayHuang

open Function (update)
open LinkedCells Fuel Runs

/-- `signal_ln`, with its `signal_data`. -/
structure SignalLn where
  msgid : Nat
  signal : Nat
  data : Nat
  next : Option Nat
  deriving DecidableEq, Repr

structure Reg where
  head : Option Nat
  node : Nat → SignalLn

/-- The loop of `set_rpc_result`. -/
def lastNode (m : Nat → SignalLn) : Nat → Nat → Option Nat
  | 0, _ => none
  | fuel + 1, cur =>
    match (m cur).next with
    | none => some cur
    | some n => lastNode m fuel n

/-- `set_rpc_result`; `new` is what `malloc` would return. When the last entry has
this id, it is the first entry that is written. -/
def setRpcResult (fuel new : Nat) (s : Reg) (msgid signal data : Nat) : Option Reg :=
  match s.head with
  | none => some { head := some new, node := update s.node new ⟨msgid, signal, data, none⟩ }
  | some head =>
    (lastNode s.node fuel head).map fun cur =>
      if (s.node cur).msgid = msgid then
        { s with node := update s.node head { s.node head with signal := signal, data := data } }
      else
        { s with
          node := update (update s.node cur { s.node cur with next := some new }) new
            ⟨msgid, signal, data, none⟩ }

def findNode (m : Nat → SignalLn) (msgid : Nat) : Nat → Option Nat → Option (Option Nat)
  | 0, _ => none
  | _ + 1, none => some none
  | fuel + 1, some cur =>
    if (m cur).msgid = msgid then some (some cur) else findNode m msgid fuel (m cur).next

/-- `get_signal`: the node that holds the signal data, or `NULL`. -/
def getSignal (fuel : Nat) (s : Reg) (msgid : Nat) : Option (Option Nat) :=
  findNode s.node msgid fuel s.head

/-- The loop of `remove_rpc_result`. It never moves on from `cur`. -/
def removeLoop (m : Nat → SignalLn) (msgid cur : Nat) : Nat → Option (Nat → SignalLn)
  | 0 => none
  | fuel + 1 =>
    match (m cur).next with
    | none => some m
    | some nxt =>
      if (m nxt).msgid = msgid then some (update m cur { m cur with next := (m nxt).next })
      else removeLoop m msgid cur fuel

def removeRpcResult (fuel : Nat) (s : Reg) (msgid : Nat) : Option Reg :=
  match s.head with
  | none => some s
  | some cur => (removeLoop s.node msgid cur fuel).map fun m => { s with node := m }

/-! ### The registry as a list -/

structure Entry where
  addr : Nat
  msgid : Nat
  signal : Nat
  data : Nat
  deriving DecidableEq, Repr

def entryCell (x : Entry) (next : Option Nat) : SignalLn := ⟨x.msgid, x.signal, x.data, next⟩

/-- The entries of the registry, in list order. -/
structure RegList (s : Reg) (l : List Entry) : Prop where
  head : s.head = entry Entry.addr l none
  chained : Chained Entry.addr entryCell s.node l none
  nodup : (l.map Entry.addr).Nodup

def ids (l : List Entry) : List Nat := l.map Entry.msgid

/-- What the list says about an id. -/
def valueIn (l : List Entry) (msgid : Nat) : Option (Nat × Nat) :=
  (l.find? fun x => x.msgid = msgid).map fun x => (x.signal, x.data)

variable {s : Reg} {l : List Entry} {msgid signal data new : Nat}

theorem RegList.unique {l' : List Entry} (h : RegList s l) (h' : RegList s l') : l = l' := by
  refine h.chained.unique h'.chained (h.head.symm.trans h'.head) ?_
  intro x y n n' hxy hc
  obtain ⟨h1, h2, h3, h4⟩ := SignalLn.mk.inj hc
  exact ⟨by cases x; cases y; simp_all, h4⟩

theorem valueIn_eq_none : valueIn l msgid = none ↔ msgid ∉ ids l := by
  simp only [valueIn, ids, Option.map_eq_none_iff, List.find?_eq_none, decide_eq_true_eq,
    List.mem_map, not_exists, not_and]

theorem valueIn_append {r : List Entry} :
    valueIn (l ++ r) msgid = (valueIn l msgid).or (valueIn r msgid) := by
  simp only [valueIn, List.find?_append, Option.map_or]

theorem valueIn_cons (x : Entry) : valueIn (x :: l) msgid =
    if x.msgid = msgid then some (x.signal, x.data) else valueIn l msgid := by
  simp only [valueIn, List.find?_cons]
  by_cases h : x.msgid = msgid <;> simp [h]

/-! ### The loops -/

theorem lastNode_settles {m : Nat → SignalLn} {x : Entry} (pre : List Entry)
    (h : Chained Entry.addr entryCell m (pre ++ [x]) none) {cur : Nat}
    (hcur : entry Entry.addr (pre ++ [x]) none = some cur) :
    Settles (fun fuel => lastNode m fuel cur) x.addr := by
  induction pre generalizing cur with
  | nil =>
    obtain rfl : x.addr = cur := by simpa using hcur
    apply settles_succ rfl
    have hx : (m x.addr).next = none := by
      rw [h.1]
      rfl
    simp only [lastNode, hx]
    exact settles_const _
  | cons y pre ih =>
    obtain rfl : y.addr = cur := by simpa using hcur
    obtain ⟨n, hn⟩ : ∃ n, entry Entry.addr (pre ++ [x]) none = some n := by
      cases pre <;> simp
    have hy : (m y.addr).next = some n := by
      rw [h.1, ← hn]
      rfl
    apply settles_succ rfl
    simp only [lastNode, hy]
    exact ih h.2 hn

theorem findNode_settles {m : Nat → SignalLn} (h : Chained Entry.addr entryCell m l none)
    (msgid : Nat) : Settles (fun fuel => findNode m msgid fuel (entry Entry.addr l none))
      ((l.find? fun x => x.msgid = msgid).map Entry.addr) := by
  induction l with
  | nil =>
    apply settles_succ rfl
    simp only [entry_nil, findNode]
    exact settles_const _
  | cons x l ih =>
    apply settles_succ rfl
    have hx : (m x.addr).msgid = x.msgid ∧ (m x.addr).next = entry Entry.addr l none := by
      rw [h.1]
      exact ⟨rfl, rfl⟩
    simp only [entry_cons, findNode, hx.1, hx.2]
    by_cases hid : x.msgid = msgid
    · simp only [List.find?_cons, hid, decide_true, Option.map_some]
      exact settles_const _
    · simp only [List.find?_cons, hid, decide_false]
      exact ih h.2

/-- `get_signal` answers what the list says. -/
theorem getSignal_settles (h : RegList s l) (msgid : Nat) :
    ∃ a, Settles (fun fuel => getSignal fuel s msgid) a ∧
      a.map (fun p => ((s.node p).signal, (s.node p).data)) = valueIn l msgid := by
  have hset := findNode_settles h.chained msgid
  rw [← h.head] at hset
  refine ⟨_, hset, ?_⟩
  rw [valueIn, Option.map_map]
  cases hf : l.find? fun x => x.msgid = msgid with
  | none => rfl
  | some x =>
    obtain ⟨pre, post, -, hx⟩ := h.chained.link_of_mem (List.mem_of_find?_eq_some hf)
    simp only [Option.map_some, Function.comp_apply, hx, entryCell]

/-! ### One operation -/

/-- A new id, or one that is the only entry. -/
def SetFits (l : List Entry) (msgid : Nat) : Prop := msgid ∉ ids l ∨ ids l = [msgid]

/-- The second entry, or an id that is not there in a list without a second one. -/
def RemoveFits (l : List Entry) (msgid : Nat) : Prop :=
  (ids l)[1]? = some msgid ∨ (ids l)[1]? = none ∧ msgid ∉ ids l

theorem setRpcResult_nil (h : RegList s []) :
    ∃ s', Settles (fun fuel => setRpcResult fuel new s msgid signal data) s' ∧
      RegList s' [⟨new, msgid, signal, data⟩] := by
  have hhead : s.head = none := h.head
  refine ⟨⟨some new, update s.node new ⟨msgid, signal, data, none⟩⟩, ?_,
    ⟨rfl, ⟨by simp [entryCell], trivial⟩, by simp⟩⟩
  simp only [setRpcResult, hhead]
  exact settles_const _

theorem setRpcResult_only {x : Entry} (h : RegList s [x]) (hid : x.msgid = msgid) :
    ∃ s', Settles (fun fuel => setRpcResult fuel new s msgid signal data) s' ∧
      RegList s' [⟨x.addr, msgid, signal, data⟩] := by
  have hhead : s.head = some x.addr := h.head
  have hnode : s.node x.addr = ⟨x.msgid, x.signal, x.data, none⟩ := h.chained.1
  have hlast := lastNode_settles [] h.chained (entry_cons ..)
  refine ⟨⟨some x.addr, update s.node x.addr ⟨x.msgid, signal, data, none⟩⟩, ?_,
    ⟨rfl, ⟨by simp [entryCell, hid], trivial⟩, by simp⟩⟩
  simp only [setRpcResult, hhead]
  simpa only [hnode, if_pos hid] using hlast.map fun cur =>
    if (s.node cur).msgid = msgid then
      (⟨some x.addr, update s.node x.addr { s.node x.addr with signal := signal, data := data }⟩
        : Reg)
    else ⟨some x.addr, update (update s.node cur { s.node cur with next := some new }) new
        ⟨msgid, signal, data, none⟩⟩

theorem setRpcResult_snoc {x : Entry} {pre : List Entry} (h : RegList s (pre ++ [x]))
    (hid : x.msgid ≠ msgid) (hnew : new ∉ (pre ++ [x]).map Entry.addr) :
    ∃ s', Settles (fun fuel => setRpcResult fuel new s msgid signal data) s' ∧
      RegList s' (pre ++ [x] ++ [⟨new, msgid, signal, data⟩]) := by
  obtain ⟨cur, hcur⟩ : ∃ cur, entry Entry.addr (pre ++ [x]) none = some cur := by
    cases pre <;> simp
  have hhead : s.head = some cur := h.head.trans hcur
  have hlast := lastNode_settles pre h.chained hcur
  have hch := chained_append.mp h.chained
  have hx : s.node x.addr = ⟨x.msgid, x.signal, x.data, none⟩ := hch.2.1
  have hnx : new ≠ x.addr := fun he => hnew (by simp [he])
  have hxpre : x.addr ∉ pre.map Entry.addr := by
    have hn := h.nodup
    rw [List.map_append, List.nodup_append] at hn
    exact fun hm => hn.2.2 _ hm x.addr (by simp) rfl
  have hnpre : new ∉ pre.map Entry.addr := fun hm => hnew (by simp [List.mem_map.mp hm])
  refine ⟨⟨some cur, update (update s.node x.addr ⟨x.msgid, x.signal, x.data, some new⟩) new
    ⟨msgid, signal, data, none⟩⟩, ?_, ?_, ?_, ?_⟩
  · simp only [setRpcResult, hhead]
    simpa only [hx, if_neg hid] using hlast.map fun y =>
      if (s.node y).msgid = msgid then
        (⟨some cur, update s.node cur { s.node cur with signal := signal, data := data }⟩ : Reg)
      else ⟨some cur, update (update s.node y { s.node y with next := some new }) new
          ⟨msgid, signal, data, none⟩⟩
  · rw [← hcur, List.append_assoc]
    cases pre <;> simp
  · rw [List.append_assoc, List.singleton_append, chained_append]
    refine ⟨(hch.1.update hxpre).update hnpre, ?_, ?_, trivial⟩
    · simp [hnx.symm, entryCell]
    · simp [entryCell]
  · rw [List.map_append, List.nodup_append]
    refine ⟨h.nodup, by simp, ?_⟩
    intro a ha b hb he
    obtain rfl : b = new := by simpa using hb
    exact hnew (he ▸ ha)

theorem setRpcResult_settles (h : RegList s l) (hids : (ids l).Nodup) (hfit : SetFits l msgid)
    (hnew : new ∉ l.map Entry.addr) :
    ∃ s' l', Settles (fun fuel => setRpcResult fuel new s msgid signal data) s' ∧ RegList s' l' ∧
      (ids l').Nodup ∧ ids l' = (if msgid ∈ ids l then ids l else ids l ++ [msgid]) ∧
      valueIn l' = update (valueIn l) msgid (some (signal, data)) := by
  rcases hfit with hn | hone
  · -- a new entry at the end
    have hval : valueIn (l ++ [⟨new, msgid, signal, data⟩]) =
        update (valueIn l) msgid (some (signal, data)) := by
      funext k
      rw [valueIn_append, valueIn_cons]
      by_cases hk : msgid = k
      · subst hk
        simp [valueIn_eq_none.mpr hn]
      · simp [hk, Ne.symm hk, valueIn]
    have hids' : (ids (l ++ [⟨new, msgid, signal, data⟩])).Nodup := by
      rw [ids, List.map_append, List.nodup_append]
      refine ⟨hids, by simp, ?_⟩
      intro a ha b hb he
      obtain rfl : b = msgid := by simpa using hb
      exact hn (he ▸ ha)
    have happ : ids (l ++ [⟨new, msgid, signal, data⟩]) =
        if msgid ∈ ids l then ids l else ids l ++ [msgid] := by
      rw [if_neg hn, ids, List.map_append]
      rfl
    rcases List.eq_nil_or_concat' l with rfl | ⟨pre, x, rfl⟩
    · obtain ⟨s', hs, hl⟩ := setRpcResult_nil h
      exact ⟨s', _, hs, hl, hids', happ, hval⟩
    · have hid : x.msgid ≠ msgid := fun he => hn (by simp [ids, he])
      obtain ⟨s', hs, hl⟩ := setRpcResult_snoc h hid hnew
      exact ⟨s', _, hs, hl, hids', happ, hval⟩
  · -- the only entry is written
    obtain ⟨x, rfl, hid⟩ := List.map_eq_singleton_iff.mp hone
    obtain ⟨s', hs, hl⟩ := setRpcResult_only h hid
    refine ⟨s', _, hs, hl, by simp [ids], by simp [ids, hid], ?_⟩
    funext k
    by_cases hk : msgid = k
    · subst hk
      simp [valueIn_cons]
    · simp [hk, Ne.symm hk, valueIn_cons, hid]

theorem removeRpcResult_short (h : RegList s l) (hl : l.length ≤ 1) (msgid : Nat) :
    Settles (fun fuel => removeRpcResult fuel s msgid) s := by
  rcases l with - | ⟨x, l⟩
  · have hhead : s.head = none := h.head
    simp only [removeRpcResult, hhead]
    exact settles_const _
  · obtain rfl : l = [] := by simpa using hl
    have hhead : s.head = some x.addr := h.head
    have hx : (s.node x.addr).next = none := by
      rw [h.chained.1]
      rfl
    have hloop : Settles (fun fuel => removeLoop s.node msgid x.addr fuel) s.node := by
      apply settles_succ rfl
      simp only [removeLoop, hx]
      exact settles_const _
    have hs : s = ⟨some x.addr, s.node⟩ := by rw [← hhead]
    rw [hs]
    exact hloop.map _

theorem removeRpcResult_second {x y : Entry} (h : RegList s (x :: y :: l)) :
    ∃ s', Settles (fun fuel => removeRpcResult fuel s y.msgid) s' ∧ RegList s' (x :: l) := by
  have hhead : s.head = some x.addr := h.head
  have hx : s.node x.addr = entryCell x (some y.addr) := h.chained.1
  have hy : s.node y.addr = entryCell y (entry Entry.addr l none) := h.chained.2.1
  have hnodup := h.nodup
  simp only [List.map_cons, List.nodup_cons, List.mem_cons, not_or] at hnodup
  have hloop : Settles (fun fuel => removeLoop s.node y.msgid x.addr fuel)
      (update s.node x.addr (entryCell x (entry Entry.addr l none))) := by
    apply settles_succ rfl
    simp only [removeLoop, hx, entryCell, hy, if_true]
    exact settles_const _
  refine ⟨⟨some x.addr, update s.node x.addr (entryCell x (entry Entry.addr l none))⟩, ?_,
    rfl, ⟨by simp, ?_⟩, ?_⟩
  · simp only [removeRpcResult, hhead]
    exact hloop.map _
  · exact h.chained.2.2.update hnodup.1.2
  · simp only [List.map_cons, List.nodup_cons]
    exact ⟨hnodup.1.2, hnodup.2.2⟩

theorem removeRpcResult_diverges {x y : Entry} (h : RegList s (x :: y :: l))
    (hid : y.msgid ≠ msgid) : Diverges fun fuel => removeRpcResult fuel s msgid := by
  have hhead : s.head = some x.addr := h.head
  have hx : s.node x.addr = entryCell x (some y.addr) := h.chained.1
  have hy : s.node y.addr = entryCell y (entry Entry.addr l none) := h.chained.2.1
  have hloop : ∀ fuel, removeLoop s.node msgid x.addr fuel = none := by
    intro fuel
    induction fuel with
    | zero => rfl
    | succ fuel ih => simp only [removeLoop, hx, entryCell, hy, if_neg hid, ih]
  intro fuel
  simp only [removeRpcResult, hhead, hloop, Option.map_none]

theorem removeRpcResult_settles (h : RegList s l) (hids : (ids l).Nodup)
    (hfit : RemoveFits l msgid) :
    ∃ s' l', Settles (fun fuel => removeRpcResult fuel s msgid) s' ∧ RegList s' l' ∧
      (ids l').Nodup ∧ valueIn l' = update (valueIn l) msgid none := by
  rcases hfit with hsec | ⟨hshort, hn⟩
  · rcases l with - | ⟨x, - | ⟨y, l⟩⟩
    · simp [ids] at hsec
    · simp [ids] at hsec
    · obtain rfl : y.msgid = msgid := by simpa [ids] using hsec
      obtain ⟨s', hs, hl⟩ := removeRpcResult_second h
      simp only [ids, List.map_cons, List.nodup_cons, List.mem_cons, not_or] at hids
      refine ⟨s', x :: l, hs, hl, ?_, ?_⟩
      · simp only [ids, List.map_cons, List.nodup_cons]
        exact ⟨hids.1.2, hids.2.2⟩
      · funext k
        by_cases hk : k = y.msgid
        · subst hk
          simp [valueIn_cons, hids.1.1, valueIn_eq_none.mpr hids.2.1]
        · simp [hk, valueIn_cons, Ne.symm hk]
  · have hlen : l.length ≤ 1 := by simpa [ids] using hshort
    refine ⟨s, l, removeRpcResult_short h hlen msgid, h, hids, ?_⟩
    rw [← valueIn_eq_none.mpr hn, Function.update_eq_self]

/-! ### Runs -/

/-- An operation on the registry; `new` is what `malloc` returns. -/
inductive RegOp
  | set (msgid signal data new : Nat)
  | remove (msgid : Nat)
  deriving DecidableEq, Repr

def regStep (fuel : Nat) (s : Reg) : RegOp → Option Reg
  | .set msgid signal data new => setRpcResult fuel new s msgid signal data
  | .remove msgid => removeRpcResult fuel s msgid

def RegStep (s : Reg) (op : RegOp) (s' : Reg) : Prop := ∃ fuel, regStep fuel s op = some s'

def regBoot (s : Reg) : Prop := s.head = none

/-- The finite map that the registry stands for. -/
def mapStep (f : Nat → Option (Nat × Nat)) : RegOp → Nat → Option (Nat × Nat)
  | .set msgid signal data _ => update f msgid (some (signal, data))
  | .remove msgid => update f msgid none

def outstanding (ops : List RegOp) : Nat → Option (Nat × Nat) :=
  ops.foldl mapStep fun _ => none

def OpFits (l : List Entry) : RegOp → Prop
  | .set msgid _ _ new => SetFits l msgid ∧ new ∉ l.map Entry.addr
  | .remove msgid => RemoveFits l msgid

def Fits (s : Reg) (op : RegOp) : Prop := ∃ l, RegList s l ∧ OpFits l op

/-- The entries are the map, each id once. -/
structure Registered (s : Reg) (f : Nat → Option (Nat × Nat)) (l : List Entry) : Prop where
  list : RegList s l
  nodup : (ids l).Nodup
  value : valueIn l = f

variable {f : Nat → Option (Nat × Nat)}

theorem Registered.step (h : Registered s f l) {op : RegOp} (hfit : Fits s op) :
    ∃ s' l', Settles (fun fuel => regStep fuel s op) s' ∧ Registered s' (mapStep f op) l' := by
  obtain ⟨k, hk, hfit⟩ := hfit
  obtain rfl : l = k := h.list.unique hk
  cases op with
  | set msgid signal data new =>
    obtain ⟨s', l', hs, hl, hids, -, hval⟩ :=
      setRpcResult_settles h.list h.nodup hfit.1 hfit.2
    exact ⟨s', l', hs, hl, hids, by rw [hval, h.value]; rfl⟩
  | remove msgid =>
    obtain ⟨s', l', hs, hl, hids, hval⟩ := removeRpcResult_settles h.list h.nodup hfit
    exact ⟨s', l', hs, hl, hids, by rw [hval, h.value]; rfl⟩

theorem registered_of_run {ops : List RegOp} (h : Run regBoot (Guarded Fits RegStep) ops s) :
    ∃ l, Registered s (outstanding ops) l := by
  refine h.invariant (I := fun ops s => ∃ l, Registered s (outstanding ops) l) ?_ ?_
  · intro s hs
    exact ⟨[], ⟨hs, trivial, List.nodup_nil⟩, List.nodup_nil, rfl⟩
  · rintro ops s op s' ⟨l, hl⟩ ⟨fits, fuel, step⟩
    obtain ⟨t, l', hset, hl'⟩ := hl.step fits
    obtain rfl := hset.unique fuel s' step
    exact ⟨l', by simpa [outstanding] using hl'⟩

/-- In a run whose operations fit, the registry is the finite map, and the next
operation that fits returns. -/
theorem registry_is_map {ops : List RegOp} (h : Run regBoot (Guarded Fits RegStep) ops s) :
    (∃ l, RegList s l ∧ (ids l).Nodup ∧ valueIn l = outstanding ops) ∧
    (∀ msgid, ∃ a, Settles (fun fuel => getSignal fuel s msgid) a ∧
      a.map (fun p => ((s.node p).signal, (s.node p).data)) = outstanding ops msgid) ∧
    ∀ op, Fits s op → ∃ s', Settles (fun fuel => regStep fuel s op) s' := by
  obtain ⟨l, hl⟩ := registered_of_run h
  refine ⟨⟨l, hl.list, hl.nodup, hl.value⟩, fun msgid => ?_, fun op hop => ?_⟩
  · rw [← hl.value]
    exact getSignal_settles hl.list msgid
  · obtain ⟨s', -, hs, -⟩ := hl.step hop
    exact ⟨s', hs⟩

/-- Two calls, and the answer to the second. -/
theorem registry_is_map_two : ∃ s,
    Run regBoot (Guarded Fits RegStep) [.set 0 7 64 16, .set 1 8 96 48, .remove 1] s ∧
    (∃ a, Settles (fun fuel => getSignal fuel s 0) a ∧
      a.map (fun p => ((s.node p).signal, (s.node p).data)) = some (7, 64)) ∧
    ∃ a, Settles (fun fuel => getSignal fuel s 1) a ∧
      a.map (fun p => ((s.node p).signal, (s.node p).data)) = none := by
  have h0 : Run regBoot (Guarded Fits RegStep) [] ⟨none, fun _ => ⟨0, 0, 0, none⟩⟩ := .start rfl
  have h1 := h0.snoc (e := RegOp.set 0 7 64 16)
    ⟨⟨[], ⟨rfl, trivial, List.nodup_nil⟩, .inl (by decide), by decide⟩, 1, rfl⟩
  have h2 := h1.snoc (e := RegOp.set 1 8 96 48)
    ⟨⟨[⟨16, 0, 7, 64⟩], ⟨rfl, ⟨rfl, trivial⟩, by decide⟩, .inl (by decide), by decide⟩, 1, rfl⟩
  have h3 := h2.snoc (e := RegOp.remove 1)
    ⟨⟨[⟨16, 0, 7, 64⟩, ⟨48, 1, 8, 96⟩], ⟨rfl, ⟨rfl, rfl, trivial⟩, by decide⟩, .inl rfl⟩, 1, rfl⟩
  have hmap := (registry_is_map h3).2.1
  exact ⟨_, h3, hmap 0, hmap 1⟩

/-- The answer to the first call is not removed, and an answer that overtakes
another one hangs the loop. -/
theorem registry_keeps_head :
    (∃ s, Run regBoot RegStep [.set 0 7 64 16, .remove 0] s ∧ getSignal 1 s 0 = some (some 16) ∧
      outstanding [.set 0 7 64 16, .remove 0] 0 = none) ∧
    ∃ s, Run regBoot RegStep [.set 0 7 64 16, .set 1 8 96 48, .set 2 9 128 80] s ∧
      outstanding [.set 0 7 64 16, .set 1 8 96 48, .set 2 9 128 80] 2 = some (9, 128) ∧
      Diverges fun fuel => removeRpcResult fuel s 2 := by
  have h0 : Run regBoot RegStep [] ⟨none, fun _ => ⟨0, 0, 0, none⟩⟩ := .start rfl
  have h1 := h0.snoc (e := RegOp.set 0 7 64 16) ⟨1, rfl⟩
  have h2 := h1.snoc (e := RegOp.set 1 8 96 48) ⟨1, rfl⟩
  have h3 := h2.snoc (e := RegOp.set 2 9 128 80) ⟨2, rfl⟩
  refine ⟨⟨_, h1.snoc (e := RegOp.remove 0) ⟨1, rfl⟩, rfl, rfl⟩, _, h3, rfl, ?_⟩
  exact removeRpcResult_diverges (x := ⟨16, 0, 7, 64⟩) (y := ⟨48, 1, 8, 96⟩)
    (l := [⟨80, 2, 9, 128⟩]) ⟨rfl, ⟨rfl, rfl, rfl, trivial⟩, by decide⟩ (by decide)

end TayHuang
