import TayHuang.Signals
import Mathlib.Algebra.Group.Nat.Defs
import Mathlib.Logic.Function.Basic

/-! The tree of semaphores, signal.c: larger ids are on the left, and every node
keeps the height of its right subtree less that of its left one. -/

namespace TayHuang

open Function (update)

structure SignalNode where
  id : Nat
  signal : Signal Nat
  left : Option Nat
  right : Option Nat
  parent : Option Nat
  factor : Int
  deriving DecidableEq, Repr

/-- The nodes in memory, those that are allocated, `signal_root` and `cur_id`. -/
structure SignalTree where
  node : Nat → SignalNode
  live : Nat → Bool
  root : Option Nat
  curId : Nat

namespace SignalTree

variable (s : SignalTree)

def setLeft (a : Nat) (b : Option Nat) : SignalTree :=
  { s with node := update s.node a { s.node a with left := b } }

def setRight (a : Nat) (b : Option Nat) : SignalTree :=
  { s with node := update s.node a { s.node a with right := b } }

def setParent (a : Nat) (b : Option Nat) : SignalTree :=
  { s with node := update s.node a { s.node a with parent := b } }

def setFactor (a : Nat) (x : Int) : SignalTree :=
  { s with node := update s.node a { s.node a with factor := x } }

def setSignal (a : Nat) (x : Signal Nat) : SignalTree :=
  { s with node := update s.node a { s.node a with signal := x } }

/-- A node gets a parent, if there is one. -/
def setParentOf (c b : Option Nat) : SignalTree := c.elim s fun x => s.setParent x b

/-- `parent`'s pointer to `node`, or the root, becomes `sub`. -/
def replaceChild (parent : Option Nat) (node sub : Nat) : SignalTree :=
  match parent with
  | none => { s with root := some sub }
  | some p =>
    if (s.node p).left = some node then s.setLeft p (some sub) else s.setRight p (some sub)

set_option linter.style.nameCheck false in
/-- `__fix_ll`. `none` where it would read through `NULL`. -/
def __fixLl (node : Nat) : Option SignalTree :=
  (s.node node).left.map fun subl =>
    let sublr := (s.node subl).right
    let parent := (s.node node).parent
    let s := s.setLeft node sublr
    let s := s.setParentOf sublr (some node)
    let s := s.setRight subl (some node)
    let s := s.setParent node (some subl)
    let s := s.setParent subl parent
    let s := s.replaceChild parent node subl
    (s.setFactor node 0).setFactor subl 0

set_option linter.style.nameCheck false in
def __fixRr (node : Nat) : Option SignalTree :=
  (s.node node).right.map fun subr =>
    let subrl := (s.node subr).left
    let parent := (s.node node).parent
    let s := s.setRight node subrl
    let s := s.setParentOf subrl (some node)
    let s := s.setLeft subr (some node)
    let s := s.setParent node (some subr)
    let s := s.setParent subr parent
    let s := s.replaceChild parent node subr
    (s.setFactor node 0).setFactor subr 0

set_option linter.style.nameCheck false in
def __fixLr (node : Nat) : Option SignalTree :=
  (s.node node).left.bind fun subl =>
    (s.node subl).right.bind fun sublr =>
      let sublrFactor := (s.node sublr).factor
      (s.__fixRr subl).bind fun s =>
        (s.__fixLl node).map fun s =>
          if sublrFactor = 1 then s.setFactor subl (-1)
          else if sublrFactor = -1 then s.setFactor node 1
          else s

set_option linter.style.nameCheck false in
def __fixRl (node : Nat) : Option SignalTree :=
  (s.node node).right.bind fun subr =>
    (s.__fixLl subr).bind fun s => s.__fixRr node

/-- The first loop of `__insert_signal`: where the node was put, or `none` inside
for an id that exists. -/
def place (node : Nat) : Nat → Nat → Option (Option (SignalTree × Nat))
  | 0, _ => none
  | fuel + 1, parent =>
    if (s.node node).id = (s.node parent).id then some none
    else if (s.node parent).id < (s.node node).id then
      match (s.node parent).left with
      | none => some (some ((s.setParent node (some parent)).setLeft parent (some node), parent))
      | some l => place node fuel l
    else
      match (s.node parent).right with
      | none => some (some ((s.setParent node (some parent)).setRight parent (some node), parent))
      | some r => place node fuel r

/-- The repair at the end of the second loop. -/
def repair (parent : Nat) : Option SignalTree :=
  if (s.node parent).factor = -2 then
    (s.node parent).left.bind fun l =>
      if (s.node l).factor = -1 then s.__fixLl parent else s.__fixLr parent
  else if (s.node parent).factor = 2 then
    (s.node parent).right.bind fun r =>
      if (s.node r).factor = 1 then s.__fixRr parent else s.__fixRl parent
  else some s

/-- The second loop of `__insert_signal`. -/
def rebalance : Nat → SignalTree → Nat → Option Nat → Option SignalTree
  | 0, _, _, _ => none
  | _ + 1, s, _, none => some s
  | fuel + 1, s, node, some parent =>
    let s := s.setFactor parent
      (if (s.node parent).left = some node then (s.node parent).factor - 1
        else (s.node parent).factor + 1)
    if (s.node parent).factor = 0 then some s
    else
      (s.node node).parent.bind fun up =>
        if (s.node up).factor = 1 ∨ (s.node up).factor = -1 then
          rebalance fuel s parent (s.node parent).parent
        else s.repair parent

def insertSignal (fuel : Nat) (node : Nat) : Option SignalTree :=
  match s.root with
  | none => some { s with root := some node }
  | some r =>
    (s.place node fuel r).bind fun x =>
      match x with
      | none => some s
      | some (s, parent) => rebalance fuel s node (some parent)

/-- The loop of `get_signal`. -/
def findSignal (node : Nat → SignalNode) (id : Nat) : Nat → Option Nat → Option (Option Nat)
  | 0, _ => none
  | _ + 1, none => some none
  | fuel + 1, some a =>
    if (node a).id = id then some (some a)
    else if (node a).id < id then findSignal node id fuel (node a).left
    else findSignal node id fuel (node a).right

def getSignal (fuel id : Nat) : Option (Option Nat) := findSignal s.node id fuel s.root

set_option linter.style.nameCheck false in
/-- `__create_signal`; `p` is where `kmalloc` puts the node. -/
def __createSignal (fuel p : Nat) (maxSignals value : Int) (soft : Bool) :
    Option (SignalTree × Nat) :=
  let id := s.curId
  let s := { s with
    curId := (s.curId + 1) % 2 ^ 32
    live := update s.live p true
    node := update s.node p ⟨id, createSignal maxSignals value soft, none, none, none, 0⟩ }
  (s.insertSignal fuel p).map fun s => (s, id)

set_option linter.style.nameCheck false in
/-- `__up_signal`, and the thread that it makes ready. -/
def __upSignal (fuel id : Nat) : Option (SignalTree × Option Nat) :=
  (s.getSignal fuel id).bind fun found =>
    found.bind fun a => (upSignal (s.node a).signal).map fun r => (s.setSignal a r.1, r.2)

set_option linter.style.nameCheck false in
/-- `__down_signal` by the thread `t`, and whether it has to wait. -/
def __downSignal (fuel id t : Nat) : Option (SignalTree × Bool) :=
  (s.getSignal fuel id).bind fun found =>
    found.map fun a =>
      let r := downSignal (s.node a).signal t
      (s.setSignal a r.1, r.2)

end SignalTree

end TayHuang
