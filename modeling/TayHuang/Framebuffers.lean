import TayHuang.Fuel
import TayHuang.LinkedCells
import TayHuang.Runs

/-! The table of frame buffers of the video driver, framebuffers.c: a linked list
from ids to frames. -/

namespace TayHuang

open Function (update)
open LinkedCells Fuel Runs

/-- `frame_t`. -/
structure FrameT where
  framebuffer : Nat
  column : Int
  line : Int
  width : Int
  height : Int
  deriving DecidableEq, Repr

/-- `framebuffer_node`; `framebuffer` is the address of a frame. -/
structure FramebufferNode where
  id : Int
  framebuffer : Nat
  next : Option Nat
  deriving DecidableEq, Repr

structure FrameTable where
  head : Option Nat
  node : Nat → FramebufferNode
  frame : Nat → FrameT

/-- `create_frame`; `p` is what `malloc` returns, and no result is a write to NULL. -/
def createFrame (s : FrameTable) (p : Option Nat) (f : FrameT) : Option (FrameTable × Nat) :=
  p.map fun p => ({ s with frame := update s.frame p f }, p)

def addNode (s : FrameTable) (node : Nat) : FrameTable :=
  { s with node := update s.node node { s.node node with next := s.head }, head := some node }

/-- The loop of all four functions: the node before the one where it stops, and
this node. -/
def findFramebuffer (m : Nat → FramebufferNode) (id : Int) :
    Nat → Option Nat → Nat → Option (Option Nat × Nat)
  | 0, _, _ => none
  | fuel + 1, last, node =>
    match (m node).next with
    | none => some (last, node)
    | some n => if (m node).id ≠ id then findFramebuffer m id fuel (some node) n else some (last, node)

def getFramebuffer (fuel : Nat) (s : FrameTable) (id : Int) : Option (Option Nat) :=
  match s.head with
  | none => some none
  | some head => (findFramebuffer s.node id fuel none head).map fun r =>
    if (s.node r.2).id ≠ id then none else some (s.node r.2).framebuffer

/-- The new node in `set_framebuffer`. -/
def newFramebuffer (s : FrameTable) (new frame : Option Nat) (id : Int) (f : FrameT) :
    Option FrameTable :=
  new.bind fun n =>
    (createFrame { s with node := update s.node n { s.node n with id := id } } frame f).map fun r =>
      addNode { r.1 with node := update r.1.node n { r.1.node n with framebuffer := r.2 } } n

/-- `set_framebuffer` where the loop has stopped. -/
def setAt (s : FrameTable) (id : Int) (f : FrameT) (new frame : Option Nat) (node : Nat) :
    Option FrameTable :=
  if (s.node node).id ≠ id then newFramebuffer s new frame id f
  else some { s with
    node := update s.node node { s.node node with id := id, framebuffer := f.framebuffer } }

/-- `set_framebuffer` with the parameters of `f`; `new` and `frame` are what `malloc`
returns. `some none` where NULL is written through. -/
def setFramebuffer (fuel : Nat) (s : FrameTable) (id : Int) (f : FrameT) (new frame : Option Nat) :
    Option (Option FrameTable) :=
  match s.head with
  | none => some (newFramebuffer s new frame id f)
  | some head => (findFramebuffer s.node id fuel none head).map fun r => setAt s id f new frame r.2

def hasFramebuffer (fuel : Nat) (s : FrameTable) (id : Int) : Option Bool :=
  match s.head with
  | none => some false
  | some head => (findFramebuffer s.node id fuel none head).map fun r => (s.node r.2).id = id

/-- `remove_framebuffer` where the loop has stopped. `free` leaves the records as
they are. -/
def removeAt (s : FrameTable) (id : Int) (last : Option Nat) (node : Nat) : Option FrameTable :=
  if (s.node node).id ≠ id then some s
  else match last with
    | none => none
    | some _ => some { s with head := (s.node node).next }

def removeFramebuffer (fuel : Nat) (s : FrameTable) (id : Int) : Option (Option FrameTable) :=
  match s.head with
  | none => some (some s)
  | some head => (findFramebuffer s.node id fuel none head).map fun r => removeAt s id r.1 r.2

/-! ### The table as a list -/

structure FrameEntry where
  addr : Nat
  id : Int
  frame : Nat
  deriving DecidableEq, Repr

def frameCell (x : FrameEntry) (next : Option Nat) : FramebufferNode := ⟨x.id, x.frame, next⟩

structure FrameList (s : FrameTable) (l : List FrameEntry) : Prop where
  head : s.head = entry FrameEntry.addr l none
  chained : Chained FrameEntry.addr frameCell s.node l none
  nodup : (l.map FrameEntry.addr).Nodup

def frameIds (l : List FrameEntry) : List Int := l.map FrameEntry.id

/-- What the list says about an id. -/
def frameIn (s : FrameTable) (l : List FrameEntry) (id : Int) : Option FrameT :=
  (l.find? fun x => x.id = id).map fun x => s.frame x.frame

variable {s s' : FrameTable} {l l' : List FrameEntry} {id : Int} {f : FrameT} {new frame : Option Nat}

theorem FrameList.unique (h : FrameList s l) (h' : FrameList s l') : l = l' := by
  refine h.chained.unique h'.chained (h.head.symm.trans h'.head) ?_
  intro x y n n' hxy hc
  obtain ⟨h1, h2, h3⟩ := FramebufferNode.mk.inj hc
  exact ⟨by cases x; cases y; simp_all, h3⟩

theorem frameIn_isSome : (frameIn s l id).isSome = decide (id ∈ frameIds l) := by
  rw [frameIn, Option.isSome_map, Bool.eq_iff_iff, List.find?_isSome]
  simp [frameIds]

theorem frameIn_cons (x : FrameEntry) : frameIn s (x :: l) id =
    if x.id = id then some (s.frame x.frame) else frameIn s l id := by
  simp only [frameIn, List.find?_cons]
  by_cases h : x.id = id <;> simp [h]

/-- Where the loop stops: at the entry of the id, or else at the last one. -/
theorem exists_stop (id : Int) (h : l ≠ []) : ∃ pre y post, l = pre ++ y :: post ∧
    (∀ z ∈ pre, z.id ≠ id) ∧ (y.id = id ∨ post = []) := by
  induction l with
  | nil => exact absurd rfl h
  | cons x l ih =>
    by_cases hx : x.id = id
    · exact ⟨[], x, l, rfl, by simp, .inl hx⟩
    · rcases l with - | ⟨z, l⟩
      · exact ⟨[], x, [], rfl, by simp, .inr rfl⟩
      · obtain ⟨pre, y, post, hl, hpre, hy⟩ := ih (by simp)
        refine ⟨x :: pre, y, post, by rw [hl]; rfl, ?_, hy⟩
        intro w hw
        rcases List.mem_cons.mp hw with rfl | hw
        · exact hx
        · exact hpre w hw

theorem findFramebuffer_settles {m : Nat → FramebufferNode} {y : FrameEntry} {post : List FrameEntry}
    (pre : List FrameEntry) (h : Chained FrameEntry.addr frameCell m (pre ++ y :: post) none)
    (hpre : ∀ z ∈ pre, z.id ≠ id) (hy : y.id = id ∨ post = []) {n : Nat} (last : Option Nat)
    (hn : entry FrameEntry.addr (pre ++ y :: post) none = some n) :
    Settles (fun fuel => findFramebuffer m id fuel last n)
      (leave FrameEntry.addr last pre, y.addr) := by
  induction pre generalizing last n with
  | nil =>
    obtain rfl : y.addr = n := by simpa using hn
    have hm : m y.addr = frameCell y (entry FrameEntry.addr post none) := h.1
    apply settles_succ rfl
    simp only [findFramebuffer, hm, frameCell]
    rcases hy with hid | rfl
    · simp only [hid, ne_eq, not_true_eq_false, if_false, leave_nil]
      cases entry FrameEntry.addr post none <;> exact settles_const _
    · exact settles_const _
  | cons x pre ih =>
    obtain rfl : x.addr = n := by simpa using hn
    obtain ⟨k, hk⟩ : ∃ k, entry FrameEntry.addr (pre ++ y :: post) none = some k := by
      cases pre <;> simp
    have hm : m x.addr = frameCell x (some k) := h.1.trans (congrArg (frameCell x) hk)
    apply settles_succ rfl
    simp only [findFramebuffer, hm, frameCell, hpre x (by simp), ne_eq, not_false_eq_true, if_true,
      leave_cons]
    exact ih h.2 (fun z hz => hpre z (by simp [hz])) (some x.addr) hk

/-! ### One operation -/

/-- The four functions in a table with entries, at the entry where the loop stops. -/
structure Stopped (s : FrameTable) (id : Int) (pre : List FrameEntry) (y : FrameEntry)
    (post : List FrameEntry) : Prop where
  list : FrameList s (pre ++ y :: post)
  before : ∀ z ∈ pre, z.id ≠ id
  here : y.id = id ∨ post = []

theorem FrameList.stopped (h : FrameList s l) (id : Int) (hne : l ≠ []) :
    ∃ pre y post, l = pre ++ y :: post ∧ Stopped s id pre y post := by
  obtain ⟨pre, y, post, rfl, hpre, hy⟩ := exists_stop id hne
  exact ⟨pre, y, post, rfl, h, hpre, hy⟩

namespace Stopped

variable {pre post : List FrameEntry} {y : FrameEntry}

theorem node (h : Stopped s id pre y post) :
    s.node y.addr = frameCell y (entry FrameEntry.addr post none) :=
  (chained_append.mp h.list.chained).2.1

theorem find (h : Stopped s id pre y post) : ∃ n, s.head = some n ∧
    Settles (fun fuel => findFramebuffer s.node id fuel none n)
      (leave FrameEntry.addr none pre, y.addr) := by
  obtain ⟨n, hn⟩ : ∃ n, entry FrameEntry.addr (pre ++ y :: post) none = some n := by
    cases pre <;> simp
  exact ⟨n, h.list.head.trans hn, findFramebuffer_settles pre h.list.chained h.before h.here none hn⟩

theorem mem_iff (h : Stopped s id pre y post) : id ∈ frameIds (pre ++ y :: post) ↔ y.id = id := by
  rw [frameIds, List.mem_map]
  constructor
  · rintro ⟨z, hz, hid⟩
    rcases List.mem_append.mp hz with hz | hz
    · exact absurd hid (h.before z hz)
    · rcases h.here with hy | rfl
      · exact hy
      · rwa [List.mem_singleton.mp hz] at hid
  · exact fun hy => ⟨y, by simp, hy⟩

theorem find? (h : Stopped s id pre y post) :
    (pre ++ y :: post).find? (fun x => x.id = id) = if y.id = id then some y else none := by
  have hpre : pre.find? (fun x => x.id = id) = none := by simpa using h.before
  rw [List.find?_append, hpre, Option.none_or, List.find?_cons]
  by_cases hy : y.id = id
  · simp [hy]
  · obtain rfl := h.here.resolve_left hy
    simp [hy]

end Stopped

theorem getFramebuffer_settles (h : FrameList s l) (id : Int) :
    Settles (fun fuel => getFramebuffer fuel s id)
      ((l.find? fun x => x.id = id).map FrameEntry.frame) := by
  by_cases hne : l = []
  · subst hne
    have hhead : s.head = none := h.head
    simp only [getFramebuffer, hhead]
    exact settles_const _
  · obtain ⟨pre, y, post, rfl, hs⟩ := h.stopped id hne
    obtain ⟨n, hhead, hset⟩ := hs.find
    have hmap := hset.map fun r => if (s.node r.2).id ≠ id then none else some (s.node r.2).framebuffer
    simp only [getFramebuffer, hhead]
    convert hmap using 1
    rw [hs.find?, hs.node, frameCell]
    by_cases hy : y.id = id <;> simp [hy]

theorem hasFramebuffer_settles (h : FrameList s l) (id : Int) :
    Settles (fun fuel => hasFramebuffer fuel s id) (decide (id ∈ frameIds l)) := by
  by_cases hne : l = []
  · subst hne
    have hhead : s.head = none := h.head
    simp only [hasFramebuffer, hhead]
    exact settles_const _
  · obtain ⟨pre, y, post, rfl, hs⟩ := h.stopped id hne
    obtain ⟨n, hhead, hset⟩ := hs.find
    have hmap := hset.map fun r => decide ((s.node r.2).id = id)
    simp only [hasFramebuffer, hhead]
    convert hmap using 1
    rw [hs.node, frameCell, decide_eq_decide]
    exact hs.mem_iff

end TayHuang
