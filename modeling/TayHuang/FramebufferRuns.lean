import TayHuang.Framebuffers

/-! Runs of the frame buffer table, against the finite map that it stands for. An
id that is already in the table must neither be set nor be removed. -/

namespace TayHuang

open Function (update)
open LinkedCells Fuel Runs

/-- An operation on the table; `new` and `frame` are what `malloc` returns. -/
inductive FrameOp
  | set (id : Int) (f : FrameT) (new frame : Option Nat)
  | remove (id : Int)
  deriving DecidableEq, Repr

def frameStep (fuel : Nat) (s : FrameTable) : FrameOp → Option (Option FrameTable)
  | .set id f new frame => setFramebuffer fuel s id f new frame
  | .remove id => removeFramebuffer fuel s id

def frameMap (m : Int → Option FrameT) : FrameOp → Int → Option FrameT
  | .set id f _ _ => update m id (some f)
  | .remove id => update m id none

/-- The finite map that the table stands for. -/
def framesOf (ops : List FrameOp) : Int → Option FrameT := ops.foldl frameMap fun _ => none

/-- `malloc` returns memory that the table does not use. -/
def FrameOp.Fresh (s : FrameTable) : FrameOp → Prop
  | .set _ _ new frame => ∀ l, FrameList s l →
    (∀ p ∈ new, p ∉ l.map FrameEntry.addr) ∧ ∀ p ∈ frame, p ∉ l.map FrameEntry.frame
  | .remove _ => True

def FrameStep (s : FrameTable) (op : FrameOp) (s' : FrameTable) : Prop :=
  op.Fresh s ∧ ∃ fuel, frameStep fuel s op = some (some s')

def frameBoot (s : FrameTable) : Prop := s.head = none

def HasFramebuffer (s : FrameTable) (id : Int) : Prop := ∃ fuel, hasFramebuffer fuel s id = some true

/-- A new id, with memory for it, or one whose framebuffer is itself the frame to
be returned; and no id that is there is removed. -/
def FrameFits (s : FrameTable) : FrameOp → Prop
  | .set id f new frame => ¬ HasFramebuffer s id ∧ new.isSome ∧ frame.isSome ∨
    HasFramebuffer s id ∧ s.frame f.framebuffer = f
  | .remove id => ¬ HasFramebuffer s id

/-- What the queries answer. -/
def Serves (s : FrameTable) (m : Int → Option FrameT) : Prop :=
  ∀ id, (∃ a, Settles (fun fuel => getFramebuffer fuel s id) a ∧ a.map s.frame = m id) ∧
    Settles (fun fuel => hasFramebuffer fuel s id) (m id).isSome

/-- The entries are the map, each id once. -/
structure Framed (s : FrameTable) (m : Int → Option FrameT) (l : List FrameEntry) : Prop where
  list : FrameList s l
  nodup : (frameIds l).Nodup
  value : frameIn s l = m

variable {s s' : FrameTable} {m : Int → Option FrameT} {l : List FrameEntry} {id : Int} {f : FrameT}
  {new frame : Option Nat}

theorem Framed.serves (h : Framed s m l) : Serves s m := by
  intro id
  have hget := getFramebuffer_settles h.list id
  have hhas := hasFramebuffer_settles h.list id
  refine ⟨⟨_, hget, ?_⟩, ?_⟩
  · rw [Option.map_map, ← h.value]
    rfl
  · rwa [← h.value, frameIn_isSome]

theorem hasFramebuffer_iff (h : FrameList s l) : HasFramebuffer s id ↔ id ∈ frameIds l := by
  have hset := hasFramebuffer_settles h id
  constructor
  · rintro ⟨fuel, hf⟩
    exact of_decide_eq_true (hset.unique fuel true hf).symm
  · intro hid
    obtain ⟨N, hN⟩ := hset.enough
    exact ⟨N, by rw [hN N (Nat.le_refl N), decide_eq_true hid]⟩

/-! ### `set_framebuffer` -/

theorem setFramebuffer_absent (h : FrameList s l) (hid : id ∉ frameIds l) :
    Settles (fun fuel => setFramebuffer fuel s id f new frame) (newFramebuffer s new frame id f) := by
  by_cases hne : l = []
  · subst hne
    have hhead : s.head = none := h.head
    simp only [setFramebuffer, hhead]
    exact settles_const _
  · obtain ⟨pre, y, post, rfl, hs⟩ := h.stopped id hne
    obtain ⟨n, hhead, hset⟩ := hs.find
    have hmap := hset.map fun r => setAt s id f new frame r.2
    simp only [setFramebuffer, hhead]
    convert hmap using 1
    rw [setAt, hs.node, frameCell, if_pos fun hy => hid (hs.mem_iff.mpr hy)]

theorem newFramebuffer_isSome : (newFramebuffer s new frame id f).isSome ↔
    new.isSome ∧ frame.isSome := by
  cases new <;> cases frame <;> simp [newFramebuffer, createFrame]

/-- A new entry in front. -/
theorem Framed.newFramebuffer (h : Framed s m l) (hid : id ∉ frameIds l) {n p : Nat}
    (hn : n ∉ l.map FrameEntry.addr) (hp : p ∉ l.map FrameEntry.frame) :
    ∃ s', newFramebuffer s (some n) (some p) id f = some s' ∧
      Framed s' (update m id (some f)) (⟨n, id, p⟩ :: l) := by
  refine ⟨_, rfl, ⟨rfl, ⟨?_, ?_⟩, ?_⟩, ?_, ?_⟩
  · simp [addNode, frameCell, h.list.head]
  · simp only [addNode]
    exact ((h.list.chained.update hn).update hn).update hn
  · rw [List.map_cons, List.nodup_cons]
    exact ⟨hn, h.list.nodup⟩
  · rw [frameIds, List.map_cons, List.nodup_cons]
    exact ⟨hid, h.nodup⟩
  · funext k
    rw [frameIn_cons]
    by_cases hk : id = k
    · subst hk
      simp [addNode]
    · rw [if_neg hk, Function.update_of_ne (Ne.symm hk), ← h.value, frameIn, frameIn]
      refine Option.map_congr fun x hx => ?_
      refine Function.update_of_ne ?_ _ _
      rintro rfl
      exact hp (List.mem_map_of_mem (List.mem_of_find?_eq_some hx))

/-- The table after the node `y` got the framebuffer itself. -/
def overwritten (s : FrameTable) (y : FrameEntry) (fb : Nat) (post : List FrameEntry) : FrameTable :=
  { s with node := update s.node y.addr (frameCell ⟨y.addr, y.id, fb⟩ (entry FrameEntry.addr post none)) }

/-- The node of an id that is there gets the framebuffer itself in the place of a frame. -/
theorem setFramebuffer_present {pre post : List FrameEntry} {y : FrameEntry}
    (h : Stopped s y.id pre y post) :
    Settles (fun fuel => setFramebuffer fuel s y.id f new frame)
      (some (overwritten s y f.framebuffer post)) := by
  obtain ⟨n, hhead, hset⟩ := h.find
  have hmap := hset.map fun r => setAt s y.id f new frame r.2
  simp only [setFramebuffer, hhead]
  convert hmap using 1
  simp [setAt, overwritten, h.node, frameCell, hhead]

theorem FrameList.overwritten {pre post : List FrameEntry} {y : FrameEntry}
    (h : FrameList s (pre ++ y :: post)) (fb : Nat) :
    FrameList (overwritten s y fb post) (pre ++ ⟨y.addr, y.id, fb⟩ :: post) := by
  have hnodup := h.nodup
  rw [List.map_append, List.map_cons, List.nodup_append, List.nodup_cons] at hnodup
  obtain ⟨-, ⟨hypost, -⟩, hpre⟩ := hnodup
  have hch := chained_append.mp h.chained
  refine ⟨?_, chained_append.mpr ⟨?_, ?_, hch.2.2.update hypost⟩, by simpa using h.nodup⟩
  · have hhead : (TayHuang.overwritten s y fb post).head = s.head := rfl
    rw [hhead, h.head]
    cases pre <;> rfl
  · exact hch.1.update fun hm => hpre _ hm _ (by simp) rfl
  · exact Function.update_self ..

theorem Framed.overwritten {pre post : List FrameEntry} {y : FrameEntry}
    (h : Framed s m (pre ++ y :: post)) (hf : s.frame f.framebuffer = f) :
    Framed (overwritten s y f.framebuffer post) (update m y.id (some f))
      (pre ++ ⟨y.addr, y.id, f.framebuffer⟩ :: post) := by
  have hids : frameIds (pre ++ y :: post) = frameIds (pre ++ ⟨y.addr, y.id, f.framebuffer⟩ :: post) := by
    simp [frameIds]
  refine ⟨h.list.overwritten _, hids ▸ h.nodup, ?_⟩
  funext k
  rw [← h.value]
  by_cases hk : y.id = k
  · subst hk
    have hnone : pre.find? (fun x => x.id = y.id) = none := by
      rw [List.find?_eq_none]
      intro x hx hxid
      have hn := h.nodup
      rw [frameIds, List.map_append, List.nodup_append] at hn
      exact hn.2.2 x.id (List.mem_map_of_mem hx) y.id (by simp) (of_decide_eq_true hxid)
    simp [frameIn, TayHuang.overwritten, List.find?_append, hnone, hf]
  · rw [Function.update_of_ne (Ne.symm hk)]
    simp [frameIn, TayHuang.overwritten, List.find?_append, hk]

/-! ### `remove_framebuffer` -/

theorem removeFramebuffer_absent (h : FrameList s l) (hid : id ∉ frameIds l) :
    Settles (fun fuel => removeFramebuffer fuel s id) (some s) := by
  by_cases hne : l = []
  · subst hne
    have hhead : s.head = none := h.head
    simp only [removeFramebuffer, hhead]
    exact settles_const _
  · obtain ⟨pre, y, post, rfl, hs⟩ := h.stopped id hne
    obtain ⟨n, hhead, hset⟩ := hs.find
    have hmap := hset.map fun r => removeAt s id r.1 r.2
    simp only [removeFramebuffer, hhead]
    convert hmap using 1
    have hy : y.id ≠ id := fun hy => hid (hs.mem_iff.mpr hy)
    simp [removeAt, hs.node, frameCell, hy]

/-- The first entry is removed through a pointer that is NULL. -/
theorem removeFramebuffer_first {post : List FrameEntry} {y : FrameEntry}
    (h : Stopped s id [] y post) (hid : y.id = id) :
    Settles (fun fuel => removeFramebuffer fuel s id) none := by
  obtain ⟨n, hhead, hset⟩ := h.find
  have hmap := hset.map fun r => removeAt s id r.1 r.2
  simp only [removeFramebuffer, hhead]
  convert hmap using 1
  simp [removeAt, h.node, frameCell, hid]

/-- Together with any other entry all those before it are removed. -/
theorem removeFramebuffer_later {pre post : List FrameEntry} {y z : FrameEntry}
    (h : Stopped s id (z :: pre) y post) (hid : y.id = id) :
    ∃ s', Settles (fun fuel => removeFramebuffer fuel s id) (some s') ∧ FrameList s' post := by
  obtain ⟨n, hhead, hset⟩ := h.find
  have hmap := hset.map fun r => removeAt s id r.1 r.2
  obtain ⟨k, hk⟩ : ∃ k, leave FrameEntry.addr none (z :: pre) = some k := by
    rw [leave_cons]
    cases hl : pre.getLast? <;> simp [leave, hl]
  refine ⟨{ s with head := entry FrameEntry.addr post none }, ?_, rfl, ?_, ?_⟩
  · simp only [removeFramebuffer, hhead]
    convert hmap using 1
    simp [removeAt, h.node, frameCell, hid, hk]
  · exact (chained_append.mp h.list.chained).2.2
  · have hnodup := h.list.nodup
    rw [List.map_append, List.nodup_append] at hnodup
    exact (List.nodup_cons.mp hnodup.2.1).2

/-! ### Runs -/

theorem Framed.step {op : FrameOp} (h : Framed s m l) (hfresh : op.Fresh s) (hfit : FrameFits s op) :
    ∃ s' l', Settles (fun fuel => frameStep fuel s op) (some s') ∧ Framed s' (frameMap m op) l' := by
  cases op with
  | set id f new frame =>
    obtain ⟨hnew, hframe⟩ := hfresh l h.list
    rcases hfit with ⟨hno, hsome⟩ | ⟨hhas, hf⟩
    · have hid : id ∉ frameIds l := fun hid => hno ((hasFramebuffer_iff h.list).mpr hid)
      obtain ⟨n, rfl⟩ := Option.isSome_iff_exists.mp hsome.1
      obtain ⟨p, rfl⟩ := Option.isSome_iff_exists.mp hsome.2
      obtain ⟨s', hs', hl'⟩ := h.newFramebuffer (f := f) hid (hnew n rfl) (hframe p rfl)
      exact ⟨s', _, hs' ▸ setFramebuffer_absent h.list hid, hl'⟩
    · have hid : id ∈ frameIds l := (hasFramebuffer_iff h.list).mp hhas
      have hne : l ≠ [] := by
        rintro rfl
        simp [frameIds] at hid
      obtain ⟨pre, y, post, rfl, hs⟩ := h.list.stopped id hne
      obtain rfl := hs.mem_iff.mp hid
      exact ⟨_, _, setFramebuffer_present hs, h.overwritten hf⟩
  | remove id =>
    have hid : id ∉ frameIds l := fun hid => hfit ((hasFramebuffer_iff h.list).mpr hid)
    refine ⟨s, l, removeFramebuffer_absent h.list hid, h.list, h.nodup, ?_⟩
    have hnone : m id = none := by
      rw [← h.value, ← Option.not_isSome_iff_eq_none, frameIn_isSome]
      simpa using hid
    rw [h.value, frameMap, ← hnone, Function.update_eq_self]

/-- An operation that does not fit goes through NULL, or leaves a table that does
not serve the map. -/
theorem Framed.fits {op : FrameOp} (h : Framed s m l)
    (hset : Settles (fun fuel => frameStep fuel s op) (some s')) (hserves : Serves s' (frameMap m op)) :
    FrameFits s op := by
  cases op with
  | set id f new frame =>
    by_cases hid : id ∈ frameIds l
    · refine Or.inr ⟨(hasFramebuffer_iff h.list).mpr hid, ?_⟩
      have hne : l ≠ [] := by
        rintro rfl
        simp [frameIds] at hid
      obtain ⟨pre, y, post, rfl, hs⟩ := h.list.stopped id hne
      obtain rfl := hs.mem_iff.mp hid
      obtain rfl := Option.some.inj (hset.eq (setFramebuffer_present hs))
      obtain ⟨⟨a, ha, hval⟩, -⟩ := hserves y.id
      -- the pointer that is returned is the framebuffer
      have hget := ha.eq (getFramebuffer_settles (hs.list.overwritten f.framebuffer) y.id)
      have hpre : pre.find? (fun x => x.id = y.id) = none := by simpa using hs.before
      rw [hget, List.find?_append, hpre] at hval
      simpa [frameMap, TayHuang.overwritten] using hval
    · refine Or.inl ⟨fun hh => hid ((hasFramebuffer_iff h.list).mp hh), ?_⟩
      rw [← newFramebuffer_isSome (s := s) (f := f),
        ← hset.eq (setFramebuffer_absent h.list hid)]
      rfl
  | remove id =>
    intro hhas
    have hid : id ∈ frameIds l := (hasFramebuffer_iff h.list).mp hhas
    have hne : l ≠ [] := by
      rintro rfl
      simp [frameIds] at hid
    obtain ⟨pre, y, post, rfl, hs⟩ := h.list.stopped id hne
    have hy := hs.mem_iff.mp hid
    rcases pre with - | ⟨z, pre⟩
    · exact absurd (hset.eq (removeFramebuffer_first hs hy)) (by simp)
    · obtain ⟨t, ht, hlist⟩ := removeFramebuffer_later hs hy
      obtain rfl := Option.some.inj (hset.eq ht)
      -- the first entry is lost
      have hz := (hserves z.id).2.eq (hasFramebuffer_settles hlist z.id)
      have hids := h.nodup
      rw [frameIds, List.cons_append, List.map_cons, List.nodup_cons] at hids
      have hzpost : z.id ∉ frameIds post := fun hm => hids.1 (by
        rw [List.map_append, List.map_cons]
        exact List.mem_append_right _ (List.mem_cons_of_mem _ hm))
      rw [frameMap, Function.update_of_ne (hs.before z (by simp)), ← h.value, frameIn_isSome] at hz
      rw [decide_eq_false hzpost] at hz
      simp [frameIds] at hz

theorem framed_of_run {ops : List FrameOp} (h : Run frameBoot (Guarded FrameFits FrameStep) ops s) :
    ∃ l, Framed s (framesOf ops) l := by
  refine h.invariant (I := fun ops s => ∃ l, Framed s (framesOf ops) l) ?_ ?_
  · intro s hs
    exact ⟨[], ⟨hs, trivial, List.nodup_nil⟩, List.nodup_nil, rfl⟩
  · rintro ops s op s' ⟨l, hl⟩ ⟨hfit, hfresh, fuel, hstep⟩
    obtain ⟨t, l', hset, hl'⟩ := hl.step hfresh hfit
    obtain rfl := Option.some.inj (hset.unique fuel _ hstep)
    exact ⟨l', by simpa [framesOf] using hl'⟩

/-- After operations that fit the table serves the finite map, and with the next
operation it still does, without going through NULL, if and only if that one fits. -/
theorem framebuffers_map {ops : List FrameOp}
    (h : Run frameBoot (Guarded FrameFits FrameStep) ops s) :
    Serves s (framesOf ops) ∧ ∀ op : FrameOp, op.Fresh s →
      ((∃ s', Settles (fun fuel => frameStep fuel s op) (some s') ∧
        Serves s' (framesOf (ops ++ [op]))) ↔ FrameFits s op) := by
  obtain ⟨l, hl⟩ := framed_of_run h
  refine ⟨hl.serves, fun op hfresh => ?_⟩
  have hmap : framesOf (ops ++ [op]) = frameMap (framesOf ops) op := by simp [framesOf]
  rw [hmap]
  constructor
  · rintro ⟨s', hset, hserves⟩
    exact hl.fits hset hserves
  · intro hfit
    obtain ⟨s', l', hset, hl'⟩ := hl.step hfresh hfit
    exact ⟨s', hset, hl'.serves⟩

def emptyTable : FrameTable := ⟨none, fun _ => ⟨0, 0, none⟩, fun _ => ⟨0, 0, 0, 0, 0⟩⟩

/-- Two frames, and the first one asked for. -/
theorem framebuffers_map_two : ∃ s,
    Run frameBoot (Guarded FrameFits FrameStep)
      [.set 0 ⟨4096, 0, 0, 80, 25⟩ (some 16) (some 48), .set 1 ⟨8192, 2, 3, 10, 5⟩ (some 80) (some 112)] s ∧
    ∃ a, Settles (fun fuel => getFramebuffer fuel s 0) a ∧ a.map s.frame = some ⟨4096, 0, 0, 80, 25⟩ := by
  have h0 : Run frameBoot (Guarded FrameFits FrameStep) [] emptyTable := .start rfl
  have hno : ∀ id, ¬ HasFramebuffer emptyTable id := by
    rintro id ⟨fuel, hf⟩
    exact absurd hf (by simp [hasFramebuffer, emptyTable])
  have hl0 : FrameList emptyTable [] := ⟨rfl, trivial, List.nodup_nil⟩
  have hf0 : Framed emptyTable (framesOf []) [] := ⟨hl0, List.nodup_nil, rfl⟩
  obtain ⟨s₁, hs₁, hl₁⟩ := hf0.newFramebuffer (f := ⟨4096, 0, 0, 80, 25⟩) (n := 16) (p := 48)
    (show (0 : Int) ∉ frameIds [] by simp [frameIds]) (by simp) (by simp)
  have hstep₁ : Guarded FrameFits FrameStep emptyTable
      (.set 0 ⟨4096, 0, 0, 80, 25⟩ (some 16) (some 48)) s₁ := by
    refine ⟨Or.inl ⟨hno 0, rfl, rfl⟩, fun l hl => by simp [hl.unique hl0], 0, ?_⟩
    rw [← hs₁]
    rfl
  have h1 := h0.snoc hstep₁
  have hno₁ : (1 : Int) ∉ frameIds [(⟨16, 0, 48⟩ : FrameEntry)] := by decide
  obtain ⟨s₂, hs₂, -⟩ := hl₁.newFramebuffer (f := ⟨8192, 2, 3, 10, 5⟩) (n := 80) (p := 112) hno₁
    (by simp) (by simp)
  have hset : Settles (fun fuel => setFramebuffer fuel s₁ 1 ⟨8192, 2, 3, 10, 5⟩ (some 80) (some 112))
      (newFramebuffer s₁ (some 80) (some 112) 1 ⟨8192, 2, 3, 10, 5⟩) :=
    setFramebuffer_absent hl₁.list hno₁
  obtain ⟨N, hN⟩ := hset.enough
  have hstep₂ : Guarded FrameFits FrameStep s₁
      (.set 1 ⟨8192, 2, 3, 10, 5⟩ (some 80) (some 112)) s₂ := by
    refine ⟨Or.inl ⟨fun hh => hno₁ ((hasFramebuffer_iff hl₁.list).mp hh), rfl, rfl⟩,
      fun l hl => by simp [hl.unique hl₁.list], N, ?_⟩
    rw [← hs₂]
    exact hN N (Nat.le_refl N)
  have h2 := h1.snoc hstep₂
  exact ⟨s₂, h2, ((framebuffers_map h2).1 0).1⟩

/-- An id that is set again, the only one removed, and the older of two removed. -/
theorem framebuffers_lost :
    (∃ s, Run frameBoot FrameStep
        [.set 0 ⟨4096, 0, 0, 80, 25⟩ (some 16) (some 48), .set 0 ⟨8192, 1, 1, 2, 2⟩ none none] s ∧
      getFramebuffer 1 s 0 = some (some 8192) ∧ s.frame 8192 = ⟨0, 0, 0, 0, 0⟩) ∧
    (∃ s, Run frameBoot FrameStep [.set 0 ⟨4096, 0, 0, 80, 25⟩ (some 16) (some 48)] s ∧
      removeFramebuffer 1 s 0 = some none) ∧
    ∃ s, Run frameBoot FrameStep [.set 0 ⟨4096, 0, 0, 80, 25⟩ (some 16) (some 48),
        .set 1 ⟨8192, 2, 3, 10, 5⟩ (some 80) (some 112), .remove 0] s ∧
      hasFramebuffer 1 s 1 = some false := by
  have hl0 : FrameList emptyTable [] := ⟨rfl, trivial, List.nodup_nil⟩
  have h0 : Run frameBoot FrameStep [] emptyTable := .start rfl
  have h1 := h0.snoc (e := FrameOp.set 0 ⟨4096, 0, 0, 80, 25⟩ (some 16) (some 48))
    ⟨fun l hl => by simp [hl.unique hl0], 0, rfl⟩
  have hf0 : Framed emptyTable (framesOf []) [] := ⟨hl0, List.nodup_nil, rfl⟩
  obtain ⟨s₁, hs₁, hl₁⟩ := hf0.newFramebuffer (f := ⟨4096, 0, 0, 80, 25⟩) (n := 16) (p := 48)
    (show (0 : Int) ∉ frameIds [] by simp [frameIds]) (by simp) (by simp)
  obtain rfl := Option.some.inj hs₁
  refine ⟨⟨_, h1.snoc (e := FrameOp.set 0 ⟨8192, 1, 1, 2, 2⟩ none none)
    ⟨fun l hl => by simp, 1, rfl⟩, rfl, rfl⟩, ⟨_, h1, rfl⟩, ?_⟩
  have h2 := h1.snoc (e := FrameOp.set 1 ⟨8192, 2, 3, 10, 5⟩ (some 80) (some 112))
    ⟨fun l hl => by simp [hl.unique hl₁.list], 1, rfl⟩
  exact ⟨_, h2.snoc (e := FrameOp.remove 0) ⟨trivial, 2, rfl⟩, rfl⟩

end TayHuang
