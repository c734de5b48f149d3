import TayHuang.FifoStruct

/-! Histories of completed calls on a queue, and what the queries say after them. -/

namespace TayHuang

open Ring Runs

inductive FifoCall
  | write (data : List UInt8)
  | read (size : Nat)
  deriving DecidableEq, Repr

/-- A queue, and the bytes written to it and read from it so far. -/
structure FifoHistory where
  fifo : FifoStruct
  written : List UInt8
  got : List UInt8

def fifoCall (h : FifoHistory) : FifoCall → Option FifoHistory
  | .write data => (fifoWriteBytes h.fifo data).map fun f =>
    { h with fifo := f, written := h.written ++ data }
  | .read size => (fifoReadBytes h.fifo size).map fun r =>
    { h with fifo := r.2, got := h.got ++ r.1 }

def Created (h : FifoHistory) : Prop := ∃ size buffer, h = ⟨newFifo size buffer, [], []⟩

def CallStep (h : FifoHistory) (c : FifoCall) (h' : FifoHistory) : Prop := fifoCall h c = some h'

/-- The queries tell the truth: the used size is the number of bytes written and not read,
used and free size are the size, and `fifo_read_all` returns these bytes and their number
and leaves nothing to read. -/
structure Truthful (h : FifoHistory) : Prop where
  used : h.got.length + fifoGetUsedSize h.fifo = h.written.length
  sizes : fifoGetUsedSize h.fifo + fifoGetFreeSize h.fifo = fifoGetSize h.fifo
  all : ∃ f, fifoReadAll h.fifo =
      some (h.written.drop h.got.length, h.written.length - h.got.length, f) ∧ fifoReadByte f = none

/-! ### The books of the semaphores -/

/-- `n` bytes are in the queue, out of `P`. -/
structure Books (P : Int) (n : Nat) (f : FifoStruct) : Prop where
  mutex : f.mutex = createSignal 1 1 false
  empty : f.empty = createSignal P (P - n) false
  full : f.full = createSignal P n false
  bound : n = 0 ∨ n ≤ P
  used : f.usedSize = 0
  size : f.fifoSize < 2 ^ 64

variable {P v : Int} {n size : Nat} {f f' : FifoStruct} {s : Signal Unit} {d : UInt8}
  {data : List UInt8}

theorem pass_create : pass (createSignal P v false) =
    if 1 ≤ v then some (createSignal P (v - 1) false) else none := by
  by_cases hv : 1 ≤ v
  · have hgo : ¬ v - 1 < 0 := by omega
    simp [pass, downSignal, createSignal, hv, hgo]
  · have hwait : v - 1 < 0 := by omega
    simp [pass, downSignal, createSignal, hv, hwait]

theorem pass_cases (h : pass (createSignal P v false) = some s) :
    1 ≤ v ∧ s = createSignal P (v - 1) false := by
  rw [pass_create] at h
  by_cases hv : 1 ≤ v
  · rw [if_pos hv] at h
    exact ⟨hv, (Option.some.inj h).symm⟩
  · rw [if_neg hv] at h
    exact absurd h (by simp)

theorem leave_create (h0 : 0 ≤ v) (h : v < P) :
    leave (createSignal P v false) = some (createSignal P (v + 1) false) := by
  have hpos : ¬ v + 1 ≤ 0 := by omega
  simp [leave, upSignal, createSignal, h, hpos]

theorem Books.new (size : Nat) (buffer : Nat → UInt8) :
    Books (asInt size) 0 (newFifo size buffer) := by
  refine ⟨by simp only [newFifo], by simp [newFifo], by simp [newFifo], .inl rfl, by simp only [newFifo],
    ?_⟩
  simp only [newFifo]
  omega

theorem Books.write (h : Books P n f) (hs : fifoWriteByte f d = some f') : Books P (n + 1) f' := by
  have hbound := h.bound
  obtain ⟨empty, hempty, hs⟩ := Option.bind_eq_some_iff.mp hs
  rw [h.empty] at hempty
  obtain ⟨hroom, rfl⟩ := pass_cases hempty
  obtain ⟨mutex, hmutex, hs⟩ := Option.bind_eq_some_iff.mp hs
  rw [h.mutex] at hmutex
  obtain ⟨-, rfl⟩ := pass_cases hmutex
  rw [leave_create (by decide) (by decide), Option.bind_some, h.full,
    leave_create (by omega) (by omega)] at hs
  obtain rfl := Option.some.inj hs
  refine ⟨rfl, ?_, ?_, .inr (by omega), h.used, h.size⟩
  · show createSignal P (P - n - 1) false = createSignal P (P - (n + 1 : Nat)) false
    congr 1
    omega
  · show createSignal P (n + 1) false = createSignal P (n + 1 : Nat) false
    rfl

theorem Books.read (h : Books P n f) (hs : fifoReadByte f = some (d, f')) :
    ∃ m, n = m + 1 ∧ Books P m f' := by
  have hbound := h.bound
  obtain ⟨full, hfull, hs⟩ := Option.bind_eq_some_iff.mp hs
  rw [h.full] at hfull
  obtain ⟨hbyte, rfl⟩ := pass_cases hfull
  obtain ⟨m, rfl⟩ : ∃ m, n = m + 1 := ⟨n - 1, by omega⟩
  obtain ⟨mutex, hmutex, hs⟩ := Option.bind_eq_some_iff.mp hs
  rw [h.mutex] at hmutex
  obtain ⟨-, rfl⟩ := pass_cases hmutex
  rw [leave_create (by decide) (by decide), Option.bind_some, h.empty,
    leave_create (by omega) (by omega)] at hs
  obtain ⟨-, rfl⟩ := Prod.mk.inj (Option.some.inj hs)
  refine ⟨m, rfl, rfl, ?_, ?_, .inr (by omega), h.used, h.size⟩
  · show createSignal P (P - (m + 1 : Nat) + 1) false = createSignal P (P - m) false
    congr 1
    omega
  · show createSignal P ((m + 1 : Nat) - 1) false = createSignal P m false
    congr 1
    omega

theorem Books.empty_read (h : Books P 0 f) : fifoReadByte f = none := by
  rw [fifoReadByte, h.full, pass_create, if_neg (by decide), Option.bind_none]

theorem Books.writeBytes (h : Books P n f) (hs : fifoWriteBytes f data = some f') :
    Books P (n + data.length) f' := by
  induction data generalizing f n with
  | nil =>
    obtain rfl := Option.some.inj hs
    exact h
  | cons d data ih =>
    obtain ⟨f₁, h₁, hs⟩ := Option.bind_eq_some_iff.mp hs
    have hh := ih (h.write h₁) hs
    rwa [Nat.add_right_comm] at hh

theorem Books.readBytes (h : Books P n f) (hs : fifoReadBytes f size = some (data, f')) :
    ∃ m, n = m + size ∧ data.length = size ∧ Books P m f' := by
  induction size generalizing f n data with
  | zero =>
    obtain ⟨rfl, rfl⟩ := Prod.mk.inj (Option.some.inj hs)
    exact ⟨n, rfl, rfl, h⟩
  | succ size ih =>
    obtain ⟨⟨d, f₁⟩, h₁, hs⟩ := Option.bind_eq_some_iff.mp hs
    obtain ⟨⟨rest, f₂⟩, h₂, he⟩ := Option.map_eq_some_iff.mp hs
    obtain ⟨rfl, rfl⟩ := Prod.mk.inj he
    obtain ⟨m, rfl, hb⟩ := h.read h₁
    obtain ⟨k, rfl, hlen, hk⟩ := ih hb h₂
    exact ⟨k, by omega, by rw [List.length_cons, hlen], hk⟩

/-- The bytes written and not read are the permits of the full semaphore. -/
def CountsAgree (h : FifoHistory) : Prop :=
  ∃ P n, Books P n h.fifo ∧ h.written.length = h.got.length + n

theorem CountsAgree.call {h h' : FifoHistory} {c : FifoCall} (hok : CountsAgree h)
    (hs : CallStep h c h') : CountsAgree h' := by
  obtain ⟨P, n, hb, hlen⟩ := hok
  cases c with
  | write data =>
    obtain ⟨f, hf, rfl⟩ := Option.map_eq_some_iff.mp hs
    refine ⟨P, n + data.length, hb.writeBytes hf, ?_⟩
    rw [List.length_append, hlen, Nat.add_assoc]
  | read size =>
    obtain ⟨⟨data, f⟩, hf, rfl⟩ := Option.map_eq_some_iff.mp hs
    obtain ⟨m, rfl, hdata, hm⟩ := hb.readBytes hf
    have hgot : (h.got ++ data).length = h.got.length + data.length := List.length_append
    refine ⟨P, m, hm, ?_⟩
    simp only [hgot, hlen]
    omega

theorem countsAgree_of_run {cs : List FifoCall} {h : FifoHistory} (hr : Run Created CallStep cs h) :
    CountsAgree h := by
  refine hr.invariant (I := fun _ h => CountsAgree h) ?_ fun _ _ _ _ hok hs => hok.call hs
  rintro h ⟨size, buffer, rfl⟩
  exact ⟨asInt size, 0, .new size buffer, rfl⟩

/-- After completed calls the queries tell the truth if and only if all bytes written have
been read: nothing keeps `used_size`. -/
theorem fifo_truthful {cs : List FifoCall} {h : FifoHistory} (hr : Run Created CallStep cs h) :
    Truthful h ↔ h.written.length = h.got.length := by
  obtain ⟨P, n, hb, hlen⟩ := countsAgree_of_run hr
  have hused : fifoGetUsedSize h.fifo = 0 := hb.used
  constructor
  · intro ht
    have hh := ht.used
    omega
  · intro he
    obtain rfl : n = 0 := by omega
    refine ⟨by omega, ?_, h.fifo, ?_, hb.empty_read⟩
    · have hsize := hb.size
      rw [fifoGetFreeSize, hused, fifoGetSize]
      omega
    · rw [fifoReadAll, hb.used, ← he, List.drop_length, Nat.sub_self]
      rfl

/-- A byte is written: the used size is still 0. -/
theorem fifo_used_stale : ¬ ∀ cs h, Run Created CallStep cs h → Truthful h := by
  intro hall
  have hrun : (fifoCall ⟨newFifo 100 fun _ => 0, [], []⟩ (.write [7])).map (fun h =>
      decide (h.fifo.usedSize = 0 ∧ h.written.length = 1 ∧ h.got.length = 0)) = some true := by
    decide +kernel
  obtain ⟨h, hs, hd⟩ := Option.map_eq_some_iff.mp hrun
  obtain ⟨hused, hwritten, hgot⟩ := of_decide_eq_true hd
  have ht := hall _ h ((Run.start ⟨100, fun _ => 0, rfl⟩).snoc hs)
  have hh := ht.used
  rw [fifoGetUsedSize, hused, hwritten, hgot] at hh
  exact absurd hh (by decide)

theorem fifo_truthful_one : ∃ h, Run Created CallStep [.write [7], .read 1] h ∧ h.got = [7] ∧
    (Truthful h ↔ h.written.length = h.got.length) := by
  have hrun : ([FifoCall.write [7], .read 1].foldlM fifoCall ⟨newFifo 100 fun _ => 0, [], []⟩).map
      (fun h => decide (h.got = [7])) = some true := by
    decide +kernel
  obtain ⟨h, hs, hd⟩ := Option.map_eq_some_iff.mp hrun
  have hr : Run Created CallStep _ h := Run.ofFold _ ⟨100, fun _ => 0, rfl⟩ hs
  exact ⟨h, hr, of_decide_eq_true hd, fifo_truthful hr⟩

end TayHuang
