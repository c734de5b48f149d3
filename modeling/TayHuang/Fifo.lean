import TayHuang.Census
import TayHuang.Ring
import TayHuang.Runs
import TayHuang.Signals

/-! The byte queue in shared memory, fifo.c: any number of threads that write and
read one byte at a time, interleaved between their calls of the kernel and their
accesses to the buffer. -/

namespace TayHuang

open Function (update)
open Ring Census Runs

inductive FifoSignal
  | mutex
  | empty
  | full
  deriving DecidableEq, Repr

/-- What a thread does next in `fifo_write_byte` or `fifo_read_byte`. -/
inductive FifoPc
  | idle
  | writeMutex (data : UInt8)
  | writeByte (data : UInt8)
  | writeLeave
  | writeFull
  | readMutex
  | readByte
  | readLeave (data : UInt8)
  | readEmpty (data : UInt8)
  deriving DecidableEq, Repr

/-- `waiting` are the threads in state `WAITING`; `written` and `got` are the bytes
that went through the buffer, in the order of the accesses. -/
structure Fifo (ι : Type) where
  signal : FifoSignal → Signal ι
  writeOffset : Nat
  readOffset : Nat
  fifoSize : Nat
  buffer : Nat → UInt8
  pc : ι → FifoPc
  waiting : ι → Bool
  written : List UInt8
  got : List UInt8

section Model

variable {ι : Type} [DecidableEq ι]

/-- `down_signal` by `t`, which then stands at `pc`. -/
def Fifo.down (s : Fifo ι) (k : FifoSignal) (t : ι) (pc : FifoPc) : Fifo ι :=
  { s with
    signal := update s.signal k (downSignal (s.signal k) t).1
    pc := update s.pc t pc
    waiting := update s.waiting t (downSignal (s.signal k) t).2 }

def ready (waiting : ι → Bool) : Option ι → ι → Bool
  | none => waiting
  | some t => update waiting t false

/-- `up_signal` by `t`. -/
def Fifo.up (s : Fifo ι) (k : FifoSignal) (t : ι) (pc : FifoPc) : Option (Fifo ι) :=
  (upSignal (s.signal k)).map fun r =>
    { s with
      signal := update s.signal k r.1
      pc := update s.pc t pc
      waiting := ready s.waiting r.2 }

/-- The critical section of `fifo_write_byte`. -/
def Fifo.put (s : Fifo ι) (t : ι) (data : UInt8) : Fifo ι :=
  { s with
    buffer := update s.buffer s.writeOffset data
    writeOffset := advance s.fifoSize s.writeOffset
    pc := update s.pc t .writeLeave
    written := s.written ++ [data] }

/-- The critical section of `fifo_read_byte`. -/
def Fifo.take (s : Fifo ι) (t : ι) : Fifo ι :=
  { s with
    readOffset := advance s.fifoSize s.readOffset
    pc := update s.pc t (.readLeave (s.buffer s.readOffset))
    got := s.got ++ [s.buffer s.readOffset] }

inductive FifoEvent (ι : Type)
  | write (t : ι) (data : UInt8)
  | read (t : ι)
  | run (t : ι)

/-- A thread that waits does nothing. -/
def fifoStep (s : Fifo ι) : FifoEvent ι → Option (Fifo ι)
  | .write t data => if s.pc t = .idle then some (s.down .empty t (.writeMutex data)) else none
  | .read t => if s.pc t = .idle then some (s.down .full t .readMutex) else none
  | .run t =>
    if s.waiting t then none
    else
      match s.pc t with
      | .idle => none
      | .writeMutex data => some (s.down .mutex t (.writeByte data))
      | .writeByte data => some (s.put t data)
      | .writeLeave => s.up .mutex t .writeFull
      | .writeFull => s.up .full t .idle
      | .readMutex => some (s.down .mutex t .readByte)
      | .readByte => some (s.take t)
      | .readLeave data => s.up .mutex t (.readEmpty data)
      | .readEmpty _ => s.up .empty t .idle

end Model

variable {ι : Type}

/-- The semaphores of `create_fifo`, for `P` bytes. -/
def fifoSignals (P : Nat) : FifoSignal → Signal ι
  | .mutex => createSignal 1 1 false
  | .empty => createSignal P P false
  | .full => createSignal P 0 false

/-- A new queue for at most `P` bytes in a buffer that has room for them. -/
def fifoBoot (P : Nat) (s : Fifo ι) : Prop :=
  1 ≤ P ∧ P ≤ s.fifoSize ∧ s.signal = fifoSignals P ∧ s.writeOffset = 0 ∧ s.readOffset = 0 ∧
    (∀ t, s.pc t = .idle) ∧ (∀ t, s.waiting t = false) ∧ s.written = [] ∧ s.got = []

def FifoStep [DecidableEq ι] (s : Fifo ι) (e : FifoEvent ι) (s' : Fifo ι) : Prop :=
  fifoStep s e = some s'

/-! ### Who waits for what -/

def parkedAt : FifoPc → Option FifoSignal
  | .writeMutex _ => some .empty
  | .readMutex => some .full
  | .writeByte _ | .readByte => some .mutex
  | _ => none

/-- The queues of the semaphores and the states of the threads agree. -/
structure Parked (s : Fifo ι) : Prop where
  signals : ∀ k, SignalOk (s.signal k)
  queues : ∀ k t, t ∈ (s.signal k).waiting ↔ s.waiting t = true ∧ parkedAt (s.pc t) = some k
  awake : ∀ t, parkedAt (s.pc t) = none → s.waiting t = false

variable {s : Fifo ι} {t u : ι} {k : FifoSignal} {pc : FifoPc}

theorem Parked.not_mem_of_awake (h : Parked s) (ht : s.waiting t = false) : t ∉ (s.signal k).waiting :=
  fun hk => by simp [((h.queues k t).mp hk).1] at ht

section Moves

variable [DecidableEq ι]

theorem Parked.down (h : Parked s) (ht : s.waiting t = false) (hpc : parkedAt pc = some k) :
    Parked (s.down k t pc) := by
  have hnot : ∀ j, t ∉ (s.signal j).waiting := fun _ => h.not_mem_of_awake ht
  obtain ⟨hok, -, -, hwait⟩ := (h.signals k).down (hnot k)
  refine ⟨fun j => ?_, fun j u => ?_, fun u hu => ?_⟩
  · by_cases hj : j = k
    · subst hj
      simpa [Fifo.down] using hok
    · simpa [Fifo.down, hj] using h.signals j
  · by_cases hu : u = t
    · subst hu
      by_cases hj : j = k
      · subst hj
        have hh := hnot j
        simp only [Fifo.down, Function.update_self, hwait, hpc, and_true]
        cases (downSignal (s.signal j) u).2 <;> simp [hh]
      · have hh := hnot j
        simp [Fifo.down, hj, hpc, hh, Ne.symm hj]
    · by_cases hj : j = k
      · subst hj
        have hh := h.queues j u
        simp only [Fifo.down, Function.update_self, Function.update_of_ne hu, hwait, ← hh]
        cases (downSignal (s.signal j) t).2 <;> simp [hu]
      · simpa [Fifo.down, hj, hu] using h.queues j u
  · by_cases hut : u = t
    · subst hut
      simp [Fifo.down, hpc] at hu
    · simpa [Fifo.down, hut] using h.awake u (by simpa [Fifo.down, hut] using hu)

theorem ready_eq_true {waiting : ι → Bool} {o : Option ι} :
    ready waiting o u = true ↔ waiting u = true ∧ o ≠ some u := by
  cases o with
  | none => simp [ready]
  | some w =>
    by_cases hu : u = w
    · simp [ready, hu]
    · simp [ready, hu, Ne.symm hu]

omit [DecidableEq ι] in
theorem mem_tail_iff {l : List ι} (h : l.Nodup) : u ∈ l.tail ↔ u ∈ l ∧ l.head? ≠ some u := by
  cases l with
  | nil => simp
  | cons w rest =>
    rw [List.nodup_cons] at h
    simp only [List.tail_cons, List.mem_cons, List.head?_cons, ne_eq, Option.some.injEq]
    constructor
    · intro hu
      exact ⟨.inr hu, fun he => h.1 (he ▸ hu)⟩
    · rintro ⟨rfl | hu, hne⟩
      · exact absurd rfl hne
      · exact hu

theorem Parked.up (h : Parked s) (ht : s.waiting t = false)
    (hmax : (s.signal k).signals < (s.signal k).maxSignals) :
    ∃ s', s.up k t pc = some s' ∧ Parked s' ∧
      s' = { s with
        signal := update s.signal k
          { s.signal k with
            signals := (s.signal k).signals + 1, waiting := (s.signal k).waiting.tail }
        pc := update s.pc t pc
        waiting := ready s.waiting (s.signal k).waiting.head? } := by
  obtain ⟨heq, hok⟩ := (h.signals k).up hmax
  refine ⟨_, by rw [Fifo.up, heq]; rfl, ?_, rfl⟩
  have hnot : ∀ j, t ∉ (s.signal j).waiting := fun _ => h.not_mem_of_awake ht
  have htail : ∀ u, u ∈ (s.signal k).waiting.tail ↔ _ :=
    fun u => mem_tail_iff (h.signals k).nodup
  refine ⟨fun j => ?_, fun j u => ?_, fun u hu => ?_⟩
  · by_cases hj : j = k
    · subst hj
      simpa using hok
    · simpa [hj] using h.signals j
  · simp only [ready_eq_true]
    by_cases hut : u = t
    · subst hut
      have hh : s.waiting u ≠ true := by simp [ht]
      have hj' : u ∉ (update s.signal k { s.signal k with
          signals := (s.signal k).signals + 1, waiting := (s.signal k).waiting.tail } j).waiting := by
        by_cases hj : j = k
        · subst hj
          simp only [Function.update_self, htail]
          exact fun hm => hnot j hm.1
        · rw [Function.update_of_ne hj]
          exact hnot j
      simp [hj', hh]
    · rw [Function.update_of_ne hut]
      by_cases hj : j = k
      · subst hj
        simp only [Function.update_self, htail, h.queues j u]
        tauto
      · rw [Function.update_of_ne hj, h.queues j u]
        refine ⟨fun hm => ⟨⟨hm.1, fun hhead => ?_⟩, hm.2⟩, fun hm => ⟨hm.1.1, hm.2⟩⟩
        -- a thread waits for one semaphore only
        have hk := ((h.queues k u).mp (List.mem_of_mem_head? hhead)).2
        exact hj (Option.some.inj (hm.2.symm.trans hk))
  · have hwait : s.waiting u = false := by
      by_cases hut : u = t
      · rw [hut, ht]
      · exact h.awake u (by simpa [hut] using hu)
    by_contra hn
    have hh := (ready_eq_true.mp (by simpa using hn)).1
    rw [hwait] at hh
    simp at hh

theorem Parked.move {s' : Fifo ι} (h : Parked s) (ht : s.waiting t = false)
    (hsignal : s'.signal = s.signal) (hwaiting : s'.waiting = s.waiting)
    (hpc : s'.pc = update s.pc t pc) : Parked s' := by
  refine ⟨fun j => hsignal ▸ h.signals j, fun j u => ?_, fun u hu => ?_⟩
  · rw [hsignal, hwaiting, hpc]
    by_cases hut : u = t
    · subst hut
      have hh : u ∉ (s.signal j).waiting := h.not_mem_of_awake ht
      simp [hh, ht]
    · simpa [hut] using h.queues j u
  · rw [hwaiting]
    by_cases hut : u = t
    · rw [hut, ht]
    · exact h.awake u (by simpa [hpc, hut] using hu)

end Moves

/-! ### Who has a permit -/

def inside : FifoPc → Bool
  | .writeByte _ | .writeLeave | .readByte | .readLeave _ => true
  | _ => false

def wantsSpace : FifoPc → Bool
  | .writeMutex _ | .writeByte _ => true
  | _ => false

def freesSpace : FifoPc → Bool
  | .readLeave _ | .readEmpty _ => true
  | _ => false

def wantsByte : FifoPc → Bool
  | .readMutex | .readByte => true
  | _ => false

def fillsByte : FifoPc → Bool
  | .writeLeave | .writeFull => true
  | _ => false

theorem inside_of_parked {a : FifoPc} (h : parkedAt a = some .mutex) : inside a = true := by
  cases a <;> first | rfl | nomatch h

theorem wantsSpace_of_parked {a : FifoPc} (h : parkedAt a = some .empty) : wantsSpace a = true := by
  cases a <;> first | rfl | nomatch h

theorem wantsByte_of_parked {a : FifoPc} (h : parkedAt a = some .full) : wantsByte a = true := by
  cases a <;> first | rfl | nomatch h

section Counts

variable [Fintype ι] {P n : Nat}

/-- The permits of each semaphore are with it, with a thread, or stand for one of
the `n` bytes in the buffer. -/
structure Counts (P : Nat) (s : Fifo ι) (n : Nat) : Prop where
  mutex : (s.signal .mutex).signals + census inside s.pc = 1
  empty : (s.signal .empty).signals + census wantsSpace s.pc + n + census freesSpace s.pc = P
  full : (s.signal .full).signals + census wantsByte s.pc + census fillsByte s.pc = n

/-- Threads that are past `down_signal` have a permit each. -/
theorem Parked.permits (h : Parked s) {p : FifoPc → Bool}
    (hp : ∀ a, parkedAt a = some k → p a = true) {l : List ι} (hl : l.Nodup)
    (hmem : ∀ t ∈ l, p (s.pc t) = true ∧ t ∉ (s.signal k).waiting) :
    (l.length : Int) ≤ (s.signal k).signals + census p s.pc := by
  have hle : (l ++ (s.signal k).waiting).length ≤ census p s.pc := by
    refine length_le_census ?_ ?_
    · rw [List.nodup_append]
      refine ⟨hl, (h.signals k).nodup, fun a ha b hb he => ?_⟩
      exact (hmem a ha).2 (he ▸ hb)
    · intro t ht
      rcases List.mem_append.mp ht with ht | ht
      · exact (hmem t ht).1
      · exact hp _ ((h.queues k t).mp ht).2
  have hgranted := (h.signals k).granted
  rw [List.length_append] at hle
  omega

/-- What a move from `a` to `b` may do to the semaphores and to the number of bytes. -/
def Balance (a b : FifoPc) (δ : FifoSignal → Int) (m : Int) : Prop :=
  δ .mutex + (inside b).toNat = (inside a).toNat ∧
  δ .empty + (wantsSpace b).toNat + m + (freesSpace b).toNat =
    (wantsSpace a).toNat + (freesSpace a).toNat ∧
  δ .full + (wantsByte b).toNat + (fillsByte b).toNat =
    (wantsByte a).toNat + (fillsByte a).toNat + m

theorem Counts.move [DecidableEq ι] {s' : Fifo ι} {n' : Nat} {a b : FifoPc} {δ : FifoSignal → Int}
    (h : Counts P s n) (hpc : s'.pc = update s.pc t b) (ha : s.pc t = a)
    (hs : ∀ j, (s'.signal j).signals = (s.signal j).signals + δ j)
    (hbal : Balance a b δ (n' - n)) : Counts P s' n' := by
  subst ha
  have hcount : ∀ p : FifoPc → Bool, census p s'.pc + (p (s.pc t)).toNat =
      census p s.pc + (p b).toNat := by
    intro p
    rw [hpc]
    exact census_update b
  have h1 := hcount inside
  have h2 := hcount wantsSpace
  have h3 := hcount freesSpace
  have h4 := hcount wantsByte
  have h5 := hcount fillsByte
  obtain ⟨hm, he, hf⟩ := hbal
  obtain ⟨hm', he', hf'⟩ := h
  refine ⟨?_, ?_, ?_⟩
  · rw [hs]
    omega
  · rw [hs]
    omega
  · rw [hs]
    omega

structure FifoOk (P : Nat) (s : Fifo ι) (n : Nat) : Prop where
  parked : Parked s
  counts : Counts P s n
  capacity : P ≤ s.fifoSize
  maxSignals : ∀ j, (s.signal j).maxSignals = (fifoSignals (ι := ι) P j).maxSignals
  read : s.readOffset < s.fifoSize
  write : s.writeOffset = (s.readOffset + n) % s.fifoSize
  stream : s.written = s.got ++ window s.buffer s.fifoSize s.readOffset n

theorem FifoOk.le (h : FifoOk P s n) : n ≤ P := by
  have hp := h.parked.permits (k := .empty) (p := wantsSpace) (l := [])
    (fun _ => wantsSpace_of_parked) List.nodup_nil (by simp)
  have he := h.counts.empty
  rw [List.length_nil] at hp
  omega

theorem FifoOk.room {data : UInt8} (h : FifoOk P s n) (hpc : s.pc t = .writeByte data) :
    n < P := by
  have hnot : t ∉ (s.signal .empty).waiting := fun hk => by
    have hh := ((h.parked.queues .empty t).mp hk).2
    rw [hpc] at hh
    nomatch hh
  have hp := h.parked.permits (k := .empty) (p := wantsSpace) (l := [t])
    (fun _ => wantsSpace_of_parked) (List.nodup_singleton t)
    (by simp [hpc, wantsSpace, hnot])
  have he := h.counts.empty
  rw [List.length_singleton] at hp
  omega

theorem FifoOk.byte (h : FifoOk P s n) (hpc : s.pc t = .readByte) : 1 ≤ n := by
  have hnot : t ∉ (s.signal .full).waiting := fun hk => by
    have hh := ((h.parked.queues .full t).mp hk).2
    rw [hpc] at hh
    nomatch hh
  have hp := h.parked.permits (k := .full) (p := wantsByte) (l := [t])
    (fun _ => wantsByte_of_parked) (List.nodup_singleton t)
    (by simp [hpc, wantsByte, hnot])
  have hf := h.counts.full
  rw [List.length_singleton] at hp
  omega

end Counts

end TayHuang
