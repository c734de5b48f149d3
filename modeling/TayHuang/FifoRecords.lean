import TayHuang.FifoRuns
import TayHuang.Records

/-! Threads in `fifo_write_bytes` and `fifo_read_bytes`, which take the lock for each byte,
and what becomes of records of more than one byte. -/

namespace TayHuang

open Function (update)
open Records Runs

/-- What a thread does: `writing data i` has begun `i` calls of `fifo_write_byte`, and
`reading size bytes` has got `bytes`. -/
inductive FifoJob
  | idle
  | writing (data : List UInt8) (i : Nat)
  | reading (size : Nat) (bytes : List UInt8)
  deriving DecidableEq, Repr

/-- `started` are the data of the calls of `fifo_write_bytes`, `returned` what completed
calls of `fifo_read_bytes` have got. -/
structure Jobs (ι : Type) where
  fifo : Fifo ι
  job : ι → FifoJob
  started : List (List UInt8)
  returned : List (List UInt8)

inductive JobEvent (ι : Type)
  | write (t : ι) (data : List UInt8)
  | read (t : ι) (size : Nat)
  | run (t : ι)

section Model

variable {ι : Type} [DecidableEq ι]

/-- One step of a thread in `fifo_write_bytes`. -/
def runWriting (s : Jobs ι) (t : ι) (data : List UInt8) (i : Nat) : Option (Jobs ι) :=
  if s.fifo.pc t = .idle then
    match data[i]? with
    | some d => (fifoStep s.fifo (.write t d)).map fun f =>
      { s with fifo := f, job := update s.job t (.writing data (i + 1)) }
    | none => some { s with job := update s.job t .idle }
  else (fifoStep s.fifo (.run t)).map fun f => { s with fifo := f }

/-- One step of a thread in `fifo_read_bytes`. -/
def runReading (s : Jobs ι) (t : ι) (size : Nat) (bytes : List UInt8) : Option (Jobs ι) :=
  match s.fifo.pc t with
  | .idle =>
    if bytes.length < size then (fifoStep s.fifo (.read t)).map fun f => { s with fifo := f }
    else some { s with job := update s.job t .idle, returned := s.returned ++ [bytes] }
  | .readEmpty data => (fifoStep s.fifo (.run t)).map fun f =>
    { s with fifo := f, job := update s.job t (.reading size (bytes ++ [data])) }
  | _ => (fifoStep s.fifo (.run t)).map fun f => { s with fifo := f }

def jobStep (s : Jobs ι) : JobEvent ι → Option (Jobs ι)
  | .write t data =>
    if s.job t = .idle then
      some { s with job := update s.job t (.writing data 0), started := s.started ++ [data] }
    else none
  | .read t size =>
    if s.job t = .idle then some { s with job := update s.job t (.reading size []) } else none
  | .run t =>
    match s.job t with
    | .idle => none
    | .writing data i => runWriting s t data i
    | .reading size bytes => runReading s t size bytes

end Model

variable {ι : Type}

/-- A new queue for at most `P` bytes, and threads that do nothing yet. -/
def jobsBoot (P : Nat) (s : Jobs ι) : Prop :=
  fifoBoot P s.fifo ∧ (∀ t, s.job t = .idle) ∧ s.started = [] ∧ s.returned = []

def JobStep [DecidableEq ι] (s : Jobs ι) (e : JobEvent ι) (s' : Jobs ι) : Prop := jobStep s e = some s'

/-- All calls are about `k` bytes. -/
def Sized (k : Nat) : JobEvent ι → Prop
  | .write _ data => data.length = k
  | .read _ size => size = k
  | .run _ => True

/-- What a thread has put into the buffer in its call. -/
def putBy : FifoJob → FifoPc → List UInt8
  | .writing data i, .writeMutex _ | .writing data i, .writeByte _ => data.take (i - 1)
  | .writing data i, _ => data.take i
  | _, _ => []

/-- What a thread has taken out of the buffer in its call. -/
def takenBy : FifoJob → FifoPc → List UInt8
  | .reading _ bytes, .readLeave data | .reading _ bytes, .readEmpty data => bytes ++ [data]
  | .reading _ bytes, _ => bytes
  | _, _ => []

def Jobs.put (s : Jobs ι) (t : ι) : List UInt8 := putBy (s.job t) (s.fifo.pc t)

def Jobs.taken (s : Jobs ι) (t : ι) : List UInt8 := takenBy (s.job t) (s.fifo.pc t)

/-- What a thread puts with its next step. -/
def FifoPc.puts : FifoPc → List UInt8
  | .writeByte data => [data]
  | _ => []

/-- The calls are about `k` bytes, and no thread accesses the buffer while another has put
(or taken) some but not all bytes of its record. -/
def Undisturbed (k : Nat) (s : Jobs ι) : JobEvent ι → Prop
  | .run t => ((s.fifo.pc t).puts ≠ [] → ∀ u, u ≠ t → ¬ Open k (s.put u)) ∧
      (s.fifo.pc t = .readByte → ∀ u, u ≠ t → ¬ Open k (s.taken u))
  | e => Sized k e

/-! ### One step of a thread at the queue -/

/-- Where a thread stands after its step, `x` being the byte at the read offset. -/
def FifoPc.next (x : UInt8) : FifoPc → FifoPc
  | .idle => .idle
  | .writeMutex data => .writeByte data
  | .writeByte _ => .writeLeave
  | .writeLeave => .writeFull
  | .writeFull => .idle
  | .readMutex => .readByte
  | .readByte => .readLeave x
  | .readLeave data => .readEmpty data
  | .readEmpty _ => .idle

def FifoPc.takes (x : UInt8) : FifoPc → List UInt8
  | .readByte => [x]
  | _ => []

section Steps

variable [DecidableEq ι] {f f' : Fifo ι} {t : ι} {d : UInt8}

theorem up_effect {k : FifoSignal} {pc : FifoPc} (hs : f.up k t pc = some f') :
    f'.pc = update f.pc t pc ∧ f'.written = f.written ∧ f'.got = f.got := by
  obtain ⟨r, -, rfl⟩ := Option.map_eq_some_iff.mp hs
  exact ⟨rfl, rfl, rfl⟩

theorem fifoRun_effect (hs : fifoStep f (.run t) = some f') :
    f'.pc = update f.pc t ((f.pc t).next (f.buffer f.readOffset)) ∧
      f'.written = f.written ++ (f.pc t).puts ∧
      f'.got = f.got ++ (f.pc t).takes (f.buffer f.readOffset) := by
  simp only [fifoStep] at hs
  split at hs
  · simp at hs
  cases hpc : f.pc t with
  | idle => simp [hpc] at hs
  | writeMutex data =>
    rw [hpc] at hs
    obtain rfl := Option.some.inj hs
    exact ⟨rfl, (List.append_nil _).symm, (List.append_nil _).symm⟩
  | writeByte data =>
    rw [hpc] at hs
    obtain rfl := Option.some.inj hs
    exact ⟨rfl, rfl, (List.append_nil _).symm⟩
  | readMutex =>
    rw [hpc] at hs
    obtain rfl := Option.some.inj hs
    exact ⟨rfl, (List.append_nil _).symm, (List.append_nil _).symm⟩
  | readByte =>
    rw [hpc] at hs
    obtain rfl := Option.some.inj hs
    exact ⟨rfl, (List.append_nil _).symm, rfl⟩
  | writeLeave | writeFull | readLeave data | readEmpty data =>
    rw [hpc] at hs
    obtain ⟨h1, h2, h3⟩ := up_effect hs
    exact ⟨h1, by rw [h2]; exact (List.append_nil _).symm, by rw [h3]; exact (List.append_nil _).symm⟩

theorem fifoWrite_effect (hs : fifoStep f (.write t d) = some f') : f.pc t = .idle ∧
    f'.pc = update f.pc t (.writeMutex d) ∧ f'.written = f.written ∧ f'.got = f.got := by
  simp only [fifoStep] at hs
  split at hs
  · next hpc =>
    obtain rfl := Option.some.inj hs
    exact ⟨hpc, rfl, rfl, rfl⟩
  · simp at hs

theorem fifoRead_effect (hs : fifoStep f (.read t) = some f') : f.pc t = .idle ∧
    f'.pc = update f.pc t .readMutex ∧ f'.written = f.written ∧ f'.got = f.got := by
  simp only [fifoStep] at hs
  split at hs
  · next hpc =>
    obtain rfl := Option.some.inj hs
    exact ⟨hpc, rfl, rfl, rfl⟩
  · simp at hs

end Steps

/-! ### What the threads keep -/

/-- Where a writer that has begun `i` bytes can stand. -/
def WriterAt (data : List UInt8) (i : Nat) : FifoPc → Prop
  | .idle | .writeLeave | .writeFull => True
  | .writeMutex d | .writeByte d => 1 ≤ i ∧ data[i - 1]? = some d
  | _ => False

/-- Where a reader of `k` bytes that has got `bytes` can stand. -/
def ReaderAt (k : Nat) (bytes : List UInt8) : FifoPc → Prop
  | .idle => True
  | .readMutex | .readByte | .readLeave _ | .readEmpty _ => bytes.length < k
  | _ => False

def ThreadOk (k : Nat) (started : List (List UInt8)) : FifoJob → FifoPc → Prop
  | .idle, pc => pc = .idle
  | .writing data i, pc => data ∈ started ∧ data.length = k ∧ i ≤ k ∧ WriterAt data i pc
  | .reading size bytes, pc => size = k ∧ bytes.length ≤ k ∧ ReaderAt k bytes pc

section Threads

variable {k i : Nat} {started : List (List UInt8)} {data : List UInt8} {job : FifoJob} {pc : FifoPc}
  {x : UInt8}

theorem ThreadOk.mono {more : List (List UInt8)} (h : ThreadOk k started job pc) :
    ThreadOk k (started ++ more) job pc := by
  cases job with
  | idle => exact h
  | writing data i =>
    obtain ⟨hmem, hrest⟩ := h
    exact ⟨List.mem_append_left _ hmem, hrest⟩
  | reading size bytes => exact h

theorem putBy_writing (data : List UInt8) (i : Nat) (pc : FifoPc) :
    ∃ n ≤ i, putBy (.writing data i) pc = data.take n := by
  cases pc with
  | writeMutex d | writeByte d => exact ⟨i - 1, Nat.sub_le i 1, rfl⟩
  | _ => exact ⟨i, le_rfl, rfl⟩

/-- A writer has put at most its data, and when it has put `k` bytes, all of it. -/
theorem ThreadOk.put (hk : 0 < k) (h : ThreadOk k started job pc) : (putBy job pc).length ≤ k ∧
    ((putBy job pc).length = k → putBy job pc ∈ started) := by
  cases job with
  | idle => exact ⟨Nat.zero_le k, fun h0 => absurd h0 (Nat.ne_of_lt hk)⟩
  | reading size bytes => exact ⟨Nat.zero_le k, fun h0 => absurd h0 (Nat.ne_of_lt hk)⟩
  | writing data i =>
    obtain ⟨hmem, hlen, -⟩ := h
    obtain ⟨n, -, hput⟩ := putBy_writing data i pc
    rw [hput, List.length_take]
    refine ⟨by omega, fun hn => ?_⟩
    rwa [List.take_of_length_le (by omega)]

theorem ThreadOk.taken (h : ThreadOk k started job pc) : (takenBy job pc).length ≤ k := by
  cases job with
  | idle | writing data i => exact Nat.zero_le k
  | reading size bytes =>
    obtain ⟨-, hle, hat⟩ := h
    cases pc with
    | readLeave d | readEmpty d =>
      have hlt : bytes.length < k := hat
      simp only [takenBy, List.length_append, List.length_singleton]
      omega
    | _ => exact hle

/-- What a thread does after its step at the queue: a reader stores the byte. -/
def FifoJob.after : FifoJob → FifoPc → FifoJob
  | .reading size bytes, .readEmpty data => .reading size (bytes ++ [data])
  | job, _ => job

/-- A step at the queue puts and takes what the thread stands before. -/
theorem ThreadOk.next (h : ThreadOk k started job pc) (hpc : pc ≠ .idle) (x : UInt8) :
    ThreadOk k started (job.after pc) (pc.next x) ∧
      putBy (job.after pc) (pc.next x) = putBy job pc ++ pc.puts ∧
      takenBy (job.after pc) (pc.next x) = takenBy job pc ++ pc.takes x := by
  cases job with
  | idle => exact absurd h hpc
  | writing data i =>
    obtain ⟨hmem, hlen, hi, hat⟩ := h
    cases pc with
    | idle => exact absurd rfl hpc
    | writeMutex d => exact ⟨⟨hmem, hlen, hi, hat⟩, (List.append_nil _).symm, rfl⟩
    | writeByte d =>
      obtain ⟨h1, hd⟩ := hat
      obtain ⟨m, rfl⟩ : ∃ m, i = m + 1 := ⟨i - 1, by omega⟩
      refine ⟨⟨hmem, hlen, hi, trivial⟩, ?_, rfl⟩
      show data.take (m + 1) = data.take m ++ [d]
      rw [Nat.add_sub_cancel] at hd
      rw [List.take_add_one, hd]
      rfl
    | writeLeave | writeFull => exact ⟨⟨hmem, hlen, hi, trivial⟩, (List.append_nil _).symm, rfl⟩
    | readMutex | readByte | readLeave d | readEmpty d => exact hat.elim
  | reading size bytes =>
    obtain ⟨hsize, hle, hat⟩ := h
    cases pc with
    | idle => exact absurd rfl hpc
    | readMutex => exact ⟨⟨hsize, hle, hat⟩, rfl, (List.append_nil _).symm⟩
    | readByte => exact ⟨⟨hsize, hle, hat⟩, rfl, rfl⟩
    | readLeave d => exact ⟨⟨hsize, hle, hat⟩, rfl, (List.append_nil _).symm⟩
    | readEmpty d =>
      have hlt : bytes.length < k := hat
      refine ⟨⟨hsize, ?_, trivial⟩, rfl, (List.append_nil _).symm⟩
      rw [List.length_append, List.length_singleton]
      omega
    | writeMutex d | writeByte d | writeLeave | writeFull => exact hat.elim

end Threads

section Inversion

variable [DecidableEq ι] {s s' : Jobs ι} {t : ι} {data bytes : List UInt8} {i size : Nat}

theorem runWriting_busy (hjob : s.job t = .writing data i) (hpc : s.fifo.pc t ≠ .idle)
    (hs : runWriting s t data i = some s') : ∃ f, fifoStep s.fifo (.run t) = some f ∧
      s' = { s with fifo := f, job := update s.job t ((s.job t).after (s.fifo.pc t)) } := by
  rw [runWriting, if_neg hpc] at hs
  obtain ⟨f, hf, rfl⟩ := Option.map_eq_some_iff.mp hs
  have hsame : (s.job t).after (s.fifo.pc t) = s.job t := by
    rw [hjob]
    rfl
  exact ⟨f, hf, by rw [hsame, Function.update_eq_self]⟩

theorem runReading_busy (hjob : s.job t = .reading size bytes) (hpc : s.fifo.pc t ≠ .idle)
    (hs : runReading s t size bytes = some s') : ∃ f, fifoStep s.fifo (.run t) = some f ∧
      s' = { s with fifo := f, job := update s.job t ((s.job t).after (s.fifo.pc t)) } := by
  rw [runReading] at hs
  cases hp : s.fifo.pc t with
  | idle => exact absurd hp hpc
  | readEmpty d =>
    rw [hp] at hs
    obtain ⟨f, hf, rfl⟩ := Option.map_eq_some_iff.mp hs
    exact ⟨f, hf, by rw [hjob]; rfl⟩
  | _ =>
    rw [hp] at hs
    obtain ⟨f, hf, rfl⟩ := Option.map_eq_some_iff.mp hs
    refine ⟨f, hf, ?_⟩
    rw [hjob]
    simp only [FifoJob.after]
    rw [← hjob, Function.update_eq_self]

end Inversion

/-! ### Whole records -/

/-- The queue is in order, and both streams are made of whole records. -/
structure JobsOk [Fintype ι] (P k : Nat) (s : Jobs ι) : Prop where
  fifo : ∃ n, FifoOk P s.fifo n
  threads : ∀ t, ThreadOk k s.started (s.job t) (s.fifo.pc t)
  writes : Portioned k s.fifo.written s.put
  reads : Portioned k s.fifo.got s.taken
  data : ∀ j < s.fifo.written.length / k, block k s.fifo.written j ∈ s.started
  results : ∀ r ∈ s.returned, ∃ j < s.fifo.got.length / k, r = block k s.fifo.got j

section Kept

variable [Fintype ι] [DecidableEq ι] {P k : Nat} {s s' : Jobs ι} {t : ι} {f : Fifo ι} {job : FifoJob}
  {pc : FifoPc} {w g : List UInt8}

omit [DecidableEq ι] in
theorem jobsOk_of_boot (hk : 0 < k) (h : jobsBoot P s) : JobsOk P k s := by
  obtain ⟨hboot, hjob, hstarted, hreturned⟩ := h
  have hfifo := fifoOk_of_boot hboot
  obtain ⟨-, -, -, -, -, hpc, -, hwritten, hgot⟩ := hboot
  refine ⟨⟨0, hfifo⟩, fun t => ?_, ?_, ?_, fun j hj => ?_, fun r hr => ?_⟩
  · rw [hjob]
    exact hpc t
  · rw [hwritten]
    exact .nil hk fun t => by rw [Jobs.put, hjob]; rfl
  · rw [hgot]
    exact .nil hk fun t => by rw [Jobs.taken, hjob]; rfl
  · simp [hwritten] at hj
  · simp [hreturned] at hr

/-- The step of one thread, which puts `w` and takes `g`. -/
theorem JobsOk.advance (job : FifoJob) (hk : 0 < k) (h : JobsOk P k s) (hfifo : ∃ n, FifoOk P f n)
    (hpc : f.pc = update s.fifo.pc t pc) (hwritten : f.written = s.fifo.written ++ w)
    (hgot : f.got = s.fifo.got ++ g) (hok : ThreadOk k s.started job pc)
    (hput : putBy job pc = s.put t ++ w) (htaken : takenBy job pc = s.taken t ++ g)
    (hw : Polite k s.put t w) (hg : Polite k s.taken t g) :
    JobsOk P k { s with fifo := f, job := update s.job t job } := by
  obtain ⟨hle, hmem⟩ := hok.put hk
  rw [hput] at hle hmem
  have hlen := hok.taken
  rw [htaken] at hlen
  have hputs : Jobs.put { s with fifo := f, job := update s.job t job } =
      update s.put t (s.put t ++ w) := by
    funext u
    by_cases hu : u = t
    · subst hu
      simp only [Jobs.put, hpc, Function.update_self, hput]
    · simp only [Jobs.put, hpc, Function.update_of_ne hu]
  have htakes : Jobs.taken { s with fifo := f, job := update s.job t job } =
      update s.taken t (s.taken t ++ g) := by
    funext u
    by_cases hu : u = t
    · subst hu
      simp only [Jobs.taken, hpc, Function.update_self, htaken]
    · simp only [Jobs.taken, hpc, Function.update_of_ne hu]
  refine ⟨hfifo, fun u => ?_, ?_, ?_, fun j hj => ?_, fun r hr => ?_⟩
  · by_cases hu : u = t
    · subst hu
      simpa only [hpc, Function.update_self] using hok
    · simpa only [hpc, Function.update_of_ne hu] using h.threads u
  · simp only [hwritten, hputs]
    exact h.writes.extend hw hle
  · simp only [hgot, htakes]
    exact h.reads.extend hg hlen
  · simp only [hwritten] at hj ⊢
    rcases h.writes.blocks_extend hw hle hj with ⟨hold, he⟩ | ⟨he, hwhole⟩
    · rw [he]
      exact h.data j hold
    · rw [he]
      exact hmem hwhole
  · obtain ⟨j, hj, he⟩ := h.results r hr
    simp only [hgot]
    refine ⟨j, hj.trans_le (Nat.div_le_div_right ?_), he.trans (block_append hj g).symm⟩
    rw [List.length_append]
    exact Nat.le_add_right _ _

theorem JobsOk.busy (hk : 0 < k) (h : JobsOk P k s) (hgo : Undisturbed k s (.run t))
    (hpc : s.fifo.pc t ≠ .idle) (hf : fifoStep s.fifo (.run t) = some f) :
    JobsOk P k { s with fifo := f, job := update s.job t ((s.job t).after (s.fifo.pc t)) } := by
  obtain ⟨n, hn⟩ := h.fifo
  obtain ⟨hpc', hwritten, hgot⟩ := fifoRun_effect hf
  obtain ⟨hok, hput, htaken⟩ := (h.threads t).next hpc (s.fifo.buffer s.fifo.readOffset)
  obtain ⟨hputs, htakes⟩ := hgo
  refine h.advance _ hk (hn.step hf) hpc' hwritten hgot hok hput htaken ?_ ?_
  · cases hp : s.fifo.pc t with
    | writeByte d => exact .inr ⟨d, rfl, hputs (by rw [hp]; exact List.cons_ne_nil d [])⟩
    | _ => exact .inl rfl
  · cases hp : s.fifo.pc t with
    | readByte => exact .inr ⟨_, rfl, htakes hp⟩
    | _ => exact .inl rfl

theorem JobsOk.call (job : FifoJob) (more results : List (List UInt8)) (h : JobsOk P k s)
    (hok : ThreadOk k (s.started ++ more) job (s.fifo.pc t))
    (hwrites : Portioned k s.fifo.written (update s.put t (putBy job (s.fifo.pc t))))
    (hreads : Portioned k s.fifo.got (update s.taken t (takenBy job (s.fifo.pc t))))
    (hresults : ∀ r ∈ results, ∃ j < s.fifo.got.length / k, r = block k s.fifo.got j) :
    JobsOk P k { s with
      job := update s.job t job, started := s.started ++ more, returned := s.returned ++ results } := by
  have hputs : Jobs.put { s with
      job := update s.job t job, started := s.started ++ more, returned := s.returned ++ results } =
      update s.put t (putBy job (s.fifo.pc t)) := by
    funext u
    by_cases hu : u = t
    · subst hu
      simp only [Jobs.put, Function.update_self]
    · simp only [Jobs.put, Function.update_of_ne hu]
  have htakes : Jobs.taken { s with
      job := update s.job t job, started := s.started ++ more, returned := s.returned ++ results } =
      update s.taken t (takenBy job (s.fifo.pc t)) := by
    funext u
    by_cases hu : u = t
    · subst hu
      simp only [Jobs.taken, Function.update_self]
    · simp only [Jobs.taken, Function.update_of_ne hu]
  refine ⟨h.fifo, fun u => ?_, hputs ▸ hwrites, htakes ▸ hreads,
    fun j hj => List.mem_append_left _ (h.data j hj), fun r hr => ?_⟩
  · by_cases hu : u = t
    · subst hu
      simpa only [Function.update_self] using hok
    · simpa only [Function.update_of_ne hu] using (h.threads u).mono
  · rcases List.mem_append.mp hr with hr | hr
    · exact h.results r hr
    · exact hresults r hr

/-- Nothing of the streams changes when what a thread has put and taken is the same. -/
theorem JobsOk.same (job : FifoJob) (h : JobsOk P k s) (hput : putBy job (s.fifo.pc t) = s.put t)
    (htaken : takenBy job (s.fifo.pc t) = s.taken t) :
    Portioned k s.fifo.written (update s.put t (putBy job (s.fifo.pc t))) ∧
      Portioned k s.fifo.got (update s.taken t (takenBy job (s.fifo.pc t))) := by
  rw [hput, htaken, Function.update_eq_self, Function.update_eq_self]
  exact ⟨h.writes, h.reads⟩

theorem JobsOk.write {data : List UInt8} (h : JobsOk P k s) (hidle : s.job t = .idle)
    (hlen : data.length = k) : JobsOk P k { s with
      job := update s.job t (.writing data 0), started := s.started ++ [data] } := by
  have hpc : s.fifo.pc t = .idle := by
    have hh := h.threads t
    rwa [hidle] at hh
  obtain ⟨hwrites, hreads⟩ := h.same (t := t) (.writing data 0)
    (by rw [Jobs.put, hidle, hpc]; rfl) (by rw [Jobs.taken, hidle]; rfl)
  have hok : ThreadOk k (s.started ++ [data]) (.writing data 0) (s.fifo.pc t) := by
    rw [hpc]
    exact ⟨by simp, hlen, Nat.zero_le k, trivial⟩
  have hh := h.call _ [data] [] hok hwrites hreads (by simp)
  simpa only [List.append_nil] using hh

theorem JobsOk.read (h : JobsOk P k s) (hidle : s.job t = .idle) :
    JobsOk P k { s with job := update s.job t (.reading k []) } := by
  have hpc : s.fifo.pc t = .idle := by
    have hh := h.threads t
    rwa [hidle] at hh
  obtain ⟨hwrites, hreads⟩ := h.same (t := t) (.reading k [])
    (by rw [Jobs.put, hidle]; rfl) (by rw [Jobs.taken, hidle, hpc]; rfl)
  have hok : ThreadOk k (s.started ++ []) (.reading k []) (s.fifo.pc t) := by
    rw [hpc]
    exact ⟨rfl, Nat.zero_le k, trivial⟩
  have hh := h.call _ [] [] hok hwrites hreads (by simp)
  simpa only [List.append_nil] using hh

theorem JobsOk.writing (hk : 0 < k) {data : List UInt8} {i : Nat} (h : JobsOk P k s)
    (hgo : Undisturbed k s (.run t)) (hjob : s.job t = .writing data i)
    (hs : runWriting s t data i = some s') : JobsOk P k s' := by
  by_cases hpc : s.fifo.pc t = .idle
  · obtain ⟨n, hn⟩ := h.fifo
    have hok := h.threads t
    rw [hjob] at hok
    obtain ⟨hmem, hlen, hi, -⟩ := hok
    have hput : s.put t = data.take i := by rw [Jobs.put, hjob, hpc]; rfl
    have htaken : s.taken t = [] := by rw [Jobs.taken, hjob]; rfl
    rw [runWriting, if_pos hpc] at hs
    cases hd : data[i]? with
    | some d =>
      rw [hd] at hs
      obtain ⟨f, hf, rfl⟩ := Option.map_eq_some_iff.mp hs
      obtain ⟨-, hpc', hwritten, hgot⟩ := fifoWrite_effect hf
      have hlt := (List.getElem?_eq_some_iff.mp hd).1
      refine h.advance (.writing data (i + 1)) hk (w := []) (g := []) (hn.step hf) hpc'
        (by rw [hwritten, List.append_nil]) (by rw [hgot, List.append_nil])
        ⟨hmem, hlen, by omega, Nat.le_add_left 1 i, hd⟩ ?_ ?_ (.inl rfl) (.inl rfl)
      · rw [hput, List.append_nil]
        rfl
      · rw [htaken]
        rfl
    | none =>
      rw [hd] at hs
      obtain rfl := Option.some.inj hs
      have hge := List.getElem?_eq_none_iff.mp hd
      have hreset := h.writes.reset hk (t := t) (by rw [hput, List.length_take]; omega)
      have hsame : update s.taken t (takenBy .idle (s.fifo.pc t)) = s.taken := by
        have hnil : takenBy .idle (s.fifo.pc t) = s.taken t := htaken.symm
        rw [hnil, Function.update_eq_self]
      have hh := h.call (t := t) .idle [] [] hpc hreset
        (by rw [hsame]; exact h.reads) (by simp)
      simpa only [List.append_nil] using hh
  · obtain ⟨f, hf, rfl⟩ := runWriting_busy hjob hpc hs
    exact h.busy hk hgo hpc hf

theorem JobsOk.reading (hk : 0 < k) {bytes : List UInt8} {size : Nat} (h : JobsOk P k s)
    (hgo : Undisturbed k s (.run t)) (hjob : s.job t = .reading size bytes)
    (hs : runReading s t size bytes = some s') : JobsOk P k s' := by
  by_cases hpc : s.fifo.pc t = .idle
  · obtain ⟨n, hn⟩ := h.fifo
    have hok := h.threads t
    rw [hjob] at hok
    obtain ⟨rfl, hle, -⟩ := hok
    have hput : s.put t = [] := by rw [Jobs.put, hjob]; rfl
    have htaken : s.taken t = bytes := by rw [Jobs.taken, hjob, hpc]; rfl
    rw [runReading, hpc] at hs
    simp only at hs
    by_cases hlt : bytes.length < size
    · rw [if_pos hlt] at hs
      obtain ⟨f, hf, rfl⟩ := Option.map_eq_some_iff.mp hs
      obtain ⟨-, hpc', hwritten, hgot⟩ := fifoRead_effect hf
      have hh := h.advance (s.job t) hk (w := []) (g := []) (hn.step hf) hpc'
        (by rw [hwritten, List.append_nil]) (by rw [hgot, List.append_nil])
        (by rw [hjob]; exact ⟨rfl, hle, hlt⟩) (by rw [hput, hjob]; rfl) (by rw [htaken, hjob]; simp [takenBy])
        (.inl rfl) (.inl rfl)
      rwa [Function.update_eq_self] at hh
    · rw [if_neg hlt] at hs
      obtain rfl := Option.some.inj hs
      have hlen : (s.taken t).length = size := by rw [htaken]; omega
      have hsame : update s.put t (putBy .idle (s.fifo.pc t)) = s.put := by
        have hnil : putBy .idle (s.fifo.pc t) = s.put t := hput.symm
        rw [hnil, Function.update_eq_self]
      have hh := h.call (t := t) .idle [] [bytes] hpc
        (by rw [hsame]; exact h.writes) (h.reads.reset hk hlen) (fun r hr => ?_)
      · simpa only [List.append_nil] using hh
      · rw [List.mem_singleton.mp hr, ← htaken]
        exact h.reads.whole t hlen
  · obtain ⟨f, hf, rfl⟩ := runReading_busy hjob hpc hs
    exact h.busy hk hgo hpc hf

theorem JobsOk.step (hk : 0 < k) {e : JobEvent ι} (h : JobsOk P k s) (hgo : Undisturbed k s e)
    (hs : JobStep s e s') : JobsOk P k s' := by
  cases e with
  | write t data =>
    simp only [JobStep, jobStep] at hs
    split at hs
    · next hidle =>
      obtain rfl := Option.some.inj hs
      exact h.write hidle hgo
    · simp at hs
  | read t size =>
    obtain rfl : size = k := hgo
    simp only [JobStep, jobStep] at hs
    split at hs
    · next hidle =>
      obtain rfl := Option.some.inj hs
      exact h.read hidle
    · simp at hs
  | run t =>
    simp only [JobStep, jobStep] at hs
    cases hjob : s.job t with
    | idle => simp [hjob] at hs
    | writing data i =>
      rw [hjob] at hs
      exact h.writing hk hgo hjob hs
    | reading size bytes =>
      rw [hjob] at hs
      exact h.reading hk hgo hjob hs

omit [DecidableEq ι] in
theorem JobsOk.whole (h : JobsOk P k s) : ∀ r ∈ s.returned, r ∈ s.started := by
  obtain ⟨n, hn⟩ := h.fifo
  intro r hr
  obtain ⟨j, hj, rfl⟩ := h.results r hr
  have hstream := hn.stream
  have hblock : block k s.fifo.written j = block k s.fifo.got j := by
    rw [hstream, block_append hj]
  rw [← hblock]
  refine h.data j (hj.trans_le (Nat.div_le_div_right ?_))
  rw [hstream, List.length_append]
  exact Nat.le_add_right _ _

omit [Fintype ι] [DecidableEq ι] in
theorem undisturbed_one {e : JobEvent ι} (h : Sized 1 e) : Undisturbed 1 s e := by
  have hclosed : ∀ p : List UInt8, ¬ Open 1 p :=
    fun p hp => hp.1 (List.length_eq_zero_iff.mp (Nat.lt_one_iff.mp hp.2))
  cases e with
  | write t data => exact h
  | read t size => exact h
  | run t => exact ⟨fun _ u _ => hclosed _, fun _ u _ => hclosed _⟩

/-- In every run in which no thread accesses the buffer while another has put or taken a
part of its record, each completed call of `fifo_read_bytes` gets the bytes of one call of
`fifo_write_bytes`. -/
theorem records_whole (hk : 0 < k) {es : List (JobEvent ι)}
    (h : Run (jobsBoot P) (Guarded (Undisturbed k) JobStep) es s) :
    ∀ r ∈ s.returned, r ∈ s.started :=
  JobsOk.whole (P := P) (k := k) (h.invariant (I := fun _ s => JobsOk P k s)
    (fun _ hs => jobsOk_of_boot hk hs) fun _ _ _ _ hok hs => hok.step hk hs.1 hs.2)

end Kept

instance decidableSized (k : Nat) : ∀ e : JobEvent ι, Decidable (Sized k e)
  | .write _ data => inferInstanceAs (Decidable (data.length = k))
  | .read _ size => inferInstanceAs (Decidable (size = k))
  | .run _ => inferInstanceAs (Decidable True)

instance decidableOpen (k : Nat) (p : List UInt8) : Decidable (Open k p) :=
  inferInstanceAs (Decidable (p ≠ [] ∧ p.length < k))

instance decidableUndisturbed [Fintype ι] [DecidableEq ι] (k : Nat) (s : Jobs ι) :
    ∀ e, Decidable (Undisturbed k s e)
  | .run t => inferInstanceAs (Decidable
      (((s.fifo.pc t).puts ≠ [] → ∀ u, u ≠ t → ¬ Open k (s.put u)) ∧
        (s.fifo.pc t = .readByte → ∀ u, u ≠ t → ¬ Open k (s.taken u))))
  | .write t data => decidableSized k (.write t data)
  | .read t size => decidableSized k (.read t size)

def freshJobs (ι : Type) : Jobs ι :=
  ⟨⟨fifoSignals 4, 0, 0, 8, fun _ => 0, fun _ => .idle, fun _ => false, [], []⟩,
    fun _ => .idle, [], []⟩

theorem freshJobs_boot (ι : Type) : jobsBoot 4 (freshJobs ι) :=
  ⟨⟨by decide, show 4 ≤ 8 by decide, rfl, rfl, rfl, fun _ => rfl, fun _ => rfl, rfl, rfl⟩, fun _ => rfl,
    rfl, rfl⟩

/-- A key is written, and read after that. -/
def inOrder : List (JobEvent Bool) :=
  [.write false [1, 2], .read true 2] ++ List.replicate 10 (.run false) ++
    List.replicate 11 (.run true)

/-- Two keys are written, and two readers take their bytes in turn. -/
def inTurn : List (JobEvent (Fin 3)) :=
  .write 0 [1, 2] :: List.replicate 11 (.run 0) ++ .write 0 [3, 4] :: List.replicate 11 (.run 0) ++
    [.read 1 2, .read 2 2] ++ List.replicate 5 (.run 1) ++ List.replicate 5 (.run 2) ++
    List.replicate 6 (.run 1)

theorem records_whole_two : ∃ s : Jobs Bool,
    Run (jobsBoot 4) (Guarded (Undisturbed 2) JobStep) inOrder s ∧ s.returned = [[1, 2]] ∧
      ∀ r ∈ s.returned, r ∈ s.started := by
  have hrun : (inOrder.foldlM
      (fun s e => if Undisturbed 2 s e then jobStep s e else none) (freshJobs Bool)).map
      (fun s => decide (s.returned = [[1, 2]])) = some true := by
    decide +kernel
  obtain ⟨s, hs, hd⟩ := Option.map_eq_some_iff.mp hrun
  have hr := Run.ofGuardedFold _ (freshJobs_boot Bool) hs
  exact ⟨s, hr, of_decide_eq_true hd, records_whole (by decide) hr⟩

/-- The key that the first reader gets was never written. -/
theorem records_torn : ∃ s : Jobs (Fin 3),
    Run (jobsBoot 4) (Guarded (fun _ e => Sized 2 e) JobStep) inTurn s ∧
      s.started = [[1, 2], [3, 4]] ∧ s.returned = [[1, 3]] := by
  have hrun : (inTurn.foldlM
      (fun s e => if Sized 2 e then jobStep s e else none) (freshJobs (Fin 3))).map
      (fun s => decide (s.started = [[1, 2], [3, 4]] ∧ s.returned = [[1, 3]])) = some true := by
    decide +kernel
  obtain ⟨s, hs, hd⟩ := Option.map_eq_some_iff.mp hrun
  obtain ⟨hstarted, hreturned⟩ := of_decide_eq_true hd
  have hr : Run (jobsBoot 4) (Guarded (fun _ e => Sized 2 e) JobStep) inTurn s :=
    Run.ofGuardedFold _ (freshJobs_boot (Fin 3)) hs
  exact ⟨s, hr, hstarted, hreturned⟩

end TayHuang
