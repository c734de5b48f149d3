import TayHuang.EchoRuns
import TayHuang.FifoQueries

/-! Waiting for a line. The terminal counts the lines typed in a semaphore; a caller
takes a permit, gets one key from the driver and puts the permit back unless the key
was the end of the line. -/

namespace TayHuang

namespace Tty

open Function (update)
open Runs Census LittleEndian Ring

/-- The bytes of a key that is not completely in the local queue. -/
def halfWritten : DriverPc → List UInt8
  | .writingHigh k => (toBytes 2 k.toNat).take 1
  | _ => []

/-- The bytes written and not read, as the semaphores and the offsets of a queue say. -/
def unread (f : FifoStruct) : List UInt8 :=
  window f.buffer f.fifoSize f.readOffset f.full.signals.toNat

/-- How many ends of a line were sent and are still to be queued. -/
def ahead : DriverPc → Nat
  | .writing k | .writingHigh k => if k = enter then 1 else 0
  | _ => 0

/-- How many ends of a line were received and are still to be counted. -/
def uncounted (loop : LoopPc) (key : Key) : Nat :=
  match loop with
  | .receiving => 0
  | _ => if key = enter then 1 else 0

def busy (pc : CallPc) : Bool := pc ≠ .idle

def gotEnter (pc : CallPc) : Bool := pc = .got enter

section Model

variable {ι : Type}

/-- The bytes of a key that was read halfway. -/
def HalfRead (call : ι → CallPc) : List UInt8 → Prop
  | [] => ∀ t b, call t ≠ .second b
  | [b] => ∃ t, call t = .second b ∧ ∀ u c, call u = .second c → u = t
  | _ => False

/-- No call of `__getchar` is in progress, and all messages are handled. -/
structure Quiet (s : Terminal ι) : Prop where
  calls : ∀ t, s.call t = .idle
  loop : s.loop = .receiving
  mailbox : s.mailbox = []

/-- The end of a line is sent without failure, the count is below its maximum when it is
raised, a byte is written only while a place of the ring is free, and no two callers read
the local queue at a time. -/
def Careful (s : Terminal ι) : TerminalEvent ι → Prop
  | .write => s.localFifo.full.signals < s.localFifo.fifoSize
  | .send ok => s.driver = .sending enter → ok = true
  | .loop => s.loop = .checking → s.key = enter → s.waitEnter.signals < s.waitEnter.maxSignals
  | .get t => (s.call t = .getkey → ∀ u b, s.call u ≠ .second b) ∧
    ∀ k, s.call t = .got k → k ≠ enter → s.waitEnter.signals < s.waitEnter.maxSignals
  | _ => True

/-- The bytes `l` stand unread in the local queue. -/
structure Stored (f : FifoStruct) (l : List UInt8) : Prop where
  books : Books localFifoSize l.length f
  size : f.fifoSize = 8144
  inside : f.readOffset < 8144
  tail : f.writeOffset = (f.readOffset + l.length) % 8144
  bytes : window f.buffer 8144 f.readOffset l.length = l

variable [Fintype ι]

structure LineOk (s : Terminal ι) : Prop where
  waits : Waits s.waitEnter s.callWaits
  parked : ∀ t, s.callWaits t = true → s.call t = .getkey
  permits : s.waitEnter.signals + census busy s.call + s.returned.count enter +
      uncounted s.loop s.key + s.mailbox.count enter =
    s.wrote.count enter + ahead s.driver
  takes : s.taken.count enter = s.returned.count enter + census gotEnter s.call
  stream : ∃ rest pre l, s.wrote = s.taken ++ rest ∧ Stored s.localFifo l ∧
    bytesOf rest ++ halfWritten s.driver = pre ++ l ∧ HalfRead s.call pre

end Model

/-! ### The local queue -/

section LocalQueue

variable {f f' : FifoStruct} {l data : List UInt8} {d : UInt8}

theorem Stored.unread (h : Stored f l) : Tty.unread f = l := by
  rw [Tty.unread, h.books.full, h.size]
  exact h.bytes

theorem Stored.new (buffer : Nat → UInt8) : Stored (newFifo localFifoSize buffer) [] := by
  have hsize : (newFifo localFifoSize buffer).fifoSize = 8144 := rfl
  exact ⟨Books.new localFifoSize buffer, hsize, by simp [newFifo], by simp [newFifo], rfl⟩

theorem fifoWriteByte_ring (h : fifoWriteByte f d = some f') :
    f'.buffer = update f.buffer f.writeOffset d ∧ f'.writeOffset = advance f.fifoSize f.writeOffset ∧
      f'.readOffset = f.readOffset ∧ f'.fifoSize = f.fifoSize := by
  obtain ⟨_, -, h⟩ := Option.bind_eq_some_iff.mp h
  obtain ⟨_, -, h⟩ := Option.bind_eq_some_iff.mp h
  obtain ⟨_, -, h⟩ := Option.bind_eq_some_iff.mp h
  obtain ⟨_, -, rfl⟩ := Option.map_eq_some_iff.mp h
  exact ⟨rfl, rfl, rfl, rfl⟩

theorem fifoReadByte_ring (h : fifoReadByte f = some (d, f')) :
    d = f.buffer f.readOffset ∧ f'.readOffset = advance f.fifoSize f.readOffset ∧
      f'.buffer = f.buffer ∧ f'.writeOffset = f.writeOffset ∧ f'.fifoSize = f.fifoSize := by
  obtain ⟨_, -, h⟩ := Option.bind_eq_some_iff.mp h
  obtain ⟨_, -, h⟩ := Option.bind_eq_some_iff.mp h
  obtain ⟨_, -, h⟩ := Option.bind_eq_some_iff.mp h
  obtain ⟨_, -, he⟩ := Option.map_eq_some_iff.mp h
  obtain ⟨rfl, rfl⟩ := Prod.mk.inj he
  exact ⟨rfl, rfl, rfl, rfl, rfl⟩

/-- A byte that finds a free place goes behind the others. -/
theorem Stored.write (h : Stored f l) (hroom : f.full.signals < f.fifoSize)
    (hs : fifoWriteByte f d = some f') : Stored f' (l ++ [d]) := by
  obtain ⟨hbooks, hsize, hinside, htail, hbytes⟩ := h
  obtain ⟨hb, hw, hr, hz⟩ := fifoWriteByte_ring hs
  have hlen : l.length < 8144 := by
    rw [hbooks.full, hsize] at hroom
    simp only [createSignal] at hroom
    omega
  refine ⟨?_, hz.trans hsize, hr ▸ hinside, ?_, ?_⟩
  · rw [List.length_append]
    exact hbooks.write hs
  · rw [hw, hr, hsize, htail, advance_mod (by decide), List.length_append]
    rfl
  · rw [hb, hr, htail, List.length_append]
    exact (window_push hlen d).trans (by rw [hbytes])

theorem Stored.read (h : Stored f l) (hs : fifoReadByte f = some (d, f')) :
    ∃ rest, l = d :: rest ∧ Stored f' rest := by
  obtain ⟨hbooks, hsize, hinside, htail, hbytes⟩ := h
  obtain ⟨hd, hr, hb, hw, hz⟩ := fifoReadByte_ring hs
  obtain ⟨m, hm, hbooks'⟩ := hbooks.read hs
  rw [hm, window_succ hinside] at hbytes
  subst hbytes
  refine ⟨_, by rw [hd], ?_, hz.trans hsize, ?_, ?_, ?_⟩
  · rwa [length_window]
  · rw [hr, hsize]
    exact advance_lt hinside
  · rw [hw, hr, hsize, htail, length_window, advance_add_mod hinside, List.length_cons,
      length_window]
  · rw [hr, hsize, hb, length_window]

theorem exists_toBytes (k : Key) : ∃ b c, toBytes 2 k.toNat = [b, c] := by
  have htwo : (toBytes 2 k.toNat).length = 2 := by simp
  match h : toBytes 2 k.toNat, htwo with
  | [b, c], _ => exact ⟨b, c, rfl⟩

theorem fifoWriteBytes_singleton : fifoWriteBytes f [d] = fifoWriteByte f d := by
  simp only [fifoWriteBytes]
  cases fifoWriteByte f d <;> rfl

end LocalQueue

theorem keyOf_toBytes (k : Key) {b c : UInt8} (h : toBytes 2 k.toNat = [b, c]) : keyOf b c = k := by
  have hlt : k.toNat < 256 ^ 2 := k.toNat_lt
  rw [keyOf, ← h, ofBytes_toBytes_of_lt hlt, UInt16.ofNat_toNat]

theorem bytesOf_concat (ks : List Key) (k : Key) :
    bytesOf (ks ++ [k]) = bytesOf ks ++ toBytes 2 k.toNat := by
  simp [bytesOf]

theorem bytesOf_cons (k : Key) (ks : List Key) :
    bytesOf (k :: ks) = toBytes 2 k.toNat ++ bytesOf ks := by
  simp [bytesOf]

theorem ahead_eq_zero {d : DriverPc} (h : d ≠ .writing enter) (h' : d ≠ .writingHigh enter) :
    ahead d = 0 := by
  cases d with
  | writing k => exact if_neg fun hk => h (by rw [hk])
  | writingHigh k => exact if_neg fun hk => h' (by rw [hk])
  | _ => rfl

variable {ι : Type} [Fintype ι] [DecidableEq ι] {s s' : Terminal ι} {t : ι}

omit [DecidableEq ι] in
theorem LineOk.boot (h : TerminalBoot s) : LineOk s := by
  have hcensus : ∀ p : CallPc → Bool, p .idle = false → census p s.call = 0 :=
    fun p hp => census_eq_zero fun t => by rw [h.call, hp]
  obtain ⟨buffer, hfifo⟩ := h.localFifo
  refine ⟨?_, fun t ht => ?_, ?_, ?_, [], [], [], ?_, hfifo ▸ .new buffer, ?_, fun t b => ?_⟩
  · rw [h.waitEnter]
    exact Waits.create h.callWaits
  · rw [h.callWaits t] at ht
    simp at ht
  · rw [hcensus busy rfl, h.waitEnter, h.returned, h.mailbox, h.wrote, h.driver]
    simp [createSignal, uncounted, h.loop, ahead]
  · rw [hcensus gotEnter rfl, h.taken, h.returned]
    rfl
  · rw [h.wrote, h.taken]
    rfl
  · rw [h.driver]
    rfl
  · rw [h.call]
    simp

/-! ### The driver -/

omit [DecidableEq ι] in
theorem LineOk.typed {k : Key} (h : LineOk s) (hd : s.driver = .reading) :
    LineOk { s with driver := .sending k } := by
  obtain ⟨h1, h2, h3, h4, rest, pre, l, h5, hl, h6, h7⟩ := h
  refine ⟨h1, h2, ?_, h4, rest, pre, l, h5, hl, ?_, h7⟩
  · simpa [ahead, hd] using h3
  · simpa [halfWritten, hd] using h6

omit [DecidableEq ι] in
theorem LineOk.send {k : Key} {ok : Bool} (h : LineOk s) (hd : s.driver = .sending k)
    (hfits : k = enter → ok = true) :
    LineOk { s with
      driver := .writing k, mailbox := if ok then s.mailbox ++ [k] else s.mailbox } := by
  obtain ⟨h1, h2, h3, h4, rest, pre, l, h5, hl, h6, h7⟩ := h
  refine ⟨h1, h2, ?_, h4, rest, pre, l, h5, hl, ?_, h7⟩
  · rw [hd] at h3
    by_cases hk : k = enter
    · rw [hfits hk, hk]
      simp [ahead] at h3 ⊢
      omega
    · have hcount : (if ok then s.mailbox ++ [k] else s.mailbox).count enter =
          s.mailbox.count enter := by
        cases ok <;> simp [List.count_append, hk]
      simp only [hcount]
      simpa [ahead, hk] using h3
  · simpa [halfWritten, hd] using h6

omit [DecidableEq ι] in
theorem LineOk.write (h : LineOk s) (hroom : s.localFifo.full.signals < s.localFifo.fifoSize)
    (hs : driverStep s = some s') : LineOk s' := by
  obtain ⟨h1, h2, h3, h4, rest, pre, l, h5, hl, h6, h7⟩ := h
  obtain ⟨k, f, ⟨hd, hf, rfl⟩ | ⟨hd, hf, rfl⟩⟩ := driverStep_cases hs
  all_goals
    obtain ⟨b, c, hk⟩ := exists_toBytes k
    rw [hk] at hf
    replace hf := fifoWriteBytes_singleton.symm.trans hf
  · refine ⟨h1, h2, ?_, h4, rest, pre, l ++ [b], h5, hl.write hroom hf, ?_, h7⟩
    · simpa [ahead, hd] using h3
    · simp only [halfWritten, hd, List.append_nil] at h6 ⊢
      rw [h6, hk, List.append_assoc]
      rfl
  · refine ⟨h1, h2, ?_, h4, rest ++ [k], pre, l ++ [c], ?_, hl.write hroom hf, ?_, h7⟩
    · rw [hd] at h3
      by_cases hke : k = enter
      · simp [ahead, hke, List.count_append] at h3 ⊢
        omega
      · simpa [ahead, hke, List.count_append, List.count_singleton] using h3
    · simp only [h5, List.append_assoc]
    · rw [hd] at h6
      simp only [halfWritten, List.append_nil, hk] at h6 ⊢
      rw [bytesOf_concat, ← List.append_assoc, ← h6, List.append_assoc, hk]
      rfl

/-! ### The message loop -/

theorem LineOk.loop (h : LineOk s)
    (hfits : s.loop = .checking → s.key = enter → s.waitEnter.signals < s.waitEnter.maxSignals)
    (hs : loopStep s = some s') : LineOk s' := by
  obtain ⟨h1, h2, h3, h4, h5⟩ := h
  unfold loopStep at hs
  cases hl : s.loop with
  | receiving =>
    rw [hl] at hs h3
    cases hm : s.mailbox with
    | nil => simp [hm] at hs
    | cons k rest =>
      simp only [hm, Option.some.injEq] at hs
      subst hs
      refine ⟨h1, h2, ?_, h4, h5⟩
      rw [hm, List.count_cons] at h3
      simp only [uncounted, beq_iff_eq] at h3 ⊢
      omega
  | signalling =>
    simp only [hl] at hs
    obtain ⟨r, -, rfl⟩ := Option.map_eq_some_iff.mp hs
    refine ⟨h1, h2, ?_, h4, h5⟩
    rwa [hl] at h3
  | checking =>
    simp only [hl] at hs
    rw [hl] at h3
    split at hs
    · rename_i hk
      obtain ⟨r, hr, rfl⟩ := Option.map_eq_some_iff.mp hs
      obtain ⟨r', hr', hw, hsignals, -⟩ := h1.up (hfits hl hk)
      obtain rfl := Option.some.inj (hr.symm.trans hr')
      refine ⟨hw, fun t ht => h2 t (ready_eq_true.mp ht).1, ?_, h4, h5⟩
      simp only [uncounted, if_pos hk, hsignals] at h3 ⊢
      omega
    · rename_i hk
      obtain rfl := Option.some.inj hs
      refine ⟨h1, h2, ?_, h4, h5⟩
      simp only [uncounted, if_neg hk] at h3 ⊢
      exact h3

/-! ### The callers -/

omit [Fintype ι] in
theorem HalfRead.keep {call : ι → CallPc} {pre : List UInt8} {v : CallPc}
    (h : HalfRead call pre) (ht : ∀ b, call t ≠ .second b) (hv : ∀ b, v ≠ .second b) :
    HalfRead (update call t v) pre := by
  have hiff : ∀ u b, update call t v u = .second b ↔ call u = .second b := by
    intro u b
    by_cases hu : u = t
    · subst hu
      rw [Function.update_self]
      exact ⟨fun he => absurd he (hv b), fun he => absurd he (ht b)⟩
    · rw [Function.update_of_ne hu]
  match pre with
  | [] => exact fun u b he => h u b ((hiff u b).mp he)
  | [b] =>
    obtain ⟨u, hu, huniq⟩ := h
    exact ⟨u, (hiff u b).mpr hu, fun w c hw => huniq w c ((hiff w c).mp hw)⟩

omit [Fintype ι] [DecidableEq ι] in
theorem HalfRead.nil {call : ι → CallPc} {pre : List UInt8} (h : HalfRead call pre)
    (hnone : ∀ u b, call u ≠ .second b) : pre = [] := by
  match pre with
  | [] => rfl
  | [b] =>
    obtain ⟨u, hu, -⟩ := h
    exact absurd hu (hnone u b)

omit [Fintype ι] [DecidableEq ι] in
theorem HalfRead.single {call : ι → CallPc} {pre : List UInt8} {b : UInt8} (h : HalfRead call pre)
    (ht : call t = .second b) : pre = [b] ∧ ∀ u c, call u = .second c → u = t := by
  match pre with
  | [] => exact absurd ht (h t b)
  | [c] =>
    obtain ⟨u, hu, huniq⟩ := h
    obtain rfl := huniq t b ht
    rw [hu] at ht
    simp only [CallPc.second.injEq] at ht
    exact ⟨by rw [ht], huniq⟩

theorem exists_key_of_bytes {ks : List Key} {d : DriverPc} {b c : UInt8} {l : List UInt8}
    (h : bytesOf ks ++ halfWritten d = [b] ++ c :: l) : ∃ k rest, ks = k :: rest ∧
      toBytes 2 k.toNat = [b, c] ∧ bytesOf rest ++ halfWritten d = [] ++ l := by
  have hlen : (halfWritten d).length ≤ 1 := by
    cases d <;> simp [halfWritten]
  match ks with
  | [] =>
    have hl := congrArg List.length h
    simp only [bytesOf, List.flatMap_nil, List.nil_append, List.length_append, List.length_cons,
      List.length_nil] at hl
    omega
  | k :: rest =>
    rw [bytesOf_cons, List.append_assoc] at h
    have htwo : (toBytes 2 k.toNat).length = 2 := by simp
    match hk : toBytes 2 k.toNat, htwo with
    | [b', c'], _ =>
      rw [hk] at h
      simp only [List.cons_append, List.nil_append, List.cons.injEq] at h
      obtain ⟨rfl, rfl, hrest⟩ := h
      exact ⟨k, rest, rfl, hk, hrest⟩

theorem LineOk.call (h : LineOk s) (hc : s.call t = .idle) :
    LineOk { s with
      waitEnter := (downSignal s.waitEnter t).1
      callWaits := update s.callWaits t (downSignal s.waitEnter t).2
      call := update s.call t .getkey } := by
  obtain ⟨h1, h2, h3, h4, rest, pre, l, h5, hl, h6, h7⟩ := h
  have hawake : s.callWaits t = false := by
    rw [← Bool.not_eq_true]
    intro ht
    rw [h2 t ht] at hc
    simp at hc
  obtain ⟨hw, hsignals, -⟩ := h1.down hawake
  have hbusy := census_update (p := busy) (f := s.call) (t := t) .getkey
  have hgot := census_update (p := gotEnter) (f := s.call) (t := t) .getkey
  simp only [hc, busy, gotEnter, ne_eq, not_true, decide_false, Bool.toNat_false, reduceCtorEq,
    not_false_eq_true, decide_true, Bool.toNat_true] at hbusy hgot
  refine ⟨hw, fun u hu => ?_, ?_, ?_, rest, pre, l, h5, hl, h6, h7.keep ?_ ?_⟩
  · by_cases he : u = t
    · rw [he]
      exact Function.update_self ..
    · simp only [Function.update_of_ne he] at hu ⊢
      exact h2 u hu
  · simp only [hsignals]
    omega
  · simp only
    omega
  · simp [hc]
  · simp

omit [Fintype ι] in
theorem parked_update (h : ∀ u, s.callWaits u = true → s.call u = .getkey)
    (hawake : s.callWaits t = false) (v : CallPc) :
    ∀ u, s.callWaits u = true → update s.call t v u = .getkey := by
  intro u hu
  have hne : u ≠ t := by
    rintro rfl
    simp [hawake] at hu
  rw [Function.update_of_ne hne]
  exact h u hu

theorem LineOk.first_byte {b : UInt8} {f : FifoStruct} (h : LineOk s)
    (hawake : s.callWaits t = false) (hc : s.call t = .getkey)
    (hf : fifoReadByte s.localFifo = some (b, f)) (halone : ∀ u b, s.call u ≠ .second b) :
    LineOk { s with localFifo := f, call := update s.call t (.second b) } := by
  obtain ⟨h1, h2, h3, h4, rest, pre, l, h5, hl, h6, h7⟩ := h
  have hbusy := census_update (p := busy) (f := s.call) (t := t) (.second b)
  have hgot := census_update (p := gotEnter) (f := s.call) (t := t) (.second b)
  simp only [hc, busy, gotEnter, ne_eq, reduceCtorEq, not_false_eq_true, decide_true,
    decide_false, Bool.toNat_true, Bool.toNat_false] at hbusy hgot
  obtain rfl := h7.nil halone
  obtain ⟨l', rfl, hl'⟩ := hl.read hf
  refine ⟨h1, parked_update h2 hawake _, ?_, ?_, rest, [b], l', h5, hl', ?_, t,
    Function.update_self .., ?_⟩
  · simp only
    omega
  · simp only
    omega
  · rw [h6]
    rfl
  · intro u c hu
    by_contra hne
    simp only [Function.update_of_ne hne] at hu
    exact halone u c hu

theorem LineOk.second_byte {b c : UInt8} {f : FifoStruct} (h : LineOk s)
    (hawake : s.callWaits t = false) (hc : s.call t = .second b)
    (hf : fifoReadByte s.localFifo = some (c, f)) :
    LineOk { s with
      localFifo := f
      taken := s.taken ++ [keyOf b c]
      call := update s.call t (.got (keyOf b c)) } := by
  obtain ⟨h1, h2, h3, h4, rest, pre, l, h5, hl, h6, h7⟩ := h
  have hbusy := census_update (p := busy) (f := s.call) (t := t) (.got (keyOf b c))
  have hgot := census_update (p := gotEnter) (f := s.call) (t := t) (.got (keyOf b c))
  obtain ⟨rfl, halone⟩ := h7.single hc
  obtain ⟨l', rfl, hl'⟩ := hl.read hf
  obtain ⟨k, ks, rfl, hk, hks⟩ := exists_key_of_bytes h6
  rw [keyOf_toBytes k hk] at hbusy hgot ⊢
  simp only [hc, busy, gotEnter, ne_eq, reduceCtorEq, not_false_eq_true, decide_true,
    decide_false, Bool.toNat_true, Bool.toNat_false, CallPc.got.injEq] at hbusy hgot
  refine ⟨h1, parked_update h2 hawake _, ?_, ?_, ks, [], l', ?_, hl', hks, ?_⟩
  · simp only
    omega
  · simp only [List.count_append, List.count_singleton, beq_iff_eq]
    by_cases hke : k = enter
    · simp [hke] at hgot ⊢
      omega
    · simp [hke] at hgot ⊢
      omega
  · simp only [h5, List.append_assoc, List.singleton_append]
  · intro u d hu
    by_cases hut : u = t
    · simp [hut] at hu
    · simp only [Function.update_of_ne hut] at hu
      exact hut (halone u d hu)

theorem LineOk.got_enter (h : LineOk s) (hawake : s.callWaits t = false)
    (hc : s.call t = .got enter) :
    LineOk { s with returned := s.returned ++ [enter], call := update s.call t .idle } := by
  obtain ⟨h1, h2, h3, h4, rest, pre, l, h5, hl, h6, h7⟩ := h
  have hbusy := census_update (p := busy) (f := s.call) (t := t) .idle
  have hgot := census_update (p := gotEnter) (f := s.call) (t := t) .idle
  simp [hc, busy, gotEnter] at hbusy hgot
  refine ⟨h1, parked_update h2 hawake _, ?_, ?_, rest, pre, l, h5, hl, h6,
    h7.keep (by simp [hc]) (by simp)⟩
  · simp [List.count_append]
    omega
  · simp [List.count_append]
    omega

/-- The permit of a key that does not end the line is put back. -/
theorem LineOk.got_other {k : Key} {r : Signal ι × Option ι} (h : LineOk s)
    (hawake : s.callWaits t = false) (hc : s.call t = .got k) (hk : k ≠ enter)
    (hroom : s.waitEnter.signals < s.waitEnter.maxSignals)
    (hr : upSignal s.waitEnter = some r) :
    LineOk { s with
      waitEnter := r.1
      callWaits := ready s.callWaits r.2
      returned := s.returned ++ [k]
      call := update s.call t .idle } := by
  obtain ⟨h1, h2, h3, h4, rest, pre, l, h5, hl, h6, h7⟩ := h
  have hbusy := census_update (p := busy) (f := s.call) (t := t) .idle
  have hgot := census_update (p := gotEnter) (f := s.call) (t := t) .idle
  simp [hc, hk, busy, gotEnter] at hbusy hgot
  obtain ⟨r', hr', hw, hsignals, -⟩ := h1.up hroom
  obtain rfl := Option.some.inj (hr.symm.trans hr')
  refine ⟨hw, fun u hu => parked_update h2 hawake _ u (ready_eq_true.mp hu).1, ?_, ?_, rest, pre,
    l, h5, hl, h6, h7.keep (by simp [hc]) (by simp)⟩
  · simp [hk, List.count_append, hsignals]
    omega
  · simp [hk, List.count_append]
    omega

theorem LineOk.get (h : LineOk s)
    (hfits : (s.call t = .getkey → ∀ u b, s.call u ≠ .second b) ∧
      ∀ k, s.call t = .got k → k ≠ enter → s.waitEnter.signals < s.waitEnter.maxSignals)
    (hs : getStep s t = some s') : LineOk s' := by
  obtain ⟨hawake, hcases⟩ := getStep_cases hs
  rcases hcases with ⟨b, f, hc, hf, rfl⟩ | ⟨b, c, f, hc, hf, rfl⟩ | ⟨k, hc, hend⟩
  · exact h.first_byte hawake hc hf (hfits.1 hc)
  · exact h.second_byte hawake hc hf
  · rcases hend with ⟨rfl, rfl⟩ | ⟨hk, r, hr, rfl⟩
    · exact h.got_enter hawake hc
    · exact h.got_other hawake hc hk (hfits.2 k hc hk) hr

theorem LineOk.step {e : TerminalEvent ι} (h : LineOk s) (hfits : Careful s e)
    (hs : TerminalStep s e s') : LineOk s' := by
  unfold TerminalStep terminalStep at hs
  cases e with
  | typed k =>
    simp only at hs
    split at hs
    · rename_i hd
      obtain rfl := Option.some.inj hs
      exact h.typed hd
    · simp at hs
  | send ok =>
    simp only at hs
    split at hs
    · rename_i k hd
      obtain rfl := Option.some.inj hs
      exact h.send hd fun hk => hfits (by rw [hd, hk])
    · simp at hs
  | write => exact h.write hfits hs
  | loop => exact h.loop hfits hs
  | echo =>
    simp only [echoStep] at hs
    split at hs
    · simp at hs
    obtain ⟨h1, h2, h3, h4, h5⟩ := h
    split at hs <;> obtain rfl := Option.some.inj hs <;> exact ⟨h1, h2, h3, h4, h5⟩
  | call t =>
    simp only at hs
    split at hs
    · rename_i hc
      obtain rfl := Option.some.inj hs
      exact h.call hc
    · simp at hs
  | get t => exact h.get hfits hs

omit [DecidableEq ι] in
/-- With no call in progress the permits are the lines in the queue. -/
theorem LineOk.quiet (h : LineOk s) (hq : Quiet s) :
    s.waitEnter.signals = s.wrote.count enter - s.returned.count enter + ahead s.driver ∧
      ∃ rest, s.wrote = s.taken ++ rest ∧ unread s.localFifo = bytesOf rest ++ halfWritten s.driver ∧
        s.waitEnter.signals = rest.count enter + ahead s.driver := by
  obtain ⟨-, -, h3, h4, rest, pre, l, h5, hl, h6, h7⟩ := h
  have hcensus : ∀ p : CallPc → Bool, p .idle = false → census p s.call = 0 :=
    fun p hp => census_eq_zero fun t => by rw [hq.calls, hp]
  obtain rfl := h7.nil fun u b => by simp [hq.calls u]
  rw [hcensus gotEnter rfl] at h4
  rw [hcensus busy rfl, hq.loop, hq.mailbox] at h3
  simp only [uncounted, List.count_nil, Nat.cast_zero] at h3
  refine ⟨by omega, rest, h5, hl.unread.trans h6.symm, ?_⟩
  rw [h5, List.count_append] at h3
  omega

omit [Fintype ι] [DecidableEq ι] in
theorem down_grants_iff {sig : Signal ι} (hard : sig.soft = false) (t : ι) :
    (downSignal sig t).2 = false ↔ 0 < sig.signals := by
  simp only [downSignal, hard, true_and]
  split <;> simp <;> omega

/-- When every line sent is counted below the maximum of `wait_enter`, no byte is written over
an unread one and the callers read one at a time, the permits are the lines in the queue
whenever nothing is in progress, unless the driver has sent a line that it has not queued,
and a caller gets a key if and only if the queue has a whole line. -/
theorem line_count {es : List (TerminalEvent ι)}
    (h : Run TerminalBoot (Guarded Careful TerminalStep) es s) (hq : Quiet s) :
    (s.waitEnter.signals = s.wrote.count enter - s.returned.count enter ↔
      s.driver ≠ .writing enter ∧ s.driver ≠ .writingHigh enter) ∧
    (s.driver ≠ .writing enter → s.driver ≠ .writingHigh enter →
      ∃ rest, s.wrote = s.taken ++ rest ∧ unread s.localFifo = bytesOf rest ++ halfWritten s.driver ∧
        s.waitEnter.signals = rest.count enter ∧
        ∀ t, (downSignal s.waitEnter t).2 = false ↔ enter ∈ rest) := by
  have hok : LineOk s := h.invariant (I := fun _ s => LineOk s) (fun _ => LineOk.boot)
    fun _ _ _ _ hok hstep => hok.step hstep.1 hstep.2
  obtain ⟨hcount, rest, hwrote, hfifo, hrest⟩ := hok.quiet hq
  refine ⟨⟨fun he => ?_, fun ⟨h1, h2⟩ => ?_⟩, fun h1 h2 => ?_⟩
  · have hzero : ahead s.driver = 0 := by omega
    refine ⟨fun hd => ?_, fun hd => ?_⟩ <;> simp [hd, ahead] at hzero
  · rw [hcount, ahead_eq_zero h1 h2]
    simp
  · rw [ahead_eq_zero h1 h2, Nat.cast_zero, add_zero] at hrest
    refine ⟨rest, hwrote, hfifo, hrest, fun t => ?_⟩
    rw [down_grants_iff hok.waits.ok.hard, hrest, ← List.count_pos_iff (l := rest)]
    omega

/-- A line typed and counted. -/
theorem line_count_one : ∃ s : Terminal Unit, Run TerminalBoot (Guarded Careful TerminalStep)
    [.typed enter, .send true, .write, .write, .loop, .loop, .loop] s ∧ Quiet s ∧
      s.waitEnter.signals = s.wrote.count enter - s.returned.count enter := by
  have h0 : Run TerminalBoot (Guarded Careful TerminalStep) [] idleTerminal :=
    .start idleTerminal_boot
  have h1 := h0.snoc (e := TerminalEvent.typed enter) ⟨trivial, rfl⟩
  have h2 := h1.snoc (e := TerminalEvent.send true) ⟨fun _ => rfl, rfl⟩
  have h3 := h2.snoc (e := TerminalEvent.write) ⟨by unfold Careful; decide, rfl⟩
  have h4 := h3.snoc (e := TerminalEvent.write) ⟨by unfold Careful; decide, rfl⟩
  have h5 := h4.snoc (e := TerminalEvent.loop) ⟨fun h => (nomatch h), rfl⟩
  have h6 := h5.snoc (e := TerminalEvent.loop) ⟨fun h => (nomatch h), rfl⟩
  have h7 := h6.snoc (e := TerminalEvent.loop) ⟨fun _ _ => by decide, rfl⟩
  refine ⟨_, h7, ⟨fun _ => rfl, rfl, rfl⟩, (line_count h7 ⟨fun _ => rfl, rfl, rfl⟩).1.mpr ?_⟩
  exact ⟨fun hd => (nomatch hd), fun hd => (nomatch hd)⟩

/-- One line typed while nobody reads. -/
def typeAhead : List (TerminalEvent Unit) :=
  [.typed enter, .send true, .write, .write, .loop, .loop, .loop]

/-- After 26 lines the permits are 25. -/
theorem line_beyond_count : ¬ ∀ (es : List (TerminalEvent Unit)) (s : Terminal Unit),
    Run TerminalBoot TerminalStep es s → Quiet s → s.driver = .reading →
      s.waitEnter.signals = s.wrote.count enter - s.returned.count enter := by
  intro hall
  have heval : ((List.replicate 26 typeAhead).flatten.foldlM terminalStep idleTerminal).map
      (fun s => decide (s.driver = .reading ∧ s.call () = .idle ∧ s.loop = .receiving ∧
        s.mailbox = [] ∧ s.waitEnter.signals = 25 ∧ s.wrote.count enter = 26 ∧
        s.returned.count enter = 0)) = some true := by
    decide +kernel
  obtain ⟨s, hs, heq⟩ := Option.map_eq_some_iff.mp heval
  rw [decide_eq_true_iff] at heq
  obtain ⟨hdriver, hcall, hloop, hmailbox, hsignals, hwrote, hreturned⟩ := heq
  have hcount := hall _ s (Run.ofFold _ idleTerminal_boot hs) ⟨fun _ => hcall, hloop, hmailbox⟩
    hdriver
  rw [hsignals, hwrote, hreturned] at hcount
  exact absurd hcount (by decide)

end Tty

end TayHuang
