import Mathlib.Data.List.Basic

/-! Two 8259A interrupt controllers, the second on line 2 of the first, in fully
nested mode with edge triggered lines. A line that has risen stays requested until
the processor takes it; line 0 of a chip goes before line 7. -/

namespace TayHuang

namespace Pic

/-- The words that a chip takes at its data port after the first one of its
initialization. -/
inductive Word
  | vectors
  | cascade
  | mode
  deriving DecidableEq

structure Chip where
  irr : BitVec 8
  isr : BitVec 8
  imr : BitVec 8
  base : BitVec 8
  awaited : List Word
  deriving DecidableEq

def line (n : Nat) : BitVec 8 := 1#8 <<< n

/-- The line of the highest priority. -/
def highest (b : BitVec 8) : Option Nat := (List.range 8).find? fun n => b.getLsbD n

def Chip.eoi (c : Chip) : Chip :=
  match highest c.isr with
  | none => c
  | some n => { c with isr := c.isr &&& ~~~(line n) }

/-- A write to the control port: the first word of an initialization, or an end of
interrupt. -/
def Chip.outControl (c : Chip) (b : BitVec 8) : Chip :=
  if b.getLsbD 4 then
    { c with
      irr := 0
      isr := 0
      imr := 0
      awaited := [.vectors] ++ (if b.getLsbD 1 then [] else [.cascade]) ++
        if b.getLsbD 0 then [.mode] else [] }
  else if b.getLsbD 3 = false ∧ b >>> 5 = 1 then c.eoi
  else c

def Chip.outData (c : Chip) (b : BitVec 8) : Chip :=
  match c.awaited with
  | [] => { c with imr := b }
  | .vectors :: rest => { c with base := b &&& 0xF8, awaited := rest }
  | _ :: rest => { c with awaited := rest }

def Chip.inData (c : Chip) : BitVec 8 := c.imr

/-- The line that a chip interrupts for, of those that are requested: unmasked, and none
of its priority or a higher one in service. -/
def Chip.asserted (c : Chip) (lines : BitVec 8) : Option Nat :=
  (highest (lines &&& ~~~c.imr)).filter fun n => (List.range (n + 1)).all fun i => !c.isr.getLsbD i

/-- The processor takes the interrupt of line `n`. -/
def Chip.take (c : Chip) (n : Nat) : Chip :=
  { c with irr := c.irr &&& ~~~(line n), isr := c.isr ||| line n }

structure Pics where
  master : Chip
  slave : Chip
  deriving DecidableEq

namespace Pics

/-- A device raises its line. -/
def raise (p : Pics) (n : Nat) : Pics :=
  if n < 8 then { p with master := { p.master with irr := p.master.irr ||| line n } }
  else { p with slave := { p.slave with irr := p.slave.irr ||| line (n - 8) } }

def requested (p : Pics) (n : Nat) : Bool :=
  if n < 8 then p.master.irr.getLsbD n else p.slave.irr.getLsbD (n - 8)

/-- The slave stands on line 2 of the master. -/
def masterLines (p : Pics) : BitVec 8 :=
  match p.slave.asserted p.slave.irr with
  | none => p.master.irr
  | some _ => p.master.irr ||| line 2

/-- The line whose interrupt the processor gets next, if any. -/
def pending (p : Pics) : Option Nat :=
  match p.master.asserted p.masterLines with
  | none => none
  | some 2 => (p.slave.asserted p.slave.irr).map (8 + ·)
  | some n => some n

/-- The processor takes it, and reads its vector. -/
def acknowledge (p : Pics) (n : Nat) : Pics × BitVec 8 :=
  if n < 8 then ({ p with master := p.master.take n }, p.master.base ||| BitVec.ofNat 8 n)
  else
    ({ master := p.master.take 2, slave := p.slave.take (n - 8) },
      p.slave.base ||| BitVec.ofNat 8 (n - 8))

end Pics

/-! ### Sets of lines -/

@[simp] theorem getLsbD_line {n i : Nat} (hn : n < 8) : (line n).getLsbD i = decide (i = n) := by
  rw [line, BitVec.getLsbD_shiftLeft]
  by_cases hi : i = n
  · subst hi
    simp [hn]
  · by_cases hlt : i < n
    · simp [hlt, hi]
    · have hne : i - n ≠ 0 := by omega
      simp [hi, hne]

theorem ext_lines {a b : BitVec 8} (h : ∀ i < 8, a.getLsbD i = b.getLsbD i) : a = b :=
  BitVec.eq_of_getLsbD_eq h

theorem line_and_not_line {n : Nat} (hn : n < 8) : line n &&& ~~~(line n) = 0 := by
  refine ext_lines fun i hi => ?_
  by_cases he : i = n <;> simp [hn, he]

theorem highest_spec {b : BitVec 8} {n : Nat} (h : highest b = some n) :
    n < 8 ∧ b.getLsbD n = true ∧ ∀ i < n, b.getLsbD i = false := by
  obtain ⟨hset, l, l', hl, hbelow⟩ := List.find?_eq_some_iff_append.mp h
  have hn : n < 8 := List.mem_range.mp (hl ▸ by simp)
  refine ⟨hn, hset, fun i hi => ?_⟩
  have hlen : l.length = n := by
    have hget : (List.range 8)[l.length]? = some n := by simp [hl]
    have hlt : l.length < 8 := by
      have := congrArg List.length hl
      simp at this
      omega
    simpa [List.getElem?_range hlt] using hget
  have himem : i ∈ l := by
    have hget : (List.range 8)[i]? = l[i]? := by rw [hl, List.getElem?_append_left (hlen ▸ hi)]
    rw [List.getElem?_range (by omega)] at hget
    exact List.mem_of_getElem? hget.symm
  simpa using hbelow i himem

theorem highest_eq_none {b : BitVec 8} : highest b = none ↔ b = 0 := by
  rw [highest, List.find?_eq_none]
  constructor
  · intro h
    refine ext_lines fun i hi => ?_
    simpa using h i (List.mem_range.mpr hi)
  · intro h n hn
    simp [h]

theorem highest_line {n : Nat} (hn : n < 8) : highest (line n) = some n := by
  rcases hh : highest (line n) with _ | m
  · have hset := getLsbD_line hn (i := n)
    rw [highest_eq_none.mp hh] at hset
    simp at hset
  · obtain ⟨-, hset, -⟩ := highest_spec hh
    rw [getLsbD_line hn, decide_eq_true_eq] at hset
    rw [hset]

/-! ### What a chip interrupts for -/

variable {c : Chip} {lines : BitVec 8}

theorem Chip.asserted_spec {n : Nat} (h : c.asserted lines = some n) :
    n < 8 ∧ lines.getLsbD n = true := by
  obtain ⟨hhigh, -⟩ := Option.filter_eq_some_iff.mp h
  obtain ⟨hn, hset, -⟩ := highest_spec hhigh
  rw [BitVec.getLsbD_and, Bool.and_eq_true] at hset
  exact ⟨hn, hset.1⟩

theorem Chip.asserted_of_clear (hisr : c.isr = 0) (himr : c.imr = 0) :
    c.asserted lines = highest lines := by
  have hmask : lines &&& ~~~c.imr = lines := by
    rw [himr]
    exact BitVec.and_allOnes
  rw [asserted, hmask]
  rcases highest lines with _ | n
  · rfl
  · simp [Option.filter, hisr]

/-- With line 0 in service a chip stays silent. -/
theorem Chip.asserted_of_zero (hisr : c.isr.getLsbD 0 = true) : c.asserted lines = none := by
  rw [asserted]
  rcases highest (lines &&& ~~~c.imr) with _ | n
  · rfl
  · have hall : ((List.range (n + 1)).all fun i => !c.isr.getLsbD i) = false :=
      List.all_eq_false.mpr ⟨0, by simp, by simp [hisr]⟩
    simp only [Option.filter, hall, Bool.false_eq_true, if_false]

@[simp] theorem Chip.eoi_of_line {n : Nat} (hn : n < 8) (h : c.isr = line n) :
    c.eoi = { c with isr := 0 } := by
  rw [eoi, h, highest_line hn]
  simp [line_and_not_line hn]

@[simp] theorem Chip.outControl_eoi : c.outControl 0x20 = c.eoi := by
  rw [outControl, if_neg (by decide), if_pos (by decide)]

@[simp] theorem Chip.outData_mask (h : c.awaited = []) (b : BitVec 8) :
    c.outData b = { c with imr := b } := by
  rw [outData, h]

@[simp] theorem Chip.irr_outData (b : BitVec 8) : (c.outData b).irr = c.irr := by
  unfold outData
  split <;> rfl

@[simp] theorem Chip.irr_eoi : c.eoi.irr = c.irr := by
  unfold eoi
  split <;> rfl

namespace Pics

variable {p : Pics}

theorem pending_spec {n : Nat} (h : p.pending = some n) :
    (n < 8 ∧ n ≠ 2 ∧ p.master.irr.getLsbD n = true) ∨
      (8 ≤ n ∧ n < 16 ∧ p.slave.irr.getLsbD (n - 8) = true ∧
        ∃ m, p.slave.asserted p.slave.irr = some m) := by
  unfold pending at h
  rcases hm : p.master.asserted p.masterLines with _ | m
  · simp [hm] at h
  · by_cases h2 : m = 2
    · subst h2
      rw [hm] at h
      obtain ⟨i, hi, rfl⟩ := Option.map_eq_some_iff.mp h
      obtain ⟨hlt, hset⟩ := Chip.asserted_spec hi
      exact .inr ⟨by omega, by omega, by simpa using hset, i, hi⟩
    · have hn : m = n := by
        rw [hm] at h
        simpa [h2] using h
      subst hn
      obtain ⟨hlt, hset⟩ := Chip.asserted_spec hm
      refine .inl ⟨hlt, h2, ?_⟩
      rw [masterLines] at hset
      split at hset
      · exact hset
      · rw [BitVec.getLsbD_or, getLsbD_line (by decide)] at hset
        simpa [h2] using hset

theorem masterLines_of_none (h : p.slave.asserted p.slave.irr = none) :
    p.masterLines = p.master.irr := by
  rw [masterLines, h]

theorem masterLines_of_some {n : Nat} (h : p.slave.asserted p.slave.irr = some n) :
    p.masterLines = p.master.irr ||| line 2 := by
  rw [masterLines, h]

/-- With nothing masked or in service, some requested line interrupts. -/
theorem pending_isSome (hm : p.master.isr = 0 ∧ p.master.imr = 0)
    (hs : p.slave.isr = 0 ∧ p.slave.imr = 0) (h2 : p.master.irr.getLsbD 2 = false) {n : Nat}
    (h : p.requested n = true) : p.pending.isSome := by
  have hslave : p.slave.asserted p.slave.irr = highest p.slave.irr :=
    Chip.asserted_of_clear hs.1 hs.2
  rw [pending, Chip.asserted_of_clear hm.1 hm.2]
  rcases hhigh : highest p.masterLines with _ | m
  · have hzero := highest_eq_none.mp hhigh
    rcases hi : highest p.slave.irr with _ | i
    · rw [masterLines_of_none (hslave.trans hi)] at hzero
      rw [requested, hzero, highest_eq_none.mp hi] at h
      simp at h
    · rw [masterLines_of_some (hslave.trans hi)] at hzero
      have hset : (p.master.irr ||| line 2).getLsbD 2 = true := by
        rw [BitVec.getLsbD_or, getLsbD_line (by decide), decide_eq_true rfl, Bool.or_true]
      rw [hzero] at hset
      exact absurd hset (by decide)
  · obtain ⟨-, hset, -⟩ := highest_spec hhigh
    by_cases hm2 : m = 2
    · subst hm2
      rcases hi : highest p.slave.irr with _ | i
      · rw [masterLines_of_none (hslave.trans hi), h2] at hset
        exact absurd hset Bool.false_ne_true
      · simp [hslave, hi]
    · simp

theorem requested_raise {m n : Nat} (hm : m < 16) (hn : n < 16) :
    (p.raise m).requested n = (p.requested n || decide (n = m)) := by
  unfold raise requested
  by_cases hm8 : m < 8
  · rw [if_pos hm8]
    by_cases hn8 : n < 8
    · rw [if_pos hn8, if_pos hn8, BitVec.getLsbD_or, getLsbD_line hm8]
    · have hne : n ≠ m := by omega
      simp [hn8, hne]
  · rw [if_neg hm8]
    by_cases hn8 : n < 8
    · have hne : n ≠ m := by omega
      simp [hn8, hne]
    · have hiff : n - 8 = m - 8 ↔ n = m := by omega
      rw [if_neg hn8, if_neg hn8, BitVec.getLsbD_or, getLsbD_line (by omega)]
      simp [hiff]

theorem getLsbD_take_irr {c : Chip} {m n : Nat} (hm : m < 8) (hn : n < 8) :
    (c.take m).irr.getLsbD n = (c.irr.getLsbD n && decide (n ≠ m)) := by
  rw [Chip.take, BitVec.getLsbD_and, BitVec.getLsbD_not, getLsbD_line hm, decide_eq_true hn,
    Bool.true_and, decide_not]

theorem acknowledge_master (n : Nat) :
    (p.acknowledge n).1.master = p.master.take (if n < 8 then n else 2) := by
  unfold acknowledge
  split <;> rfl

theorem acknowledge_slave (n : Nat) :
    (p.acknowledge n).1.slave = if n < 8 then p.slave else p.slave.take (n - 8) := by
  unfold acknowledge
  split <;> rfl

theorem requested_acknowledge {m n : Nat} (hm : m < 16) (hn : n < 16) (h2 : n ≠ 2) :
    (p.acknowledge m).1.requested n = (p.requested n && decide (n ≠ m)) := by
  unfold acknowledge requested
  by_cases hm8 : m < 8
  · rw [if_pos hm8]
    by_cases hn8 : n < 8
    · rw [if_pos hn8, if_pos hn8, getLsbD_take_irr hm8 hn8]
    · have hne : n ≠ m := by omega
      simp [hn8, hne]
  · rw [if_neg hm8]
    by_cases hn8 : n < 8
    · have hne : n ≠ m := by omega
      rw [if_pos hn8, if_pos hn8, getLsbD_take_irr (by decide) hn8]
      simp [h2, hne]
    · have hiff : n - 8 = m - 8 ↔ n = m := by omega
      rw [if_neg hn8, if_neg hn8, getLsbD_take_irr (by omega) (by omega)]
      simp [hiff]

end Pics

end Pic

end TayHuang
