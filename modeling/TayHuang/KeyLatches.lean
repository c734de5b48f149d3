import TayHuang.KeyRuns
import Mathlib.Data.Nat.Bitwise

/-! The lock and shift bits under any sequence of bytes. They share one word with the
prefixes and with a counter that is added to, and one branch assigns the whole word. -/

namespace TayHuang

namespace KeyParser

open KeyName

def isSet (mask state : UInt32) : Bool := state &&& mask ≠ 0

/-- The key that the decoder returned; without a buffer it is not called. -/
def decoded (s : Keyboard) (code : UInt8) : Option Nat := s.fifo.map fun _ => (parse s.state code).2

/-- A lock is toggled by its key and by nothing else. -/
def Locks (key : Nat) (mask : UInt32) (s : Keyboard) (code : UInt8) : Prop :=
  isSet mask (irqHandler s 1 code).state =
    if decoded s code = some key then !isSet mask s.state else isSet mask s.state

/-- A shift bit changes only when the key is made or broken, without a prefix. -/
def Shifts (key : Nat) (mask : UInt32) (s : Keyboard) (code : UInt8) : Prop :=
  isSet mask (irqHandler s 1 code).state ≠ isSet mask s.state →
    (row code).1 = key ∧ s.state &&& (E0_XX ||| E1_XX) = 0

structure StableAt (s : Keyboard) (code : UInt8) : Prop where
  caps : Locks CAPSLOCK CAPSLOCKING s code
  num : Locks NUMLOCK NUMLOCKING s code
  left : Shifts LSHIFT LSHIFT_PUSHED s code
  right : Shifts RSHIFT RSHIFT_PUSHED s code

def feedBytes (s : Keyboard) (codes : List UInt8) : Keyboard :=
  codes.foldl (fun s c => irqHandler s 1 c) s

/-- Every byte of the sequence leaves the bits of the other keys alone. -/
def Stable (s : Keyboard) (codes : List UInt8) : Prop :=
  ∀ pre c post, codes = pre ++ c :: post → StableAt (feedBytes s pre) c

/-- `E0` where `do_normal` takes it, while a lock is on. -/
def Drops (state : UInt32) (code : UInt8) : Prop :=
  code = 0xE0 ∧ state &&& (E0_XX ||| E1_XX ||| LSHIFT_PUSHED ||| RSHIFT_PUSHED) = 0 ∧
    state &&& (NUMLOCKING ||| CAPSLOCKING) ≠ 0

/-- Behind `E1` the counter and the flag above it have no room left. -/
def Carries (state : UInt32) : Prop :=
  state &&& E1_XX ≠ 0 ∧ state &&& (E1_STAGE_MASK ||| E1_FAILED) = E1_STAGE_MASK ||| E1_FAILED

def Keeps (s : Keyboard) (code : UInt8) : Prop :=
  s.fifo = none ∨ ¬ Drops s.state code ∧ ¬ Carries s.state

/-! ### Bits -/

variable {a b m : UInt32} {j : Nat}

theorem isSet_eq (hm : m.toNat = 2 ^ j) (a : UInt32) : isSet m a = a.toNat.testBit j := by
  have hand : (a &&& m).toNat = (a.toNat.testBit j).toNat * 2 ^ j := by
    rw [UInt32.toNat_and, hm, Nat.and_two_pow]
  have hiff : a &&& m = 0 ↔ a.toNat.testBit j = false := by
    rw [← UInt32.toNat_inj, hand]
    cases a.toNat.testBit j <;> simp
  rw [isSet]
  cases h : a.toNat.testBit j
  · simp [hiff.mpr h]
  · have hne : ¬ a &&& m = 0 := by
      rw [hiff, h]
      simp
    simp [hne]

def latch (a : UInt32) : Latches :=
  ⟨isSet NUMLOCKING a, isSet CAPSLOCKING a, isSet LSHIFT_PUSHED a, isSet RSHIFT_PUSHED a⟩

theorem latch_eq (a : UInt32) : latch a =
    ⟨a.toNat.testBit 6, a.toNat.testBit 7, a.toNat.testBit 10, a.toNat.testBit 11⟩ := by
  rw [latch, isSet_eq (j := 6) rfl, isSet_eq (j := 7) rfl, isSet_eq (j := 10) rfl,
    isSet_eq (j := 11) rfl]

theorem latch_or (a m : UInt32) : latch (a ||| m) =
    ⟨(latch a).num || (latch m).num, (latch a).caps || (latch m).caps,
      (latch a).left || (latch m).left, (latch a).right || (latch m).right⟩ := by
  simp only [latch_eq, UInt32.toNat_or, Nat.testBit_or]

theorem latch_and (a m : UInt32) : latch (a &&& m) =
    ⟨(latch a).num && (latch m).num, (latch a).caps && (latch m).caps,
      (latch a).left && (latch m).left, (latch a).right && (latch m).right⟩ := by
  simp only [latch_eq, UInt32.toNat_and, Nat.testBit_and]

/-- The low bits, with the counter and the flag of `E1`. -/
theorem and_low (n k : Nat) (hk : k < 64) : n &&& k = n % 64 &&& k := by
  have h63 : k = 2 ^ 6 - 1 &&& k := by
    rw [Nat.and_comm, Nat.and_two_pow_sub_one_eq_mod, Nat.mod_eq_of_lt hk]
  calc n &&& k = n &&& (2 ^ 6 - 1 &&& k) := by rw [← h63]
    _ = n &&& 2 ^ 6 - 1 &&& k := (Nat.and_assoc ..).symm
    _ = n % 64 &&& k := by rw [Nat.and_two_pow_sub_one_eq_mod]

theorem full_iff (a : UInt32) : a &&& (E1_STAGE_MASK ||| E1_FAILED) = E1_STAGE_MASK ||| E1_FAILED ↔
    60 ≤ a.toNat % 64 := by
  have hall : ∀ r < 64, r &&& 60 = 60 ↔ 60 ≤ r := by decide
  have hmask : (E1_STAGE_MASK ||| E1_FAILED).toNat = 60 := rfl
  rw [← UInt32.toNat_inj, UInt32.toNat_and, hmask, and_low _ _ (by decide)]
  exact hall _ (Nat.mod_lt _ (by decide))

theorem toNat_count (a : UInt32) : (a + E1_STAGE_UNIT).toNat = (a.toNat + 4) % 2 ^ 32 := by
  rw [UInt32.toNat_add]
  rfl

theorem latch_count (h : a.toNat % 64 < 60) : latch (a + E1_STAGE_UNIT) = latch a := by
  have hlt := a.toNat_lt
  have hn : (a + E1_STAGE_UNIT).toNat = a.toNat + 4 := by
    rw [toNat_count, Nat.mod_eq_of_lt (by omega)]
  have hdiv : ∀ j, 6 ≤ j → (a.toNat + 4).testBit j = a.toNat.testBit j := by
    intro j hj
    obtain ⟨i, rfl⟩ : ∃ i, j = 6 + i := ⟨j - 6, by omega⟩
    have h6 : (a.toNat + 4) / 64 = a.toNat / 64 := by omega
    have hshift : ∀ n : Nat, n.testBit (6 + i) = (n / 64).testBit i := by
      intro n
      rw [Nat.testBit_eq_decide_div_mod_eq, Nat.testBit_eq_decide_div_mod_eq, Nat.pow_add,
        Nat.div_div_eq_div_mul]
    rw [hshift, hshift, h6]
  rw [latch_eq, latch_eq, hn, hdiv 6 (by decide), hdiv 7 (by decide), hdiv 10 (by decide),
    hdiv 11 (by decide)]

theorem num_count (h : 60 ≤ a.toNat % 64) :
    (latch (a + E1_STAGE_UNIT)).num = !(latch a).num := by
  have hlt := a.toNat_lt
  simp only [latch_eq, toNat_count, Nat.testBit_eq_decide_div_mod_eq]
  rw [← decide_not, decide_eq_decide]
  omega

theorem and_or_eq_zero (a m m' : UInt32) : a &&& (m ||| m') = 0 ↔ a &&& m = 0 ∧ a &&& m' = 0 := by
  have hdist : a &&& (m ||| m') = a &&& m ||| a &&& m' := by
    rw [← UInt32.toNat_inj]
    simp only [UInt32.toNat_and, UInt32.toNat_or, Nat.and_or_distrib_left]
  rw [hdist, UInt32.or_eq_zero_iff]

/-! ### Decoders -/

theorem latch_keep {m : UInt32} (hm : latch m = ⟨false, false, false, false⟩) :
    latch (a ||| m) = latch a := by
  rw [latch_or, hm]
  simp

theorem latch_clear {m : UInt32} (hm : latch m = ⟨true, true, true, true⟩) :
    latch (a &&& m) = latch a := by
  rw [latch_and, hm]
  simp

theorem doE1_latch (code : UInt8) : latch (doE1 a code).1 = latch (a + E1_STAGE_UNIT) := by
  obtain ⟨b, hb⟩ : ∃ b, b = if pausebreakCodes[((a + E1_STAGE_UNIT &&& E1_STAGE_MASK) /
      E1_STAGE_UNIT).toNat]? ≠ some code then a + E1_STAGE_UNIT ||| E1_FAILED
      else a + E1_STAGE_UNIT := ⟨_, rfl⟩
  have hlatch : latch b = latch (a + E1_STAGE_UNIT) := by
    rw [hb]
    split
    · exact latch_keep rfl
    · rfl
  simp only [doE1, ← hb]
  rw [← hlatch]
  split
  · split
    · rw [latch_clear rfl, latch_clear rfl, latch_clear rfl]
    · rw [latch_clear rfl, latch_clear rfl]
  · rfl

theorem doE0_latch (code : UInt8) : latch (doE0 a code).1 = latch a := by
  unfold doE0
  split
  · rfl
  · exact latch_clear rfl

/-- What a byte without a prefix may do to the latches. -/
structure Pressed (code : UInt8) (l l' : Latches) : Prop where
  num : l'.num = l.num
  caps : l'.caps = l.caps
  left : l'.left ≠ l.left → (row code).1 = LSHIFT
  right : l'.right ≠ l.right → (row code).1 = RSHIFT

theorem Pressed.of_eq {code : UInt8} (h : latch b = latch a) : Pressed code (latch a) (latch b) := by
  rw [h]
  exact ⟨rfl, rfl, fun hne => absurd rfl hne, fun hne => absurd rfl hne⟩

theorem pressed_left {code : UInt8} (h : (row code).1 = LSHIFT) :
    Pressed code (latch a) (latch (a ||| LSHIFT_PUSHED)) ∧
      Pressed code (latch a) (latch (a &&& ~~~LSHIFT_PUSHED)) := by
  have hor : latch LSHIFT_PUSHED = ⟨false, false, true, false⟩ := rfl
  have hand : latch (~~~LSHIFT_PUSHED) = ⟨true, true, false, true⟩ := rfl
  rw [latch_or, latch_and, hor, hand]
  exact ⟨⟨by simp, by simp, fun _ => h, fun hne => absurd (by simp) hne⟩,
    ⟨by simp, by simp, fun _ => h, fun hne => absurd (by simp) hne⟩⟩

theorem pressed_right {code : UInt8} (h : (row code).1 = RSHIFT) :
    Pressed code (latch a) (latch (a ||| RSHIFT_PUSHED)) ∧
      Pressed code (latch a) (latch (a &&& ~~~RSHIFT_PUSHED)) := by
  have hor : latch RSHIFT_PUSHED = ⟨false, false, false, true⟩ := rfl
  have hand : latch (~~~RSHIFT_PUSHED) = ⟨true, true, true, false⟩ := rfl
  rw [latch_or, latch_and, hor, hand]
  exact ⟨⟨by simp, by simp, fun hne => absurd (by simp) hne, fun _ => h⟩,
    ⟨by simp, by simp, fun hne => absurd (by simp) hne, fun _ => h⟩⟩

theorem doShift_pressed (code : UInt8) : Pressed code (latch a) (latch (doShift a code).1) := by
  obtain ⟨hl, hr⟩ := row_shift code
  unfold doShift
  split
  · exact .of_eq (latch_keep rfl)
  split
  · exact .of_eq (latch_keep rfl)
  split
  · simp only
    split
    · exact (pressed_left ‹_›).2
    split
    · exact (pressed_right ‹_›).2
    · exact .of_eq rfl
  · simp only
    split
    · exact (pressed_left (hl.mpr ‹_›)).1
    split
    · exact (pressed_right (hr.mpr ‹_›)).1
    · exact .of_eq rfl

theorem doNormal_pressed {code : UInt8} (h : code ≠ 0xE0) :
    Pressed code (latch a) (latch (doNormal a code).1) := by
  unfold doNormal
  rw [if_neg h]
  split
  · exact .of_eq (latch_keep rfl)
  split
  · exact .of_eq rfl
  simp only
  split
  · exact (pressed_left ‹_›).1
  split
  · exact (pressed_right ‹_›).1
  · exact .of_eq rfl

/-! ### One byte -/

/-- The decoder leaves the latches alone, or a shift key moves its own. -/
theorem parse_latch {code : UInt8} (hd : ¬ Drops a code) (hc : ¬ Carries a) :
    latch (parse a code).1 = latch a ∨
      a &&& (E0_XX ||| E1_XX) = 0 ∧ Pressed code (latch a) (latch (parse a code).1) := by
  unfold parse
  split
  · rename_i h1
    have hlow : a.toNat % 64 < 60 := by
      by_contra hfull
      exact hc ⟨h1, (full_iff a).mpr (by omega)⟩
    exact Or.inl ((doE1_latch code).trans (latch_count hlow))
  split
  · exact Or.inl (doE0_latch code)
  rename_i h1 h0
  rw [not_not] at h0 h1
  have hpre := (and_or_eq_zero a E0_XX E1_XX).mpr ⟨h0, h1⟩
  refine Or.inr ⟨hpre, ?_⟩
  split
  · exact doShift_pressed code
  · rename_i hs
    rw [not_or, not_not, not_not] at hs
    by_cases hcode : code = 0xE0
    · have hlocks : a &&& (NUMLOCKING ||| CAPSLOCKING) = 0 := by
        by_contra hne
        exact hd ⟨hcode, (and_or_eq_zero ..).mpr ⟨(and_or_eq_zero ..).mpr ⟨hpre, hs.1⟩, hs.2⟩, hne⟩
      obtain ⟨hn, hcaps⟩ := (and_or_eq_zero ..).mp hlocks
      rw [doNormal, if_pos hcode]
      refine .of_eq ?_
      have hE0 : latch E0_XX = ⟨false, false, false, false⟩ := rfl
      rw [hE0]
      simp [latch, isSet, hn, hcaps, hs.1, hs.2]
    · exact doNormal_pressed hcode

theorem latch_toggle_caps (a : UInt32) :
    latch (if a &&& CAPSLOCKING ≠ 0 then a &&& ~~~CAPSLOCKING else a ||| CAPSLOCKING) =
      { latch a with caps := !(latch a).caps } := by
  have hor : latch CAPSLOCKING = ⟨false, true, false, false⟩ := rfl
  have hand : latch (~~~CAPSLOCKING) = ⟨true, false, true, true⟩ := rfl
  have hcaps : (latch a).caps = isSet CAPSLOCKING a := rfl
  split
  · rename_i hset
    have hset' : isSet CAPSLOCKING a = true := by simpa [isSet] using hset
    rw [latch_and, hand]
    simp [hcaps, hset']
  · rename_i hset
    have hset' : isSet CAPSLOCKING a = false := by simpa [isSet] using hset
    rw [latch_or, hor]
    simp [hcaps, hset']

theorem latch_toggle_num (a : UInt32) :
    latch (if a &&& NUMLOCKING ≠ 0 then a &&& ~~~NUMLOCKING else a ||| NUMLOCKING) =
      { latch a with num := !(latch a).num } := by
  have hor : latch NUMLOCKING = ⟨true, false, false, false⟩ := rfl
  have hand : latch (~~~NUMLOCKING) = ⟨false, true, true, true⟩ := rfl
  have hnum : (latch a).num = isSet NUMLOCKING a := rfl
  split
  · rename_i hset
    have hset' : isSet NUMLOCKING a = true := by simpa [isSet] using hset
    rw [latch_and, hand]
    simp [hnum, hset']
  · rename_i hset
    have hset' : isSet NUMLOCKING a = false := by simpa [isSet] using hset
    rw [latch_or, hor]
    simp [hnum, hset']

theorem irq_latch {s : Keyboard} {keys : List Nat} (hs : s.fifo = some keys) (code : UInt8) :
    latch (irqHandler s 1 code).state =
      if (parse s.state code).2 = CAPSLOCK then
        { latch (parse s.state code).1 with caps := !(latch (parse s.state code).1).caps }
      else if (parse s.state code).2 = NUMLOCK then
        { latch (parse s.state code).1 with num := !(latch (parse s.state code).1).num }
      else latch (parse s.state code).1 := by
  simp only [irqHandler, if_true, hs]
  split
  · exact latch_toggle_caps _
  split
  · exact latch_toggle_num _
  split
  · rfl
  · rfl

theorem stableAt_of_keeps {s : Keyboard} {code : UInt8} (h : Keeps s code) : StableAt s code := by
  cases hs : s.fifo with
  | none =>
    have hsame : irqHandler s 1 code = s := by simp [irqHandler, hs]
    have hnone : decoded s code = none := by simp [decoded, hs]
    refine ⟨?_, ?_, ?_, ?_⟩
    · simp [Locks, hsame, hnone]
    · simp [Locks, hsame, hnone]
    · exact fun hne => absurd (by rw [hsame]) hne
    · exact fun hne => absurd (by rw [hsame]) hne
  | some keys =>
    rw [Keeps, hs] at h
    obtain ⟨hd, hc⟩ := h.resolve_left (by simp)
    have hk : decoded s code = some (parse s.state code).2 := by simp [decoded, hs]
    have hafter := irq_latch hs code
    have hne : ¬ (CAPSLOCK : Nat) = NUMLOCK := by decide
    -- what the decoder does to the locks, and to the shift keys
    have hparse : (latch (parse s.state code).1).num = (latch s.state).num ∧
        (latch (parse s.state code).1).caps = (latch s.state).caps ∧
        ((latch (parse s.state code).1).left ≠ (latch s.state).left →
          (row code).1 = LSHIFT ∧ s.state &&& (E0_XX ||| E1_XX) = 0) ∧
        ((latch (parse s.state code).1).right ≠ (latch s.state).right →
          (row code).1 = RSHIFT ∧ s.state &&& (E0_XX ||| E1_XX) = 0) := by
      rcases parse_latch hd hc with hsame | ⟨hpre, hp⟩
      · rw [hsame]
        exact ⟨rfl, rfl, fun hh => absurd rfl hh, fun hh => absurd rfl hh⟩
      · exact ⟨hp.num, hp.caps, fun hh => ⟨hp.left hh, hpre⟩, fun hh => ⟨hp.right hh, hpre⟩⟩
    obtain ⟨hnum, hcaps, hleft, hright⟩ := hparse
    generalize parse s.state code = r at *
    refine ⟨?_, ?_, ?_, ?_⟩
    · have hh := congrArg Latches.caps hafter
      simp only [Locks, hk, Option.some_inj]
      refine hh.trans ?_
      by_cases h1 : r.2 = CAPSLOCK
      · rw [if_pos h1, if_pos h1]
        exact congrArg (!·) hcaps
      · rw [if_neg h1, if_neg h1]
        split
        · exact hcaps
        · exact hcaps
    · have hh := congrArg Latches.num hafter
      simp only [Locks, hk, Option.some_inj]
      refine hh.trans ?_
      by_cases h1 : r.2 = CAPSLOCK
      · rw [if_pos h1, if_neg (by rw [h1]; exact hne)]
        exact hnum
      · rw [if_neg h1]
        split
        · exact congrArg (!·) hnum
        · exact hnum
    · intro hch
      refine hleft fun he => hch ?_
      have hh := congrArg Latches.left hafter
      refine hh.trans (Eq.trans ?_ he)
      split
      · rfl
      split
      · rfl
      · rfl
    · intro hch
      refine hright fun he => hch ?_
      have hh := congrArg Latches.right hafter
      refine hh.trans (Eq.trans ?_ he)
      split
      · rfl
      split
      · rfl
      · rfl

/-! ### Where it goes wrong -/

theorem doE1_key (h : 60 ≤ a.toNat % 64) (code : UInt8) : (doE1 a code).2 = 0 := by
  have hall : ∀ r < 4, r &&& 28 = 0 := by decide
  have hlt := a.toNat_lt
  have hcount : a + E1_STAGE_UNIT &&& E1_STAGE_MASK = 0 := by
    have hmask : E1_STAGE_MASK.toNat = 28 := rfl
    rw [← UInt32.toNat_inj, UInt32.toNat_and, toNat_count, hmask, and_low _ _ (by decide)]
    exact hall _ (by omega)
  obtain ⟨b, hb⟩ : ∃ b, b = if pausebreakCodes[((a + E1_STAGE_UNIT &&& E1_STAGE_MASK) /
      E1_STAGE_UNIT).toNat]? ≠ some code then a + E1_STAGE_UNIT ||| E1_FAILED
      else a + E1_STAGE_UNIT := ⟨_, rfl⟩
  have hzero : b &&& E1_STAGE_MASK = 0 := by
    have hflag : E1_FAILED &&& E1_STAGE_MASK = 0 := rfl
    rw [hb]
    split
    · rw [UInt32.and_comm] at hcount hflag ⊢
      exact (and_or_eq_zero ..).mpr ⟨hcount, hflag⟩
    · exact hcount
  have hend : ¬ (0 : UInt32) = E1_STAGE_END := by decide
  simp only [doE1, ← hb, hzero, if_neg hend]

theorem not_stableAt {s : Keyboard} {keys : List Nat} {code : UInt8} (hs : s.fifo = some keys)
    (h : Drops s.state code ∨ Carries s.state) : ¬ StableAt s code := by
  intro hst
  have hafter := irq_latch hs code
  have hcaps := hst.caps
  have hnum := hst.num
  have hk : decoded s code = some (parse s.state code).2 := by simp [decoded, hs]
  have hc : ¬ (0 : Nat) = CAPSLOCK := by decide
  have hn : ¬ (0 : Nat) = NUMLOCK := by decide
  simp only [Locks, hk, Option.some_inj] at hcaps hnum
  rcases h with ⟨rfl, hmode, hlock⟩ | ⟨h1, hfull⟩
  · obtain ⟨hmode, hright⟩ := (and_or_eq_zero ..).mp hmode
    obtain ⟨hmode, hleft⟩ := (and_or_eq_zero ..).mp hmode
    obtain ⟨h0, h1⟩ := (and_or_eq_zero ..).mp hmode
    have hp : parse s.state 0xE0 = (E0_XX, 0) := by
      simp [parse, h0, h1, hleft, hright, doNormal]
    have hE0 : latch E0_XX = ⟨false, false, false, false⟩ := rfl
    rw [hp] at hafter hcaps hnum
    simp only [if_neg hc, if_neg hn, hE0] at hafter hcaps hnum
    refine hlock ((and_or_eq_zero ..).mpr ⟨?_, ?_⟩)
    · have hh := hnum.symm.trans (congrArg Latches.num hafter)
      simpa [isSet] using hh
    · have hh := hcaps.symm.trans (congrArg Latches.caps hafter)
      simpa [isSet] using hh
  · have hp : parse s.state code = doE1 s.state code := by simp [parse, h1]
    have hlow := (full_iff s.state).mp hfull
    have hzero := doE1_key hlow code
    rw [hp] at hafter hcaps hnum
    simp only [hzero, if_neg hc, if_neg hn] at hafter hcaps hnum
    have hh := hnum.symm.trans (congrArg Latches.num (hafter.trans (doE1_latch code)))
    rw [num_count hlow] at hh
    have hsame : (latch s.state).num = isSet NUMLOCKING s.state := rfl
    rw [hsame] at hh
    cases hset : isSet NUMLOCKING s.state <;> simp [hset] at hh

theorem stableAt_iff (s : Keyboard) (code : UInt8) : StableAt s code ↔ Keeps s code := by
  refine ⟨fun h => ?_, stableAt_of_keeps⟩
  cases hs : s.fifo with
  | none => exact Or.inl hs
  | some keys =>
    refine Or.inr ⟨fun hd => ?_, fun hc => ?_⟩
    · exact not_stableAt hs (Or.inl hd) h
    · exact not_stableAt hs (Or.inr hc) h

/-- From every state of the decoder, a sequence of bytes keeps the lock and shift bits
exactly when it brings no `E0` while a lock is on and no shift key is down, and no
byte behind `E1` while the counter is full. -/
theorem locks_stable (s : Keyboard) (codes : List UInt8) :
    Stable s codes ↔ ∀ pre c post, codes = pre ++ c :: post → Keeps (feedBytes s pre) c :=
  forall₄_congr fun pre c _ _ => stableAt_iff (feedBytes s pre) c

/-- Caps lock, then a cursor key: the lock is off. -/
theorem caps_dropped : ¬ ∀ (s : Keyboard) (codes : List UInt8), Stable s codes := by
  intro h
  have hh := (h ⟨0, some []⟩ [0x3A, 0xBA, 0xE0] [0x3A, 0xBA] 0xE0 [] rfl).caps
  revert hh
  unfold Locks
  decide

end KeyParser

end TayHuang
