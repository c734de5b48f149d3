import TayHuang.KeyParser
import Mathlib.Data.List.Basic

/-! Sequences of keyboard events, fed byte by byte to the interrupt handler. Between
two events the state word holds the four latches and nothing else. -/

namespace TayHuang

namespace KeyParser

open KeyName

/-- What the keyboard reports at a time. -/
inductive KeyEvent
  | plain (code : UInt8)
  | extended (code : UInt8)
  | pause
  deriving DecidableEq

namespace KeyEvent

def bytes : KeyEvent → List UInt8
  | plain c => [c]
  | extended c => [0xE0, c]
  | pause => [0xE1, 0x1D, 0x45, 0xE1, 0x9D, 0xC5]

/-- `E0` and `E1` are prefixes and no codes. -/
def Complete : KeyEvent → Prop
  | plain c => c ≠ 0xE0 ∧ c ≠ 0xE1
  | extended c => c ≠ 0xE0 ∧ c ≠ 0xE1
  | pause => True

/-- A key behind the prefix is released. -/
def IsE0Break : KeyEvent → Prop
  | extended c => c &&& 0x80 ≠ 0
  | _ => False

instance : DecidablePred Complete
  | plain _ => inferInstanceAs (Decidable (_ ∧ _))
  | extended _ => inferInstanceAs (Decidable (_ ∧ _))
  | pause => inferInstanceAs (Decidable True)

instance : DecidablePred IsE0Break
  | plain _ => inferInstanceAs (Decidable False)
  | extended _ => inferInstanceAs (Decidable (_ ≠ _))
  | pause => inferInstanceAs (Decidable False)

/-- Empty entries, and the shift and lock keys. -/
def silent : List Nat := [0, LSHIFT, RSHIFT, CAPSLOCK, NUMLOCK]

/-- The event is to write a key. -/
def Types : KeyEvent → Prop
  | plain c => c &&& 0x80 = 0 ∧ (row c).1 ∉ silent
  | extended c => c &&& 0x80 = 0 ∧ (row c).2.2 ∉ silent
  | pause => True

instance : DecidablePred Types
  | plain _ => inferInstanceAs (Decidable (_ ∧ _))
  | extended _ => inferInstanceAs (Decidable (_ ∧ _))
  | pause => inferInstanceAs (Decidable True)

/-- The columns that the key is taken from. -/
def Gives : KeyEvent → Nat → Prop
  | plain c, k => k = (row c).1 ∨ k = (row c).2.1
  | extended c, k => k = (row c).2.2
  | pause, k => k = PAUSEBREAK

end KeyEvent

/-- A plain event of `key` makes or breaks it. -/
def heldBy (key : Nat) (h : Bool) : KeyEvent → Bool
  | .plain c => if (row c).1 = key then c &&& 0x80 = 0 else h
  | _ => h

/-- The last plain event of `key` was a make. -/
def held (key : Nat) (es : List KeyEvent) : Bool := es.foldl (heldBy key) false

/-- The state word at the start. -/
def NORMAL : UInt32 := 0

def feed (s : Keyboard) (es : List KeyEvent) : Keyboard :=
  (es.flatMap KeyEvent.bytes).foldl (fun s c => irqHandler s 1 c) s

/-- What the events must leave behind, with the keys that were there `before`. -/
structure Framed (before : List Nat) (es : List KeyEvent) (s : Keyboard) : Prop where
  clear : s.state &&& (E0_XX ||| E1_XX ||| E1_STAGE_MASK ||| E1_FAILED) = 0
  left : s.state &&& LSHIFT_PUSHED ≠ 0 ↔ held LSHIFT es
  right : s.state &&& RSHIFT_PUSHED ≠ 0 ↔ held RSHIFT es
  keys : ∃ ks, s.fifo = some (before ++ ks) ∧ List.Forall₂ KeyEvent.Gives (es.filter KeyEvent.Types) ks

/-! ### Latches -/

/-- The bits that survive an event. -/
structure Latches where
  num : Bool
  caps : Bool
  left : Bool
  right : Bool

def Latches.word (l : Latches) : UInt32 :=
  (if l.num then NUMLOCKING else 0) ||| (if l.caps then CAPSLOCKING else 0) |||
    (if l.left then LSHIFT_PUSHED else 0) ||| (if l.right then RSHIFT_PUSHED else 0)

section Latches

variable (l : Latches)

theorem word_clear : l.word &&& (E0_XX ||| E1_XX ||| E1_STAGE_MASK ||| E1_FAILED) = 0 := by
  rcases l with ⟨_ | _, _ | _, _ | _, _ | _⟩ <;> decide

@[simp] theorem word_e0 : l.word &&& E0_XX = 0 := by
  rcases l with ⟨_ | _, _ | _, _ | _, _ | _⟩ <;> decide

@[simp] theorem word_e1 : l.word &&& E1_XX = 0 := by
  rcases l with ⟨_ | _, _ | _, _ | _, _ | _⟩ <;> decide

@[simp] theorem word_left : l.word &&& LSHIFT_PUSHED = 0 ↔ l.left = false := by
  rcases l with ⟨_ | _, _ | _, _ | _, _ | _⟩ <;> decide

@[simp] theorem word_right : l.word &&& RSHIFT_PUSHED = 0 ↔ l.right = false := by
  rcases l with ⟨_ | _, _ | _, _ | _, _ | _⟩ <;> decide

theorem word_press_left : l.word ||| LSHIFT_PUSHED = { l with left := true : Latches }.word := by
  rcases l with ⟨_ | _, _ | _, _ | _, _ | _⟩ <;> decide

theorem word_press_right : l.word ||| RSHIFT_PUSHED = { l with right := true : Latches }.word := by
  rcases l with ⟨_ | _, _ | _, _ | _, _ | _⟩ <;> decide

theorem word_release_left :
    l.word &&& ~~~LSHIFT_PUSHED = { l with left := false : Latches }.word := by
  rcases l with ⟨_ | _, _ | _, _ | _, _ | _⟩ <;> decide

theorem word_release_right :
    l.word &&& ~~~RSHIFT_PUSHED = { l with right := false : Latches }.word := by
  rcases l with ⟨_ | _, _ | _, _ | _, _ | _⟩ <;> decide

theorem word_toggle_caps : (if l.word &&& CAPSLOCKING ≠ 0 then l.word &&& ~~~CAPSLOCKING
    else l.word ||| CAPSLOCKING) = { l with caps := !l.caps : Latches }.word := by
  rcases l with ⟨_ | _, _ | _, _ | _, _ | _⟩ <;> decide

theorem word_toggle_num : (if l.word &&& NUMLOCKING ≠ 0 then l.word &&& ~~~NUMLOCKING
    else l.word ||| NUMLOCKING) = { l with num := !l.num : Latches }.word := by
  rcases l with ⟨_ | _, _ | _, _ | _, _ | _⟩ <;> decide

/-- Behind `E0`. -/
theorem word_prefixed : (l.word ||| E0_XX) &&& E1_XX = 0 ∧ (l.word ||| E0_XX) &&& E0_XX ≠ 0 ∧
    (l.word ||| E0_XX) &&& ~~~E0_XX = l.word := by
  rcases l with ⟨_ | _, _ | _, _ | _, _ | _⟩ <;> decide

theorem word_prefixed_clear :
    (l.word ||| E0_XX) &&& (E0_XX ||| E1_XX ||| E1_STAGE_MASK ||| E1_FAILED) ≠ 0 := by
  rcases l with ⟨_ | _, _ | _, _ | _, _ | _⟩ <;> decide

end Latches

/-! ### The table -/

theorem row_mem (c : UInt8) : row c ∈ keymap ∨ row c = (0, 0, 0) := by
  rw [row, List.getD_eq_getElem?_getD]
  cases h : keymap[(c &&& 0x7F).toNat]? with
  | none => exact Or.inr rfl
  | some r => exact Or.inl (List.mem_of_getElem? h)

/-- The shift and lock keys and the empty rows are the same with shift; behind `E0`
there are none of them. -/
theorem row_spec (c : UInt8) : (∀ k ∈ KeyEvent.silent, (row c).1 = k ↔ (row c).2.1 = k) ∧
    ((row c).2.2 ∈ KeyEvent.silent ↔ (row c).2.2 = 0) := by
  have hall : ∀ r ∈ keymap, (∀ k ∈ KeyEvent.silent, r.1 = k ↔ r.2.1 = k) ∧
      (r.2.2 ∈ KeyEvent.silent ↔ r.2.2 = 0) := by decide +kernel
  rcases row_mem c with h | h
  · exact hall _ h
  · rw [h]
    decide

/-! ### Plain events -/

/-- A plain event of a shift key presses or releases it. -/
def Latches.press (l : Latches) (c : UInt8) : Latches :=
  { l with left := if (row c).1 = LSHIFT then c &&& 0x80 = 0 else l.left
           right := if (row c).1 = RSHIFT then c &&& 0x80 = 0 else l.right }

/-- A key that passes through a decoder. -/
def Passes (c : UInt8) : Prop := c &&& 0x80 = 0 ∧ (row c).1 ≠ LSHIFT ∧ (row c).1 ≠ RSHIFT

theorem row_shift (c : UInt8) : ((row c).1 = LSHIFT ↔ (row c).2.1 = LSHIFT) ∧
    ((row c).1 = RSHIFT ↔ (row c).2.1 = RSHIFT) :=
  ⟨(row_spec c).1 _ (by decide), (row_spec c).1 _ (by decide)⟩

theorem parse_plain (l : Latches) {c : UInt8} (h0 : c ≠ 0xE0) (h1 : c ≠ 0xE1) :
    ∃ k, parse l.word c = ((l.press c).word, k) ∧
      (Passes c → k = (row c).1 ∨ k = (row c).2.1) ∧ (¬ Passes c → k = 0) := by
  have hne : ¬ ((LSHIFT : Nat) = RSHIFT) := by decide
  obtain ⟨hl, hr⟩ := row_shift c
  by_cases hs : l.left = true ∨ l.right = true
  · have hp : parse l.word c = doShift l.word c := by
      simp [parse, hs]
    rw [hp, doShift, if_neg h0, if_neg h1]
    by_cases hb : c &&& 0x80 = 0
    · rw [if_neg (not_not.mpr hb)]
      by_cases hkl : (row c).1 = LSHIFT
      · have hkr : (row c).1 ≠ RSHIFT := by rw [hkl]; exact hne
        refine ⟨0, ?_, fun hh => absurd hkl hh.2.1, fun _ => rfl⟩
        simp only [if_pos (hl.mp hkl), word_press_left, Latches.press, if_pos hkl, if_neg hkr, hb,
          decide_true]
      · by_cases hkr : (row c).1 = RSHIFT
        · refine ⟨0, ?_, fun hh => absurd hkr hh.2.2, fun _ => rfl⟩
          simp only [if_neg (mt hl.mpr hkl), if_pos (hr.mp hkr), word_press_right, Latches.press,
            if_neg hkl, if_pos hkr, hb, decide_true]
        · refine ⟨(row c).2.1, ?_, fun _ => Or.inr rfl, fun hh => absurd ⟨hb, hkl, hkr⟩ hh⟩
          simp only [if_neg (mt hl.mpr hkl), if_neg (mt hr.mpr hkr), Latches.press, if_neg hkl,
            if_neg hkr]
    · rw [if_pos hb]
      refine ⟨0, ?_, fun hh => absurd hh.1 hb, fun _ => rfl⟩
      by_cases hkl : (row c).1 = LSHIFT
      · have hkr : (row c).1 ≠ RSHIFT := by rw [hkl]; exact hne
        simp only [if_pos hkl, word_release_left, Latches.press, if_neg hkr, hb, decide_false]
      · by_cases hkr : (row c).1 = RSHIFT
        · simp only [if_neg hkl, if_pos hkr, word_release_right, Latches.press, hb, decide_false]
        · simp only [if_neg hkl, if_neg hkr, Latches.press]
  · simp only [not_or, Bool.not_eq_true] at hs
    obtain ⟨hsl, hsr⟩ := hs
    have hp : parse l.word c = doNormal l.word c := by
      simp [parse, hsl, hsr]
    rw [hp, doNormal, if_neg h0, if_neg h1]
    by_cases hb : c &&& 0x80 = 0
    · rw [if_neg (not_not.mpr hb)]
      by_cases hkl : (row c).1 = LSHIFT
      · have hkr : (row c).1 ≠ RSHIFT := by rw [hkl]; exact hne
        refine ⟨0, ?_, fun hh => absurd hkl hh.2.1, fun _ => rfl⟩
        simp only [if_pos hkl, word_press_left, Latches.press, if_neg hkr, hb, decide_true]
      · by_cases hkr : (row c).1 = RSHIFT
        · refine ⟨0, ?_, fun hh => absurd hkr hh.2.2, fun _ => rfl⟩
          simp only [if_neg hkl, if_pos hkr, word_press_right, Latches.press, hb, decide_true]
        · simp only [if_neg hkl, if_neg hkr, Latches.press]
          refine ⟨_, rfl, fun _ => ?_, fun hh => absurd ⟨hb, hkl, hkr⟩ hh⟩
          split
          · exact Or.inr (ite_self _)
          · split
            · exact Or.inr rfl
            · exact Or.inl rfl
    · rw [if_pos hb]
      refine ⟨0, ?_, fun hh => absurd hh.1 hb, fun _ => rfl⟩
      -- no shift key is down that could be released
      have hpress : l.press c = l := by
        obtain ⟨num, caps, left, right⟩ := l
        simp only at hsl hsr
        simp [Latches.press, hb, hsl, hsr]
      rw [hpress]

/-- One byte outside of any prefix: shift keys move their latch, lock keys toggle
theirs, and other keys are written when they are made. -/
theorem irq_plain (l : Latches) (keys : List Nat) {c : UInt8} (h0 : c ≠ 0xE0) (h1 : c ≠ 0xE1) :
    ∃ (l' : Latches) (ks : List Nat), irqHandler ⟨l.word, some keys⟩ 1 c = ⟨l'.word, some (keys ++ ks)⟩ ∧
      l'.left = (l.press c).left ∧ l'.right = (l.press c).right ∧
      List.Forall₂ KeyEvent.Gives ([.plain c].filter KeyEvent.Types) ks := by
  obtain ⟨k, hparse, hpass, hstop⟩ := parse_plain l h0 h1
  have hcol := (row_spec c).1
  have htypes : KeyEvent.Types (.plain c) ↔ k ∉ KeyEvent.silent ∧ Passes c := by
    by_cases hp : Passes c
    · obtain ⟨hb, hl, hr⟩ := hp
      have hmem : (row c).1 ∈ KeyEvent.silent ↔ k ∈ KeyEvent.silent := by
        rcases hpass ⟨hb, hl, hr⟩ with rfl | rfl
        · rfl
        · exact ⟨fun hm => by rwa [(hcol _ hm).mp rfl], fun hm => by rwa [(hcol _ hm).mpr rfl]⟩
      simp only [KeyEvent.Types, hmem, hb, true_and]
      exact ⟨fun hm => ⟨hm, hb, hl, hr⟩, fun hm => hm.1⟩
    · refine ⟨fun hm => absurd ⟨hm.1, ?_, ?_⟩ hp, fun hm => absurd hm.2 hp⟩
      · exact fun he => hm.2 (by rw [he]; decide)
      · exact fun he => hm.2 (by rw [he]; decide)
  have hnone : ¬ KeyEvent.Types (.plain c) →
      List.Forall₂ KeyEvent.Gives ([.plain c].filter KeyEvent.Types) [] := by
    intro hn
    simp [hn]
  simp only [irqHandler, if_true, hparse]
  by_cases hcaps : k = CAPSLOCK
  · refine ⟨{ l.press c with caps := !(l.press c).caps }, [], ?_, rfl, rfl, hnone fun ht => ?_⟩
    · rw [if_pos hcaps, word_toggle_caps, List.append_nil]
    · exact (htypes.mp ht).1 (by rw [hcaps]; decide)
  by_cases hnum : k = NUMLOCK
  · refine ⟨{ l.press c with num := !(l.press c).num }, [], ?_, rfl, rfl, hnone fun ht => ?_⟩
    · rw [if_neg hcaps, if_pos hnum, word_toggle_num, List.append_nil]
    · exact (htypes.mp ht).1 (by rw [hnum]; decide)
  by_cases hzero : k = 0
  · refine ⟨l.press c, [], ?_, rfl, rfl, hnone fun ht => ?_⟩
    · rw [if_neg hcaps, if_neg hnum, if_pos hzero, List.append_nil]
    · exact (htypes.mp ht).1 (by rw [hzero]; decide)
  · have hp : Passes c := by
      by_contra hp
      exact hzero (hstop hp)
    have hk := hpass hp
    have hsilent : k ∉ KeyEvent.silent := by
      intro hm
      have hl : k ≠ LSHIFT := by
        rintro rfl
        exact hp.2.1 (hk.elim Eq.symm fun he => (hcol _ hm).mpr he.symm)
      have hr : k ≠ RSHIFT := by
        rintro rfl
        exact hp.2.2 (hk.elim Eq.symm fun he => (hcol _ hm).mpr he.symm)
      simp [KeyEvent.silent, hzero, hcaps, hnum, hl, hr] at hm
    refine ⟨l.press c, [k], ?_, rfl, rfl, ?_⟩
    · rw [if_neg hcaps, if_neg hnum, if_neg hzero]
    · have ht : KeyEvent.Types (.plain c) := htypes.mpr ⟨hsilent, hp⟩
      simpa [ht, KeyEvent.Gives] using hk

/-! ### Events with a prefix -/

/-- `E0` comes first: the locks may be lost, the shift keys are not. -/
theorem irq_e0 (l : Latches) (keys : List Nat) : ∃ l' : Latches,
    irqHandler ⟨l.word, some keys⟩ 1 0xE0 = ⟨l'.word ||| E0_XX, some keys⟩ ∧
      l'.left = l.left ∧ l'.right = l.right := by
  by_cases hs : l.left = true ∨ l.right = true
  · refine ⟨l, ?_, rfl, rfl⟩
    have hp : parse l.word 0xE0 = (l.word ||| E0_XX, 0) := by
      simp [parse, hs, doShift]
    simp only [irqHandler, if_true, hp]
    rfl
  · simp only [not_or, Bool.not_eq_true] at hs
    refine ⟨⟨false, false, false, false⟩, ?_, hs.1.symm, hs.2.symm⟩
    have hp : parse l.word 0xE0 = (E0_XX, 0) := by
      simp [parse, hs, doNormal]
    simp only [irqHandler, if_true, hp]
    rfl

/-- The byte behind `E0`. A break code does not take the prefix back. -/
theorem irq_behind_e0 (l : Latches) (keys : List Nat) (c : UInt8) :
    irqHandler ⟨l.word ||| E0_XX, some keys⟩ 1 c =
      if c &&& 0x80 ≠ 0 then ⟨l.word ||| E0_XX, some keys⟩
      else ⟨l.word, some (keys ++ if (row c).2.2 = 0 then [] else [(row c).2.2])⟩ := by
  obtain ⟨hw1, hw2, hw3⟩ := word_prefixed l
  have hp : parse (l.word ||| E0_XX) c = doE0 (l.word ||| E0_XX) c := by
    simp [parse, hw1, hw2]
  simp only [irqHandler, if_true, hp, doE0]
  by_cases hb : c &&& 0x80 = 0
  · simp only [if_neg (not_not.mpr hb), hw3]
    by_cases hz : (row c).2.2 = 0
    · rw [hz]
      simp only [if_true, List.append_nil]
      rfl
    · have hno : (row c).2.2 ∉ KeyEvent.silent := fun hm => hz ((row_spec c).2.mp hm)
      have hcaps : (row c).2.2 ≠ CAPSLOCK := fun he => hno (by rw [he]; decide)
      have hnum : (row c).2.2 ≠ NUMLOCK := fun he => hno (by rw [he]; decide)
      simp only [if_neg hcaps, if_neg hnum, if_neg hz]
  · simp only [if_pos hb]
    rfl

theorem irq_silent {w w' : UInt32} {c : UInt8} (keys : List Nat) (h : parse w c = (w', 0)) :
    irqHandler ⟨w, some keys⟩ 1 c = ⟨w', some keys⟩ := by
  simp only [irqHandler, if_true, h]
  rfl

theorem feed_pause (l : Latches) (keys : List Nat) :
    feed ⟨l.word, some keys⟩ [.pause] = ⟨l.word, some (keys ++ [(PAUSEBREAK : Nat)])⟩ := by
  have hsteps : parse l.word 0xE1 = (l.word ||| 2, 0) ∧
      parse (l.word ||| 2) 0x1D = (l.word ||| 6, 0) ∧ parse (l.word ||| 6) 0x45 = (l.word ||| 10, 0) ∧
      parse (l.word ||| 10) 0xE1 = (l.word ||| 14, 0) ∧
      parse (l.word ||| 14) 0x9D = (l.word ||| 18, 0) ∧
      parse (l.word ||| 18) 0xC5 = (l.word, (PAUSEBREAK : Nat)) := by
    rcases l with ⟨_ | _, _ | _, _ | _, _ | _⟩ <;> decide
  obtain ⟨h1, h2, h3, h4, h5, h6⟩ := hsteps
  simp only [feed, KeyEvent.bytes, List.flatMap_cons, List.flatMap_nil, List.append_nil,
    List.foldl_cons, List.foldl_nil, irq_silent keys h1, irq_silent keys h2, irq_silent keys h3,
    irq_silent keys h4, irq_silent keys h5]
  simp only [irqHandler, if_true, h6]
  rfl

/-! ### Runs -/

theorem feed_append (s : Keyboard) (es fs : List KeyEvent) :
    feed s (es ++ fs) = feed (feed s es) fs := by
  simp only [feed, List.flatMap_append, List.foldl_append]

/-- What one complete event does, unless it is a break code behind `E0`. -/
theorem feed_event (l : Latches) (keys : List Nat) {e : KeyEvent} (hc : e.Complete)
    (hb : ¬ e.IsE0Break) : ∃ (l' : Latches) (ks : List Nat),
      feed ⟨l.word, some keys⟩ [e] = ⟨l'.word, some (keys ++ ks)⟩ ∧
      l'.left = heldBy LSHIFT l.left e ∧ l'.right = heldBy RSHIFT l.right e ∧
      List.Forall₂ KeyEvent.Gives ([e].filter KeyEvent.Types) ks := by
  cases e with
  | plain c => exact irq_plain l keys hc.1 hc.2
  | extended c =>
    obtain ⟨l', he, hl, hr⟩ := irq_e0 l keys
    have hmake : ¬ c &&& 0x80 ≠ 0 := hb
    have hfeed : feed ⟨l.word, some keys⟩ [.extended c] =
        ⟨l'.word, some (keys ++ if (row c).2.2 = 0 then [] else [(row c).2.2])⟩ := by
      have hbehind := irq_behind_e0 l' keys c
      rw [if_neg hmake] at hbehind
      rw [← hbehind, ← he]
      rfl
    have htypes : KeyEvent.Types (.extended c) ↔ (row c).2.2 ≠ 0 := by
      simp only [KeyEvent.Types, not_not.mp hmake, true_and, (row_spec c).2, ne_eq]
    refine ⟨l', _, hfeed, hl, hr, ?_⟩
    by_cases hz : (row c).2.2 = 0
    · simp [hz, htypes]
    · simp [hz, htypes, KeyEvent.Gives]
  | pause =>
    have ht : KeyEvent.Types .pause := trivial
    refine ⟨l, _, feed_pause l keys, rfl, rfl, ?_⟩
    simp [ht, KeyEvent.Gives]

/-- Between events the state word holds the latches and nothing else. -/
theorem feed_latched (before : List Nat) (es : List KeyEvent) (hc : ∀ e ∈ es, e.Complete)
    (hb : ∀ e ∈ es, ¬ e.IsE0Break) : ∃ (l : Latches) (ks : List Nat),
      feed ⟨NORMAL, some before⟩ es = ⟨l.word, some (before ++ ks)⟩ ∧
      l.left = held LSHIFT es ∧ l.right = held RSHIFT es ∧
      List.Forall₂ KeyEvent.Gives (es.filter KeyEvent.Types) ks := by
  induction es using List.reverseRecOn with
  | nil =>
    refine ⟨⟨false, false, false, false⟩, [], ?_, rfl, rfl, List.Forall₂.nil⟩
    rw [List.append_nil]
    rfl
  | append_singleton es e ih =>
    obtain ⟨l, ks, hfeed, hl, hr, hks⟩ := ih (fun f hf => hc f (List.mem_append_left _ hf))
      fun f hf => hb f (List.mem_append_left _ hf)
    obtain ⟨l', ks', hfeed', hl', hr', hks'⟩ :=
      feed_event l (before ++ ks) (hc e (by simp)) (hb e (by simp))
    refine ⟨l', ks ++ ks', ?_, ?_, ?_, ?_⟩
    · rw [feed_append, hfeed, hfeed', List.append_assoc]
    · rw [hl', hl, held, held, List.foldl_append]
      rfl
    · rw [hr', hr, held, held, List.foldl_append]
      rfl
    · rw [List.filter_append]
      exact List.rel_append hks hks'

theorem framed_of_no_break (before : List Nat) {es : List KeyEvent} (hc : ∀ e ∈ es, e.Complete)
    (hb : ∀ e ∈ es, ¬ e.IsE0Break) : Framed before es (feed ⟨NORMAL, some before⟩ es) := by
  obtain ⟨l, ks, hfeed, hl, hr, hks⟩ := feed_latched before es hc hb
  rw [hfeed]
  refine ⟨word_clear l, ?_, ?_, ks, rfl, hks⟩
  · rw [← hl, Ne, word_left, Bool.not_eq_false]
  · rw [← hr, Ne, word_right, Bool.not_eq_false]

/-- A key that is released behind `E0` leaves the prefix set. -/
theorem not_framed_of_break (before : List Nat) {es : List KeyEvent} {e : KeyEvent}
    (hc : ∀ e ∈ es, e.Complete) (hb : ∀ e ∈ es, ¬ e.IsE0Break) (he : e.IsE0Break) :
    ¬ Framed before (es ++ [e]) (feed ⟨NORMAL, some before⟩ (es ++ [e])) := by
  intro hf
  obtain ⟨l, ks, hfeed, -⟩ := feed_latched before es hc hb
  have hclear := hf.clear
  cases e with
  | plain c => exact he
  | pause => exact he
  | extended c =>
    obtain ⟨l', hpre, -⟩ := irq_e0 l (before ++ ks)
    have hbreak : c &&& 0x80 ≠ 0 := he
    have hbehind := irq_behind_e0 l' (before ++ ks) c
    rw [if_pos hbreak, ← hpre] at hbehind
    have hword : (feed ⟨l.word, some (before ++ ks)⟩ [.extended c]).state = l'.word ||| E0_XX := by
      have hh : feed ⟨l.word, some (before ++ ks)⟩ [.extended c] =
          irqHandler (irqHandler ⟨l.word, some (before ++ ks)⟩ 1 0xE0) 1 c := rfl
      rw [hh, hbehind, hpre]
    rw [feed_append, hfeed, hword] at hclear
    exact word_prefixed_clear l' hclear

/-- After each event of a sequence the prefix bits are clear, the shift latches tell
the shift keys and the keys written are the keys made, if and only if no key is released
behind `E0`. -/
theorem scan_codes_framed_iff (before : List Nat) {es : List KeyEvent}
    (hc : ∀ e ∈ es, e.Complete) :
    (∀ fs, fs <+: es → Framed before fs (feed ⟨NORMAL, some before⟩ fs)) ↔
      ∀ e ∈ es, ¬ e.IsE0Break := by
  constructor
  · intro hall
    have hprefix : ∀ fs, fs <+: es → ∀ e ∈ fs, ¬ e.IsE0Break := by
      intro fs
      induction fs using List.reverseRecOn with
      | nil => simp
      | append_singleton fs f ih =>
        intro hp e he
        have hp' : fs <+: es := (List.prefix_append fs [f]).trans hp
        have hcf : ∀ e ∈ fs, e.Complete := fun e he => hc e (hp'.subset he)
        rcases List.mem_append.mp he with he | he
        · exact ih hp' e he
        · rw [List.mem_singleton.mp he]
          exact fun hf => not_framed_of_break before hcf (ih hp') hf (hall _ hp)
    exact hprefix es (List.prefix_refl es)
  · intro hb fs hp
    exact framed_of_no_break before (fun e he => hc e (hp.subset he))
      fun e he => hb e (hp.subset he)

/-- Shift and `a`, cursor up, and a pause. -/
theorem scan_codes_framed_shift : Framed []
    [.plain 0x2A, .plain 0x1E, .plain 0x9E, .plain 0xAA, .extended 0x48, .pause]
    (feed ⟨NORMAL, some []⟩
      [.plain 0x2A, .plain 0x1E, .plain 0x9E, .plain 0xAA, .extended 0x48, .pause]) :=
  (scan_codes_framed_iff [] (by decide)).mpr (by decide) _ (List.prefix_refl _)

/-- Cursor up is pressed and released. -/
theorem scan_codes_stuck : ¬ ∀ (before : List Nat) (es : List KeyEvent),
    (∀ e ∈ es, e.Complete) →
      ∀ fs, fs <+: es → Framed before fs (feed ⟨NORMAL, some before⟩ fs) := by
  intro hall
  have hf := hall [] [.extended 0x48, .extended 0xC8] (by decide) _ (List.prefix_refl _)
  exact absurd hf.clear (by decide)

end KeyParser

end TayHuang
