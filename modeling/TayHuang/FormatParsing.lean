import TayHuang.Printf
import Mathlib.Algebra.Group.Nat.Defs
import Mathlib.Data.Nat.Find

/-! How far the format is read. All but the last step of a conversion stop at the
terminator; the letter is passed whatever it is, so the end of the format is missed
exactly when it stands for the letter. -/

namespace TayHuang

namespace Printf

open Fuel

variable {α : Type} (d : Dialect α)

/-! ### Where the letter stands -/

def isFlag (ch : UInt8) : Bool := ch = 43 || ch = 45 || ch = 32 || ch = 48 || ch = 35

def skipNumber : List UInt8 → List UInt8
  | [] => []
  | ch :: fmt => if ch = 42 then fmt else (ch :: fmt).dropWhile isdigit

def skipPrecision : List UInt8 → List UInt8
  | [] => []
  | ch :: fmt => if ch = 46 then skipNumber fmt else ch :: fmt

/-- The format from the letter of a conversion on. -/
def atLetter (fmt : List UInt8) : List UInt8 :=
  (d.qualifiers (skipPrecision (skipNumber (fmt.dropWhile isFlag)))).2

theorem parseFlags_rest (f : Flags) (fmt : List UInt8) :
    (parseFlags f fmt).2 = fmt.dropWhile isFlag := by
  induction fmt generalizing f with
  | nil => rfl
  | cons ch fmt ih =>
    rw [parseFlags]
    by_cases h1 : ch = 43
    · simp [h1, ih, isFlag]
    by_cases h2 : ch = 45
    · simp [h2, ih, isFlag]
    by_cases h3 : ch = 32
    · simp [h3, ih, isFlag]
    by_cases h4 : ch = 48
    · simp [h4, ih, isFlag]
    by_cases h5 : ch = 35
    · simp [h5, ih, isFlag]
    simp [h1, h2, h3, h4, h5, isFlag]

theorem parseDigits_rest (n : Int) (fmt : List UInt8) :
    (parseDigits n fmt).2 = fmt.dropWhile isdigit := by
  induction fmt generalizing n with
  | nil => rfl
  | cons ch fmt ih =>
    rw [parseDigits, List.dropWhile_cons]
    split
    · exact ih _
    · rfl

theorem parseWidth_rest (c : Conv) (args : α) (fmt : List UInt8) :
    (parseWidth d c args fmt).2.1 = skipNumber fmt := by
  cases fmt with
  | nil => rfl
  | cons ch fmt =>
    rw [parseWidth, skipNumber]
    split
    · simp only
      split <;> rfl
    · exact parseDigits_rest 0 (ch :: fmt)

theorem parsePrecision_rest (c : Conv) (args : α) (fmt : List UInt8) :
    (parsePrecision d c args fmt).2.1 = skipPrecision fmt := by
  cases fmt with
  | nil => rfl
  | cons ch fmt =>
    rw [parsePrecision, skipPrecision]
    split
    · cases fmt with
      | nil => rfl
      | cons ch fmt =>
        rw [skipNumber]
        by_cases hstar : ch = 42
        · simp [hstar]
        · simp [hstar, parseDigits_rest]
    · rfl

theorem parse_rest (fmt : List UInt8) (args : α) : (parse d fmt args).2.1 = atLetter d fmt := by
  simp only [parse, atLetter, parsePrecision_rest, parseWidth_rest, parseFlags_rest]

theorem skipNumber_le (fmt : List UInt8) : (skipNumber fmt).length ≤ fmt.length := by
  cases fmt with
  | nil => exact Nat.le_refl _
  | cons ch fmt =>
    rw [skipNumber]
    split
    · simp
    · exact (List.dropWhile_sublist _).length_le

theorem skipPrecision_le (fmt : List UInt8) : (skipPrecision fmt).length ≤ fmt.length := by
  cases fmt with
  | nil => exact Nat.le_refl _
  | cons ch fmt =>
    rw [skipPrecision]
    split
    · have := skipNumber_le fmt
      rw [List.length_cons]
      omega
    · exact Nat.le_refl _

theorem atLetter_le (fmt : List UInt8) : (atLetter d fmt).length ≤ fmt.length := by
  have h1 := d.qualifiers_le (skipPrecision (skipNumber (fmt.dropWhile isFlag)))
  have h2 := skipPrecision_le (skipNumber (fmt.dropWhile isFlag))
  have h3 := skipNumber_le (fmt.dropWhile isFlag)
  have h4 := (List.dropWhile_sublist isFlag (l := fmt)).length_le
  exact Nat.le_trans h1 (Nat.le_trans h2 (Nat.le_trans h3 h4))

/-! ### Formats -/

/-- Every conversion has a letter, for which `ok` holds. -/
inductive Conversions (ok : UInt8 → Prop) : List UInt8 → Prop
  | nil : Conversions ok []
  | literal {ch : UInt8} {fmt : List UInt8} (h : ch ≠ 37) (rest : Conversions ok fmt) :
    Conversions ok (ch :: fmt)
  | percent {fmt : List UInt8} (rest : Conversions ok fmt) : Conversions ok (37 :: 37 :: fmt)
  | conversion {ch : UInt8} {fmt after : List UInt8} (hpercent : fmt.head? ≠ some 37)
    (letter : atLetter d fmt = ch :: after) (h : ok ch) (rest : Conversions ok after) :
    Conversions ok (37 :: fmt)

/-- No conversion is cut off by the end of the format. -/
def Complete : List UInt8 → Prop := Conversions d fun _ => True

/-- The letters `d`, `u`, `o`, `X`, `x`, `c`, `s`, `P` and `p`, and `f`, `E` and `e`
where there is floating point. -/
def Known (ch : UInt8) : Prop :=
  ch ∈ [100, 117, 111, 88, 120, 99, 115, 80, 112] ∨ d.floats = true ∧ ch ∈ [102, 69, 101]

def WellFormed : List UInt8 → Prop := Conversions d (Known d)

theorem Conversions.mono {ok ok' : UInt8 → Prop} {fmt : List UInt8} (h : Conversions d ok fmt)
    (hok : ∀ ch, ok ch → ok' ch) : Conversions d ok' fmt := by
  induction h with
  | nil => exact .nil
  | literal h _ ih => exact .literal h ih
  | percent _ ih => exact .percent ih
  | conversion hp hl h _ ih => exact .conversion hp hl (hok _ h) ih

/-! ### The turns of the loop -/

inductive Turn (α : Type)
  | char (ch : UInt8)
  | conversion (c : Conv) (args : α)

/-- The turns of the loop, as far as the conversions are complete. -/
def turns (fmt : List UInt8) (args : α) : List (Turn α) :=
  match fmt with
  | [] => []
  | ch :: fmt =>
    if ch ≠ 37 then .char ch :: turns fmt args
    else if fmt.head? = some 37 then .char 37 :: turns fmt.tail args
    else
      match _h : atLetter d fmt with
      | [] => []
      | _ :: rest =>
        let r := parse d fmt args
        .conversion r.1 r.2.2 :: turns rest (output d [] r.1 r.2.2).2
termination_by fmt.length
decreasing_by
  · simp
  · have := List.length_tail (l := fmt)
    rw [List.length_cons]
    omega
  · have := atLetter_le d fmt
    rw [_h, List.length_cons] at this
    rw [List.length_cons]
    omega

/-- A string in memory, as long as `strlen` says. -/
def stringAt (mem : Nat → UInt8) (p : Nat) : List UInt8 :=
  (List.range (strlen mem p)).map fun i => mem (p + i)

def Turn.text (mem : Nat → UInt8) : Turn α → List UInt8
  | .char ch => [ch]
  | .conversion c args => (output d (stringAt mem (d.pointer args).1) c args).1

/-- What the format stands for. -/
def printed (mem : Nat → UInt8) (fmt : List UInt8) (args : α) : List UInt8 :=
  (turns d fmt args).flatMap (Turn.text d mem)

/-- `strcpy` comes to an end for every string that is printed. -/
def StringsEnd (mem : Nat → UInt8) (fmt : List UInt8) (args : α) : Prop :=
  ∀ c a, Turn.conversion c a ∈ turns d fmt args → c.type = .string →
    ¬ Diverges fun fuel => d.strcpy mem fuel (d.pointer a).1

/-! ### `strcpy` -/

theorem strlenLoop_le {mem : Nat → UInt8} (n : Nat) {p k : Nat} (h : mem (p + k) = 0) :
    strlenLoop mem n p ≤ k := by
  induction n generalizing p k with
  | zero => exact Nat.zero_le _
  | succ n ih =>
    rw [strlenLoop]
    split
    · exact Nat.zero_le _
    · rename_i hp
      obtain ⟨k, rfl⟩ : ∃ j, k = j + 1 := by
        refine ⟨k - 1, ?_⟩
        have : k ≠ 0 := by
          rintro rfl
          exact hp h
        omega
      have := ih (p := p + 1) (k := k) (by rwa [Nat.add_assoc, Nat.add_comm 1])
      omega

theorem take_bytes (mem : Nat → UInt8) {p k : Nat} (h : strlen mem p ≤ k) :
    ((List.range k).map fun i => mem (p + i)).take (strlen mem p) = stringAt mem p := by
  rw [← List.map_take, List.take_range, Nat.min_eq_left h]
  rfl

theorem range_bytes (mem : Nat → UInt8) (p k : Nat) :
    (List.range (k + 1)).map (fun i => mem (p + i)) =
      mem p :: (List.range k).map fun i => mem (p + 1 + i) := by
  rw [List.range_succ_eq_map, List.map_cons, List.map_map]
  refine congrArg (mem p :: ·) (List.map_congr_left fun i _ => ?_)
  rw [Function.comp_apply, Nat.succ_eq_add_one, Nat.add_assoc, Nat.add_comm 1]

/-- The terminator that ends the copy is the first one behind the first byte. -/
theorem strcpy_settles {mem : Nat → UInt8} {p : Nat} (k : Nat) (h : mem (p + (k + 1)) = 0)
    (hfirst : ∀ j, 0 < j → j ≤ k → mem (p + j) ≠ 0) :
    Settles (fun fuel => strcpy mem fuel p) ((List.range (k + 1)).map fun i => mem (p + i)) := by
  induction k generalizing p with
  | zero =>
    apply settles_succ rfl
    simp only [strcpy, if_pos h]
    exact settles_const _
  | succ k ih =>
    apply settles_succ rfl
    simp only [strcpy, if_neg (hfirst 1 (by omega) (by omega))]
    rw [range_bytes]
    refine (ih (p := p + 1) ?_ fun j h0 hj => ?_).map _
    · rwa [Nat.add_assoc, Nat.add_comm 1]
    · rw [Nat.add_assoc, Nat.add_comm 1]
      exact hfirst (j + 1) (by omega) (by omega)

theorem strcpy_find {mem : Nat → UInt8} {p : Nat} (h : ∃ k, mem (p + (k + 1)) = 0) :
    Settles (fun fuel => strcpy mem fuel p) ((List.range (Nat.find h + 1)).map fun i => mem (p + i)) := by
  refine strcpy_settles (Nat.find h) (Nat.find_spec h) fun j h0 hj hz => ?_
  have hlt : j - 1 < Nat.find h := by omega
  exact Nat.find_min h hlt (by rwa [Nat.sub_add_cancel h0])

theorem strcpy_stops {mem : Nat → UInt8} {p : Nat} (h : ∃ k, mem (p + (k + 1)) = 0) :
    ¬ Diverges fun fuel => strcpy mem fuel p := (strcpy_find h).not_diverges

theorem strcpy_diverges {mem : Nat → UInt8} {p : Nat} (h : ∀ k, mem (p + (k + 1)) ≠ 0) :
    Diverges fun fuel => strcpy mem fuel p := by
  intro fuel
  induction fuel generalizing p with
  | zero => rfl
  | succ fuel ih =>
    have hnext : strcpy mem fuel (p + 1) = none := ih fun k => by
      rw [Nat.add_assoc, Nat.add_comm 1]
      exact h (k + 1)
    simp only [strcpy, if_neg (h 0), hnext, Option.map_none]

theorem loaderStrcpy_settles {mem : Nat → UInt8} {p : Nat} (k : Nat) (h : mem (p + k) = 0)
    (hfirst : ∀ j < k, mem (p + j) ≠ 0) :
    Settles (fun fuel => loaderStrcpy mem fuel p) ((List.range (k + 1)).map fun i => mem (p + i)) := by
  induction k generalizing p with
  | zero =>
    apply settles_succ rfl
    have h0 : mem p = 0 := h
    simp only [loaderStrcpy, if_pos h0]
    convert settles_const _ using 1
    simp [h0]
  | succ k ih =>
    apply settles_succ rfl
    simp only [loaderStrcpy, if_neg (show mem p ≠ 0 from hfirst 0 (by omega))]
    rw [range_bytes]
    refine (ih (p := p + 1) ?_ fun j hj => ?_).map _
    · rwa [Nat.add_assoc, Nat.add_comm 1]
    · rw [Nat.add_assoc, Nat.add_comm 1]
      exact hfirst (j + 1) (by omega)

theorem loaderStrcpy_diverges {mem : Nat → UInt8} {p : Nat} (h : ∀ k, mem (p + k) ≠ 0) :
    Diverges fun fuel => loaderStrcpy mem fuel p := by
  intro fuel
  induction fuel generalizing p with
  | zero => rfl
  | succ fuel ih =>
    have hnext : loaderStrcpy mem fuel (p + 1) = none := ih fun k => by
      rw [Nat.add_assoc, Nat.add_comm 1]
      exact h (k + 1)
    simp only [loaderStrcpy, if_neg (show mem p ≠ 0 from h 0), hnext, Option.map_none]

/-- What a dialect's `strcpy` copies begins with the string, if it ends at all. -/
def Copying : Prop := ∀ mem p, (Diverges fun fuel => d.strcpy mem fuel p) ∨
  ∃ bytes, Settles (fun fuel => d.strcpy mem fuel p) bytes ∧
    bytes.take (strlen mem p) = stringAt mem p

theorem kernel_copying : Copying kernel := by
  intro mem p
  by_cases h : ∃ k, mem (p + (k + 1)) = 0
  · exact Or.inr ⟨_, strcpy_find h, take_bytes mem (strlenLoop_le _ (Nat.find_spec h))⟩
  · exact Or.inl (strcpy_diverges fun k hk => h ⟨k, hk⟩)

theorem loader_copying : Copying loader := by
  intro mem p
  by_cases h : ∃ k, mem (p + k) = 0
  · refine Or.inr ⟨_, loaderStrcpy_settles (Nat.find h) (Nat.find_spec h) fun j => Nat.find_min h, ?_⟩
    exact take_bytes mem (Nat.le_succ_of_le (strlenLoop_le _ (Nat.find_spec h)))
  · exact Or.inl (loaderStrcpy_diverges fun k hk => h ⟨k, hk⟩)

/-! ### The loop -/

variable {d} {mem : Nat → UInt8} {fmt out : List UInt8} {args : α} {c : Conv}

theorem output_of_ne (h : c.type ≠ .string) (str : List UInt8) : output d str c args = output d [] c args := by
  rw [output, output]
  cases hc : c.type <;> first | rfl | exact absurd hc h

theorem output_snd (str : List UInt8) (c : Conv) (args : α) :
    (output d str c args).2 = (output d [] c args).2 := by
  rw [output, output]
  cases c.type <;> rfl

theorem convert_settles (hd : Copying d)
    (h : c.type = .string → ¬ Diverges fun fuel => d.strcpy mem fuel (d.pointer args).1) :
    Settles (fun fuel => convert d mem fuel c args)
      (output d (stringAt mem (d.pointer args).1) c args) := by
  by_cases hs : c.type = .string
  · obtain ⟨bytes, hset, htake⟩ := (hd mem (d.pointer args).1).resolve_left (h hs)
    simp only [convert, if_pos hs]
    rw [← htake]
    exact hset.map fun bytes => output d (bytes.take (strlen mem (d.pointer args).1)) c args
  · simp only [convert, if_neg hs]
    rw [output_of_ne hs (stringAt mem (d.pointer args).1)]
    exact settles_const _

theorem turns_literal {ch : UInt8} (h : ch ≠ 37) :
    turns d (ch :: fmt) args = .char ch :: turns d fmt args := by
  rw [turns, if_pos h]

theorem turns_percent : turns d (37 :: 37 :: fmt) args = .char 37 :: turns d fmt args := by
  rw [turns]
  simp

theorem turns_conversion {ch : UInt8} {after : List UInt8} (hp : fmt.head? ≠ some 37)
    (hl : atLetter d fmt = ch :: after) : turns d (37 :: fmt) args =
      .conversion (parse d fmt args).1 (parse d fmt args).2.2 ::
        turns d after (output d [] (parse d fmt args).1 (parse d fmt args).2.2).2 := by
  rw [turns, if_neg (by simp), if_neg hp]
  split
  · rename_i h
    simp [h] at hl
  · rename_i h
    rw [h] at hl
    rw [(List.cons.inj hl).2]

/-- A complete format is printed, and never read behind its end. -/
theorem vsprint_settles (hd : Copying d) (h : Complete d fmt) (hs : StringsEnd d mem fmt args)
    (out : List UInt8) : Settles (fun fuel => vsprint d mem fuel fmt args out)
      (.returned (out ++ printed d mem fmt args) (d.ret (out ++ printed d mem fmt args).length)) := by
  induction h generalizing args out with
  | nil =>
    apply settles_succ rfl
    simp only [vsprint, printed, turns, List.flatMap_nil, List.append_nil]
    exact settles_const _
  | @literal ch fmt hne _ ih =>
    rw [printed, turns_literal hne]
    rw [StringsEnd, turns_literal hne] at hs
    apply settles_succ rfl
    simp only [vsprint, if_pos hne]
    have hrest := @ih args (fun c a ha => hs c a (List.mem_cons_of_mem _ ha)) (out ++ [ch])
    rwa [List.append_assoc] at hrest
  | percent _ ih =>
    rw [printed, turns_percent]
    rw [StringsEnd, turns_percent] at hs
    apply settles_succ rfl
    simp only [vsprint, ne_eq, not_true_eq_false, if_false, List.head?_cons, if_true, List.tail_cons]
    have hrest := @ih args (fun c a ha => hs c a (List.mem_cons_of_mem _ ha)) (out ++ [37])
    rwa [List.append_assoc] at hrest
  | @conversion ch fmt after hp hl _ _ ih =>
    rw [printed, turns_conversion hp hl]
    rw [StringsEnd, turns_conversion hp hl] at hs
    apply settles_succ rfl
    simp only [vsprint, ne_eq, not_true_eq_false, if_false, if_neg hp, parse_rest, hl]
    refine (convert_settles hd (hs _ _ (List.mem_cons_self ..))).bind ?_
    have hrest := @ih (output d [] (parse d fmt args).1 (parse d fmt args).2.2).2
      (fun c a ha => hs c a (List.mem_cons_of_mem _ ha)) (out ++ (output d
        (stringAt mem (d.pointer (parse d fmt args).2.2).1) (parse d fmt args).1 (parse d fmt args).2.2).1)
    rw [List.append_assoc] at hrest
    simp only [output_snd]
    exact hrest

/-- Only a complete format is left at its end. -/
theorem complete_of_returned {fuel : Nat} {text : List UInt8} {ret : Int}
    (h : vsprint d mem fuel fmt args out = some (.returned text ret)) :
    Complete d fmt ∧ StringsEnd d mem fmt args := by
  induction fuel generalizing fmt args out with
  | zero => simp [vsprint] at h
  | succ fuel ih =>
    cases fmt with
    | nil => exact ⟨.nil, by simp [StringsEnd, turns]⟩
    | cons ch fmt =>
      rw [vsprint] at h
      by_cases hne : ch ≠ 37
      · rw [if_pos hne] at h
        obtain ⟨hc, hs⟩ := ih h
        refine ⟨.literal hne hc, ?_⟩
        rw [StringsEnd, turns_literal hne]
        intro c a ha
        exact hs c a ((List.mem_cons.mp ha).resolve_left (by simp))
      · rw [if_neg hne] at h
        obtain rfl : ch = 37 := not_not.mp hne
        by_cases hp : fmt.head? = some 37
        · rw [if_pos hp] at h
          obtain ⟨fmt, rfl⟩ := List.head?_eq_some_iff.mp hp
          obtain ⟨hc, hs⟩ := ih h
          refine ⟨.percent hc, ?_⟩
          rw [StringsEnd, turns_percent]
          intro c a ha
          exact hs c a ((List.mem_cons.mp ha).resolve_left (by simp))
        · rw [if_neg hp] at h
          obtain ⟨piece, hpiece, h⟩ := Option.bind_eq_some_iff.mp h
          simp only [parse_rest] at h
          cases hl : atLetter d fmt with
          | nil => simp [hl] at h
          | cons ch after =>
            rw [hl] at h
            have hsnd : piece.2 = (output d [] (parse d fmt args).1 (parse d fmt args).2.2).2 := by
              rw [convert] at hpiece
              split at hpiece
              · obtain ⟨bytes, -, rfl⟩ := Option.map_eq_some_iff.mp hpiece
                exact output_snd ..
              · rw [← Option.some.inj hpiece]
            rw [hsnd] at h
            obtain ⟨hc, hs⟩ := ih h
            refine ⟨.conversion hp hl trivial hc, ?_⟩
            rw [StringsEnd, turns_conversion hp hl]
            intro c a ha hstr
            rcases List.mem_cons.mp ha with heq | ha
            · obtain ⟨rfl, rfl⟩ := Turn.conversion.inj heq
              intro hdiv
              simp [convert, if_pos hstr, hdiv fuel] at hpiece
            · exact hs c a ha hstr

/-! ### Parsing as it should be -/

/-- The call returns without a look behind the terminator, with -1 for a conversion that
is unknown or cut off. -/
def ParsesSafely (d : Dialect α) (mem : Nat → UInt8) (fmt : List UInt8) (args : α) : Prop :=
  ∃ text ret, Settles (fun fuel => vsprint d mem fuel fmt args []) (.returned text ret) ∧
    (¬ WellFormed d fmt → ret = -1)

theorem parsesSafely_iff (hd : Copying d) : ParsesSafely d mem fmt args ↔
    Complete d fmt ∧ StringsEnd d mem fmt args ∧
      (WellFormed d fmt ∨ d.ret (printed d mem fmt args).length = -1) := by
  constructor
  · rintro ⟨text, ret, hset, hret⟩
    obtain ⟨N, hN⟩ := hset.enough
    obtain ⟨hc, hs⟩ := complete_of_returned (hN N (Nat.le_refl N))
    obtain ⟨rfl, rfl⟩ := Outcome.returned.inj (hset.eq (vsprint_settles hd hc hs []))
    exact ⟨hc, hs, or_iff_not_imp_left.mpr hret⟩
  · rintro ⟨hc, hs, hret⟩
    exact ⟨_, _, vsprint_settles hd hc hs [], fun hn => hret.resolve_left hn⟩

/-- Every string that is printed has a terminator from its byte `first` on. -/
def StringsStop (d : Dialect α) (first : Nat) (mem : Nat → UInt8) (fmt : List UInt8) (args : α) : Prop :=
  ∀ c a, Turn.conversion c a ∈ turns d fmt args → c.type = .string →
    ∃ k, first ≤ k ∧ mem ((d.pointer a).1 + k) = 0

theorem kernel_stringsEnd {args : VaList} :
    StringsEnd kernel mem fmt args ↔ StringsStop kernel 1 mem fmt args := by
  refine forall₄_congr fun c a _ _ => ⟨fun h => ?_, fun ⟨k, hk, hz⟩ hdiv => ?_⟩
  · by_contra hno
    exact h (strcpy_diverges fun k hz => hno ⟨k + 1, by omega, hz⟩)
  · exact strcpy_stops ⟨k - 1, by rwa [Nat.sub_add_cancel hk]⟩ hdiv

theorem loader_stringsEnd {args : VaList32} :
    StringsEnd loader mem fmt args ↔ StringsStop loader 0 mem fmt args := by
  refine forall₄_congr fun c a _ _ => ⟨fun h => ?_, fun ⟨k, _, hz⟩ hdiv => ?_⟩
  · by_contra hno
    exact h (loaderStrcpy_diverges fun k hz => hno ⟨k, Nat.zero_le k, hz⟩)
  · have hex : ∃ k, mem ((loader.pointer a).1 + k) = 0 := ⟨k, hz⟩
    exact (loaderStrcpy_settles (Nat.find hex) (Nat.find_spec hex) fun j =>
      Nat.find_min hex).not_diverges hdiv

theorem kernel_ret (n : Nat) : kernel.ret n = -1 ↔ 2 ^ 32 ∣ n := by
  unfold kernel asInt
  dsimp only
  rw [Int.bmod_def]
  split <;> omega

theorem loader_ret (n : Nat) : loader.ret n = -1 ↔ 2 ^ 32 ∣ n + 1 := by
  unfold loader asInt
  dsimp only
  rw [Int.bmod_def]
  split <;> omega

/-- Where the functions parse a format safely: each conversion is complete, and also
known unless the value returned happens to be -1. -/
theorem formats_parsed (mem : Nat → UInt8) (fmt : List UInt8) :
    (∀ args, ParsesSafely kernel mem fmt args ↔
      Complete kernel fmt ∧ StringsStop kernel 1 mem fmt args ∧
        (WellFormed kernel fmt ∨ 2 ^ 32 ∣ (printed kernel mem fmt args).length)) ∧
    ∀ args, ParsesSafely loader mem fmt args ↔
      Complete loader fmt ∧ StringsStop loader 0 mem fmt args ∧
        (WellFormed loader fmt ∨ 2 ^ 32 ∣ (printed loader mem fmt args).length + 1) := by
  constructor
  · intro args
    rw [parsesSafely_iff kernel_copying, kernel_stringsEnd, kernel_ret]
  · intro args
    rw [parsesSafely_iff loader_copying, loader_stringsEnd, loader_ret]

/-- The format `%` is read behind its end, and after `a%y` the kernel returns 0 and the
loader 1. -/
theorem formats_overrun :
    ¬ ParsesSafely kernel (fun _ => 0) [37] ⟨fun _ => 0, fun _ => 0⟩ ∧
    ¬ ParsesSafely loader (fun _ => 0) [37] ⟨fun _ => 0⟩ ∧
    vsprintk (fun _ => 0) 3 [97, 37, 121] ⟨fun _ => 0, fun _ => 0⟩ = some (.returned [97] 0) ∧
    vsprintf (fun _ => 0) 3 [97, 37, 121] ⟨fun _ => 0⟩ = some (.returned [97] 1) := by
  refine ⟨?_, ?_, by decide +kernel, by decide +kernel⟩
  · rintro ⟨text, ret, hset, -⟩
    have hover : vsprint kernel (fun _ => 0) 1 [37] ⟨fun _ => 0, fun _ => 0⟩ [] = some .overrun := by
      decide +kernel
    exact absurd (hset.unique 1 _ hover) (by simp)
  · rintro ⟨text, ret, hset, -⟩
    have hover : vsprint loader (fun _ => 0) 1 [37] ⟨fun _ => 0⟩ [] = some .overrun := by
      decide +kernel
    exact absurd (hset.unique 1 _ hover) (by simp)

end Printf

end TayHuang
