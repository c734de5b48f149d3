import TayHuang.KeyParser
import Mathlib.Data.List.Basic
import Mathlib.Data.Int.Notation
import Mathlib.Logic.Function.Basic

/-! The consoles of the terminal, console.c. A console is a frame buffer of
`CONSOLE_LINES` = 25 lines with `CONSOLE_COLUMNS` = 80 cells of two bytes, and a
position in it. -/

namespace TayHuang

namespace Tty

open Function (update)
open KeyParser KeyName

/-- `console_t`. The frame buffer is given by offset; `written` records the offsets
that were stored to, and the code never reads it. -/
structure Console where
  framebuffer : Int → UInt8
  framebufferId : Int
  posX : Int
  posY : Int
  color : UInt8
  written : List Int

/-- `consoles`, of which there are `CONSOLE_NUM`. -/
abbrev Consoles := Fin 4 → Console

def Console.putrawchar (c : Console) (ch : UInt8) : Console :=
  let pos := c.posY * 80 + c.posX
  let c := { c with
    framebuffer := update (update c.framebuffer (pos * 2) ch) (pos * 2 + 1) c.color
    written := c.written ++ [pos * 2, pos * 2 + 1]
    posX := c.posX + 1 }
  if c.posX = 80 then { c with posX := 0, posY := c.posY + 1 } else c

/-- One cell back, over the beginning of a line to the end of the one above. -/
def Console.back (c : Console) : Console :=
  if c.posX - 1 < 0 then { c with posX := 79, posY := c.posY - 1 } else { c with posX := c.posX - 1 }

/-- `__putchar`. 8 is `\b`, 9 `\t`, 10 `\n`, 11 `\v`, 12 `\f`, 13 `\r` and 32 a space. -/
def Console.putchar (c : Console) (ch : UInt8) : Console :=
  if ch = 13 ∨ ch = 10 then { c with posX := 0, posY := c.posY + 1 }
  else if ch = 9 then { c with posX := c.posX + 4 }
  else if ch = 11 then { c with posY := c.posY + 1 }
  else if ch = 8 then
    let c := c.back
    let c := if c.posY < 0 then { c with posX := 0, posY := 0 } else c
    (c.putrawchar 32).back
  else if ch = 12 then { c with posX := 0, posY := 0 }
  else c.putrawchar ch

/-- `__putchar` on one of the consoles. -/
def putchar (s : Consoles) (consoleNo : Fin 4) (ch : UInt8) : Consoles :=
  update s consoleNo ((s consoleNo).putchar ch)

/-- `escape_key`, cut to a `char`. -/
def escapeKey (key : Nat) : UInt8 :=
  if key = ENTER then 10
  else if key = BACKSPACE then 8
  else if key = TAB then 9
  else UInt8.ofNat key

/-- Characters for the consoles, one after another. -/
def putAll (s : Consoles) (es : List (Fin 4 × UInt8)) : Consoles :=
  es.foldl (fun s e => putchar s e.1 e.2) s

/-- The loop of `wrapper_puts`. -/
def puts (s : Consoles) (consoleNo : Fin 4) (text : List UInt8) : Consoles :=
  text.foldl (fun s ch => putchar s consoleNo ch) s

/-- After `init_consoles` nothing was written and all positions are (0, 0). -/
def Initial (s : Consoles) : Prop :=
  ∀ i, (s i).posX = 0 ∧ (s i).posY = 0 ∧ (s i).written = []

theorem puts_eq (s : Consoles) (i : Fin 4) (text : List UInt8) :
    puts s i text = putAll s (text.map fun ch => (i, ch)) := by
  rw [puts, putAll, List.foldl_map]

theorem putAll_concat (s : Consoles) (es : List (Fin 4 × UInt8)) (e : Fin 4 × UInt8) :
    putAll s (es ++ [e]) = putchar (putAll s es) e.1 e.2 := by
  rw [putAll, List.foldl_append]
  rfl

/-! ### Staying on the screen -/

/-- The position is on the screen, and so was every cell written. -/
structure Console.Inside (c : Console) : Prop where
  x : 0 ≤ c.posX ∧ c.posX < 80
  y : 0 ≤ c.posY ∧ c.posY < 25
  bytes : ∀ o ∈ c.written, 0 ≤ o ∧ o < 80 * 25 * 2

/-- The character does not move the position off the screen: no new line from the last
line, no tab from the last four columns, no character in the last cell. -/
def Console.Room (c : Console) (ch : UInt8) : Prop :=
  if ch = 13 ∨ ch = 10 ∨ ch = 11 then c.posY < 24
  else if ch = 9 then c.posX < 76
  else if ch = 8 ∨ ch = 12 then True
  else ¬ (c.posX = 79 ∧ c.posY = 24)

instance (c : Console) (ch : UInt8) : Decidable (c.Room ch) :=
  inferInstanceAs (Decidable (ite _ _ (ite _ _ (ite _ _ _))))

variable {c : Console} {ch : UInt8}

theorem Console.Inside.putrawchar_bytes (h : c.Inside) (ch : UInt8) :
    ∀ o ∈ (c.putrawchar ch).written, 0 ≤ o ∧ o < 80 * 25 * 2 := by
  obtain ⟨hx, hy, hb⟩ := h
  have hw : (c.putrawchar ch).written =
      c.written ++ [(c.posY * 80 + c.posX) * 2, (c.posY * 80 + c.posX) * 2 + 1] := by
    simp only [Console.putrawchar]
    split <;> rfl
  intro o ho
  rw [hw] at ho
  rcases List.mem_append.mp ho with ho | ho
  · exact hb o ho
  · simp only [List.mem_cons, List.not_mem_nil, or_false] at ho
    omega

theorem Console.putrawchar_pos (c : Console) (ch : UInt8) :
    (c.putrawchar ch).posX = (if c.posX = 79 then 0 else c.posX + 1) ∧
      (c.putrawchar ch).posY = if c.posX = 79 then c.posY + 1 else c.posY := by
  simp only [Console.putrawchar]
  have hiff : c.posX + 1 = 80 ↔ c.posX = 79 := by omega
  simp only [hiff]
  split <;> exact ⟨rfl, rfl⟩

theorem Console.Inside.putrawchar_iff (h : c.Inside) :
    (c.putrawchar ch).Inside ↔ ¬ (c.posX = 79 ∧ c.posY = 24) := by
  obtain ⟨hpx, hpy⟩ := c.putrawchar_pos ch
  have hx := h.x
  have hy := h.y
  constructor
  · rintro ⟨-, hy', -⟩ ⟨h79, h24⟩
    rw [hpy, if_pos h79] at hy'
    omega
  · intro hno
    refine ⟨?_, ?_, h.putrawchar_bytes ch⟩
    · rw [hpx]
      split <;> omega
    · rw [hpy]
      split <;> omega

/-- A backspace never leaves the screen: the cell before is blanked, and the position is
this cell afterwards; in the first cell it stays. -/
theorem Console.Inside.backspace (h : c.Inside) : (c.putchar 8).Inside := by
  obtain ⟨hx, hy, hb⟩ := h
  have hstart : ∀ d : Console, d.Inside → ((d.putrawchar 32).back).Inside := by
    intro d hd
    have hbytes := hd.putrawchar_bytes 32
    obtain ⟨hpx, hpy⟩ := d.putrawchar_pos 32
    obtain ⟨hdx, hdy, -⟩ := hd
    unfold Console.back
    by_cases h79 : d.posX = 79
    · rw [if_pos h79] at hpx hpy
      rw [if_pos (by omega)]
      exact ⟨by simp, by simp only; omega, hbytes⟩
    · rw [if_neg h79] at hpx hpy
      rw [if_neg (by omega)]
      exact ⟨by simp only; omega, by simp only; omega, hbytes⟩
  have hput : c.putchar 8 =
      (((if c.back.posY < 0 then { c.back with posX := 0, posY := 0 } else c.back).putrawchar
        32).back) := rfl
  rw [hput]
  apply hstart
  unfold Console.back
  by_cases h0 : c.posX - 1 < 0
  · rw [if_pos h0]
    split
    · exact ⟨by simp, by simp, hb⟩
    · rename_i hneg
      simp only at hneg
      exact ⟨by simp, by simp only; omega, hb⟩
  · rw [if_neg h0, if_neg (by simp only; omega)]
    exact ⟨by simp only; omega, by simp only; omega, hb⟩

/-- One character keeps the console inside exactly when there is room for it. -/
theorem Console.Inside.putchar_iff (h : c.Inside) : (c.putchar ch).Inside ↔ c.Room ch := by
  obtain ⟨hx, hy, hb⟩ := h
  by_cases hline : ch = 13 ∨ ch = 10
  · have hroom : c.Room ch ↔ c.posY < 24 := by
      rw [Console.Room, if_pos (hline.imp_right Or.inl)]
    rw [hroom, Console.putchar, if_pos hline]
    constructor
    · rintro ⟨-, hy', -⟩
      simp only at hy'
      omega
    · intro hlt
      exact ⟨by simp, by simp only; omega, hb⟩
  by_cases htab : ch = 9
  · subst htab
    have hroom : c.Room 9 ↔ c.posX < 76 := by simp [Console.Room]
    have hput : c.putchar 9 = { c with posX := c.posX + 4 } := rfl
    rw [hroom, hput]
    constructor
    · rintro ⟨hx', -, -⟩
      simp only at hx'
      omega
    · intro hlt
      exact ⟨by simp only; omega, hy, hb⟩
  by_cases hdown : ch = 11
  · subst hdown
    have hroom : c.Room 11 ↔ c.posY < 24 := by simp [Console.Room]
    have hput : c.putchar 11 = { c with posY := c.posY + 1 } := rfl
    rw [hroom, hput]
    constructor
    · rintro ⟨-, hy', -⟩
      simp only at hy'
      omega
    · intro hlt
      exact ⟨hx, by simp only; omega, hb⟩
  by_cases hback : ch = 8
  · subst hback
    have hroom : c.Room 8 := trivial
    exact ⟨fun _ => hroom, fun _ => Console.Inside.backspace ⟨hx, hy, hb⟩⟩
  by_cases hpage : ch = 12
  · subst hpage
    have hroom : c.Room 12 := trivial
    exact ⟨fun _ => hroom, fun _ => ⟨by simp [Console.putchar], by simp [Console.putchar], hb⟩⟩
  · have hroom : c.Room ch ↔ ¬ (c.posX = 79 ∧ c.posY = 24) := by
      obtain ⟨h13, h10⟩ := not_or.mp hline
      simp [Console.Room, h13, h10, htab, hdown, hback, hpage]
    have hput : c.putchar ch = c.putrawchar ch := by
      rw [Console.putchar, if_neg hline, if_neg htab, if_neg hdown, if_neg hback, if_neg hpage]
    rw [hroom, hput, Console.Inside.putrawchar_iff ⟨hx, hy, hb⟩]

/-! ### Runs -/

theorem Initial.inside {s : Consoles} (h : Initial s) (i : Fin 4) : (s i).Inside := by
  obtain ⟨hx, hy, hw⟩ := h i
  exact ⟨by rw [hx]; decide, by rw [hy]; decide, by simp [hw]⟩

/-- From the initial consoles on all positions stay on the screen and all writes in the
frame buffers, if and only if there is room for each character when it is put. -/
theorem consoles_inside_iff {s : Consoles} (h : Initial s) (es : List (Fin 4 × UInt8)) :
    (∀ fs, fs <+: es → ∀ i, (putAll s fs i).Inside) ↔
      ∀ fs i ch, fs ++ [(i, ch)] <+: es → (putAll s fs i).Room ch := by
  constructor
  · intro hall fs i ch hp
    have hbefore := hall fs ((List.prefix_append fs [(i, ch)]).trans hp) i
    have hafter := hall _ hp i
    rw [putAll_concat] at hafter
    simp only [putchar, Function.update_self] at hafter
    exact hbefore.putchar_iff.mp hafter
  · intro hroom fs
    induction fs using List.reverseRecOn with
    | nil => exact fun _ i => h.inside i
    | append_singleton fs e ih =>
      intro hp i
      have hin := ih ((List.prefix_append fs [e]).trans hp)
      rw [putAll_concat, putchar]
      by_cases hi : i = e.1
      · rw [hi, Function.update_self]
        exact (hin e.1).putchar_iff.mpr (hroom fs e.1 e.2 hp)
      · rw [Function.update_of_ne hi]
        exact hin i

/-- Black consoles. -/
def blank : Consoles := fun i => ⟨fun _ => 0, i.val, 0, 0, 0x0F, []⟩

theorem blank_initial : Initial blank := fun _ => ⟨rfl, rfl, rfl⟩

/-- A letter and a new line on the second console. -/
theorem consoles_inside_line : (putAll blank [(1, 72), (1, 10)] 1).Inside := by
  refine (consoles_inside_iff blank_initial [(1, 72), (1, 10)]).mpr ?_ _ (List.prefix_refl _) 1
  rintro fs i ch ⟨rest, hrest⟩
  rcases fs with _ | ⟨a, _ | ⟨b, fs⟩⟩ <;>
    simp only [List.nil_append, List.cons_append, List.cons.injEq, Prod.mk.injEq] at hrest
  · obtain ⟨⟨rfl, rfl⟩, -⟩ := hrest
    decide
  · obtain ⟨rfl, ⟨rfl, rfl⟩, -⟩ := hrest
    decide
  · obtain ⟨-, -, hh⟩ := hrest
    simp at hh

/-- Twenty-five new lines. -/
theorem consoles_leave_screen : ¬ ∀ (s : Consoles) (es : List (Fin 4 × UInt8)), Initial s →
    ∀ i, (putAll s es i).Inside := by
  intro hall
  have hy := (hall blank (List.replicate 25 (0, 10)) blank_initial 0).y.2
  revert hy
  decide

end Tty

end TayHuang
