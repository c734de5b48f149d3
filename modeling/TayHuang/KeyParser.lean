import Mathlib.Data.UInt

/-! The decoder of the keyboard's scan codes, key_parser.c, with the table of
keymap.c and the interrupt handler that feeds it. -/

namespace TayHuang

/-- The keys that are no characters; they count from 256 on. -/
inductive KeyName
  | ESC | BACKSPACE | TAB | ENTER | PAD_ENTER | LCTRL | RCTRL | LSHIFT | RSHIFT | LALT | RALT
  | PAD_SLASH | CAPSLOCK | NUMLOCK | SCROLL_LOCK | F1 | F2 | F3 | F4 | F5 | F6 | F7 | F8 | F9
  | F10 | PAD_HOME | HOME | PAD_UP | KEY_UP | PAD_PGUP | PGUP | PAD_MINUS | PAD_LEFT | KEY_LEFT
  | PAD_MID | PAD_RIGHT | KEY_RIGHT | PAD_PLUS | PAD_END | KEY_END | PAD_DOWN | KEY_DOWN
  | PAD_PGDOWN | PGDOWN | PAD_INSERT | KEY_INSERT | PAD_DOT | KEY_DELETE | F11 | F12 | LGUI
  | RGUI | APPS | PAUSEBREAK
  deriving DecidableEq, Repr

namespace KeyParser

open KeyName

scoped instance keyNameCode : Coe KeyName Nat := ⟨fun k => 256 + k.ctorIdx⟩

scoped instance charCode : Coe Char Nat := ⟨Char.toNat⟩

/-- The plain key, the one with shift and the one behind `E0`. -/
abbrev KeyRow := Nat × Nat × Nat

/-- `KEYMAP`, by scan code; the rows from `0x60` on are zero. 34, 39, 92, 96, 123 and 125 are
characters. -/
def keymap : List KeyRow :=
  ([(0, 0, 0), (ESC, ESC, 0), ('1', '!', 0), ('2', '@', 0), ('3', '#', 0), ('4', '$', 0),
    ('5', '%', 0), ('6', '^', 0), ('7', '&', 0), ('8', '*', 0), ('9', '(', 0), ('0', ')', 0),
    ('-', '_', 0), ('=', '+', 0), (BACKSPACE, BACKSPACE, 0), (TAB, TAB, 0), ('q', 'Q', 0),
    ('w', 'W', 0), ('e', 'E', 0), ('r', 'R', 0), ('t', 'T', 0), ('y', 'Y', 0), ('u', 'U', 0),
    ('i', 'I', 0)] : List KeyRow) ++
  ([('o', 'O', 0), ('p', 'P', 0), ('[', 123, 0), (']', 125, 0), (ENTER, ENTER, PAD_ENTER),
    (LCTRL, LCTRL, RCTRL), ('a', 'A', 0), ('s', 'S', 0), ('d', 'D', 0), ('f', 'F', 0),
    ('g', 'G', 0), ('h', 'H', 0), ('j', 'J', 0), ('k', 'K', 0), ('l', 'L', 0), (';', ':', 0),
    (39, 34, 0), (96, '~', 0), (LSHIFT, LSHIFT, 0), (92, '|', 0), ('z', 'Z', 0), ('x', 'X', 0),
    ('c', 'C', 0), ('v', 'V', 0)] : List KeyRow) ++
  ([('b', 'B', 0), ('n', 'N', 0), ('m', 'M', 0), (',', '<', 0), ('.', '>', 0),
    ('/', '?', PAD_SLASH), (RSHIFT, RSHIFT, 0), ('*', '*', 0), (LALT, LALT, RALT), (' ', ' ', 0),
    (CAPSLOCK, CAPSLOCK, 0), (F1, F1, 0), (F2, F2, 0), (F3, F3, 0), (F4, F4, 0), (F5, F5, 0),
    (F6, F6, 0), (F7, F7, 0), (F8, F8, 0), (F9, F9, 0), (F10, F10, 0), (NUMLOCK, NUMLOCK, 0),
    (SCROLL_LOCK, SCROLL_LOCK, 0), (PAD_HOME, '7', HOME)] : List KeyRow) ++
  ([(PAD_UP, '8', KEY_UP), (PAD_PGUP, '9', PGUP), (PAD_MINUS, '-', 0), (PAD_LEFT, '4', KEY_LEFT),
    (PAD_MID, '5', 0), (PAD_RIGHT, '6', KEY_RIGHT), (PAD_PLUS, '+', 0), (PAD_END, '1', KEY_END),
    (PAD_DOWN, '2', KEY_DOWN), (PAD_PGDOWN, '3', PGDOWN), (PAD_INSERT, '0', KEY_INSERT),
    (PAD_DOT, '.', KEY_DELETE), (ENTER, ENTER, ENTER), (0, 0, 0), (0, 0, 0), (F11, F11, 0),
    (F12, F12, 0), (0, 0, 0), (0, 0, 0), (0, 0, LGUI), (0, 0, RGUI), (0, 0, APPS), (0, 0, 0),
    (0, 0, 0)] : List KeyRow)

/-! ### Bits of the state word -/

def E0_XX : UInt32 := 1
def E1_XX : UInt32 := 2
def E1_STAGE_UNIT : UInt32 := 4
def E1_STAGE_MASK : UInt32 := 28
def E1_STAGE_END : UInt32 := 20
def E1_FAILED : UInt32 := 32
def NUMLOCKING : UInt32 := 64
def CAPSLOCKING : UInt32 := 128
def LSHIFT_PUSHED : UInt32 := 1024
def RSHIFT_PUSHED : UInt32 := 2048

/-- `KEYMAP[code & 0x7F]`. -/
def row (code : UInt8) : KeyRow := keymap.getD (code &&& 0x7F).toNat (0, 0, 0)

/-! ### Decoders -/

/-- `do_normal`. Behind `E0` the state word is written, not extended. -/
def doNormal (state : UInt32) (code : UInt8) : UInt32 × Nat :=
  if code = 0xE0 then (E0_XX, 0)
  else if code = 0xE1 then (state ||| E1_XX, 0)
  else if code &&& 0x80 ≠ 0 then (state, 0)
  else
    let key := (row code).1
    if key = LSHIFT then (state ||| LSHIFT_PUSHED, 0)
    else if key = RSHIFT then (state ||| RSHIFT_PUSHED, 0)
    else
      let key :=
        if 'a' ≤ key ∧ key ≤ 'z' ∧ state &&& CAPSLOCKING ≠ 0 then (row code).2.1 else key
      let key :=
        if PAD_HOME ≤ key ∧ key ≤ PAD_DOT ∧ state &&& NUMLOCKING ≠ 0 then (row code).2.1 else key
      (state, key)

/-- `do_e0`. A break code leaves the state alone. -/
def doE0 (state : UInt32) (code : UInt8) : UInt32 × Nat :=
  if code &&& 0x80 ≠ 0 then (state, 0)
  else (state &&& ~~~E0_XX, (row code).2.2)

def pausebreakCodes : List UInt8 := [0xE1, 0x1D, 0x45, 0xE1, 0x9D, 0xC5]

def doE1 (state : UInt32) (code : UInt8) : UInt32 × Nat :=
  let state := state + E1_STAGE_UNIT
  let stage := ((state &&& E1_STAGE_MASK) / E1_STAGE_UNIT).toNat
  let state := if pausebreakCodes[stage]? ≠ some code then state ||| E1_FAILED else state
  if state &&& E1_STAGE_MASK = E1_STAGE_END then
    let state := state &&& ~~~E1_STAGE_MASK &&& ~~~E1_XX
    if state &&& E1_FAILED ≠ 0 then (state &&& ~~~E1_FAILED, 0) else (state, PAUSEBREAK)
  else (state, 0)

def doShift (state : UInt32) (code : UInt8) : UInt32 × Nat :=
  if code = 0xE0 then (state ||| E0_XX, 0)
  else if code = 0xE1 then (state ||| E1_XX, 0)
  else if code &&& 0x80 ≠ 0 then
    let key := (row code).1
    if key = LSHIFT then (state &&& ~~~LSHIFT_PUSHED, 0)
    else if key = RSHIFT then (state &&& ~~~RSHIFT_PUSHED, 0)
    else (state, 0)
  else
    let key := (row code).2.1
    if key = LSHIFT then (state ||| LSHIFT_PUSHED, 0)
    else if key = RSHIFT then (state ||| RSHIFT_PUSHED, 0)
    else (state, key)

/-! ### Interrupt handler -/

/-- The state word, and the keys written to the buffer: `none` before it is created. -/
structure Keyboard where
  state : UInt32
  fifo : Option (List Nat)
  deriving DecidableEq

/-- The decoder that `irq_handler` picks. -/
def parse (state : UInt32) (code : UInt8) : UInt32 × Nat :=
  if state &&& E1_XX ≠ 0 then doE1 state code
  else if state &&& E0_XX ≠ 0 then doE0 state code
  else if state &&& LSHIFT_PUSHED ≠ 0 ∨ state &&& RSHIFT_PUSHED ≠ 0 then doShift state code
  else doNormal state code

/-- `irq_handler`, with the byte that it reads from the controller. -/
def irqHandler (s : Keyboard) (irq : Nat) (code : UInt8) : Keyboard :=
  if irq = 1 then
    match s.fifo with
    | none => s
    | some keys =>
      let r := parse s.state code
      if r.2 = CAPSLOCK then
        { s with state := if r.1 &&& CAPSLOCKING ≠ 0 then r.1 &&& ~~~CAPSLOCKING
                          else r.1 ||| CAPSLOCKING }
      else if r.2 = NUMLOCK then
        { s with state := if r.1 &&& NUMLOCKING ≠ 0 then r.1 &&& ~~~NUMLOCKING
                          else r.1 ||| NUMLOCKING }
      else if r.2 = 0 then { s with state := r.1 }
      else { state := r.1, fifo := some (keys ++ [r.2]) }
  else s

end KeyParser

end TayHuang
