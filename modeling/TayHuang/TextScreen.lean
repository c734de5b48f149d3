import TayHuang.FramebufferRuns
import TayHuang.UserMalloc
import Mathlib.Algebra.Order.Ring.Int
import Mathlib.Tactic.Ring.RingNF

/-! Swapping frames onto a text screen, text.c of the video driver. The screen and
each framebuffer are given by offset. -/

namespace TayHuang

open Function (update)
open Fuel

/-- `video_info_struct`, less the pointer. -/
structure VideoInfo where
  width : Int
  height : Int
  isGraphicMode : Bool
  deriving DecidableEq, Repr

/-- `__write_char`, with its `int` arithmetic. -/
def writeChar (v : VideoInfo) (column line : Int) (color ch : UInt8) (screen : Int → UInt8) :
    Int → UInt8 :=
  let pos := asInt (asInt (asInt (line * v.width) + column) * 2)
  update (update screen pos ch) (pos + 1) color

/-- A turn of the loops in `__swap_framebuffer`. -/
def swapCell (v : VideoInfo) (f : FrameT) (fb : Int → UInt8) (line column : Nat)
    (screen : Int → UInt8) : Int → UInt8 :=
  let pos := asInt (asInt (asInt (line * f.width) + column) * 2)
  writeChar v (asInt (f.column + column)) (asInt (f.line + line)) (fb (pos + 1)) (fb pos) screen

def swapCells (v : VideoInfo) (f : FrameT) (fb screen : Int → UInt8) : Int → UInt8 :=
  (List.range f.height.toNat).foldl (fun screen line =>
    (List.range f.width.toNat).foldl (fun screen column => swapCell v f fb line column screen) screen)
    screen

def memcpy (dst src : Int → UInt8) (sz : Nat) : Int → UInt8 :=
  fun i => if 0 ≤ i ∧ i < sz then src i else dst i

/-- The frame is the whole screen. -/
def Covers (v : VideoInfo) (f : FrameT) : Prop :=
  f.column = 0 ∧ f.line = 0 ∧ f.width = v.width ∧ f.height = v.height

instance (v : VideoInfo) (f : FrameT) : Decidable (Covers v f) :=
  inferInstanceAs (Decidable (_ ∧ _ ∧ _ ∧ _))

/-- The fast path. A negative product is a `size_t` that runs off the memory. -/
def swapWhole (f : FrameT) (fb screen : Int → UInt8) : Option (Int → UInt8) :=
  let sz := asInt (asInt (f.width * f.height) * 2)
  if sz < 0 then none else some (memcpy screen fb sz.toNat)

def swapFrame (v : VideoInfo) (f : FrameT) (fb screen : Int → UInt8) : Option (Int → UInt8) :=
  if Covers v f then swapWhole f fb screen else some (swapCells v f fb screen)

/-- `__swap_framebuffer`; `mem` holds what the pointers to framebuffers point to.
`some none` where it faults. -/
def swapFramebuffer (fuel : Nat) (v : VideoInfo) (s : FrameTable) (id : Int) (mem : Nat → Int → UInt8)
    (screen : Int → UInt8) : Option (Option (Int → UInt8)) :=
  (getFramebuffer fuel s id).map fun p => p.bind fun p =>
    swapFrame v (s.frame p) (mem (s.frame p).framebuffer) screen

structure TextDriver where
  table : FrameTable
  curId : Int

section

variable (createShareMemory : Int → Nat) (shareMemory : Nat → Int → Int → Nat)

/-- `__create_framebuffer`, which returns the caller's framebuffer and the id. The two
calls of the system task are parameters, `new` and `frame` are what `malloc` returns. -/
def createFramebuffer (fuel : Nat) (v : VideoInfo) (d : TextDriver) (caller column line width height : Int)
    (new frame : Option Nat) : Option (Option (TextDriver × Nat × Int)) :=
  if width < 0 ∨ width > v.width then some (some (d, 0, -1))
  else if height < 0 ∨ height > v.height then some (some (d, 0, -1))
  else
    let bpp : Int := if v.isGraphicMode then 2 else 4
    let size := asInt (asInt (width * height) * bpp)
    let pages := (asInt (size + 4096 - 1)).tdiv 4096
    let own := createShareMemory pages
    let framebuffer := shareMemory own pages caller
    (setFramebuffer fuel d.table d.curId ⟨own, column, line, width, height⟩ new frame).map fun r =>
      r.map fun table => (⟨table, asInt (d.curId + 1)⟩, framebuffer, d.curId)

end

/-- An accepted request leaves its parameters in the table, under the id returned. -/
theorem createFramebuffer_framed {createShareMemory : Int → Nat} {shareMemory : Nat → Int → Int → Nat}
    {v : VideoInfo} {d : TextDriver} {m : Int → Option FrameT} {l : List FrameEntry}
    {caller column line width height : Int} {n p : Nat} (h : Framed d.table m l)
    (hid : d.curId ∉ frameIds l) (hn : n ∉ l.map FrameEntry.addr)
    (hp : p ∉ l.map FrameEntry.frame) (hw : 0 ≤ width ∧ width ≤ v.width)
    (hh : 0 ≤ height ∧ height ≤ v.height) : ∃ own shared table,
      Settles (fun fuel => createFramebuffer createShareMemory shareMemory fuel v d caller column line
          width height (some n) (some p)) (some (⟨table, asInt (d.curId + 1)⟩, shared, d.curId)) ∧
        Settles (fun fuel => getFramebuffer fuel table d.curId) (some p) ∧
        table.frame p = ⟨own, column, line, width, height⟩ := by
  have hno : ¬ (width < 0 ∨ width > v.width) := by omega
  have hno' : ¬ (height < 0 ∨ height > v.height) := by omega
  simp only [createFramebuffer, if_neg hno, if_neg hno']
  generalize createShareMemory _ = own
  generalize shareMemory own _ caller = shared
  obtain ⟨table, htable, hl⟩ := h.newFramebuffer (f := ⟨own, column, line, width, height⟩) hid hn hp
  have hset : Settles
      (fun fuel => setFramebuffer fuel d.table d.curId ⟨own, column, line, width, height⟩ (some n) (some p))
      (newFramebuffer d.table (some n) (some p) d.curId ⟨own, column, line, width, height⟩) :=
    setFramebuffer_absent h.list hid
  rw [htable] at hset
  have hget := getFramebuffer_settles hl.list d.curId
  rw [List.find?_cons, decide_eq_true rfl] at hget
  have hval := congrFun hl.value d.curId
  rw [frameIn_cons, if_pos rfl, Function.update_self] at hval
  exact ⟨own, shared, table, hset.map _, hget, Option.some.inj hval⟩

/-! ### Bytes written one after another -/

def putBytes (ps : List (Int × UInt8)) (screen : Int → UInt8) : Int → UInt8 :=
  ps.foldl (fun screen p => update screen p.1 p.2) screen

theorem putBytes_append (ps qs : List (Int × UInt8)) (screen : Int → UInt8) :
    putBytes (ps ++ qs) screen = putBytes qs (putBytes ps screen) := List.foldl_append

theorem putBytes_of_notMem {ps : List (Int × UInt8)} {i : Int} (screen : Int → UInt8)
    (h : ∀ p ∈ ps, p.1 ≠ i) : putBytes ps screen i = screen i := by
  induction ps generalizing screen with
  | nil => rfl
  | cons p ps ih =>
    have hp := h p (by simp)
    rw [putBytes, List.foldl_cons]
    refine (ih _ fun q hq => h q (by simp [hq])).trans ?_
    exact Function.update_of_ne hp.symm ..

/-- Every write to `i` stores `b`, and there is one. -/
theorem putBytes_of_mem {ps : List (Int × UInt8)} {i : Int} {b : UInt8} (screen : Int → UInt8)
    (h : ∀ p ∈ ps, p.1 = i → p.2 = b) (hi : ∃ p ∈ ps, p.1 = i) : putBytes ps screen i = b := by
  induction ps using List.reverseRecOn with
  | nil => simp at hi
  | append_singleton ps p ih =>
    rw [putBytes_append]
    by_cases hp : p.1 = i
    · have hb := h p (by simp) hp
      subst hp
      exact (Function.update_self ..).trans hb
    · obtain ⟨q, hq, hqi⟩ := hi
      have hq' : q ∈ ps := by
        rcases List.mem_append.mp hq with hq | hq
        · exact hq
        · rw [List.mem_singleton.mp hq] at hqi
          exact absurd hqi hp
      have hps := ih (fun r hr => h r (by simp [hr])) ⟨q, hq', hqi⟩
      exact (Function.update_of_ne (Ne.symm hp) ..).trans hps

/-- The offset of a cell, as the code computes it. -/
def cellPos (width line column : Int) : Int := asInt (asInt (asInt (line * width) + column) * 2)

theorem cellPos_eq (width line column : Int) : cellPos width line column =
    asInt ((line * width + column) * 2) := by
  simp only [cellPos, asInt, Int.bmod_add_bmod, Int.bmod_mul_bmod]

theorem cellPos_of_fits {width line column : Int} (h0 : 0 ≤ line * width + column)
    (h : (line * width + column) * 2 < 2 ^ 31) :
    cellPos width line column = (line * width + column) * 2 := by
  rw [cellPos_eq, asInt_eq (by omega) h]

theorem cellPos_lt (width line column : Int) : cellPos width line column + 1 < 2 ^ 31 := by
  rw [cellPos_eq, asInt, Int.bmod_def]
  split <;> omega

/-- The two bytes of a turn. -/
def cellBytes (v : VideoInfo) (f : FrameT) (fb : Int → UInt8) (line column : Nat) :
    List (Int × UInt8) :=
  let src := cellPos f.width line column
  let dst := cellPos v.width (asInt (f.line + line)) (asInt (f.column + column))
  [(dst, fb src), (dst + 1, fb (src + 1))]

theorem swapCell_eq (v : VideoInfo) (f : FrameT) (fb : Int → UInt8) (line column : Nat)
    (screen : Int → UInt8) :
    swapCell v f fb line column screen = putBytes (cellBytes v f fb line column) screen := by
  simp only [swapCell, writeChar, putBytes, cellBytes, cellPos, List.foldl_cons, List.foldl_nil]

def frameBytes (v : VideoInfo) (f : FrameT) (fb : Int → UInt8) : List (Int × UInt8) :=
  (List.range f.height.toNat).flatMap fun line =>
    (List.range f.width.toNat).flatMap fun column => cellBytes v f fb line column

theorem swapCells_eq (v : VideoInfo) (f : FrameT) (fb screen : Int → UInt8) :
    swapCells v f fb screen = putBytes (frameBytes v f fb) screen := by
  simp only [swapCells, frameBytes, putBytes, List.foldl_flatMap, swapCell_eq]

theorem mem_frameBytes {v : VideoInfo} {f : FrameT} {fb : Int → UInt8} {p : Int × UInt8} :
    p ∈ frameBytes v f fb ↔ ∃ line column : Nat, line < f.height ∧ column < f.width ∧
      p ∈ cellBytes v f fb line column := by
  simp only [frameBytes, List.mem_flatMap, List.mem_range, Int.lt_toNat]
  exact ⟨fun ⟨l, hl, c, hc, h⟩ => ⟨l, c, hl, hc, h⟩, fun ⟨l, c, hl, hc, h⟩ => ⟨l, hl, c, hc, h⟩⟩

/-! ### The overlay -/

def IsInt (x : Int) : Prop := -2 ^ 31 ≤ x ∧ x < 2 ^ 31

instance (x : Int) : Decidable (IsInt x) := inferInstanceAs (Decidable (_ ∧ _))

/-- What `__create_framebuffer` accepts, on a screen whose size are two `int`s. -/
structure Accepted (v : VideoInfo) (f : FrameT) : Prop where
  screen : IsInt v.width ∧ IsInt v.height
  column : IsInt f.column
  line : IsInt f.line
  width : 0 ≤ f.width ∧ f.width ≤ v.width
  height : 0 ≤ f.height ∧ f.height ≤ v.height

def InFrame (f : FrameT) (l c : Int) : Prop := (0 ≤ l ∧ l < f.height) ∧ 0 ≤ c ∧ c < f.width

/-- The number of the screen cell under a cell of the frame. -/
def screenCell (v : VideoInfo) (f : FrameT) (l c : Int) : Int :=
  (f.line + l) * v.width + (f.column + c)

/-- The cells of the frame are on the screen, and its bytes, those with `b` from 0 to 1
in each cell, have replaced the ones there and no others. -/
structure Overlaid (v : VideoInfo) (f : FrameT) (fb screen screen' : Int → UInt8) : Prop where
  inside : ∀ l c, InFrame f l c →
    (0 ≤ f.line + l ∧ f.line + l < v.height) ∧ 0 ≤ f.column + c ∧ f.column + c < v.width
  cell : ∀ l c b, InFrame f l c → 0 ≤ b → b < 2 →
    screen' (screenCell v f l c * 2 + b) = fb ((l * f.width + c) * 2 + b)
  rest : ∀ i, (∀ l c b, InFrame f l c → 0 ≤ b → b < 2 → i ≠ screenCell v f l c * 2 + b) →
    screen' i = screen i

/-- The frame is empty, or it lies on the screen, and the offsets fit an `int`. -/
def OnScreen (v : VideoInfo) (f : FrameT) : Prop :=
  f.width = 0 ∨ f.height = 0 ∨
    ((0 ≤ f.column ∧ f.column + f.width ≤ v.width) ∧ (0 ≤ f.line ∧ f.line + f.height ≤ v.height) ∧
      if Covers v f then v.width * v.height * 2 < 2 ^ 31
      else screenCell v f (f.height - 1) (f.width - 1) * 2 < 2 ^ 31)

instance (v : VideoInfo) (f : FrameT) : Decidable (OnScreen v f) :=
  inferInstanceAs (Decidable (_ ∨ _ ∨ (_ ∧ _) ∧ (_ ∧ _) ∧ ite _ _ _))

variable {v : VideoInfo} {f : FrameT} {fb screen screen' : Int → UInt8} {l c : Int}

/-- Where two cells have one number they are in one place. -/
theorem cell_inj {w a b x y : Int} (hx : 0 ≤ x ∧ x < w) (hy : 0 ≤ y ∧ y < w)
    (h : a * w + x = b * w + y) : a = b ∧ x = y := by
  have hw : w ≠ 0 := by omega
  have ha : (a * w + x) / w = a := by
    rw [Int.add_comm, Int.add_mul_ediv_right _ _ hw, Int.ediv_eq_zero_of_lt hx.1 hx.2, Int.zero_add]
  have hb : (b * w + y) / w = b := by
    rw [Int.add_comm, Int.add_mul_ediv_right _ _ hw, Int.ediv_eq_zero_of_lt hy.1 hy.2, Int.zero_add]
  have hab : a = b := by rw [← ha, ← hb, h]
  subst hab
  exact ⟨rfl, by omega⟩

theorem cell_le {w a b x y : Int} (hw : 0 ≤ w) (hab : a ≤ b) (hxy : x ≤ y) :
    a * w + x ≤ b * w + y :=
  add_le_add (mul_le_mul_of_nonneg_right hab hw) hxy

/-- A frame on a screen where the offsets fit. -/
structure Fitted (v : VideoInfo) (f : FrameT) : Prop where
  ok : Accepted v f
  column : 0 ≤ f.column ∧ f.column + f.width ≤ v.width
  line : 0 ≤ f.line ∧ f.line + f.height ≤ v.height
  fits : ∀ l c, InFrame f l c → screenCell v f l c * 2 < 2 ^ 31

namespace Fitted

theorem framePos (h : Fitted v f) (hin : InFrame f l c) :
    cellPos f.width l c = (l * f.width + c) * 2 := by
  have hfits := h.fits l c hin
  obtain ⟨⟨hl, -⟩, hc, -⟩ := hin
  have hpos : 0 ≤ l * f.width := mul_nonneg hl h.ok.width.1
  have hle : l * f.width ≤ (f.line + l) * v.width :=
    mul_le_mul (by have := h.line.1; omega) h.ok.width.2 h.ok.width.1 (by have := h.line.1; omega)
  have hcol := h.column.1
  unfold screenCell at hfits
  exact cellPos_of_fits (by omega) (by omega)

theorem screenPos (h : Fitted v f) (hin : InFrame f l c) :
    cellPos v.width (asInt (f.line + l)) (asInt (f.column + c)) = screenCell v f l c * 2 := by
  have hfits := h.fits l c hin
  obtain ⟨⟨hl, hlh⟩, hc, hcw⟩ := hin
  obtain ⟨hcol, hcolw⟩ := h.column
  obtain ⟨hline, hlineh⟩ := h.line
  have hW := h.ok.screen.1.2
  have hH := h.ok.screen.2.2
  rw [asInt_eq (by omega) (by omega), asInt_eq (by omega) (by omega)]
  have hpos : 0 ≤ (f.line + l) * v.width := mul_nonneg (by omega) (by omega)
  exact cellPos_of_fits (by omega) hfits

theorem inside (h : Fitted v f) (hin : InFrame f l c) :
    (0 ≤ f.line + l ∧ f.line + l < v.height) ∧ 0 ≤ f.column + c ∧ f.column + c < v.width := by
  obtain ⟨⟨hl, hlh⟩, hc, hcw⟩ := hin
  obtain ⟨hcol, hcolw⟩ := h.column
  obtain ⟨hline, hlineh⟩ := h.line
  omega

/-- The bytes that the loops write. -/
theorem mem_frameBytes (h : Fitted v f) {p : Int × UInt8} : p ∈ frameBytes v f fb ↔
    ∃ l c b, InFrame f l c ∧ (0 ≤ b ∧ b < 2) ∧
      p = (screenCell v f l c * 2 + b, fb ((l * f.width + c) * 2 + b)) := by
  rw [TayHuang.mem_frameBytes]
  constructor
  · rintro ⟨l, c, hl, hc, hp⟩
    have hin : InFrame f l c := ⟨⟨by omega, hl⟩, by omega, hc⟩
    rw [cellBytes, h.framePos hin, h.screenPos hin] at hp
    rcases List.mem_cons.mp hp with rfl | hp
    · exact ⟨l, c, 0, hin, by omega, by simp⟩
    · rw [List.mem_singleton.mp hp]
      exact ⟨l, c, 1, hin, by omega, rfl⟩
  · rintro ⟨l, c, b, hin, hb, rfl⟩
    obtain ⟨i, rfl⟩ := Int.eq_ofNat_of_zero_le hin.1.1
    obtain ⟨j, rfl⟩ := Int.eq_ofNat_of_zero_le hin.2.1
    refine ⟨i, j, hin.1.2, hin.2.2, ?_⟩
    rw [cellBytes, h.framePos hin, h.screenPos hin]
    obtain rfl | rfl : b = 0 ∨ b = 1 := by omega
    · simp
    · simp

theorem overlaid_cells (h : Fitted v f) (fb screen : Int → UInt8) :
    Overlaid v f fb screen (swapCells v f fb screen) := by
  rw [swapCells_eq]
  refine ⟨fun l c hin => h.inside hin, ?_, ?_⟩
  · intro l c b hin hb0 hb2
    refine putBytes_of_mem _ ?_ ⟨_, h.mem_frameBytes.mpr ⟨l, c, b, hin, ⟨hb0, hb2⟩, rfl⟩, rfl⟩
    intro p hp hpos
    obtain ⟨l', c', b', hin', hb', rfl⟩ := h.mem_frameBytes.mp hp
    have hb : b' = b := by
      simp only at hpos
      omega
    have hcell : screenCell v f l' c' = screenCell v f l c := by
      simp only at hpos
      omega
    obtain ⟨hl, hc⟩ := cell_inj (h.inside hin').2 (h.inside hin).2 hcell
    obtain rfl : l' = l := by omega
    obtain rfl : c' = c := by omega
    rw [hb]
  · intro i hi
    refine putBytes_of_notMem _ fun p hp => ?_
    obtain ⟨l, c, b, hin, hb, rfl⟩ := h.mem_frameBytes.mp hp
    exact (hi l c b hin hb.1 hb.2).symm

end Fitted

/-- What an overlay leaves is decided by the frame and the screen before it. -/
theorem Overlaid.unique {other : Int → UInt8} (h : Overlaid v f fb screen screen')
    (h' : Overlaid v f fb screen other) : screen' = other := by
  funext i
  by_cases hno : ∀ l c b, InFrame f l c → 0 ≤ b → b < 2 → i ≠ screenCell v f l c * 2 + b
  · rw [h.rest i hno, h'.rest i hno]
  · push Not at hno
    obtain ⟨l, c, b, hin, hb0, hb2, rfl⟩ := hno
    rw [h.cell l c b hin hb0 hb2, h'.cell l c b hin hb0 hb2]

/-- A byte of the screen belongs to one cell. -/
theorem exists_cell {i : Int} (h0 : 0 ≤ i) (h : i < v.width * v.height * 2) (hw : 0 ≤ v.width) :
    ∃ l c b, (0 ≤ l ∧ l < v.height) ∧ (0 ≤ c ∧ c < v.width) ∧ (0 ≤ b ∧ b < 2) ∧
      i = (l * v.width + c) * 2 + b := by
  have hne : v.width ≠ 0 := by
    rintro hz
    rw [hz, Int.zero_mul, Int.zero_mul] at h
    omega
  have hpos : 0 < v.width := by omega
  refine ⟨i / 2 / v.width, i / 2 % v.width, i % 2, ⟨?_, ?_⟩, ⟨Int.emod_nonneg _ hne,
    Int.emod_lt_of_pos _ hpos⟩, by omega, ?_⟩
  · exact Int.ediv_nonneg (by omega) hw
  · rw [Int.ediv_lt_iff_lt_mul hpos, Int.mul_comm]
    omega
  · rw [Int.ediv_mul_add_emod]
    omega

theorem swapWhole_eq (hw : f.width = v.width) (hh : f.height = v.height)
    (h0 : 0 ≤ v.width * v.height) (h : v.width * v.height * 2 < 2 ^ 31) :
    swapWhole f fb screen = some (memcpy screen fb (v.width * v.height * 2).toNat) := by
  have hsz : asInt (asInt (f.width * f.height) * 2) = v.width * v.height * 2 := by
    rw [hw, hh, asInt_eq (n := v.width * v.height) (by omega) (by omega), asInt_eq (by omega) h]
  rw [swapWhole]
  simp only [hsz]
  rw [if_neg (by omega)]

theorem covers_cell (h : Covers v f) : screenCell v f l c = l * f.width + c := by
  obtain ⟨hc, hl, hw, -⟩ := h
  rw [screenCell, hc, hl, hw, Int.zero_add, Int.zero_add]

theorem overlaid_memcpy (h : Covers v f) (hw : 0 ≤ v.width) (h0 : 0 ≤ v.width * v.height) :
    Overlaid v f fb screen (memcpy screen fb (v.width * v.height * 2).toNat) := by
  obtain ⟨hcol, hline, hwidth, hheight⟩ := h
  have hcell : ∀ l c b, InFrame f l c → 0 ≤ b → b < 2 →
      0 ≤ (l * f.width + c) * 2 + b ∧ (l * f.width + c) * 2 + b < v.width * v.height * 2 := by
    rintro l c b ⟨⟨hl, hlh⟩, hc, hcw⟩ hb0 hb2
    have hpos : 0 ≤ l * f.width := mul_nonneg hl (by omega)
    have hle : (l + 1) * f.width ≤ v.height * f.width :=
      mul_le_mul_of_nonneg_right (by omega) (by omega)
    rw [Int.add_mul, Int.one_mul, Int.mul_comm v.height, hwidth] at hle
    rw [hwidth] at hpos hcw ⊢
    omega
  refine ⟨?_, ?_, ?_⟩
  · rintro l c ⟨⟨hl, hlh⟩, hc, hcw⟩
    omega
  · intro l c b hin hb0 hb2
    rw [covers_cell ⟨hcol, hline, hwidth, hheight⟩]
    obtain ⟨h1, h2⟩ := hcell l c b hin hb0 hb2
    exact if_pos ⟨h1, by omega⟩
  · intro i hno
    refine if_neg fun hi => ?_
    obtain ⟨l, c, b, hl, hc, hb, rfl⟩ := exists_cell hi.1 (by omega) hw
    refine absurd ?_ (hno l c b ⟨by omega, by omega⟩ hb.1 hb.2)
    rw [covers_cell ⟨hcol, hline, hwidth, hheight⟩, hwidth]

theorem overlaid_empty (h : f.width = 0 ∨ f.height = 0) :
    Overlaid v f fb screen screen := by
  have hno : ∀ l c, ¬ InFrame f l c := by
    rintro l c ⟨hl, hc⟩
    omega
  exact ⟨fun l c hin => absurd hin (hno l c), fun l c b hin => absurd hin (hno l c), fun _ _ => rfl⟩

theorem swapCells_empty (h : f.width = 0 ∨ f.height = 0) : swapCells v f fb screen = screen := by
  have hnil : frameBytes v f fb = [] := by
    rcases h with h | h
    · simp [frameBytes, h]
    · simp [frameBytes, h]
  rw [swapCells_eq, hnil]
  rfl

theorem swapWhole_empty (h : f.width = 0 ∨ f.height = 0) : swapWhole f fb screen = some screen := by
  have hprod : f.width * f.height = 0 := Int.mul_eq_zero.mpr h
  have hsz : asInt (asInt 0 * 2) = 0 := by decide
  rw [swapWhole, hprod]
  simp only [hsz]
  refine congrArg some (funext fun i => if_neg ?_)
  rintro ⟨h0, h1⟩
  simp only [Int.toNat_zero] at h1
  omega

theorem swapFrame_empty (h : f.width = 0 ∨ f.height = 0) : swapFrame v f fb screen = some screen := by
  rw [swapFrame, swapCells_empty h, swapWhole_empty h, ite_self]

/-- What the two ways of swapping are to do, whatever the contents. -/
def SwapsExactly (v : VideoInfo) (f : FrameT) : Prop :=
  ∀ fb screen, (∃ screen', swapFrame v f fb screen = some screen' ∧ Overlaid v f fb screen screen') ∧
    (Covers v f → swapWhole f fb screen = some (swapCells v f fb screen))

theorem onScreen_of_swaps (ha : Accepted v f) (h : SwapsExactly v f) : OnScreen v f := by
  by_cases hw0 : f.width = 0
  · exact Or.inl hw0
  by_cases hh0 : f.height = 0
  · exact Or.inr (Or.inl hh0)
  have hw := ha.width
  have hh := ha.height
  have hfirst : InFrame f 0 0 := ⟨⟨by omega, by omega⟩, by omega, by omega⟩
  have hlast : InFrame f (f.height - 1) (f.width - 1) := ⟨⟨by omega, by omega⟩, by omega, by omega⟩
  -- a blank screen under a frame of ones
  obtain ⟨⟨screen', hswap, hover⟩, -⟩ := h (fun _ => 1) (fun _ => 0)
  have hf := hover.inside 0 0 hfirst
  have hl := hover.inside _ _ hlast
  refine Or.inr (Or.inr ⟨by omega, by omega, ?_⟩)
  have hone := hover.cell _ _ 1 hlast (by decide) (by decide)
  by_cases hc : Covers v f
  · rw [if_pos hc]
    by_contra hbig
    rw [swapFrame, if_pos hc, swapWhole] at hswap
    have hsz : asInt (asInt (f.width * f.height) * 2) < 2 ^ 31 := by
      have hlt := cellPos_lt f.height f.width 0
      rw [cellPos_eq, Int.add_zero] at hlt
      have heq : asInt (asInt (f.width * f.height) * 2) = asInt (f.width * f.height * 2) := by
        simp only [asInt, Int.bmod_mul_bmod]
      omega
    generalize asInt (asInt (f.width * f.height) * 2) = sz at hswap hsz
    by_cases hneg : sz < 0
    · simp [hneg] at hswap
    · rw [if_neg hneg] at hswap
      obtain rfl := Option.some.inj hswap
      have hpos : screenCell v f (f.height - 1) (f.width - 1) = v.width * v.height - 1 := by
        rw [covers_cell hc, hc.2.2.1, hc.2.2.2]
        ring
      rw [hpos] at hone
      refine absurd hone ?_
      rw [memcpy, if_neg (by omega)]
      decide
  · rw [if_neg hc]
    by_contra hbig
    rw [swapFrame, if_neg hc] at hswap
    obtain rfl := Option.some.inj hswap
    refine absurd hone ?_
    rw [swapCells_eq, putBytes_of_notMem]
    · decide
    · intro p hp
      obtain ⟨l, c, -, -, hp⟩ := mem_frameBytes.mp hp
      have hlt := cellPos_lt v.width (asInt (f.line + l)) (asInt (f.column + c))
      simp only [cellBytes, List.mem_cons, List.not_mem_nil, or_false] at hp
      rcases hp with rfl | rfl
      · simp only
        omega
      · simp only
        omega

theorem swaps_of_onScreen (ha : Accepted v f) (h : OnScreen v f) : SwapsExactly v f := by
  intro fb screen
  have hw := ha.width
  have hh := ha.height
  have hprod : 0 ≤ v.width * v.height := mul_nonneg (by omega) (by omega)
  by_cases hempty : f.width = 0 ∨ f.height = 0
  · refine ⟨⟨screen, swapFrame_empty hempty, overlaid_empty hempty⟩, fun hc => ?_⟩
    rw [swapWhole_empty hempty, swapCells_empty hempty]
  · obtain ⟨hcol, hline, hfit⟩ : (0 ≤ f.column ∧ f.column + f.width ≤ v.width) ∧
        (0 ≤ f.line ∧ f.line + f.height ≤ v.height) ∧
        if Covers v f then v.width * v.height * 2 < 2 ^ 31
        else screenCell v f (f.height - 1) (f.width - 1) * 2 < 2 ^ 31 := by
      rcases h with h | h | h
      · exact absurd (Or.inl h) hempty
      · exact absurd (Or.inr h) hempty
      · exact h
    have hlast : ∀ l c, InFrame f l c →
        screenCell v f l c ≤ screenCell v f (f.height - 1) (f.width - 1) := by
      rintro l c ⟨hl, hc⟩
      exact cell_le (by omega) (by omega) (by omega)
    have hfitted : Fitted v f := by
      refine ⟨ha, hcol, hline, fun l c hin => ?_⟩
      have hle := hlast l c hin
      split at hfit
      · rename_i hc
        have hpos : screenCell v f (f.height - 1) (f.width - 1) = v.width * v.height - 1 := by
          rw [covers_cell hc, hc.2.2.1, hc.2.2.2]
          ring
        omega
      · omega
    have hcells := hfitted.overlaid_cells fb screen
    by_cases hc : Covers v f
    · rw [if_pos hc] at hfit
      have hwhole : swapWhole f fb screen =
          some (memcpy screen fb (v.width * v.height * 2).toNat) :=
        swapWhole_eq hc.2.2.1 hc.2.2.2 hprod hfit
      have hover : Overlaid v f fb screen (memcpy screen fb (v.width * v.height * 2).toNat) :=
        overlaid_memcpy hc (by omega) hprod
      refine ⟨⟨_, by rw [swapFrame, if_pos hc, hwhole], hover⟩, fun _ => ?_⟩
      rw [hwhole, hover.unique hcells]
    · exact ⟨⟨_, by rw [swapFrame, if_neg hc], hcells⟩, fun hc' => absurd hc' hc⟩

/-- A frame that was accepted is an exact overlay if and only if it lies on the screen. -/
theorem swap_overlays {s : FrameTable} {id : Int} {p : Nat} (ha : Accepted v (s.frame p))
    (hget : Settles (fun fuel => getFramebuffer fuel s id) (some p)) :
    (∀ mem screen, (∃ screen', Settles (fun fuel => swapFramebuffer fuel v s id mem screen) (some screen') ∧
        Overlaid v (s.frame p) (mem (s.frame p).framebuffer) screen screen') ∧
      (Covers v (s.frame p) → swapWhole (s.frame p) (mem (s.frame p).framebuffer) screen =
        some (swapCells v (s.frame p) (mem (s.frame p).framebuffer) screen))) ↔
      OnScreen v (s.frame p) := by
  have hset : ∀ mem screen, Settles (fun fuel => swapFramebuffer fuel v s id mem screen)
      (swapFrame v (s.frame p) (mem (s.frame p).framebuffer) screen) := fun mem screen =>
    hget.map fun p => p.bind fun p => swapFrame v (s.frame p) (mem (s.frame p).framebuffer) screen
  constructor
  · intro h
    refine onScreen_of_swaps ha fun fb screen => ?_
    obtain ⟨⟨screen', hs, hover⟩, hpaths⟩ := h (fun _ => fb) screen
    exact ⟨⟨screen', (hset _ _).eq hs, hover⟩, hpaths⟩
  · intro h mem screen
    obtain ⟨⟨screen', hs, hover⟩, hpaths⟩ := swaps_of_onScreen ha h (mem (s.frame p).framebuffer) screen
    exact ⟨⟨screen', hs ▸ hset mem screen, hover⟩, hpaths⟩

/-- A table with one frame. -/
def oneFrame (f : FrameT) : FrameTable :=
  ⟨some 16, fun _ => ⟨0, 48, none⟩, fun _ => f⟩

theorem oneFrame_get (f : FrameT) :
    Settles (fun fuel => getFramebuffer fuel (oneFrame f) 0) (some 48) := by
  have hlist : FrameList (oneFrame f) [⟨16, 0, 48⟩] := ⟨rfl, ⟨rfl, trivial⟩, by simp⟩
  exact getFramebuffer_settles hlist 0

/-- A frame of 10 by 5 cells in the middle of the screen, over zeros. -/
theorem swap_overlays_middle : ∃ screen',
    Settles (fun fuel => swapFramebuffer fuel ⟨80, 25, false⟩ (oneFrame ⟨4096, 2, 3, 10, 5⟩) 0
      (fun _ _ => 1) fun _ => 0) (some screen') ∧
    Overlaid ⟨80, 25, false⟩ ⟨4096, 2, 3, 10, 5⟩ (fun _ => 1) (fun _ => 0) screen' :=
  (((swap_overlays (s := oneFrame ⟨4096, 2, 3, 10, 5⟩) (v := ⟨80, 25, false⟩) (p := 48)
    ⟨by decide, by decide, by decide, by decide, by decide⟩ (oneFrame_get _)).mpr (by decide))
      (fun _ _ => 1) fun _ => 0).1

/-- Two cells accepted at the end of a line: the second one is drawn at the start of
the next line. -/
theorem swap_off_screen :
    createFramebuffer (fun _ => 4096) (fun _ _ _ => 8192) 0 ⟨80, 25, false⟩ ⟨emptyTable, 0⟩ 7 79 0 2 1
      (some 16) (some 48) ≠ some (some (⟨emptyTable, 0⟩, 0, -1)) ∧
    (∃ screen', swapFrame ⟨80, 25, false⟩ ⟨4096, 79, 0, 2, 1⟩ (fun _ => 1) (fun _ => 0) =
        some screen' ∧ screen' 160 = 1 ∧
      ¬ Overlaid ⟨80, 25, false⟩ ⟨4096, 79, 0, 2, 1⟩ (fun _ => 1) (fun _ => 0) screen') := by
  refine ⟨?_, _, rfl, by decide +kernel, fun h => ?_⟩
  · intro h
    have hid := congrArg (fun r => r.map fun r => r.map fun r => r.2.2) h
    exact absurd hid (by decide)
  · have hin := h.inside 0 1 ⟨by decide, by decide⟩
    revert hin
    decide

end TayHuang
