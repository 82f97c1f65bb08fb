import Mathlib.Tactic.Ring
import Micro.Term.Ansi

/-!
# The two terminals

The framebuffer terminal draws cells that it keeps in an array of `rows * cols`; the VGA
terminal writes its cells straight to the adapter's buffer of 80 columns and 25 rows.  In
both the cursor is a pair of `unsigned int`, and every cell is reached as
`cy * cols + cx`.  A screen here is the cursor and the list of the cells written so far;
what the cells hold and the pixels drawn from them are left out, as is the redrawing loop
of `update`, which visits the cells below `rows * cols`.
-/

namespace Micro.Term

open Lib List

variable {c : UInt8}

/-- The cursor and the cells written so far. -/
structure Screen where
  cx : Nat := 0
  cy : Nat := 0
  writes : List Nat := []
deriving DecidableEq, Repr

variable {screen : Screen}

/-- The index of a cell, in `unsigned int` arithmetic. -/
def Geometry.cellat (geometry : Geometry) (x y : Nat) : Nat :=
  (y * geometry.cols + x) % 2 ^ 32

/-- The cells `scroll` writes: every row but the last receives the next one, and the last
is cleared. -/
def Geometry.scrolled (geometry : Geometry) : List Nat :=
  (List.range (geometry.rows - 1)).flatMap
      (fun row => List.range' (row * geometry.cols) geometry.cols) ++
    List.range' ((geometry.rows - 1) * geometry.cols) geometry.cols

namespace Screen

section Operations

variable (geometry : Geometry)

/-- `scroll_down` of the framebuffer terminal and `scroll` of the VGA terminal. -/
def scroll (screen : Screen) : Screen :=
  { screen with
    cy := geometry.rows - 1
    writes := screen.writes ++ geometry.scrolled }

/-- `newline`, the same in both terminals. -/
def newline (screen : Screen) : Screen :=
  let below := { screen with cx := 0, cy := (screen.cy + 1) % 2 ^ 32 }
  if below.cy = geometry.rows then below.scroll geometry else below

/-- Write the cell under the cursor. -/
def setcell (screen : Screen) : Screen :=
  { screen with writes := screen.writes ++ [geometry.cellat screen.cx screen.cy] }

/-- `cx++`, with a new line at the end of the row. -/
def advance (screen : Screen) : Screen :=
  let right := { screen with cx := (screen.cx + 1) % 2 ^ 32 }
  if right.cx = geometry.cols then right.newline geometry else right

end Operations

/-- `cx--`, which from 0 goes to the largest `unsigned int`. -/
def retreat (screen : Screen) : Screen :=
  { screen with cx := if screen.cx = 0 then 2 ^ 32 - 1 else screen.cx - 1 }

/-- The cursor as the `int` variables of `gcurspos` receive it. -/
def position (screen : Screen) : Int × Int := (wrapInt screen.cx, wrapInt screen.cy)

/-- The cursor as `scurspos` stores its `int` arguments. -/
def moveTo (screen : Screen) (x y : Int) : Screen :=
  { screen with cx := (x % 2 ^ 32).toNat, cy := (y % 2 ^ 32).toNat }

/-- The cursor is on the screen, and so is every cell written. -/
structure Inside (geometry : Geometry) (screen : Screen) : Prop where
  cx_lt : screen.cx < geometry.cols
  cy_lt : screen.cy < geometry.rows
  writes_lt : ∀ cell ∈ screen.writes, cell < geometry.rows * geometry.cols

end Screen

/-! ### The framebuffer terminal -/

/-- The resolution `FBIOGINFO` reports, at least a cell of 8 by 16 pixels. -/
structure FbInfo where
  xres : Nat
  yres : Nat
  xresPos : 8 ≤ xres
  yresPos : 16 ≤ yres

/-- `rows` and `cols`, as `main` computes them. -/
def FbInfo.geometry (info : FbInfo) : Geometry where
  rows := info.yres / 16
  cols := info.xres / 8
  rowsPos := (Nat.one_le_div_iff (by decide)).mpr info.yresPos
  colsPos := (Nat.one_le_div_iff (by decide)).mpr info.xresPos

/-- The screen with the position `draw_cursor` last drew the cursor at. -/
structure FbScreen extends Screen where
  lx : Nat := 0
  ly : Nat := 0
deriving DecidableEq, Repr

namespace FbScreen

variable (info : FbInfo)

/-- Draw the cursor and mark the cell it was drawn over before as dirty. -/
def drawCursor (screen : FbScreen) : FbScreen :=
  { screen with
    writes := screen.writes ++ [info.geometry.cellat screen.lx screen.ly]
    lx := screen.cx
    ly := screen.cy }

def newline (screen : FbScreen) : FbScreen :=
  { screen with toScreen := screen.toScreen.newline info.geometry }

section

variable (screen : FbScreen)

def tab : FbScreen :=
  let moved := { screen with cx := (screen.cx + (4 - screen.cx % 4)) % 2 ^ 32 }
  drawCursor info (if info.xres / 8 ≤ moved.cx then moved.newline info else moved)

def backspace : FbScreen :=
  drawCursor info { screen with toScreen := screen.toScreen.retreat.setcell info.geometry }

/-- `c` is a signed `char`: the bytes from `0x80` on are below 32 too. -/
def putch (c : UInt8) : FbScreen :=
  if c = 0x0a then (screen.newline info).drawCursor info
  else if c = 0x09 then screen.tab info
  else if c = 0x08 then screen.backspace info
  else if c < 32 ∨ 0x80 ≤ c then screen
  else
    drawCursor info { screen with
        toScreen := (screen.toScreen.setcell info.geometry).advance info.geometry }

def scurspos (x y : Int) : FbScreen :=
  drawCursor info { screen with toScreen := screen.toScreen.moveTo x y }

/-- Clear the cells from one position to another, in a loop over `size_t`. -/
def clrsect (fx fy tx ty : Int) : FbScreen :=
  let first := ofSigned (wrapInt (fx + fy * info.geometry.cols))
  let last := ofSigned (wrapInt (tx + ty * info.geometry.cols))
  drawCursor info { screen with writes := screen.writes ++ List.range' first (last - first) }

end

end FbScreen

def fbTerm (info : FbInfo) : Terminal FbScreen where
  putch := .putch info
  gcurspos screen := screen.toScreen.position
  scurspos := .scurspos info
  clrsect := .clrsect info
  update := .drawCursor info
  wsCol := info.geometry.cols % 2 ^ 16
  wsRow := info.geometry.rows % 2 ^ 16

/-! ### The VGA terminal -/

/-- `width` and `height`. -/
def vgaGeometry : Geometry where
  rows := 25
  cols := 80
  rowsPos := by decide
  colsPos := by decide

namespace Screen

/-- The last part of the VGA terminal's `putch`: write a character and move on. -/
def vgaWrite (screen : Screen) : Screen := (screen.setcell vgaGeometry).advance vgaGeometry

/-- `cx--; putch(' '); cx--;` -/
def vgaBackspace (screen : Screen) : Screen := screen.retreat.vgaWrite.retreat

def vgaPutch (screen : Screen) (c : UInt8) : Screen :=
  if c = 0x0a then screen.newline vgaGeometry
  else if c = 0x08 then screen.vgaBackspace
  else screen.vgaWrite

/-- Clear `ty * width + tx` cells from the first position on, with `memset`. -/
def vgaClrsect (screen : Screen) (fx fy tx ty : Int) : Screen :=
  { screen with
    writes := screen.writes ++
      List.range' (ofSigned (wrapInt (fy * vgaGeometry.cols + fx)))
        (ofSigned (wrapInt (ty * vgaGeometry.cols + tx))) }

end Screen

/-- The VGA terminal; `update_curs` only moves the hardware cursor. -/
def vgaTerm : Terminal Screen where
  putch := Screen.vgaPutch
  gcurspos := Screen.position
  scurspos := Screen.moveTo
  clrsect := Screen.vgaClrsect
  update := id
  wsCol := vgaGeometry.cols
  wsRow := vgaGeometry.rows

/-! ### The cursor stays on the screen -/

namespace Geometry

variable {geometry : Geometry}

theorem cellat_lt {x y : Nat} (column : x < geometry.cols)
    (row : y < geometry.rows) : geometry.cellat x y < geometry.rows * geometry.cols := by
  have cells : (y + 1) * geometry.cols ≤ geometry.rows * geometry.cols := Nat.mul_le_mul_right _ row
  rw [Nat.succ_mul] at cells
  exact Nat.lt_of_le_of_lt (Nat.mod_le _ _) (by omega)

theorem scrolled_lt {cell : Nat} (scrolled : cell ∈ geometry.scrolled) :
    cell < geometry.rows * geometry.cols := by
  have inRow : ∀ row < geometry.rows, cell ∈ range' (row * geometry.cols) geometry.cols →
      cell < geometry.rows * geometry.cols := by
    intro row below written
    have cells : (row + 1) * geometry.cols ≤ geometry.rows * geometry.cols :=
      Nat.mul_le_mul_right _ below
    rw [Nat.succ_mul] at cells
    rw [mem_range'_1] at written
    exact Nat.lt_of_lt_of_le written.2 cells
  have pos := geometry.rowsPos
  rcases mem_append.mp scrolled with copied | cleared
  · rcases mem_flatMap.mp copied with ⟨row, ranged, written⟩
    exact inRow row (by have := mem_range.mp ranged; omega) written
  · exact inRow _ (by omega) cleared

end Geometry

namespace Screen.Inside

variable {geometry : Geometry}

theorem newline (row : screen.cy < geometry.rows) (fits : geometry.Fits)
    (below : ∀ cell ∈ screen.writes, cell < geometry.rows * geometry.cols) :
    (screen.newline geometry).Inside geometry := by
  have rowsLt := fits.rows_lt
  have next : (screen.cy + 1) % 2 ^ 32 = screen.cy + 1 := Nat.mod_eq_of_lt (by omega)
  simp only [Screen.newline, next]
  split
  · constructor
    · exact geometry.colsPos
    · exact Nat.sub_lt geometry.rowsPos Nat.one_pos
    · exact fun cell mem =>
        (mem_append.mp mem).elim (below cell) Geometry.scrolled_lt
  · constructor
    · exact geometry.colsPos
    · change screen.cy + 1 < geometry.rows
      omega
    · exact below

section

variable (inside : screen.Inside geometry)
include inside

theorem written {cells : List Nat} (below : ∀ cell ∈ cells, cell < geometry.rows * geometry.cols) :
    Inside geometry { screen with writes := screen.writes ++ cells } where
  cx_lt := inside.cx_lt
  cy_lt := inside.cy_lt
  writes_lt := fun cell mem =>
    (mem_append.mp mem).elim (inside.writes_lt cell) (below cell)

theorem setcell : (screen.setcell geometry).Inside geometry := by
  apply inside.written
  intro _ mem
  rw [mem_singleton.mp mem]
  exact Geometry.cellat_lt inside.cx_lt inside.cy_lt

theorem advance (fits : geometry.Fits) : (screen.advance geometry).Inside geometry := by
  have colsLt := fits.cols_lt
  have column := inside.cx_lt
  have next : (screen.cx + 1) % 2 ^ 32 = screen.cx + 1 := Nat.mod_eq_of_lt (by omega)
  simp only [Screen.advance, next]
  split
  · apply newline inside.cy_lt fits inside.writes_lt
  · constructor
    · change screen.cx + 1 < geometry.cols
      omega
    · exact inside.cy_lt
    · exact inside.writes_lt

end

theorem retreat_cx (pos : 0 < screen.cx) : screen.retreat.cx = screen.cx - 1 :=
  if_neg (Nat.ne_of_gt pos)

section

variable (inside : screen.Inside geometry)
include inside

theorem retreat (pos : 0 < screen.cx) : screen.retreat.Inside geometry := by
  have column := inside.cx_lt
  constructor
  · rw [retreat_cx pos]
    omega
  · simpa only [Screen.retreat] using inside.cy_lt
  · simpa only [Screen.retreat] using inside.writes_lt

theorem moveTo {x y : Int} (xLow : 0 ≤ x) (xHigh : x < geometry.cols) (yLow : 0 ≤ y)
    (yHigh : y < geometry.rows) : (screen.moveTo x y).Inside geometry := by
  constructor
  · change (x % 2 ^ 32).toNat < geometry.cols
    omega
  · change (y % 2 ^ 32).toNat < geometry.rows
    omega
  · exact inside.writes_lt

variable (fits : geometry.Fits)
include fits

theorem position_eq : screen.position = ((screen.cx : Int), (screen.cy : Int)) := by
  have colsLt := fits.cols_lt
  have rowsLt := fits.rows_lt
  have column := inside.cx_lt
  have row := inside.cy_lt
  simp only [position]
  rw [wrapInt_of_range (by omega) (by omega), wrapInt_of_range (by omega) (by omega)]

theorem column : 0 ≤ screen.position.1 ∧ screen.position.1 < geometry.cols := by
  rw [inside.position_eq fits]
  exact ⟨Int.natCast_nonneg _, Int.ofNat_lt.mpr inside.cx_lt⟩

theorem row : 0 ≤ screen.position.2 ∧ screen.position.2 < geometry.rows := by
  rw [inside.position_eq fits]
  exact ⟨Int.natCast_nonneg _, Int.ofNat_lt.mpr inside.cy_lt⟩

end

theorem corner : Inside geometry {} where
  cx_lt := geometry.colsPos
  cy_lt := geometry.rowsPos
  writes_lt := fun _ mem => absurd mem not_mem_nil

theorem cleared (fits : geometry.Fits) :
    ofSigned (wrapInt (((geometry.cols : Int) - 1) + ((geometry.rows : Int) - 1) * geometry.cols)) <
      geometry.rows * geometry.cols := by
  have cells := fits.cells_lt
  have rowsPos := geometry.rowsPos
  have colsPos := geometry.colsPos
  have last : ((geometry.cols : Int) - 1) + ((geometry.rows : Int) - 1) * geometry.cols =
      ((geometry.rows * geometry.cols - 1 : Nat) : Int) := by
    have pos := Nat.mul_pos rowsPos colsPos
    push_cast [pos]
    ring
  rw [last, wrapInt_of_range (by omega) (by omega), ofSigned_natCast (by omega)]
  exact Nat.sub_lt (Nat.mul_pos rowsPos colsPos) Nat.one_pos

end Screen.Inside

/-- The framebuffer terminal's screen and the cursor it last drew are inside. -/
structure FbScreen.Inside (info : FbInfo) (fb : FbScreen) : Prop where
  screen : fb.toScreen.Inside info.geometry
  lx_lt : fb.lx < info.geometry.cols
  ly_lt : fb.ly < info.geometry.rows

namespace FbScreen.Inside

variable {info : FbInfo} {fb : FbScreen}

theorem drawCursor (screen : fb.toScreen.Inside info.geometry) (column : fb.lx < info.geometry.cols)
    (row : fb.ly < info.geometry.rows) : (fb.drawCursor info).Inside info := by
  constructor
  · apply screen.written
    intro _ mem
    rw [mem_singleton.mp mem]
    exact Geometry.cellat_lt column row
  · exact screen.cx_lt
  · exact screen.cy_lt

variable (inside : fb.Inside info)
include inside

theorem redrawn (within : screen.Inside info.geometry) :
    (FbScreen.drawCursor info { fb with toScreen := screen }).Inside info :=
  drawCursor within inside.lx_lt inside.ly_lt

theorem backspace (pos : 0 < fb.cx) : (fb.backspace info).Inside info :=
  inside.redrawn (inside.screen.retreat pos).setcell

variable (fits : info.geometry.Fits)
include fits

theorem newline : ((fb.newline info).drawCursor info).Inside info :=
  inside.redrawn (Screen.Inside.newline inside.screen.cy_lt fits inside.screen.writes_lt)

theorem tab : (fb.tab info).Inside info := by
  simp only [FbScreen.tab]
  split
  · apply inside.redrawn
    exact .newline inside.screen.cy_lt fits inside.screen.writes_lt
  · rename_i within
    apply inside.redrawn
    constructor
    · exact Nat.lt_of_not_le within
    · exact inside.screen.cy_lt
    · exact inside.screen.writes_lt

theorem putch (pos : c = 0x08 → 0 < fb.cx) : (fb.putch info c).Inside info := by
  simp only [FbScreen.putch]
  split_ifs with _ _ isBackspace
  · exact inside.newline fits
  · exact inside.tab fits
  · exact inside.backspace (pos isBackspace)
  · exact inside
  · apply inside.redrawn
    exact (inside.screen.setcell).advance fits

theorem clrsect :
    (fb.clrsect info 0 0 ((info.geometry.cols : Int) - 1)
      ((info.geometry.rows : Int) - 1)).Inside info := by
  have last := Screen.Inside.cleared fits
  apply inside.redrawn
  apply inside.screen.written
  intro _ mem
  rw [mem_range'_1] at mem
  omega

end FbScreen.Inside

theorem fbTerm_keeps {info : FbInfo} (fits : info.geometry.Fits) :
    Keeps (fbTerm info) info.geometry (FbScreen.Inside info) where
  column := fun fb inside => inside.screen.column fits
  row := fun fb inside => inside.screen.row fits
  putch := fun fb c inside pos => by
    simp only [fbTerm, inside.screen.position_eq fits] at pos
    exact inside.putch fits fun isBackspace => Int.natCast_pos.mp (pos isBackspace)
  scurspos := fun fb x y inside xLow xHigh yLow yHigh =>
    inside.redrawn (inside.screen.moveTo xLow xHigh yLow yHigh)
  clrsect := fun fb inside => by
    have wsCol : (fbTerm info).wsCol = info.geometry.cols := Nat.mod_eq_of_lt fits.cols_lt
    have wsRow : (fbTerm info).wsRow = info.geometry.rows := Nat.mod_eq_of_lt fits.rows_lt
    rw [wsCol, wsRow]
    exact inside.clrsect fits
  update := fun fb inside => inside.redrawn inside.screen

theorem vgaGeometry_fits : vgaGeometry.Fits := by
  constructor <;> decide

namespace Screen.Inside

variable (inside : screen.Inside vgaGeometry)
include inside

theorem vgaWrite : screen.vgaWrite.Inside vgaGeometry := (inside.setcell).advance vgaGeometry_fits

theorem vgaWrite_retreat_cx (pos : 0 < screen.cx) : screen.retreat.vgaWrite.cx = screen.cx := by
  have column : screen.cx < 80 := inside.cx_lt
  have moved := retreat_cx pos
  have back : (screen.retreat.cx + 1) % 2 ^ 32 = screen.cx := by omega
  simp only [Screen.vgaWrite, Screen.setcell, Screen.advance, back]
  rw [if_neg (Nat.ne_of_lt inside.cx_lt)]

theorem vgaBackspace (pos : 0 < screen.cx) : screen.vgaBackspace.Inside vgaGeometry := by
  apply (inside.retreat pos).vgaWrite.retreat
  rw [vgaWrite_retreat_cx inside pos]
  exact pos

theorem vgaPutch (pos : c = 0x08 → 0 < screen.cx) : (screen.vgaPutch c).Inside vgaGeometry := by
  simp only [Screen.vgaPutch]
  split_ifs with _ isBackspace
  · exact newline inside.cy_lt vgaGeometry_fits inside.writes_lt
  · exact inside.vgaBackspace (pos isBackspace)
  · exact inside.vgaWrite

end Screen.Inside

theorem vgaTerm_keeps : Keeps vgaTerm vgaGeometry (Screen.Inside vgaGeometry) where
  column := fun screen inside => inside.column vgaGeometry_fits
  row := fun screen inside => inside.row vgaGeometry_fits
  putch := fun screen c inside pos => by
    simp only [vgaTerm, inside.position_eq vgaGeometry_fits] at pos
    exact inside.vgaPutch fun isBackspace => Int.natCast_pos.mp (pos isBackspace)
  scurspos := fun screen x y inside xLow xHigh yLow yHigh =>
    inside.moveTo xLow xHigh yLow yHigh
  clrsect := fun screen inside => by
    apply inside.written
    intro _ mem
    rw [mem_range'_1] at mem
    exact Nat.lt_of_lt_of_le mem.2 (by decide)
  update := fun screen inside => inside

/-- Both terminals start in the upper left corner, outside any sequence. -/
def fbStart : Session FbScreen := ⟨.text, {}⟩

def vgaStart : Session Screen := ⟨.text, {}⟩

/-- A framebuffer of 640 by 480 pixels. -/
def smallFb : FbInfo where
  xres := 640
  yres := 480
  xresPos := by decide
  yresPos := by decide

/-- Fed a stream of bytes that never steps left of the first column, never moves past the
last column or row and never has a sequence longer than its buffer, both terminals read
it to its end with the cursor on the screen and every cell written inside the array. -/
theorem cursor_stays_inside (info : FbInfo) (fits : info.geometry.Fits) (bytes : List UInt8) :
    (Permitted (feed (fbTerm info)) (Careful (fbTerm info) info.geometry) fbStart bytes →
      ∃ final, drive (feed (fbTerm info)) fbStart bytes = some final ∧
        final.screen.toScreen.Inside info.geometry) ∧
    (Permitted (feed vgaTerm) (Careful vgaTerm vgaGeometry) vgaStart bytes →
      ∃ final, drive (feed vgaTerm) vgaStart bytes = some final ∧
        final.screen.Inside vgaGeometry) := by
  constructor
  · intro careful
    have corner : FbScreen.Inside info fbStart.screen :=
      ⟨.corner, info.geometry.colsPos, info.geometry.rowsPos⟩
    rcases (fbTerm_keeps fits).stream_good fits bytes fbStart corner careful with
      ⟨final, driven, inside⟩
    exact ⟨final, driven, inside.screen⟩
  · intro careful
    exact vgaTerm_keeps.stream_good vgaGeometry_fits bytes vgaStart .corner careful

/-- A letter, a backspace and a motion of three rows down. -/
theorem cursor_stays_inside_motion :
    (∃ final, drive (feed (fbTerm smallFb)) fbStart [0x41, 0x08, 0x1b, 0x5b, 0x33, 0x42] =
        some final ∧ final.screen.toScreen.Inside smallFb.geometry) ∧
    (∃ final, drive (feed vgaTerm) vgaStart [0x41, 0x08, 0x1b, 0x5b, 0x33, 0x42] =
        some final ∧ final.screen.Inside vgaGeometry) := by
  have fits : smallFb.geometry.Fits := by
    constructor <;> decide
  constructor
  · apply (cursor_stays_inside smallFb fits _).1
    apply Permitted.cons rfl (fun backspace => absurd backspace (by decide))
    apply Permitted.cons rfl (fun _ => by decide)
    apply Permitted.cons rfl (fun backspace => absurd backspace (by decide))
    apply Permitted.cons rfl trivial
    apply Permitted.cons rfl ⟨by decide, by decide⟩
    apply Permitted.cons rfl ⟨by decide, by decide⟩
    exact trivial
  · apply (cursor_stays_inside smallFb fits _).2
    apply Permitted.cons rfl (fun backspace => absurd backspace (by decide))
    apply Permitted.cons rfl (fun _ => by decide)
    apply Permitted.cons rfl (fun backspace => absurd backspace (by decide))
    apply Permitted.cons rfl trivial
    apply Permitted.cons rfl ⟨by decide, by decide⟩
    apply Permitted.cons rfl ⟨by decide, by decide⟩
    exact trivial

/-- A backspace in the upper left corner takes both cursors to the largest `unsigned int`
and writes a cell there; a motion of 99 columns to the right leaves both screens; and a
sequence of 33 digits is written past the end of its buffer. -/
theorem cursor_leaves_screen :
    (∃ final, drive (feed (fbTerm smallFb)) fbStart [0x08] = some final ∧
      ¬ final.screen.cx < smallFb.geometry.cols ∧ ∃ cell ∈ final.screen.writes,
        ¬ cell < smallFb.geometry.rows * smallFb.geometry.cols) ∧
    (∃ final, drive (feed vgaTerm) vgaStart [0x08] = some final ∧
      ¬ final.screen.cx < vgaGeometry.cols ∧ ∃ cell ∈ final.screen.writes,
        ¬ cell < vgaGeometry.rows * vgaGeometry.cols) ∧
    (∃ final,
      drive (feed (fbTerm smallFb)) fbStart [0x1b, 0x5b, 0x39, 0x39, 0x43] = some final ∧
      ¬ final.screen.cx < smallFb.geometry.cols) ∧
    (∃ final, drive (feed vgaTerm) vgaStart [0x1b, 0x5b, 0x39, 0x39, 0x43] = some final ∧
      ¬ final.screen.cx < vgaGeometry.cols) ∧
    drive (feed vgaTerm) vgaStart (0x1b :: 0x5b :: List.replicate 33 0x39) = none := by
  refine ⟨⟨_, rfl, by decide, 2 ^ 32 - 1, ?_, by decide⟩,
    ⟨_, rfl, by decide, 2 ^ 32 - 1, ?_, by decide⟩,
    ⟨_, rfl, by decide⟩, ⟨_, rfl, by decide⟩, by decide⟩
  · exact mem_append_left _ (mem_append_left _ (mem_append_right _ (mem_singleton.mpr rfl)))
  · exact mem_append_right _ (mem_singleton.mpr rfl)

end Micro.Term
