import Micro.Lib.Run
import Micro.Lib.Word

/-!
# The escape sequence library

`ansi_parse` is called by a terminal when it has read the byte `ESC`.  It reads the
rest of the sequence a byte at a time through the terminal's `tgetc`, collects it in
`char seq[32]`, and acts on its final byte through the other callbacks.  Between two
bytes the terminal is therefore in one of three modes, and a byte stream drives it from
mode to mode; an end of file inside a sequence is read as the byte `0xff`.

The colours that `parse_gfx` keeps pick what a cell shows, never which cell is written.
-/

namespace Micro.Term

open Lib

variable {τ : Type} {seq : List UInt8} {final : UInt8}

/-- A terminal as its main loop and the escape library see it: what it does with an
ordinary byte, the callbacks it registers, what it does after a byte or a sequence, and
the window size it hands over, two `unsigned short` fields. -/
structure Terminal (τ : Type) where
  putch : τ → UInt8 → τ
  gcurspos : τ → Int × Int
  scurspos : τ → Int → Int → τ
  clrsect : τ → Int → Int → Int → Int → τ
  update : τ → τ
  wsCol : Nat
  wsRow : Nat

/-- Where the terminal is in its input: between sequences, after `ESC`, or inside a
sequence whose bytes so far are in `seq`. -/
inductive Mode where
  | text
  | skip
  | seq (bytes : List UInt8)
deriving DecidableEq, Repr

/-- A terminal with its place in the input. -/
structure Session (τ : Type) where
  mode : Mode
  screen : τ

/-- The bytes `mJKABCDEFGHnsu` that end a sequence. -/
def terms : List UInt8 :=
  [0x6d, 0x4a, 0x4b, 0x41, 0x42, 0x43, 0x44, 0x45, 0x46, 0x47, 0x48, 0x6e, 0x73, 0x75]

def isterm (c : UInt8) : Bool := terms.contains c

def isdigit (c : UInt8) : Bool := 0x30 ≤ c && c ≤ 0x39

/-- The digits `strtol` reads, in `long` arithmetic. -/
def digits (str : List UInt8) : Int :=
  (str.takeWhile isdigit).foldl (fun ret c => wrapSigned (ret * 10 + (c.toNat - 0x30))) 0

/-- `strtol` in base ten: an optional minus sign, then digits. -/
def strtol (str : List UInt8) : Int :=
  if str.head? = some 0x2d then wrapSigned (digits str.tail * -1) else digits str

def atoi (str : List UInt8) : Int := wrapInt (strtol str)

/-- The motion of the cursor a sequence asks for: `A`, `B`, `C` and `D` move it up, down,
right and left by the number in the sequence, or by one when there is none. -/
def motion (seq : List UInt8) (final : UInt8) : Option (Int × Int) :=
  if final = 0x41 then some (0, if seq = [] then -1 else wrapInt (-atoi seq))
  else if final = 0x42 then some (0, if seq = [] then 1 else atoi seq)
  else if final = 0x43 then some (if seq = [] then 1 else atoi seq, 0)
  else if final = 0x44 then some (if seq = [] then -1 else wrapInt (-atoi seq), 0)
  else none

section Parser

variable (term : Terminal τ)

/-- Move the cursor; a coordinate that would become negative is left as it is. -/
def movecurs (screen : τ) (dx dy : Int) : τ :=
  let x := (term.gcurspos screen).1
  let y := (term.gcurspos screen).2
  term.scurspos screen (if 0 ≤ wrapInt (x + dx) then wrapInt (x + dx) else x)
    (if 0 ≤ wrapInt (y + dy) then wrapInt (y + dy) else y)

/-- Act on a complete sequence. -/
def ansiAct (screen : τ) (seq : List UInt8) (final : UInt8) : τ :=
  match motion seq final with
  | some (dx, dy) => movecurs term screen dx dy
  | none =>
      if final = 0x4a then
        if seq = [] then term.clrsect screen 0 0 ((term.wsCol : Int) - 1) ((term.wsRow : Int) - 1)
        else screen
      else if final = 0x48 then term.scurspos screen 0 0
      else screen

/-- One byte of a sequence: `none` when `seq[i]` is past the end of the array. -/
def ansiByte (screen : τ) (seq : List UInt8) (c : UInt8) : Option (Session τ) :=
  if seq.length < 32 then
    if isterm c then
      -- the terminating zero is stored after the final byte
      if seq.length + 1 < 32 then some ⟨.text, term.update (ansiAct term screen seq c)⟩
      else none
    else some ⟨.seq (seq ++ [c]), screen⟩
  else none

/-- The main loop's treatment of one byte. -/
def feed (session : Session τ) (c : UInt8) : Option (Session τ) :=
  match session.mode with
  | .text =>
      if c = 0x1b then some { session with mode := .skip }
      else some ⟨.text, term.update (term.putch session.screen c)⟩
  | .skip => some ⟨.seq [], session.screen⟩
  | .seq seq => ansiByte term session.screen seq c

end Parser

/-- The size of a screen in cells. -/
structure Geometry where
  rows : Nat
  cols : Nat
  rowsPos : 1 ≤ rows
  colsPos : 1 ≤ cols

/-- The window size fits its `unsigned short` fields, and the cells fit an `int`. -/
structure Geometry.Fits (geometry : Geometry) : Prop where
  rows_lt : geometry.rows < 2 ^ 16
  cols_lt : geometry.cols < 2 ^ 16
  cells_lt : geometry.rows * geometry.cols < 2 ^ 31

section Careful

variable (term : Terminal τ) (geometry : Geometry)

/-- A byte that keeps to the screen: no backspace in the first column, no sequence longer
than its buffer, and no motion past the last column or row. -/
def Careful (session : Session τ) (c : UInt8) : Prop :=
  match session.mode with
  | .text => c = 0x08 → 0 < (term.gcurspos session.screen).1
  | .skip => True
  | .seq seq =>
      seq.length < 31 ∧ ∀ move ∈ motion seq c,
        (term.gcurspos session.screen).1 + move.1 < geometry.cols ∧
          (term.gcurspos session.screen).2 + move.2 < geometry.rows

/-- What the escape library and the main loop rely on: the operations of the terminal
keep an invariant under which the cursor is on the screen. -/
structure Keeps (good : τ → Prop) : Prop where
  column : ∀ screen, good screen →
    0 ≤ (term.gcurspos screen).1 ∧ (term.gcurspos screen).1 < geometry.cols
  row : ∀ screen, good screen →
    0 ≤ (term.gcurspos screen).2 ∧ (term.gcurspos screen).2 < geometry.rows
  putch : ∀ screen c, good screen → (c = 0x08 → 0 < (term.gcurspos screen).1) →
    good (term.putch screen c)
  scurspos : ∀ screen (x y : Int), good screen → 0 ≤ x → x < geometry.cols → 0 ≤ y →
    y < geometry.rows → good (term.scurspos screen x y)
  clrsect : ∀ screen, good screen →
    good (term.clrsect screen 0 0 ((term.wsCol : Int) - 1) ((term.wsRow : Int) - 1))
  update : ∀ screen, good screen → good (term.update screen)

end Careful

theorem motion_low {move : Int × Int} (moved : motion seq final = some move) :
    -2 ^ 31 ≤ move.1 ∧ -2 ^ 31 ≤ move.2 := by
  have forward : -2 ^ 31 ≤ if seq = [] then (1 : Int) else atoi seq := by
    split
    · decide
    · exact wrapInt_low _
  have backward : -2 ^ 31 ≤ if seq = [] then (-1 : Int) else wrapInt (-atoi seq) := by
    split
    · decide
    · exact wrapInt_low _
  have still : -2 ^ 31 ≤ (0 : Int) := by decide
  simp only [motion] at moved
  generalize (if seq = [] then (1 : Int) else atoi seq) = ahead at moved forward
  generalize (if seq = [] then (-1 : Int) else wrapInt (-atoi seq)) = back at moved backward
  split_ifs at moved <;> cases moved
  · exact ⟨still, backward⟩
  · exact ⟨still, forward⟩
  · exact ⟨forward, still⟩
  · exact ⟨backward, still⟩

theorem moved_inside {limit : Nat} {at_ delta : Int} (fits : limit < 2 ^ 16) (low : 0 ≤ at_)
    (high : at_ < limit) (deltaLow : -2 ^ 31 ≤ delta) (stays : at_ + delta < limit) :
    0 ≤ (if 0 ≤ wrapInt (at_ + delta) then wrapInt (at_ + delta) else at_) ∧
      (if 0 ≤ wrapInt (at_ + delta) then wrapInt (at_ + delta) else at_) < limit := by
  rw [wrapInt_of_range (by omega) (by omega)]
  split <;> omega

namespace Keeps

variable {term : Terminal τ} {geometry : Geometry} {good : τ → Prop}
  (keeps : Keeps term geometry good)
include keeps

variable (fits : geometry.Fits)
include fits

theorem ansiAct_good {screen : τ} (holds : good screen)
    (stays : ∀ move ∈ motion seq final, (term.gcurspos screen).1 + move.1 < geometry.cols ∧
        (term.gcurspos screen).2 + move.2 < geometry.rows) :
    good (ansiAct term screen seq final) := by
  have column := keeps.column screen holds
  have row := keeps.row screen holds
  simp only [ansiAct]
  split
  case h_1 dx dy moved =>
      have low := motion_low moved
      have inside := stays (dx, dy) moved
      have columnMoved := moved_inside fits.cols_lt column.1 column.2 low.1 inside.1
      have rowMoved := moved_inside fits.rows_lt row.1 row.2 low.2 inside.2
      exact keeps.scurspos screen _ _ holds columnMoved.1 columnMoved.2 rowMoved.1 rowMoved.2
  case h_2 =>
      split_ifs
      · exact keeps.clrsect screen holds
      · exact holds
      · exact keeps.scurspos screen 0 0 holds (Int.le_refl 0)
          (Int.lt_of_le_of_lt column.1 column.2) (Int.le_refl 0) (Int.lt_of_le_of_lt row.1 row.2)
      · exact holds

/-- A careful byte is read without overrunning `seq`, and keeps the invariant. -/
theorem feed_good (session : Session τ) (c : UInt8) (holds : good session.screen)
    (careful : Careful term geometry session c) :
    ∃ next, feed term session c = some next ∧ good next.screen := by
  rcases session with ⟨mode, screen⟩
  cases mode with
  | text =>
    simp only [feed]
    split
    · exact ⟨_, rfl, holds⟩
    · exact ⟨_, rfl, keeps.update _ (keeps.putch screen c holds careful)⟩
  | skip => exact ⟨_, rfl, holds⟩
  | seq seq =>
    rcases careful with ⟨_, stays⟩
    simp only [feed, ansiByte]
    rw [if_pos (by omega)]
    split
    · rw [if_pos (by omega)]
      exact ⟨_, rfl, keeps.update _ (keeps.ansiAct_good fits holds stays)⟩
    · exact ⟨_, rfl, holds⟩

theorem stream_good (bytes : List UInt8) (session : Session τ) (holds : good session.screen)
    (careful : Permitted (feed term) (Careful term geometry) session bytes) :
    ∃ final, drive (feed term) session bytes = some final ∧ good final.screen :=
  drive_total (keeps.feed_good fits) bytes session holds careful

end Keeps

end Micro.Term
