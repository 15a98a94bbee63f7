import Mathlib.Algebra.GroupWithZero.Nat
import RemoteCodex.Lib.Vt
import RemoteCodex.Agent.TerminalGrid

namespace RemoteCodex
set_option autoImplicit true
open Vt
namespace Alacritty

/-! The snapshot of a terminal: what it sends as items, before the palette. -/

def cup (row col : Nat) : Item := .csi none [[row], [col]] [] 'H'

def sgr (params : List (List Nat)) : Item := .csi none params [] 'm'

/-- A private mode, set or reset. -/
def decMode (n : Nat) (on : Bool) : Item := .csi (some '?') [[n]] [] (if on then 'h' else 'l')

/-- A mode, set or reset. -/
def ansiMode (n : Nat) (on : Bool) : Item := .csi none [[n]] [] (if on then 'h' else 'l')

def color (c : Color) (fg : Bool) : List (List Nat) :=
  match c with
  | .spec r g b => [[if fg then 38 else 48], [2], [r.toNat], [g.toNat], [b.toNat]]
  | .indexed n => [[if fg then 38 else 48], [5], [n.toNat]]
  | .named n =>
    if n < 16 then [[if fg then 38 else 48], [5], [n.toNat]] else [[if fg then 39 else 49]]

/-- The first underline that a cell has, by its number. -/
def underlineCode (f : Flags) : Option Nat :=
  if f.dashedUnderline then some 5
  else if f.dottedUnderline then some 4
  else if f.undercurl then some 3
  else if f.doubleUnderline then some 2
  else if f.underline then some 1
  else none

def underlineColorParams : Color → List (List Nat)
  | .spec r g b => [[58], [2], [r.toNat], [g.toNat], [b.toNat]]
  | .indexed n => [[58], [5], [n.toNat]]
  | .named n => [[58], [5], [n.toNat]]

def flag (on : Bool) (n : Nat) : List (List Nat) := if on then [[n]] else []

def styleParams (c : Cell) : List (List Nat) :=
  [0] :: (color c.fg true ++ color c.bg false ++ flag c.flags.bold 1 ++ flag c.flags.dim 2 ++
    flag c.flags.italic 3 ++ flag c.flags.inverse 7 ++ flag c.flags.hidden 8 ++
    flag c.flags.strikeout 9 ++ (underlineCode c.flags).elim [] (fun n => [[4, n]]) ++
    c.underlineColor.elim [] underlineColorParams)

def style (c : Cell) : Item := sgr (styleParams c)

/-- What a cell shows: a blank in place of a control character. -/
def Cell.shown (cell : Cell) : Char := if isControl cell.c then ' ' else cell.c

/-- The zero-width characters that are sent with it. -/
def Cell.combining (cell : Cell) : List Char := cell.zerowidth.filter fun c => !isControl c

/-- A cell in its style. -/
def Cell.printed (cell : Cell) : List Item :=
  style cell :: .print cell.shown :: cell.combining.map .print

def designator : StandardCharset → Char
  | .ascii => 'B'
  | .specialCharacterAndLineDrawing => '0'

def emitCharsets (charsets : CharsetIndex → StandardCharset) : List Item :=
  [.esc ['('] (designator (charsets .g0)), .esc [')'] (designator (charsets .g1)),
    .esc ['*'] (designator (charsets .g2)), .esc ['+'] (designator (charsets .g3))]

def emitAsciiCharsets : List Item :=
  [.esc ['('] 'B', .esc [')'] 'B', .esc ['*'] 'B', .esc ['+'] 'B']

/-- The row and the column of a cursor, within the grid. -/
def Grid.cursorRow (g : Grid) (cursor : Cursor) : Int :=
  min (max cursor.line 0) (g.screenLines - 1)

def Grid.cursorCol (g : Grid) (cursor : Cursor) : Nat := min cursor.column (g.columns - 1)

/-- The cell before the cursor has zero-width characters. -/
def Grid.previousHasZeroWidth (g : Grid) (row : Int) (col : Nat) : Bool :=
  decide (0 < col) && !(g.cell row (col - 1)).zerowidth.isEmpty

/-- The part of `restore_one` that moves the cursor, and prints a cell again where it must. -/
def Grid.placeCursor (g : Grid) (cursor : Cursor) (originTop : Nat) : List Item :=
  let row := g.cursorRow cursor
  let col := g.cursorCol cursor
  let line := (max (row - originTop + 1) 1).toNat
  if g.previousHasZeroWidth row col then cup line col :: (g.cell row (col - 1)).printed
  else if cursor.inputNeedsWrap ∧ col = g.columns - 1 then
    let col := if 0 < col ∧ (g.cell row col).flags.wideCharSpacer then col - 1 else col
    cup line (col + 1) :: (g.cell row col).printed
  else [cup line (col + 1)]

def activate : CharsetIndex → Item
  | .g1 => .control '\x0e'
  | .g0 | .g2 | .g3 => .control '\x0f'

def Grid.restoreOne (g : Grid) (cursor : Cursor) (originTop : Nat) : List Item :=
  emitAsciiCharsets ++ g.placeCursor cursor originTop ++ emitCharsets cursor.charsets ++
    [sgr [[0]], activate cursor.activeCharset, style cursor.template]

def saveCursor : Item := .esc [] '7'

def Grid.restoreCursor (g : Grid) : List Item :=
  g.restoreOne g.savedCursor 0 ++ saveCursor :: g.restoreOne g.cursor 0

/-- What is painted so far, and the style of the last cell. -/
structure Painting where
  out : List Item
  lastStyle : Option Item

def Painting.cell (p : Painting) (cell : Cell) : Painting :=
  if cell.flags.spacer then p
  else
    let st := style cell
    let styled := if p.lastStyle = some st then p.out else p.out ++ [st]
    ⟨styled ++ .print cell.shown :: cell.combining.map .print, some st⟩

def Painting.row (p : Painting) (g : Grid) (row : Int) : Painting :=
  let p := (List.range g.columns).foldl (fun p col => p.cell (g.cell row col)) p
  if row + 1 < g.screenLines ∧ (g.cell row (g.columns - 1)).flags.wrapline = false then
    { p with out := p.out ++ [.control '\r', .control '\n'] }
  else p

def outLen (out : List Item) : Nat := ((text out).map Char.utf8Size).sum

/-- So many rows, from one on; those after 4 MiB are left out. -/
def Painting.rows (p : Painting) (g : Grid) : Nat → Int → Painting
  | 0, _ => p
  | n + 1, row =>
    let p := p.row g row
    if 4 * 1024 * 1024 < outLen p.out then p else p.rows g n (row + 1)

def paintHeader : List Item :=
  [.csi none [] [] 'H', .csi none [[2]] [] 'J', decMode 7 true, decMode 6 false,
    .csi none [] [] 'r']

/-- The history, up to 2000 lines of it, and the screen. -/
def Grid.paint (g : Grid) (out : List Item) : List Item :=
  let history := min g.historySize 2000
  (Painting.rows ⟨out ++ paintHeader, none⟩ g (history + g.screenLines) (-history)).out

namespace Settings

/-- The columns with a tab stop. -/
def tabStops (s : Settings) : List Nat :=
  (List.range s.tabs.length).filter fun column => s.tabs[column]?.getD false

def emitTabs (s : Settings) : List Item :=
  .csi none [[3]] [] 'g' :: s.tabStops.flatMap fun column => [cup 1 (column + 1), .esc [] 'H']

def emitRegion (s : Settings) : Item := .csi none [[s.regionStart + 1], [s.regionEnd]] [] 'r'

/-- The private modes by their number, in the order in which they are sent. -/
def privateModes (s : Settings) : List (Nat × Bool) :=
  [(1, s.mode.appCursor), (25, s.cursorStyle.shape ≠ .hidden && s.mode.showCursor),
    (7, s.mode.lineWrap), (1000, s.mode.mouseReportClick), (1002, s.mode.mouseDrag),
    (1003, s.mode.mouseMotion), (1004, s.mode.focusInOut), (1005, s.mode.utf8Mouse),
    (1006, s.mode.sgrMouse), (2004, s.mode.bracketedPaste)]

def emitPrivateModes (s : Settings) : List Item := s.privateModes.map fun p => decMode p.1 p.2

def styleCode (style : CursorStyle) : Option Nat :=
  match style.shape with
  | .block | .hollowBlock => some (if style.blinking then 1 else 2)
  | .underline => some (if style.blinking then 3 else 4)
  | .beam => some (if style.blinking then 5 else 6)
  | .hidden => none

def emitCursorStyle (s : Settings) : List Item :=
  (styleCode s.cursorStyle).elim [] fun code => [.csi none [[code]] [' '] 'q']

def emitOtherModes (s : Settings) : List Item :=
  [.esc [] (if s.mode.appKeypad then '=' else '>'), ansiMode 4 s.mode.insert,
    ansiMode 20 s.mode.lineFeedNewLine]

/-- The modes, which are set before the cursor is restored. -/
def emitModes (s : Settings) : List Item :=
  s.emitPrivateModes ++ s.emitCursorStyle ++ s.emitOtherModes

/-- The cursor once more, where origin mode is on. -/
def restoreOrigin (s : Settings) (g : Grid) : List Item :=
  if s.mode.origin then decMode 6 true :: g.restoreOne g.cursor s.regionStart else []

/-- The mode tail: from the modes to the cursor. -/
def modeTail (s : Settings) (g : Grid) : List Item :=
  s.emitModes ++ g.restoreCursor ++ s.restoreOrigin g

/-- From the tab stops to the cursor. -/
def tail (s : Settings) (g : Grid) : List Item :=
  s.emitTabs ++ s.emitRegion :: s.modeTail g

def snapshotStart : List Item :=
  [.esc [] 'c', decMode 25 false, decMode 7 true, decMode 6 false, sgr [[0]]]

/-- The primary screen, where it is behind the alternate one. -/
def paintInactive (s : Settings) (inactive : Grid) : List Item :=
  if s.mode.altScreen then
    inactive.paint snapshotStart ++ inactive.restoreCursor ++ [decMode 1049 true]
  else snapshotStart

def head (s : Settings) (inactive g : Grid) : List Item :=
  g.paint (s.paintInactive inactive ++ emitAsciiCharsets)

/-- What is sent. -/
def snapshot (s : Settings) (inactive g : Grid) : List Char := text (s.head inactive g ++ s.tail g)

end Settings
end Alacritty
end RemoteCodex
