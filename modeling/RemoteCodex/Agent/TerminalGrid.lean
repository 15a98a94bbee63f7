import Mathlib.Init

/-! The data of the terminal engine that the terminal model reads: cells, grids and modes. -/

namespace RemoteCodex
set_option autoImplicit true
namespace Alacritty

/-- A colour; a named one is its number. -/
inductive Color where
  | spec (r g b : UInt8)
  | indexed (n : UInt8)
  | named (n : UInt16)
  deriving DecidableEq

def Color.foreground : Color := .named 256

def Color.background : Color := .named 257

/-- The flags of a cell; each is one bit. -/
structure Flags where
  inverse : Bool := false
  bold : Bool := false
  italic : Bool := false
  underline : Bool := false
  wrapline : Bool := false
  wideChar : Bool := false
  wideCharSpacer : Bool := false
  dim : Bool := false
  hidden : Bool := false
  strikeout : Bool := false
  leadingWideCharSpacer : Bool := false
  doubleUnderline : Bool := false
  undercurl : Bool := false
  dottedUnderline : Bool := false
  dashedUnderline : Bool := false
  deriving DecidableEq

/-- The half of a wide character that stands for no character of its own, or the blank before one
that did not fit. -/
def Flags.spacer (f : Flags) : Bool := f.wideCharSpacer || f.leadingWideCharSpacer

/-- Hyperlinks are left out: nothing here reads them. -/
structure CellExtra where
  zerowidth : List Char
  underlineColor : Option Color
  deriving DecidableEq

structure Cell where
  c : Char := ' '
  fg : Color := .foreground
  bg : Color := .background
  flags : Flags := {}
  extra : Option CellExtra := none
  deriving DecidableEq

/-- The zero-width characters; a cell without extra data has none. -/
def Cell.zerowidth (cell : Cell) : List Char := cell.extra.elim [] CellExtra.zerowidth

def Cell.underlineColor (cell : Cell) : Option Color := cell.extra.bind CellExtra.underlineColor

inductive CharsetIndex where
  | g0 | g1 | g2 | g3
  deriving DecidableEq

inductive StandardCharset where
  | ascii
  | specialCharacterAndLineDrawing
  deriving DecidableEq

/-- The line of a point is 0 at the top of the screen, and negative in the history. -/
structure Cursor where
  line : Int := 0
  column : Nat := 0
  template : Cell := {}
  charsets : CharsetIndex → StandardCharset := fun _ => .ascii
  activeCharset : CharsetIndex := .g0
  inputNeedsWrap : Bool := false

structure Grid where
  cell : Int → Nat → Cell
  cursor : Cursor
  savedCursor : Cursor
  historySize : Nat
  screenLines : Nat
  columns : Nat

/-- A blank grid, without history. -/
def Grid.new (lines columns : Nat) : Grid := ⟨fun _ _ => {}, {}, {}, 0, lines, columns⟩

/-- The modes that the terminal model reads; each is one bit. -/
structure TermMode where
  showCursor : Bool := false
  appCursor : Bool := false
  appKeypad : Bool := false
  mouseReportClick : Bool := false
  bracketedPaste : Bool := false
  sgrMouse : Bool := false
  mouseMotion : Bool := false
  lineWrap : Bool := false
  lineFeedNewLine : Bool := false
  origin : Bool := false
  insert : Bool := false
  focusInOut : Bool := false
  altScreen : Bool := false
  mouseDrag : Bool := false
  utf8Mouse : Bool := false
  alternateScroll : Bool := false
  urgencyHints : Bool := false
  deriving DecidableEq

inductive CursorShape where
  | block
  | underline
  | beam
  | hollowBlock
  | hidden
  deriving DecidableEq

structure CursorStyle where
  shape : CursorShape := .block
  blinking : Bool := false
  deriving DecidableEq

/-- The settings of a terminal, apart from its grids. `regionStart` and `regionEnd` are the scroll
region, and `tabs` has one entry for each column. -/
structure Settings where
  mode : TermMode
  tabs : List Bool
  regionStart : Nat
  regionEnd : Nat
  columns : Nat
  lines : Nat
  cursorStyle : CursorStyle
  deriving DecidableEq

end Alacritty

/-- `char::is_control` -/
def isControl (c : Char) : Bool := c.toNat < 0x20 || (0x7f ≤ c.toNat && c.toNat ≤ 0x9f)

end RemoteCodex
