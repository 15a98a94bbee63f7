import RemoteCodex.Lib.Vt

/-! A terminal that follows items: its screen, cursor, modes, tab stops and scroll region. Items
that it does not know leave it as it is. -/

namespace Vt
set_option autoImplicit true

inductive Colour where
  | default
  | indexed (n : Nat)
  | rgb (r g b : Nat)
  deriving DecidableEq

structure Pen where
  foreground : Colour := .default
  background : Colour := .default
  bold : Bool := false
  faint : Bool := false
  italic : Bool := false
  inverse : Bool := false
  hidden : Bool := false
  strikeout : Bool := false
  underline : Nat := 0
  underlineColour : Colour := .default
  deriving DecidableEq

namespace Pen

/-- A parameter of SGR that stands alone. -/
def apply (p : Pen) : List Nat → Pen
  | [0] => {}
  | [1] => { p with bold := true }
  | [2] => { p with faint := true }
  | [3] => { p with italic := true }
  | [4] => { p with underline := 1 }
  | [4, n] => { p with underline := n }
  | [7] => { p with inverse := true }
  | [8] => { p with hidden := true }
  | [9] => { p with strikeout := true }
  | [39] => { p with foreground := .default }
  | [49] => { p with background := .default }
  | [59] => { p with underlineColour := .default }
  | _ => p

def setColour (p : Pen) (which : Nat) (c : Colour) : Pen :=
  if which = 38 then { p with foreground := c }
  else if which = 48 then { p with background := c }
  else { p with underlineColour := c }

/-- SGR; 38, 48 and 58 take the parameters after them. -/
def sgr : List (List Nat) → Pen → Pen
  | [], p => p
  | param :: rest, p =>
    if param = [38] ∨ param = [48] ∨ param = [58] then
      match rest with
      | [5] :: [n] :: rest => sgr rest (p.setColour (param.headD 0) (.indexed n))
      | [2] :: [r] :: [g] :: [b] :: rest => sgr rest (p.setColour (param.headD 0) (.rgb r g b))
      | rest => sgr rest p
    else sgr rest (p.apply param)

/-- What is set before a reset does not matter. -/
theorem sgr_reset (rest : List (List Nat)) (p : Pen) : sgr ([0] :: rest) p = sgr rest {} := by
  rw [sgr.eq_def]
  exact if_neg (by decide)

end Pen

/-- What is in a place of the screen: a glyph, or the second half of a wide one. -/
inductive Square where
  | glyph (c : Char) (combining : List Char) (pen : Pen) (wide : Bool)
  | rest
  deriving DecidableEq

/-- A blank in the background of a pen. -/
def Square.erased (p : Pen) : Square := .glyph ' ' [] { background := p.background } false

def Square.combine (s : Square) (c : Char) : Square :=
  match s with
  | .glyph base combining pen wide => .glyph base (combining ++ [c]) pen wide
  | .rest => .rest

abbrev Screen := Nat → Nat → Square

def Screen.erased (p : Pen) : Screen := fun _ _ => .erased p

def Screen.set (s : Screen) (row col : Nat) (x : Square) : Screen :=
  fun r c => if r = row ∧ c = col then x else s r c

/-- The places of a row from a column on move to the right. -/
def Screen.shift (s : Screen) (row col width columns : Nat) : Screen := fun r c =>
  if r = row ∧ col + width ≤ c ∧ c < columns then s r (c - width) else s r c

/-- A square in a place, and the second half of a wide one after it. Where it is inserted, the rest
of the row moves if there is room. -/
def Screen.put (s : Screen) (row col : Nat) (x : Square) (width columns : Nat) (insert : Bool) :
    Screen :=
  let s := if insert && decide (col + width < columns) then s.shift row col width columns else s
  let s := s.set row col x
  if width = 2 then s.set row (col + 1) .rest else s

inductive Mouse where
  | click
  | drag
  | motion
  deriving DecidableEq

@[ext]
structure Modes where
  appCursor : Bool
  showCursor : Bool
  lineWrap : Bool
  focusReport : Bool
  utf8Mouse : Bool
  sgrMouse : Bool
  bracketedPaste : Bool
  appKeypad : Bool
  insert : Bool
  lineFeedNewLine : Bool
  origin : Bool
  altScreen : Bool
  alternateScroll : Bool
  urgencyHints : Bool
  mouse : Option Mouse
  deriving DecidableEq

def Modes.default : Modes where
  appCursor := false
  showCursor := true
  lineWrap := true
  focusReport := false
  utf8Mouse := false
  sgrMouse := false
  bracketedPaste := false
  appKeypad := false
  insert := false
  lineFeedNewLine := false
  origin := false
  altScreen := false
  alternateScroll := true
  urgencyHints := true
  mouse := none

/-- Private modes by their number. One setting is behind all mouse modes, and one behind the two
encodings. -/
def Modes.setPrivate (m : Modes) (on : Bool) : Nat → Modes
  | 1 => { m with appCursor := on }
  | 6 => { m with origin := on }
  | 7 => { m with lineWrap := on }
  | 25 => { m with showCursor := on }
  | 1000 => { m with mouse := if on then some .click else none }
  | 1002 => { m with mouse := if on then some .drag else none }
  | 1003 => { m with mouse := if on then some .motion else none }
  | 1004 => { m with focusReport := on }
  | 1005 => { m with utf8Mouse := on, sgrMouse := if on then false else m.sgrMouse }
  | 1006 => { m with sgrMouse := on, utf8Mouse := if on then false else m.utf8Mouse }
  | 1007 => { m with alternateScroll := on }
  | 1042 => { m with urgencyHints := on }
  | 2004 => { m with bracketedPaste := on }
  | _ => m

def Modes.setAnsi (m : Modes) (on : Bool) : Nat → Modes
  | 4 => { m with insert := on }
  | 20 => { m with lineFeedNewLine := on }
  | _ => m

/-- The cursor, with what is saved with it; `drawing` tells which of the charsets G0 to G3 draw
lines. -/
structure Cursor where
  row : Nat
  col : Nat
  pending : Bool
  pen : Pen
  drawing : Fin 4 → Bool
  active : Fin 4

def Cursor.home : Cursor := ⟨0, 0, false, {}, fun _ => false, 0⟩

/-- The size, the modes, the tab stops, and the lines of the scroll region, without `bottom`. -/
@[ext]
structure Config where
  columns : Nat
  lines : Nat
  modes : Modes
  tabs : Nat → Bool
  top : Nat
  bottom : Nat

/-- `other` is the screen that is behind the alternate one. -/
structure Terminal extends Config where
  screen : Screen
  other : Screen
  cursor : Cursor
  saved : Cursor

/-- The columns that a character takes, and what it is drawn as in the line charset. -/
structure Font where
  width : Char → Nat
  lineDrawing : Char → Char

namespace Terminal

def new (columns lines : Nat) : Terminal where
  columns
  lines
  modes := .default
  tabs := fun c => c % 8 == 0
  top := 0
  bottom := lines
  screen := .erased {}
  other := .erased {}
  cursor := .home
  saved := .home

/-- RIS -/
def reset (t : Terminal) : Terminal := new t.columns t.lines

/-- CUP, from 0. -/
def goto (t : Terminal) (row col : Nat) : Terminal :=
  { t with cursor := { t.cursor with
      row := if t.modes.origin then min (t.top + row) (t.bottom - 1) else min row (t.lines - 1)
      col := min col (t.columns - 1)
      pending := false } }

/-- The lines of the region move up, and its last one is blank. -/
def scrollUp (t : Terminal) : Terminal :=
  { t with screen := fun r c =>
      if t.top ≤ r ∧ r + 1 < t.bottom then t.screen (r + 1) c
      else if r + 1 = t.bottom then .erased t.cursor.pen
      else t.screen r c }

def index (t : Terminal) : Terminal :=
  if t.cursor.row + 1 = t.bottom then t.scrollUp
  else if t.cursor.row + 1 < t.lines then
    { t with cursor := { t.cursor with row := t.cursor.row + 1 } }
  else t

def wrap (t : Terminal) : Terminal :=
  if t.cursor.pending ∧ t.modes.lineWrap then
    let t := t.index
    { t with cursor := { t.cursor with col := 0, pending := false } }
  else t

/-- A glyph at the cursor, which moves past it or waits in the last column. -/
def place (t : Terminal) (c : Char) (width : Nat) : Terminal :=
  let row := t.cursor.row
  let col := t.cursor.col
  let fits := decide (col + width < t.columns)
  { t with
    screen := t.screen.put row col (.glyph c [] t.cursor.pen (width = 2)) width t.columns
      t.modes.insert
    cursor := { t.cursor with
      col := if fits then col + width else t.columns - 1
      pending := !fits } }

/-- A character of no width joins the glyph before the cursor, or the one that it waits on. -/
def combine (t : Terminal) (c : Char) : Terminal :=
  let row := t.cursor.row
  let col := if t.cursor.pending then t.cursor.col else t.cursor.col - 1
  let col := if t.screen row col = .rest then col - 1 else col
  { t with screen := t.screen.set row col ((t.screen row col).combine c) }

def print (F : Font) (t : Terminal) (c : Char) : Terminal :=
  let c := if t.cursor.drawing t.cursor.active then F.lineDrawing c else c
  match F.width c with
  | 0 => t.combine c
  | 1 => t.wrap.place c 1
  | _ =>
    let t := t.wrap
    if t.cursor.col + 2 ≤ t.columns then t.place c 2
    else if t.modes.lineWrap then (t.place ' ' 1).wrap.place c 2
    else t

/-- A parameter; none, or 0, is the default. -/
def param (params : List (List Nat)) (i default : Nat) : Nat :=
  match (params[i]?.bind List.head?).getD 0 with
  | 0 => default
  | n => n

def setRegion (t : Terminal) (top bottom : Nat) : Terminal :=
  if top < min bottom t.lines then
    ({ t with top := top - 1, bottom := min bottom t.lines } : Terminal).goto 0 0
  else t

/-- The alternate screen is blank at first; the cursor is saved before it, and restored after it. -/
def setAlt (t : Terminal) (on : Bool) : Terminal :=
  if on = t.modes.altScreen then t
  else
    let modes := { t.modes with altScreen := on }
    if on then
      { t with modes, screen := .erased t.cursor.pen, other := t.screen, saved := t.cursor }
    else { t with modes, screen := t.other, cursor := t.saved }

def setPrivate (t : Terminal) (on : Bool) (mode : Nat) : Terminal :=
  if mode = 1049 then t.setAlt on
  else
    let t := { t with modes := t.modes.setPrivate on mode }
    if mode = 6 then t.goto 0 0 else t

def setTab (t : Terminal) (on : Bool) : Terminal :=
  { t with tabs := fun c => if c = t.cursor.col then on else t.tabs c }

def withPen (t : Terminal) (pen : Pen) : Terminal := { t with cursor := { t.cursor with pen } }

def csi (t : Terminal) (params : List (List Nat)) (final : Char) : Terminal :=
  if final = 'H' then t.goto (param params 0 1 - 1) (param params 1 1 - 1)
  else if final = 'J' then
    if param params 0 0 = 2 then { t with screen := .erased t.cursor.pen } else t
  else if final = 'r' then t.setRegion (param params 0 1) (param params 1 t.lines)
  else if final = 'm' then
    t.withPen (if params = [] then {} else t.cursor.pen.sgr params)
  else if final = 'g' then
    match param params 0 0 with
    | 0 => t.setTab false
    | 3 => { t with tabs := fun _ => false }
    | _ => t
  else if final = 'h' then
    { t with modes := params.foldl (fun m p => m.setAnsi true (p.headD 0)) t.modes }
  else if final = 'l' then
    { t with modes := params.foldl (fun m p => m.setAnsi false (p.headD 0)) t.modes }
  else t

def esc (t : Terminal) (final : Char) : Terminal :=
  if final = '7' then { t with saved := t.cursor }
  else if final = '8' then { t with cursor := t.saved }
  else if final = 'H' then t.setTab true
  else if final = 'c' then t.reset
  else if final = '=' then { t with modes := { t.modes with appKeypad := true } }
  else if final = '>' then { t with modes := { t.modes with appKeypad := false } }
  else t

/-- The charset that is designated after an intermediate character. -/
def charset (inter : Char) : Option (Fin 4) :=
  if inter = '(' then some 0
  else if inter = ')' then some 1
  else if inter = '*' then some 2
  else if inter = '+' then some 3
  else none

def designate (t : Terminal) (inter final : Char) : Terminal :=
  match charset inter with
  | none => t
  | some i => { t with cursor := { t.cursor with
      drawing := fun j => if j = i then final == '0' else t.cursor.drawing j } }

def lineFeed (t : Terminal) : Terminal :=
  let t := t.index
  if t.modes.lineFeedNewLine then { t with cursor := { t.cursor with col := 0 } } else t

def control (t : Terminal) (c : Char) : Terminal :=
  if c = '\r' then { t with cursor := { t.cursor with col := 0, pending := false } }
  else if c = '\n' then t.lineFeed
  else if c = '\x0e' then { t with cursor := { t.cursor with active := 1 } }
  else if c = '\x0f' then { t with cursor := { t.cursor with active := 0 } }
  else t

def step (F : Font) (t : Terminal) : Item → Terminal
  | .print c => t.print F c
  | .control c => t.control c
  | .esc [] final => t.esc final
  | .esc [inter] final => t.designate inter final
  | .csi none params [] final => t.csi params final
  | .csi (some '?') params [] 'h' => params.foldl (fun t p => t.setPrivate true (p.headD 0)) t
  | .csi (some '?') params [] 'l' => params.foldl (fun t p => t.setPrivate false (p.headD 0)) t
  | _ => t

def run (F : Font) (t : Terminal) (items : List Item) : Terminal := items.foldl (step F) t

theorem run_cons (F : Font) (t : Terminal) (i : Item) (items : List Item) :
    t.run F (i :: items) = (t.step F i).run F items := rfl

theorem run_append (F : Font) (t : Terminal) (items items' : List Item) :
    t.run F (items ++ items') = (t.run F items).run F items' :=
  List.foldl_append ..

/-! Characters and what is about the cursor leave the configuration as it is. -/

@[simp] theorem place_config (t : Terminal) (c : Char) (width : Nat) :
    (t.place c width).toConfig = t.toConfig := rfl

@[simp] theorem index_config (t : Terminal) : t.index.toConfig = t.toConfig := by
  unfold index
  split_ifs <;> rfl

@[simp] theorem wrap_config (t : Terminal) : t.wrap.toConfig = t.toConfig := by
  unfold wrap
  split
  · exact index_config t
  · rfl

theorem print_config (F : Font) (t : Terminal) (c : Char) :
    (t.print F c).toConfig = t.toConfig := by
  unfold print
  generalize (if t.cursor.drawing t.cursor.active then F.lineDrawing c else c) = c
  simp only
  split
  · rfl
  · rw [place_config, wrap_config]
  · split_ifs
    · rw [place_config, wrap_config]
    · rw [place_config, wrap_config, place_config, wrap_config]
    · rw [wrap_config]

theorem designate_config (t : Terminal) (inter final : Char) :
    (t.designate inter final).toConfig = t.toConfig := by
  unfold designate
  split <;> rfl

theorem lineFeed_config (t : Terminal) : t.lineFeed.toConfig = t.toConfig := by
  unfold lineFeed
  simp only
  split
  · exact index_config t
  · exact index_config t

theorem control_config (t : Terminal) (c : Char) : (t.control c).toConfig = t.toConfig := by
  unfold control
  split_ifs
  · rfl
  · exact lineFeed_config t
  · rfl
  · rfl
  · rfl

/-- Items that only print, style the text or move and save the cursor. -/
inductive Keeps : Item → Prop where
  | print (c : Char) : Keeps (.print c)
  | control (c : Char) : Keeps (.control c)
  | save : Keeps (.esc [] '7')
  | designate (inter final : Char) : Keeps (.esc [inter] final)
  | cup (params : List (List Nat)) : Keeps (.csi none params [] 'H')
  | erase (params : List (List Nat)) : Keeps (.csi none params [] 'J')
  | sgr (params : List (List Nat)) : Keeps (.csi none params [] 'm')

theorem Keeps.step (h : Keeps i) (F : Font) (t : Terminal) :
    (t.step F i).toConfig = t.toConfig := by
  cases h with
  | print c => exact print_config F t c
  | control c => exact control_config t c
  | save => rfl
  | designate inter final => exact designate_config t inter final
  | cup params => rfl
  | erase params =>
    show (if param params 0 0 = 2 then _ else t).toConfig = t.toConfig
    split <;> rfl
  | sgr params => rfl

theorem run_config {items : List Item} (h : ∀ i ∈ items, Keeps i) (F : Font) (t : Terminal) :
    (t.run F items).toConfig = t.toConfig := by
  induction items generalizing t with
  | nil => rfl
  | cons i items ih =>
    obtain ⟨hi, hitems⟩ := List.forall_mem_cons.1 h
    exact (ih hitems (t.step F i)).trans (hi.step F t)

end Terminal
end Vt
