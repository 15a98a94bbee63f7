import RemoteCodex.Lib.VtPrint
import RemoteCodex.Agent.SnapshotModes

namespace RemoteCodex
set_option autoImplicit true
open Vt
namespace Alacritty

/-! What a painted grid looks like, and when the cells that are sent again leave it so. -/

def Cell.pen (cell : Cell) : Pen := Pen.sgr (styleParams cell) {}

def Cell.width (cell : Cell) : Nat := if cell.flags.wideChar then 2 else 1

/-- What a terminal shows of a cell. -/
def Cell.square (cell : Cell) : Square :=
  if cell.flags.wideCharSpacer then .rest
  else .glyph cell.shown cell.combining cell.pen cell.flags.wideChar

namespace Grid

def painted (g : Grid) : Screen := fun row col => (g.cell row col).square

/-- The cursor is in the grid. -/
structure Within (g : Grid) (cursor : Cursor) : Prop where
  first : 0 ≤ cursor.line
  last : cursor.line < g.screenLines
  column : cursor.column < g.columns

/-- A terminal of the settings, with a grid of its size; its characters are as wide as the cells. -/
structure Fits (g : Grid) (s : Settings) (F : Font) : Prop where
  columns : 2 ≤ g.columns
  lines : s.lines = g.screenLines
  cursor : g.Within g.cursor
  saved : g.Within g.savedCursor
  width : ∀ row < g.screenLines, ∀ col < g.columns,
    F.width (g.cell row col).shown = (g.cell row col).width
  combining : ∀ row < g.screenLines, ∀ col < g.columns,
    ∀ c ∈ (g.cell row col).combining, F.width c = 0

/-- A terminal that shows the grid. -/
structure Ready (g : Grid) (t : Terminal) : Prop where
  columns : t.columns = g.columns
  lines : t.lines = g.screenLines
  screen : Screen.Agree g.screenLines g.columns t.screen g.painted

/-- A terminal where the modes are sent, after the grid, the tab stops and the region. -/
structure PaintedOn (g : Grid) (s : Settings) (t : Terminal) : Prop extends g.Ready t where
  top : t.top = s.readRegion.1
  bottom : t.bottom = s.readRegion.2
  origin : t.modes.origin = false

/-- The cursor is where the model has it, and the screen still shows the grid. -/
structure Restored (g : Grid) (cursor : Cursor) (t : Terminal) : Prop where
  row : t.cursor.row = cursor.line
  col : t.cursor.col = cursor.column
  pending : t.cursor.pending = cursor.inputNeedsWrap
  screen : Screen.Agree g.screenLines g.columns t.screen g.painted

/-- The column of the cell that is sent again with a cursor. -/
def resent (g : Grid) (cursor : Cursor) : Option Nat :=
  let row := g.cursorRow cursor
  let col := g.cursorCol cursor
  if g.previousHasZeroWidth row col then some (col - 1)
  else if cursor.inputNeedsWrap ∧ col = g.columns - 1 then
    some (if 0 < col ∧ (g.cell row col).flags.wideCharSpacer then col - 1 else col)
  else none

/-- What the cells around a cursor must be like. The cell that is sent again is a whole glyph and
ends where the cursor is, or after the row where the cursor waits there; in insert mode the row
goes on with the same glyph. -/
structure Steady (g : Grid) (insert : Bool) (cursor : Cursor) : Prop where
  reach : (g.resent cursor).elim cursor.column (fun k => k + (g.cell cursor.line k).width) =
    if cursor.inputNeedsWrap then g.columns else cursor.column
  glyph : ∀ k ∈ g.resent cursor, (g.cell cursor.line k).flags.wideCharSpacer = false
  second : ∀ k ∈ g.resent cursor, (g.cell cursor.line k).flags.wideChar = true →
    (g.cell cursor.line (k + 1)).flags.wideCharSpacer = true
  insert : ∀ k ∈ g.resent cursor, insert = true →
    g.painted.Repeats cursor.line.toNat k (g.cell cursor.line k).width g.columns

variable {cursor : Cursor}

theorem Within.cursorRow {g : Grid} (h : g.Within cursor) : g.cursorRow cursor = cursor.line := by
  obtain ⟨hfirst, hlast, -⟩ := h
  unfold Grid.cursorRow
  omega

theorem Within.cursorCol {g : Grid} (h : g.Within cursor) :
    g.cursorCol cursor = cursor.column := by
  have hcolumn := h.column
  unfold Grid.cursorCol
  omega

/-- Where a cursor is sent to, from 1. -/
def sentLine (cursor : Cursor) (originTop : Nat) : Nat :=
  (max (cursor.line - originTop + 1) 1).toNat

theorem placeCursor_eq {g : Grid} (h : g.Within cursor) (originTop : Nat) :
    g.placeCursor cursor originTop =
      match g.resent cursor with
      | some k => cup (sentLine cursor originTop) (k + 1) :: (g.cell cursor.line k).printed
      | none => [cup (sentLine cursor originTop) (cursor.column + 1)] := by
  unfold Grid.placeCursor Grid.resent sentLine
  rw [h.cursorRow, h.cursorCol]
  simp only
  split
  · next hprevious =>
    have hpos : 0 < cursor.column := by
      unfold previousHasZeroWidth at hprevious
      simp only [Bool.and_eq_true, decide_eq_true_eq] at hprevious
      exact hprevious.1
    show _ = cup _ (cursor.column - 1 + 1) :: _
    rw [Nat.sub_add_cancel hpos]
  · split
    · rfl
    · rfl

/-- The cell before the cursor, or the one that it waits on. -/
theorem resent_cases {g : Grid} (h : g.Within cursor) (hk : g.resent cursor = some k) :
    k + 1 = cursor.column ∨
      k = cursor.column ∧ k + 1 = g.columns ∧ cursor.inputNeedsWrap = true ∧
        (0 < k → (g.cell cursor.line k).flags.wideCharSpacer = false) := by
  have hcolumn := h.column
  unfold Grid.resent at hk
  rw [h.cursorRow, h.cursorCol] at hk
  simp only at hk
  split at hk
  · next hprevious =>
    unfold previousHasZeroWidth at hprevious
    simp only [Bool.and_eq_true, decide_eq_true_eq] at hprevious
    have hpos := hprevious.1
    have he := Option.some.inj hk
    left
    omega
  · split at hk
    · next hwaits =>
      have he := Option.some.inj hk
      split at he
      · next hspacer =>
        left
        omega
      · next hspacer =>
        subst he
        refine .inr ⟨rfl, by omega, hwaits.1, ?_⟩
        intro hpos
        exact Bool.eq_false_iff.2 fun hs => hspacer ⟨hpos, hs⟩
    · exact absurd hk nofun

/-- The cell that is sent again is in the row. -/
theorem resent_lt {g : Grid} (h : g.Within cursor) (hk : g.resent cursor = some k) :
    k < g.columns := by
  have hcolumn := h.column
  obtain hbefore | ⟨-, hlast, -⟩ := resent_cases h hk
  · omega
  · omega

theorem width_cases (cell : Cell) : cell.width = 1 ∨ cell.width = 2 := by
  unfold Cell.width
  split
  · exact .inr rfl
  · exact .inl rfl

/-- A glyph that is cut off is in the last column, where the cursor waits. -/
theorem resent_cut {g : Grid} (hcolumns : 2 ≤ g.columns) (h : g.Within cursor)
    (hk : g.resent cursor = some k) (hcut : g.columns < k + (g.cell cursor.line k).width) :
    k + 1 = g.columns ∧ cursor.inputNeedsWrap = true ∧ (g.cell cursor.line k).width = 2 ∧
      (g.cell cursor.line k).flags.wideCharSpacer = false := by
  have hcolumn := h.column
  have hlt := resent_lt h hk
  have hwidth := width_cases (g.cell cursor.line k)
  obtain hbefore | ⟨-, hlast, hwaits, hspacer⟩ := resent_cases h hk
  · omega
  · exact ⟨hlast, hwaits, by omega, hspacer (by omega)⟩

end Grid

/-! What a terminal does with the cell. -/

theorem run_emitAsciiCharsets (F : Font) (t : Terminal) :
    t.run F emitAsciiCharsets = { t with
      cursor := { t.cursor with drawing := fun _ => false } } := by
  have hdrawing : (t.run F emitAsciiCharsets).cursor.drawing = fun _ => false := by
    funext i
    match i with
    | 0 => rfl
    | 1 => rfl
    | 2 => rfl
    | 3 => rfl
  rw [← hdrawing]
  rfl

theorem step_style (F : Font) (t : Terminal) (cell : Cell) :
    t.step F (style cell) = t.withPen cell.pen := by
  have hreset : Pen.sgr (styleParams cell) t.cursor.pen = cell.pen :=
    (Pen.sgr_reset _ _).trans (Pen.sgr_reset _ _).symm
  rw [← hreset]
  rfl

theorem step_cup (F : Font) (t : Terminal) (h : 0 < line) (col : Nat) :
    t.step F (cup line (col + 1)) = t.goto (line - 1) col := by
  cases line with
  | zero => exact absurd h (Nat.lt_irrefl 0)
  | succ line => rfl

theorem Cell.width_two (cell : Cell) : decide (cell.width = 2) = cell.flags.wideChar := by
  unfold Cell.width
  cases cell.flags.wideChar with
  | false => rfl
  | true => rfl

/-- A cell that fits, in a terminal that does not wait. -/
theorem print_cell {F : Font} {cell : Cell} (hwidth : F.width cell.shown = cell.width)
    (hcombining : ∀ c ∈ cell.combining, F.width c = 0) (t : Terminal) (hplain : t.Plain)
    (hpending : t.cursor.pending = false) (hfit : t.cursor.col + cell.width ≤ t.columns) :
    (t.print F cell.shown).run F (cell.combining.map .print) =
      { t.place cell.shown cell.width with
        screen := t.screen.put t.cursor.row t.cursor.col
          (.glyph cell.shown cell.combining t.cursor.pen cell.flags.wideChar) cell.width t.columns
          t.modes.insert } := by
  have hcases := Grid.width_cases cell
  rw [Terminal.print_fits hplain hpending hcases hwidth hfit,
    Terminal.place_combining _ hcases hfit hplain hcombining, cell.width_two]

/-- A wide cell in the last column goes to the start of the next row, or nowhere. -/
theorem print_cut {F : Font} {cell : Cell} (hwidth : F.width cell.shown = 2)
    (hcombining : ∀ c ∈ cell.combining, F.width c = 0) (t : Terminal) (hplain : t.Plain)
    (hpending : t.cursor.pending = false) (hcolumns : 2 ≤ t.columns)
    (hlast : t.cursor.col + 1 = t.columns) {t' : Terminal}
    (ht' : t' = (t.print F cell.shown).run F (cell.combining.map .print)) :
    t'.cursor.pending = false ∨ t.columns = 2 ∧ t'.screen t'.cursor.row 1 = .rest := by
  have hprint : t.print F cell.shown =
      if t.modes.lineWrap then (t.place ' ' 1).wrap.place cell.shown 2 else t := by
    rw [hplain.print, hwidth, Terminal.wrap_of_not_pending hpending]
    exact if_neg (by omega)
  rw [hprint] at ht'
  cases hwrap : t.modes.lineWrap with
  | false =>
    rw [hwrap, if_neg Bool.false_ne_true] at ht'
    left
    rw [ht', Terminal.run_combining_cursor hplain hcombining]
    exact hpending
  | true =>
    have hwaits : (t.place ' ' 1).cursor.pending = true ∧
        (t.place ' ' 1).modes.lineWrap = true := by
      refine ⟨?_, hwrap⟩
      show (!decide (t.cursor.col + 1 < t.columns)) = true
      rw [decide_eq_false (by omega)]
      rfl
    have hplace : (t.place ' ' 1).Plain := hplain
    have hstart : (t.place ' ' 1).wrap.cursor.col = 0 := by
      rw [Terminal.wrap, if_pos hwaits]
    have hsame : (t.place ' ' 1).wrap.columns = t.columns :=
      congrArg Config.columns (Terminal.wrap_config _)
    rw [hwrap, if_pos rfl, Terminal.place_combining _ (.inr rfl) (by rw [hstart, hsame]; omega)
      hplace.wrap hcombining, hstart] at ht'
    by_cases htwo : t.columns = 2
    · right
      refine ⟨htwo, ?_⟩
      rw [ht']
      exact Screen.put_rest ..
    · left
      rw [ht']
      show (!decide ((t.place ' ' 1).wrap.cursor.col + 2 < (t.place ' ' 1).wrap.columns)) = false
      rw [hstart, hsame, decide_eq_true (by omega)]
      rfl

theorem Cell.square_eq_glyph (cell : Cell) :
    cell.square = .glyph cell.shown cell.combining cell.pen cell.flags.wideChar ↔
      cell.flags.wideCharSpacer = false := by
  unfold Cell.square
  cases cell.flags.wideCharSpacer with
  | false => exact iff_of_true rfl rfl
  | true => exact iff_of_false nofun nofun

theorem Cell.square_eq_rest (cell : Cell) :
    cell.square = .rest ↔ cell.flags.wideCharSpacer = true := by
  unfold Cell.square
  cases cell.flags.wideCharSpacer with
  | false => exact iff_of_false nofun nofun
  | true => exact iff_of_true rfl rfl

theorem Cell.width_eq_two (cell : Cell) : cell.width = 2 ↔ cell.flags.wideChar = true := by
  rw [← cell.width_two, decide_eq_true_iff]

namespace Grid

/-- When a screen still shows the grid after a cell is sent again. -/
theorem Ready.put_iff {g : Grid} {t : Terminal} (ht : g.Ready t) {row : Nat}
    (hrow : row < g.screenLines) (insert : Bool) (hlt : k < g.columns)
    (hfit : k + (g.cell row k).width ≤ g.columns) :
    Screen.Agree g.screenLines g.columns
        (t.screen.put row k (.glyph (g.cell row k).shown (g.cell row k).combining
          (g.cell row k).pen (g.cell row k).flags.wideChar) (g.cell row k).width g.columns insert)
        g.painted ↔
      (g.cell row k).flags.wideCharSpacer = false ∧
        ((g.cell row k).flags.wideChar = true →
          (g.cell row (k + 1)).flags.wideCharSpacer = true) ∧
        (insert = true → g.painted.Repeats row k (g.cell row k).width g.columns) := by
  rw [← ht.screen.congr_right, Screen.put_agree_iff (width_cases _) hrow hfit,
    ht.screen row hrow k hlt, ht.screen.repeats_iff hrow]
  refine and_congr (Cell.square_eq_glyph _) (and_congr_left fun _ => ?_)
  rw [Cell.width_eq_two]
  refine forall_congr' fun hwide => ?_
  rw [(Cell.width_eq_two _).2 hwide] at hfit
  rw [ht.screen row hrow (k + 1) (by omega)]
  exact Cell.square_eq_rest _

variable {cursor : Cursor}

theorem steady_none {g : Grid} (hk : g.resent cursor = none) (insert : Bool) :
    g.Steady insert cursor ↔
      cursor.column = if cursor.inputNeedsWrap then g.columns else cursor.column := by
  constructor
  · intro h
    have hreach := h.reach
    rwa [hk] at hreach
  · intro h
    refine ⟨by rw [hk]; exact h, ?_, ?_, ?_⟩
    · simp [hk]
    · simp [hk]
    · simp [hk]

theorem steady_some {g : Grid} (hk : g.resent cursor = some k) (insert : Bool) :
    g.Steady insert cursor ↔
      k + (g.cell cursor.line k).width =
          (if cursor.inputNeedsWrap then g.columns else cursor.column) ∧
        (g.cell cursor.line k).flags.wideCharSpacer = false ∧
        ((g.cell cursor.line k).flags.wideChar = true →
          (g.cell cursor.line (k + 1)).flags.wideCharSpacer = true) ∧
        (insert = true →
          g.painted.Repeats cursor.line.toNat k (g.cell cursor.line k).width g.columns) := by
  constructor
  · intro h
    have hreach := h.reach
    rw [hk] at hreach
    exact ⟨hreach, h.glyph k hk, h.second k hk, h.insert k hk⟩
  · rintro ⟨hreach, hglyph, hsecond, hinsert⟩
    have hsame : ∀ j ∈ g.resent cursor, j = k := fun j hj => Option.some.inj (hj.symm.trans hk)
    refine ⟨by rw [hk]; exact hreach, ?_, ?_, ?_⟩
    · intro j hj
      rwa [hsame j hj]
    · intro j hj
      rwa [hsame j hj]
    · intro j hj
      rwa [hsame j hj]

/-- Whether a cell reaches up to a cursor, by the cursor that it leaves. -/
theorem reach_iff {columns column w : Nat} (waits : Bool) (hcolumn : column < columns)
    (hfit : k + w ≤ columns) (hw : w = 1 ∨ w = 2)
    (hk : k + 1 = column ∨ k = column ∧ k + 1 = columns) :
    ((if decide (k + w < columns) then k + w else columns - 1) = column ∧
        (!decide (k + w < columns)) = waits) ↔
      k + w = if waits then columns else column := by
  by_cases hlt : k + w < columns
  · rw [decide_eq_true hlt, if_pos rfl, Bool.not_true]
    cases waits with
    | false => exact and_iff_left rfl
    | true =>
      rw [if_pos rfl]
      exact iff_of_false (fun h => nomatch h.2) (Nat.ne_of_lt hlt)
  · rw [decide_eq_false hlt, if_neg Bool.false_ne_true, Bool.not_false]
    cases waits with
    | false =>
      rw [if_neg Bool.false_ne_true]
      exact iff_of_false (fun h => nomatch h.2) (by omega)
    | true =>
      rw [if_pos rfl, and_iff_left rfl]
      omega

/-- The cell is sent again, from a terminal that shows the grid. -/
theorem restored_printed {g : Grid} (hg : g.Fits s F) (hin : g.Within cursor)
    (hk : g.resent cursor = some k) {t : Terminal} (ht : g.Ready t) (hplain : t.Plain)
    (hpending : t.cursor.pending = false) (hcol : t.cursor.col = k) :
    g.Restored cursor (t.run F (g.cell cursor.line k).printed) ↔
      t.cursor.row = cursor.line ∧ g.Steady t.modes.insert cursor := by
  obtain ⟨row, hline⟩ := Int.eq_ofNat_of_zero_le hin.first
  have hrow : row < g.screenLines := by
    have hlast := hin.last
    omega
  have hcolumn := hin.column
  have hlt := resent_lt hin hk
  have hwidth := hg.width row hrow k hlt
  have hcombining := hg.combining row hrow k hlt
  have hcolumns := ht.columns
  have hstart : t.run F (g.cell row k).printed =
      ((t.withPen (g.cell row k).pen).print F (g.cell row k).shown).run F
        ((g.cell row k).combining.map .print) := by
    rw [← step_style]
    rfl
  rw [steady_some hk, hline, Int.toNat_natCast, Int.natCast_inj]
  by_cases hcut : g.columns < k + (g.cell row k).width
  · obtain ⟨hlast, hwaits, hwide, hspacer⟩ :=
      resent_cut hg.columns hin hk (by rw [hline]; exact hcut)
    rw [hline] at hwide hspacer
    refine iff_of_false ?_ ?_
    · intro h
      rw [hwide] at hwidth
      have hroom : 2 ≤ t.columns := by
        rw [hcolumns]
        exact hg.columns
      have hedge : t.cursor.col + 1 = t.columns := by rw [hcol, hlast, hcolumns]
      obtain hnot | ⟨htwo, hrest⟩ := print_cut hwidth hcombining (t.withPen (g.cell row k).pen)
        hplain hpending hroom hedge hstart
      · rw [h.pending, hwaits] at hnot
        exact nomatch hnot
      · have hsame : (t.run F (g.cell row k).printed).cursor.row = row := by
          have hr := h.row
          omega
        have hone : k = 1 := by
          replace htwo : t.columns = 2 := htwo
          omega
        rw [hsame, ← hone, h.screen row hrow k hlt] at hrest
        rw [(Cell.square_eq_rest _).1 hrest] at hspacer
        exact nomatch hspacer
    · rintro ⟨-, hreach, -⟩
      split at hreach <;> omega
  · have hfit : k + (g.cell row k).width ≤ g.columns := Nat.le_of_not_lt hcut
    have hroom : t.cursor.col + (g.cell row k).width ≤ t.columns := by rwa [hcolumns, hcol]
    rw [hstart, print_cell hwidth hcombining (t.withPen (g.cell row k).pen) hplain hpending hroom]
    have hreach := reach_iff cursor.inputNeedsWrap hcolumn hfit (width_cases _)
      (by obtain h | h := resent_cases hin hk <;> tauto)
    have hput := ht.put_iff hrow t.modes.insert hlt hfit
    subst hcol
    rw [← hcolumns] at hreach hput ⊢
    constructor
    · intro h
      have hr : t.cursor.row = row := Int.natCast_inj.1 (h.row.trans hline)
      have hscreen := h.screen
      rw [← hcolumns] at hscreen
      subst hr
      exact ⟨rfl, hreach.1 ⟨h.col, h.pending⟩, hput.1 hscreen⟩
    · rintro ⟨rfl, hend, hsteady⟩
      obtain ⟨hcol, hpend⟩ := hreach.2 hend
      refine ⟨hline.symm, hcol, hpend, ?_⟩
      rw [← hcolumns]
      exact hput.2 hsteady

theorem sentLine_pos (cursor : Cursor) (originTop : Nat) : 0 < sentLine cursor originTop := by
  unfold sentLine
  omega

/-- A cursor is placed in a terminal that shows the grid. -/
theorem restored_placeCursor {g : Grid} (hg : g.Fits s F) (hin : g.Within cursor) {t : Terminal}
    (ht : g.Ready t) (hplain : t.Plain) (originTop : Nat) :
    g.Restored cursor (t.run F (g.placeCursor cursor originTop)) ↔
      (t.goto (sentLine cursor originTop - 1) 0).cursor.row = cursor.line ∧
        g.Steady t.modes.insert cursor := by
  have hpos := sentLine_pos cursor originTop
  have hmin : ∀ k < g.columns, min k (t.columns - 1) = k := by
    intro k hk
    rw [ht.columns]
    omega
  rw [placeCursor_eq hin]
  cases hk : g.resent cursor with
  | none =>
    rw [Terminal.run_cons, step_cup F t hpos, steady_none hk]
    have hcolumn := hin.column
    constructor
    · intro h
      refine ⟨h.row, ?_⟩
      rw [← h.pending]
      rfl
    · rintro ⟨hrow, hwaits⟩
      have hnot : cursor.inputNeedsWrap = false := by
        by_contra hne
        rw [if_pos (Bool.not_eq_false _ ▸ hne)] at hwaits
        omega
      exact ⟨hrow, hmin cursor.column hcolumn, hnot.symm, ht.screen⟩
  | some k =>
    rw [Terminal.run_cons, step_cup F t hpos]
    exact restored_printed hg hin hk (t := t.goto (sentLine cursor originTop - 1) k)
      ⟨ht.columns, ht.lines, ht.screen⟩ hplain rfl (hmin k (resent_lt hin hk))

theorem Restored.congr {g : Grid} {t t' : Terminal} (h : t.Stays t') :
    g.Restored cursor t' ↔ g.Restored cursor t := by
  constructor
  · rintro ⟨hrow, hcol, hpending, hscreen⟩
    exact ⟨h.row ▸ hrow, h.col ▸ hcol, h.pending ▸ hpending, h.screen ▸ hscreen⟩
  · rintro ⟨hrow, hcol, hpending, hscreen⟩
    exact ⟨h.row ▸ hrow, h.col ▸ hcol, h.pending ▸ hpending, h.screen ▸ hscreen⟩

theorem unseen_activate (i : CharsetIndex) : Terminal.Unseen (activate i) := by
  cases i with
  | g0 => exact .shiftIn
  | g1 => exact .shiftOut
  | g2 => exact .shiftIn
  | g3 => exact .shiftIn

/-- After the cursor is placed, nothing moves it or the screen. -/
theorem unseen_restoreOne {cursor : Cursor} (h : i ∈ emitCharsets cursor.charsets ++
    [sgr [[0]], activate cursor.activeCharset, style cursor.template]) : Terminal.Unseen i := by
  rw [emitCharsets] at h
  simp only [List.mem_append, List.mem_cons, List.not_mem_nil, or_false] at h
  rcases h with (rfl | rfl | rfl | rfl) | rfl | rfl | rfl
  · exact .designate ..
  · exact .designate ..
  · exact .designate ..
  · exact .designate ..
  · exact .sgr _
  · exact unseen_activate _
  · exact .sgr _

/-- One cursor is restored in a terminal that shows the grid exactly where the cells are steady, if
it is sent to the right line. -/
theorem restored_restoreOne {g : Grid} (hg : g.Fits s F) (hin : g.Within cursor) {t : Terminal}
    (ht : g.Ready t) (originTop : Nat) :
    g.Restored cursor (t.run F (g.restoreOne cursor originTop)) ↔
      (t.goto (sentLine cursor originTop - 1) 0).cursor.row = cursor.line ∧
        g.Steady t.modes.insert cursor := by
  rw [restoreOne, List.append_assoc, Terminal.run_append,
    Restored.congr (Terminal.run_unseen (fun _ => unseen_restoreOne) F _), Terminal.run_append,
    run_emitAsciiCharsets]
  exact restored_placeCursor hg hin
    (t := { t with cursor := { t.cursor with drawing := fun _ => false } })
    ⟨ht.columns, ht.lines, ht.screen⟩ (fun _ => rfl) originTop

/-- The line of a cursor, where it is sent without origin mode. -/
theorem goto_sentLine {g : Grid} (hin : g.Within cursor) {t : Terminal} (ht : g.Ready t)
    (horigin : t.modes.origin = false) :
    (t.goto (sentLine cursor 0 - 1) 0).cursor.row = cursor.line := by
  obtain ⟨hfirst, hlast, -⟩ := hin
  have hline : (t.goto (sentLine cursor 0 - 1) 0).cursor.row =
      min (sentLine cursor 0 - 1) (g.screenLines - 1) := by
    show (if t.modes.origin then _ else min (sentLine cursor 0 - 1) (t.lines - 1)) = _
    rw [horigin, if_neg Bool.false_ne_true, ht.lines]
  rw [hline]
  unfold sentLine
  omega

end Grid

/-- In origin mode, a line that a cursor can be sent to: one of the region that a terminal has. -/
def Settings.Reaches (s : Settings) (line : Int) : Prop :=
  if s.regionStart + 1 < s.regionEnd then s.regionStart ≤ line ∧ line < s.regionEnd
  else s.regionStart = 0 ∨ line = 0

namespace Grid

variable {cursor : Cursor}

/-- A terminal after the modes. -/
structure ModesOn (g : Grid) (s : Settings) (t : Terminal) : Prop extends g.PaintedOn s t where
  insert : t.modes.insert = s.mode.insert

theorem ModesOn.next {g : Grid} {t t' : Terminal} (h : g.ModesOn s t)
    (hconfig : t'.toConfig = t.toConfig)
    (hscreen : Screen.Agree g.screenLines g.columns t'.screen g.painted) : g.ModesOn s t' := by
  refine ⟨⟨⟨?_, ?_, hscreen⟩, ?_, ?_, ?_⟩, ?_⟩
  · rw [hconfig, h.columns]
  · rw [hconfig, h.lines]
  · rw [hconfig, h.top]
  · rw [hconfig, h.bottom]
  · rw [hconfig, h.origin]
  · rw [hconfig, h.insert]

theorem ModesOn.save {g : Grid} {t : Terminal} (h : g.ModesOn s t) (F : Font) :
    g.ModesOn s (t.step F saveCursor) :=
  ⟨⟨⟨h.columns, h.lines, h.screen⟩, h.top, h.bottom, h.origin⟩, h.insert⟩

/-- A cursor is restored without origin mode. -/
theorem ModesOn.restored {g : Grid} {t : Terminal} (h : g.ModesOn s t) (hg : g.Fits s F)
    (hin : g.Within cursor) :
    g.Restored cursor (t.run F (g.restoreOne cursor 0)) ↔ g.Steady s.mode.insert cursor := by
  rw [restored_restoreOne hg hin h.toReady 0, h.insert]
  exact and_iff_right (goto_sentLine hin h.toReady h.origin)

/-- A terminal reads what was sent. -/
def reads (F : Font) (t : Terminal) (items : List Item) : Terminal :=
  t.run F (parse (text items))

/-- A blank grid where the cursor waits in the last column. -/
def waiting : Grid := { Grid.new 5 4 with cursor := { column := 3, inputNeedsWrap := true } }

end Grid
end Alacritty
end RemoteCodex
