import RemoteCodex.Lib.VtSheet
import RemoteCodex.Agent.SnapshotCursor

namespace RemoteCodex
set_option autoImplicit true
open Vt Terminal
namespace Alacritty

/-! A grid that is painted, line by line. -/

namespace Grid

/-- The lines of the history that are painted. -/
def shownHistory (g : Grid) : Nat := min g.historySize 2000

/-- The row that is painted after so many others. -/
def paintedRow (g : Grid) (i : Nat) : Int := i - g.shownHistory

/-- What a terminal shows of it. -/
def paintedLine (g : Grid) (i : Nat) : Vt.Line := fun col => (g.cell (g.paintedRow i) col).square

/-- A row made of whole glyphs. A wide one that did not fit has left a blank in its pen, and is at
the start of the next row. -/
structure WholeRow (g : Grid) (F : Font) (row : Int) : Prop where
  width : ∀ col < g.columns, (g.cell row col).flags.spacer = false →
    F.width (g.cell row col).shown = (g.cell row col).width
  combining : ∀ col < g.columns, (g.cell row col).flags.spacer = false →
    ∀ c ∈ (g.cell row col).combining, F.width c = 0
  wide : ∀ col < g.columns, (g.cell row col).flags.spacer = false →
    (g.cell row col).flags.wideChar = true →
      col + 1 < g.columns ∧ (g.cell row (col + 1)).flags.wideCharSpacer = true
  second : ∀ col < g.columns, (g.cell row col).flags.wideCharSpacer = true →
    0 < col ∧ (g.cell row (col - 1)).flags.spacer = false ∧
      (g.cell row (col - 1)).flags.wideChar = true
  cut : ∀ col < g.columns, (g.cell row col).flags.leadingWideCharSpacer = true →
    col + 1 = g.columns ∧ (g.cell row col).flags.wrapline = true ∧ row + 1 < g.screenLines ∧
      (g.cell (row + 1) 0).flags.spacer = false ∧ (g.cell (row + 1) 0).flags.wideChar = true ∧
        (g.cell row col).square = .glyph ' ' [] (g.cell (row + 1) 0).pen false

/-- All the rows that are painted are. -/
structure Whole (g : Grid) (F : Font) : Prop where
  columns : 2 ≤ g.columns
  positive : 0 < g.screenLines
  row : ∀ i < g.shownHistory + g.screenLines, g.WholeRow F (g.paintedRow i)

/-- Where a terminal is when it comes to a column of a row: there, or at the end of the row before
it, which the next glyph leaves. -/
inductive At (g : Grid) (i : Nat) : Nat → Terminal → List Vt.Line → Prop where
  | here (h : Filled g.paintedLine i col t off) : At g i col t off
  | wrap (h : Filled g.paintedLine k t.columns t off) (hi : i = k + 1) : At g i 0 t off
  | cut (h : Filled g.paintedLine k e t off) (hi : i = k + 1) (hlast : e + 1 = t.columns)
      (hwide : (g.cell (g.paintedRow i) 0).width = 2)
      (hblank : g.paintedLine k e = .glyph ' ' [] (g.cell (g.paintedRow i) 0).pen false) :
      At g i 0 t off

end Grid

/-- A terminal's pen is the one of the last style that was sent. -/
def Penned (last : Option Item) (t : Terminal) : Prop :=
  ∀ cell, last = some (style cell) → t.cursor.pen = cell.pen

/-- What is painted after `out` brings a terminal from `t₁` to `t`, and these lines leave. -/
structure Reads (F : Font) (t₁ : Terminal) (out : List Item) (p : Painting) (t : Terminal)
    (off : List Vt.Line) : Prop where
  reads : ∃ items, p.out = out ++ items ∧ (∀ i ∈ items, Keeps i) ∧ t = t₁.run F items ∧
    off = t₁.offs F items
  pen : Penned p.lastStyle t

variable {F : Font} {t₁ t : Terminal} {out : List Item} {p : Painting} {off : List Vt.Line}

theorem Reads.config (h : Reads F t₁ out p t off) : t.toConfig = t₁.toConfig := by
  obtain ⟨items, -, hkeeps, rfl, -⟩ := h.reads
  exact run_config hkeeps F t₁

theorem Reads.add (h : Reads F t₁ out p t off) (items : List Item) (last : Option Item)
    (hkeeps : ∀ i ∈ items, Keeps i) (hpen : Penned last (t.run F items)) :
    Reads F t₁ out ⟨p.out ++ items, last⟩ (t.run F items) (off ++ t.offs F items) := by
  obtain ⟨items', hout, hkeeps', rfl, rfl⟩ := h.reads
  refine ⟨⟨items' ++ items, ?_, ?_, ?_, ?_⟩, hpen⟩
  · rw [hout, List.append_assoc]
  · intro i hi
    exact (List.mem_append.1 hi).elim (hkeeps' i) (hkeeps i)
  · rw [run_append]
  · rw [offs_append]

theorem style_pen {cell cell' : Cell} (h : style cell = style cell') : cell.pen = cell'.pen := by
  have hparams : styleParams cell = styleParams cell' := by
    have hcsi := h
    simp only [style, sgr, Item.csi.injEq, true_and, and_true] at hcsi
    exact hcsi
  rw [Cell.pen, Cell.pen, hparams]

/-- The style of a cell is sent where it is not the last one. -/
theorem Reads.styled (h : Reads F t₁ out p t off) (cell : Cell) :
    ∃ t', Reads F t₁ out
        ⟨if p.lastStyle = some (style cell) then p.out else p.out ++ [style cell],
          some (style cell)⟩ t' off ∧
      t.Stays t' ∧ t'.cursor.drawing = t.cursor.drawing ∧ t'.cursor.pen = cell.pen := by
  by_cases hlast : p.lastStyle = some (style cell)
  · have hpen := h.pen cell hlast
    rw [if_pos hlast]
    refine ⟨t, ⟨h.reads, ?_⟩, ⟨rfl, rfl, rfl, rfl, rfl⟩, rfl, hpen⟩
    intro cell' hcell'
    rw [hpen, style_pen (Option.some.inj hcell')]
  · rw [if_neg hlast]
    have hrun : t.run F [style cell] = t.withPen cell.pen := step_style F t cell
    have hadd := h.add [style cell] (some (style cell))
      (fun i hi => by rw [List.mem_singleton.1 hi]; exact .sgr _)
      (fun cell' hcell' => by rw [hrun, ← style_pen (Option.some.inj hcell')]; rfl)
    rw [hrun, show t.offs F [style cell] = [] from rfl, List.append_nil] at hadd
    exact ⟨t.withPen cell.pen, hadd, ⟨rfl, rfl, rfl, rfl, rfl⟩, rfl, rfl⟩

/-- The end of a row is sent. -/
theorem Reads.feed (h : Reads F t₁ out p t off) :
    Reads F t₁ out { p with out := p.out ++ [.control '\r', .control '\n'] }
      (t.run F [.control '\r', .control '\n'])
      (off ++ t.offs F [.control '\r', .control '\n']) := by
  refine h.add _ _ ?_ ?_
  · intro i hi
    rw [List.mem_cons, List.mem_singleton] at hi
    obtain rfl | rfl := hi
    · exact .control _
    · exact .control _
  · intro cell hcell
    rw [← h.pen cell hcell]
    exact (control_pen _ '\n').trans (control_pen t '\r')

namespace Grid

variable {g : Grid}

theorem At.filled (h : g.At i col t off) (hpos : 0 < col) :
    Filled g.paintedLine i col t off := by
  cases h with
  | here h => exact h
  | wrap => exact absurd hpos (Nat.lt_irrefl 0)
  | cut => exact absurd hpos (Nat.lt_irrefl 0)

/-- The glyph of a cell, in its pen. -/
theorem At.glyph (h : g.At i col t off) (hrow : g.WholeRow F (g.paintedRow i))
    (hcolumns : t.columns = g.columns) (htwo : 2 ≤ g.columns) (hcol : col < g.columns)
    (hspacer : (g.cell (g.paintedRow i) col).flags.spacer = false)
    (hpen : t.cursor.pen = (g.cell (g.paintedRow i) col).pen) :
    Filled g.paintedLine i (col + (g.cell (g.paintedRow i) col).width)
      (t.run F (glyph (g.cell (g.paintedRow i) col).shown (g.cell (g.paintedRow i) col).combining))
      (off ++ t.offs F (glyph (g.cell (g.paintedRow i) col).shown
        (g.cell (g.paintedRow i) col).combining)) := by
  have hc := hrow.width col hcol hspacer
  have hzs := hrow.combining col hcol hspacer
  have hwide := hrow.wide col hcol hspacer
  have hnot : (g.cell (g.paintedRow i) col).flags.wideCharSpacer = false :=
    (Bool.or_eq_false_iff.1 hspacer).1
  have hholds : Holds (g.paintedLine i) col (g.cell (g.paintedRow i) col).shown
      (g.cell (g.paintedRow i) col).combining t.cursor.pen (g.cell (g.paintedRow i) col).width := by
    refine ⟨?_, ?_⟩
    · rw [hpen, Cell.width_two]
      exact (Cell.square_eq_glyph _).2 hnot
    · intro h
      exact (Cell.square_eq_rest _).2 (hwide ((Cell.width_eq_two _).1 h)).2
  have hfit : col + (g.cell (g.paintedRow i) col).width ≤ g.columns := by
    obtain h | h := width_cases (g.cell (g.paintedRow i) col)
    · omega
    · have hnext := (hwide ((Cell.width_eq_two _).1 h)).1
      omega
  generalize hwidth : (g.cell (g.paintedRow i) col).width = width at *
  have hcases : width = 1 ∨ width = 2 := hwidth ▸ width_cases _
  cases h with
  | here h => exact h.glyph hcases hc hzs (hcolumns ▸ hfit) hholds
  | wrap h hi =>
    subst hi
    rw [Nat.zero_add]
    exact h.glyph_wrap hcases hc hzs (hcolumns ▸ htwo) hholds
  | cut h hi hlast htwo' hblank =>
    subst hi
    obtain rfl : width = 2 := hwidth.symm.trans htwo'
    exact h.glyph_cut hlast hc hzs (hcolumns ▸ htwo) (hpen ▸ hblank) hholds

/-- At the end of a row, either it is filled, or its last column is for a blank. -/
inductive Ended (g : Grid) (i : Nat) (t : Terminal) (off : List Vt.Line) : Prop where
  | filled (h : Filled g.paintedLine i t.columns t off)
  | cut (e : Nat) (h : Filled g.paintedLine i e t off) (hlast : e + 1 = t.columns)
      (hleading : (g.cell (g.paintedRow i) e).flags.leadingWideCharSpacer = true)

theorem outLen_append (out items : List Item) :
    outLen (out ++ items) = outLen out + outLen items := by
  rw [outLen, text, List.flatMap_append, List.map_append, List.sum_append]
  rfl

theorem outLen_rows (g : Grid) (n : Nat) (row : Int) (p : Painting) :
    outLen p.out ≤ outLen (p.rows g n row).out := by
  obtain ⟨items, hout, -⟩ := Painting.adds_rows g n row p
  rw [hout, outLen_append]
  exact Nat.le_add_right _ _

/-- A screen shows the grid, after the lines of the history that left. -/
structure Shown (g : Grid) (screen : Screen) (off : List Vt.Line) : Prop where
  screen : Screen.Agree g.screenLines g.columns screen g.painted
  length : off.length = g.shownHistory
  history : ∀ i (h : i < off.length), ∀ col < g.columns,
    off[i] col = (g.cell (i - off.length) col).square

/-- The configuration where painting starts. -/
structure Blank (c : Vt.Config) : Prop where
  top : c.top = 0
  bottom : c.bottom = c.lines
  insert : c.modes.insert = false
  lineWrap : c.modes.lineWrap = true
  newLine : c.modes.lineFeedNewLine = false
  origin : c.modes.origin = false

variable {s : Settings} {cursor : Cursor}

/-- A grid of the settings' size, whose rows and cursors can be sent. -/
structure Sendable (g : Grid) (s : Settings) (F : Font) (insert : Bool) : Prop
    extends g.Fits s F, g.Whole F where
  size : s.columns = g.columns
  steadySaved : g.Steady insert g.savedCursor
  steady : g.Steady insert g.cursor

theorem Blank.setAlt {t : Terminal} (h : Blank t.toConfig) :
    Blank (t.setAlt true).toConfig := by
  obtain ⟨htop, hbottom, hinsert, hwrap, hnew, horigin⟩ := h
  unfold Terminal.setAlt
  split
  · exact ⟨htop, hbottom, hinsert, hwrap, hnew, horigin⟩
  · exact ⟨htop, hbottom, hinsert, hwrap, hnew, horigin⟩

end Grid

end Alacritty
end RemoteCodex
