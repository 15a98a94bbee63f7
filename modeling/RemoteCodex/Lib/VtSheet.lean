import RemoteCodex.Lib.Mealy
import RemoteCodex.Lib.VtPrint

/-! The lines that leave the screen at the top, and the screen after them, as one sheet that is
filled line by line. -/

namespace Vt
set_option autoImplicit true

abbrev Line := Nat → Square

namespace Terminal

/-- What leaves when the cursor moves down. -/
def indexOff (t : Terminal) : List Line :=
  if t.cursor.row + 1 = t.bottom ∧ t.top = 0 then [t.screen 0] else []

def wrapOff (t : Terminal) : List Line :=
  if t.cursor.pending ∧ t.modes.lineWrap then t.indexOff else []

def printOff (F : Font) (t : Terminal) (c : Char) : List Line :=
  let c := if t.cursor.drawing t.cursor.active then F.lineDrawing c else c
  match F.width c with
  | 0 => []
  | 1 => t.wrapOff
  | _ =>
    let u := t.wrap
    t.wrapOff ++
      if u.cursor.col + 2 ≤ u.columns then []
      else if u.modes.lineWrap then (u.place ' ' 1).wrapOff
      else []

def stepOff (F : Font) (t : Terminal) : Item → List Line
  | .print c => t.printOff F c
  | .control c => if c = '\n' then t.indexOff else []
  | _ => []

/-- A terminal as a machine whose output is what leaves the screen. -/
def scroll (F : Font) (t : Terminal) (i : Item) : Terminal × List Line :=
  (t.step F i, t.stepOff F i)

/-- The lines that leave while a terminal follows some items, the oldest first. -/
def offs (F : Font) (t : Terminal) (items : List Item) : List Line :=
  (Mealy.run (scroll F) t items).2

theorem run_scroll (F : Font) (t : Terminal) (items : List Item) :
    (Mealy.run (scroll F) t items).1 = t.run F items := by
  induction items generalizing t with
  | nil => rfl
  | cons i items ih => exact ih (t.step F i)

theorem offs_cons (F : Font) (t : Terminal) (i : Item) (items : List Item) :
    t.offs F (i :: items) = t.stepOff F i ++ (t.step F i).offs F items := rfl

theorem offs_append (F : Font) (t : Terminal) (items items' : List Item) :
    t.offs F (items ++ items') = t.offs F items ++ (t.run F items).offs F items' := by
  rw [← run_scroll]
  exact congrArg Prod.snd (Mealy.run_append (scroll F) t items items')

/-- The lines that left, and those of the screen after them. -/
def sheet (t : Terminal) (off : List Line) (i : Nat) : Line :=
  off.getD i (t.screen (i - off.length))

theorem sheet_left {t : Terminal} {off : List Line} (h : i < off.length) :
    t.sheet off i = off[i] := by
  rw [sheet, List.getD_eq_getElem?_getD, List.getElem?_eq_getElem h, Option.getD_some]

theorem sheet_screen (t : Terminal) (off : List Line) (r : Nat) :
    t.sheet off (off.length + r) = t.screen r := by
  rw [sheet, List.getD_eq_getElem?_getD, List.getElem?_eq_none (Nat.le_add_right _ _),
    Option.getD_none, Nat.add_sub_cancel_left]

/-- The whole screen scrolls, and what is printed goes on from line to line. -/
structure Paging (t : Terminal) : Prop where
  top : t.top = 0
  bottom : t.bottom = t.lines
  row : t.cursor.row < t.lines
  insert : t.modes.insert = false
  lineWrap : t.modes.lineWrap = true
  newLine : t.modes.lineFeedNewLine = false
  plain : t.Plain

theorem Paging.of_config {t t' : Terminal} (h : t.Paging) (hconfig : t'.toConfig = t.toConfig)
    (hrow : t'.cursor.row < t'.lines) (hplain : t'.Plain) : t'.Paging := by
  refine ⟨?_, ?_, hrow, ?_, ?_, ?_, hplain⟩
  · rw [hconfig, h.top]
  · rw [hconfig, h.bottom]
  · rw [hconfig, h.insert]
  · rw [hconfig, h.lineWrap]
  · rw [hconfig, h.newLine]

/-- The cursor moves down one line of the sheet. -/
structure Lowered (t : Terminal) (off : List Line) (t' : Terminal) (off' : List Line) : Prop where
  config : t'.toConfig = t.toConfig
  row : t'.cursor.row < t.lines
  line : off'.length + t'.cursor.row = off.length + t.cursor.row + 1
  full : off' ≠ [] → t'.cursor.row + 1 = t.lines
  above : ∀ i ≤ off.length + t.cursor.row, t'.sheet off' i = t.sheet off i

theorem Paging.index {t : Terminal} (h : t.Paging) {off : List Line}
    (hfull : off ≠ [] → t.cursor.row + 1 = t.lines) :
    Lowered t off t.index (off ++ t.indexOff) := by
  by_cases hlast : t.cursor.row + 1 = t.lines
  · have hindex : t.index = t.scrollUp := if_pos (hlast.trans h.bottom.symm)
    have hoff : t.indexOff = [t.screen 0] := if_pos ⟨hlast.trans h.bottom.symm, h.top⟩
    rw [hindex, hoff]
    refine ⟨rfl, h.row, ?_, fun _ => hlast, ?_⟩
    · rw [List.length_append, List.length_singleton]
      show off.length + 1 + t.cursor.row = _
      omega
    · intro i hi
      by_cases hleft : i < off.length
      · rw [sheet_left (by rw [List.length_append]; omega), sheet_left hleft,
          List.getElem_append_left hleft]
      · obtain ⟨r, rfl⟩ := Nat.exists_eq_add_of_le (Nat.le_of_not_lt hleft)
        rw [sheet_screen]
        cases r with
        | zero =>
          rw [sheet_left (by rw [List.length_append, List.length_singleton]; omega)]
          simp
        | succ r =>
          have hlen : off.length + (r + 1) = (off ++ [t.screen 0]).length + r := by
            rw [List.length_append, List.length_singleton]
            omega
          rw [hlen, sheet_screen]
          funext c
          refine if_pos ⟨?_, ?_⟩
          · rw [h.top]
            exact Nat.zero_le r
          · rw [h.bottom]
            omega
  · have hrow := h.row
    have hindex : t.index = { t with cursor := { t.cursor with row := t.cursor.row + 1 } } := by
      rw [Terminal.index, h.bottom, if_neg hlast, if_pos (by omega)]
    have hoff : t.indexOff = [] := by
      rw [indexOff, h.bottom]
      exact if_neg fun hp => hlast hp.1
    rw [hindex, hoff, List.append_nil]
    refine ⟨rfl, ?_, rfl, fun hne => absurd (hfull hne) hlast, fun _ _ => rfl⟩
    show t.cursor.row + 1 < t.lines
    omega

/-- The cursor is in line `k` of the sheet, where the first `e` columns are filled; the lines before
it are as in `rows`, and so are those columns. -/
structure Filled (rows : Nat → Line) (k e : Nat) (t : Terminal) (off : List Line) : Prop
    extends Paging t where
  line : off.length + t.cursor.row = k
  full : off ≠ [] → t.cursor.row + 1 = t.lines
  before : ∀ i < k, ∀ c < t.columns, t.sheet off i c = rows i c
  here : ∀ c < e, t.sheet off k c = rows k c
  reach : e ≤ t.columns
  col : t.cursor.col = if e < t.columns then e else t.columns - 1
  pending : t.cursor.pending = decide (e = t.columns)

variable {rows : Nat → Line} {off : List Line}

theorem index_pen (t : Terminal) : t.index.cursor.pen = t.cursor.pen := by
  unfold Terminal.index
  split_ifs <;> rfl

theorem wrap_pen (t : Terminal) : t.wrap.cursor.pen = t.cursor.pen := by
  unfold Terminal.wrap
  split
  · exact index_pen t
  · rfl

theorem control_pen (t : Terminal) (c : Char) : (t.control c).cursor.pen = t.cursor.pen := by
  unfold control
  split_ifs
  · rfl
  · unfold lineFeed
    simp only
    split
    · exact index_pen t
    · exact index_pen t
  · rfl
  · rfl
  · rfl

/-- Where a line is filled, the next one may be begun. -/
theorem Filled.lower {t t' : Terminal} {off' : List Line} (h : Filled rows k t.columns t off)
    (hlow : Lowered t off t' off') (hplain : t'.Plain) (hcolumns : 0 < t.columns)
    (hcol : t'.cursor.col = 0) (hpending : t'.cursor.pending = false) :
    Filled rows (k + 1) 0 t' off' := by
  have hline := h.line
  have hsize : t'.columns = t.columns := congrArg Config.columns hlow.config
  have hlines : t'.lines = t.lines := congrArg Config.lines hlow.config
  refine ⟨h.toPaging.of_config hlow.config ?_ hplain, ?_, ?_, ?_, nofun, Nat.zero_le _, ?_, ?_⟩
  · rw [hlines]
    exact hlow.row
  · rw [hlow.line, hline]
  · rw [hlines]
    exact hlow.full
  · intro i hi c hc
    rw [hsize] at hc
    rw [hlow.above i (by omega)]
    obtain hlt | rfl := Nat.lt_or_eq_of_le (Nat.le_of_lt_succ hi)
    · exact h.before i hlt c hc
    · exact h.here c hc
  · rw [hcol, hsize, if_pos hcolumns]
  · rw [hpending, hsize, decide_eq_false (by omega)]

/-- A filled line is left by a carriage return and a line feed. -/
theorem Filled.feed {t : Terminal} (h : Filled rows k t.columns t off) (F : Font)
    (hcolumns : 0 < t.columns) :
    Filled rows (k + 1) 0 (t.run F [.control '\r', .control '\n'])
      (off ++ t.offs F [.control '\r', .control '\n']) := by
  let u : Terminal := { t with cursor := { t.cursor with col := 0, pending := false } }
  have hu : u.Paging := ⟨h.top, h.bottom, h.row, h.insert, h.lineWrap, h.newLine, h.plain⟩
  have hlow := hu.index h.full
  have hrun : t.run F [.control '\r', .control '\n'] = u.index := by
    show u.lineFeed = u.index
    rw [Terminal.lineFeed]
    refine if_neg ?_
    rw [index_config, hu.newLine]
    exact Bool.false_ne_true
  have hoff : t.offs F [.control '\r', .control '\n'] = u.indexOff := List.append_nil _
  have hcursor : u.index.cursor.col = 0 ∧ u.index.cursor.pending = false := by
    unfold Terminal.index
    split_ifs
    · exact ⟨rfl, rfl⟩
    · exact ⟨rfl, rfl⟩
    · exact ⟨rfl, rfl⟩
  rw [hrun, hoff]
  refine h.lower ⟨hlow.config, hlow.row, hlow.line, hlow.full, hlow.above⟩ ?_ hcolumns hcursor.1
    hcursor.2
  intro i
  rw [index_drawing]
  exact h.plain i

/-- A filled line is left by what is printed next. -/
theorem Filled.wrap {t : Terminal} (h : Filled rows k t.columns t off) (hcolumns : 0 < t.columns) :
    Filled rows (k + 1) 0 t.wrap (off ++ t.wrapOff) := by
  have hwaits : t.cursor.pending = true ∧ t.modes.lineWrap = true :=
    ⟨h.pending.trans (decide_eq_true rfl), h.lineWrap⟩
  have hlow := h.toPaging.index h.full
  have hplain := h.plain.wrap
  rw [wrapOff, if_pos hwaits]
  have hwrap : t.wrap =
      { t.index with cursor := { t.index.cursor with col := 0, pending := false } } :=
    if_pos hwaits
  rw [hwrap] at hplain ⊢
  exact h.lower ⟨hlow.config, hlow.row, hlow.line, hlow.full, hlow.above⟩ hplain hcolumns rfl rfl

/-- A glyph, and the characters of no width that join it. -/
def glyph (c : Char) (zs : List Char) : List Item := .print c :: zs.map .print

/-- A line of the sheet has a glyph in a place. -/
structure Holds (row : Line) (col : Nat) (c : Char) (zs : List Char) (pen : Pen) (width : Nat) :
    Prop where
  first : row col = .glyph c zs pen (width = 2)
  second : width = 2 → row (col + 1) = .rest

theorem offs_combining {F : Font} {t : Terminal} {zs : List Char} (hplain : t.Plain)
    (hzs : ∀ z ∈ zs, F.width z = 0) : t.offs F (zs.map .print) = [] := by
  induction zs generalizing t with
  | nil => rfl
  | cons z zs ih =>
    obtain ⟨hz, hzs⟩ := List.forall_mem_cons.1 hzs
    have hoff : t.printOff F z = [] := by
      rw [printOff, hplain t.cursor.active]
      simp only [Bool.false_eq_true, if_false, hz]
    have hnext : (t.print F z).Plain := by
      rw [hplain.print_zero hz]
      exact hplain
    rw [List.map_cons, offs_cons]
    show t.printOff F z ++ (t.print F z).offs F (zs.map .print) = []
    rw [hoff, ih hnext hzs]
    rfl

theorem Plain.printOff {F : Font} {t : Terminal} (h : t.Plain) (c : Char) :
    t.printOff F c =
      match F.width c with
      | 0 => []
      | 1 => t.wrapOff
      | _ => t.wrapOff ++
        if t.wrap.cursor.col + 2 ≤ t.wrap.columns then []
        else if t.wrap.modes.lineWrap then (t.wrap.place ' ' 1).wrapOff
        else [] := by
  rw [Terminal.printOff, h t.cursor.active]
  rfl

theorem wrapOff_of_not_pending {t : Terminal} (h : t.cursor.pending = false) : t.wrapOff = [] := by
  rw [wrapOff, h]
  exact if_neg fun hp => Bool.false_ne_true hp.1

/-- A glyph that fits in its row moves no line off the screen. -/
theorem printOff_fits {F : Font} {t : Terminal} {c : Char} (hplain : t.Plain)
    (hpending : t.cursor.pending = false) (hwidth : width = 1 ∨ width = 2) (hc : F.width c = width)
    (hfit : t.cursor.col + width ≤ t.columns) : t.printOff F c = [] := by
  rw [hplain.printOff, hc, wrapOff_of_not_pending hpending, wrap_of_not_pending hpending]
  obtain rfl | rfl := hwidth
  · rfl
  · exact if_pos hfit

/-- A glyph is placed where it fits in the line. -/
theorem Filled.place {t : Terminal} (h : Filled rows k e t off) (hwidth : width = 1 ∨ width = 2)
    (hfit : e + width ≤ t.columns) (hholds : Holds (rows k) e c zs t.cursor.pen width) :
    Filled rows k (e + width) { t.place c width with
      screen := t.screen.put t.cursor.row t.cursor.col (.glyph c zs t.cursor.pen (width = 2)) width
        t.columns t.modes.insert } off := by
  have hlt : e < t.columns := by omega
  have hcol : t.cursor.col = e := by rw [h.col, if_pos hlt]
  have hline := h.line
  rw [hcol, h.insert]
  have hsame : ∀ i c', ¬ (i = k ∧ e ≤ c' ∧ c' < e + width) →
      Terminal.sheet { t.place c width with
        screen := t.screen.put t.cursor.row e (.glyph c zs t.cursor.pen (width = 2)) width
          t.columns false } off i c' = t.sheet off i c' := by
    intro i c' hi
    by_cases hleft : i < off.length
    · rw [sheet_left hleft, sheet_left hleft]
    · obtain ⟨r, rfl⟩ := Nat.exists_eq_add_of_le (Nat.le_of_not_lt hleft)
      rw [sheet_screen, sheet_screen]
      refine (Screen.put_other _ _ (by omega) (by omega)).trans (if_neg ?_)
      rintro ⟨⟨hinsert, -⟩, -⟩
      exact Bool.false_ne_true hinsert
  refine ⟨⟨h.top, h.bottom, h.row, h.insert, h.lineWrap, h.newLine, h.plain⟩, hline, h.full, ?_, ?_,
    hfit, ?_, ?_⟩
  · intro i hi c' hc'
    rw [hsame i c' (by omega)]
    exact h.before i hi c' hc'
  · intro c' hc'
    by_cases hbefore : c' < e
    · rw [hsame k c' (by omega)]
      exact h.here c' hbefore
    · rw [← hline, sheet_screen, hline]
      by_cases hfirst : c' = e
      · rw [hfirst, hholds.first]
        exact Screen.put_self ..
      · obtain rfl : width = 2 := by omega
        obtain rfl : c' = e + 1 := by omega
        rw [hholds.second rfl]
        exact Screen.put_rest ..
  · show (if decide (t.cursor.col + width < t.columns) = true then t.cursor.col + width
        else t.columns - 1) = _
    simp only [hcol, decide_eq_true_eq]
    rfl
  · show (!decide (t.cursor.col + width < t.columns)) = decide (e + width = t.columns)
    rw [hcol, ← decide_not]
    exact decide_eq_decide.2 (by omega)

/-- A glyph that fits in the line. -/
theorem Filled.glyph {F : Font} {t : Terminal} (h : Filled rows k e t off)
    (hwidth : width = 1 ∨ width = 2) (hc : F.width c = width) (hzs : ∀ z ∈ zs, F.width z = 0)
    (hfit : e + width ≤ t.columns) (hholds : Holds (rows k) e c zs t.cursor.pen width) :
    Filled rows k (e + width) (t.run F (glyph c zs)) (off ++ t.offs F (glyph c zs)) := by
  have hlt : e < t.columns := by omega
  have hpending : t.cursor.pending = false := by
    rw [h.pending, decide_eq_false (Nat.ne_of_lt hlt)]
  have hroom : t.cursor.col + width ≤ t.columns := by rwa [h.col, if_pos hlt]
  have hprint := print_fits h.plain hpending hwidth hc hroom
  have hoff : t.offs F (Terminal.glyph c zs) = [] := by
    have hplain : (t.print F c).Plain := by
      rw [hprint]
      exact h.plain
    show t.printOff F c ++ (t.print F c).offs F (zs.map .print) = []
    rw [printOff_fits h.plain hpending hwidth hc hroom, offs_combining hplain hzs]
    rfl
  have hrun : t.run F (Terminal.glyph c zs) = { t.place c width with
      screen := t.screen.put t.cursor.row t.cursor.col (.glyph c zs t.cursor.pen (width = 2)) width
        t.columns t.modes.insert } := by
    show (t.print F c).run F (zs.map .print) = _
    rw [hprint, place_combining c hwidth hroom h.plain hzs]
  rw [hoff, List.append_nil, hrun]
  exact h.place hwidth hfit hholds

/-- A glyph after a filled line begins the next one. -/
theorem Filled.glyph_wrap {F : Font} {t : Terminal} (h : Filled rows k t.columns t off)
    (hwidth : width = 1 ∨ width = 2) (hc : F.width c = width) (hzs : ∀ z ∈ zs, F.width z = 0)
    (hcolumns : 2 ≤ t.columns) (hholds : Holds (rows (k + 1)) 0 c zs t.cursor.pen width) :
    Filled rows (k + 1) width (t.run F (Terminal.glyph c zs))
      (off ++ t.offs F (Terminal.glyph c zs)) := by
  have hwrap := h.wrap (by omega)
  have hpending : t.wrap.cursor.pending = false := by
    rw [hwrap.pending, decide_eq_false]
    rw [congrArg Config.columns (wrap_config t)]
    omega
  have hpen : t.wrap.cursor.pen = t.cursor.pen := wrap_pen t
  have hprint : t.print F c = t.wrap.print F c := by
    rw [h.plain.print, h.plain.wrap.print, hc, wrap_of_not_pending hpending]
    obtain rfl | rfl := hwidth
    · rfl
    · rfl
  have hfirst : t.printOff F c = t.wrapOff ++ t.wrap.printOff F c := by
    rw [h.plain.printOff, h.plain.wrap.printOff, hc, wrapOff_of_not_pending hpending,
      wrap_of_not_pending hpending]
    obtain rfl | rfl := hwidth
    · exact (List.append_nil _).symm
    · rfl
  have hrun : t.run F (Terminal.glyph c zs) = t.wrap.run F (Terminal.glyph c zs) := by
    show (t.print F c).run F (zs.map .print) = (t.wrap.print F c).run F (zs.map .print)
    rw [hprint]
  have hoff : t.offs F (Terminal.glyph c zs) =
      t.wrapOff ++ t.wrap.offs F (Terminal.glyph c zs) := by
    show t.printOff F c ++ (t.print F c).offs F (zs.map .print) =
      t.wrapOff ++ (t.wrap.printOff F c ++ (t.wrap.print F c).offs F (zs.map .print))
    rw [hfirst, hprint, List.append_assoc]
  rw [hrun, hoff, ← List.append_assoc]
  have hnext := hwrap.glyph hwidth hc hzs
    (by rw [congrArg Config.columns (wrap_config t)]; omega) (by rw [hpen]; exact hholds)
  rwa [Nat.zero_add] at hnext

/-- A wide glyph that does not fit leaves a blank, and begins the next line. -/
theorem Filled.glyph_cut {F : Font} {t : Terminal} (h : Filled rows k e t off)
    (hlast : e + 1 = t.columns) (hc : F.width c = 2) (hzs : ∀ z ∈ zs, F.width z = 0)
    (hcolumns : 2 ≤ t.columns)
    (hblank : rows k e = .glyph ' ' [] t.cursor.pen false)
    (hholds : Holds (rows (k + 1)) 0 c zs t.cursor.pen 2) :
    Filled rows (k + 1) 2 (t.run F (Terminal.glyph c zs))
      (off ++ t.offs F (Terminal.glyph c zs)) := by
  have hcol : t.cursor.col = e := by rw [h.col, if_pos (by omega)]
  have hpending : t.cursor.pending = false := by
    rw [h.pending, decide_eq_false (by omega)]
  have hspace : Holds (rows k) e ' ' [] t.cursor.pen 1 := ⟨by rw [hblank]; rfl, nofun⟩
  have hspaced : Filled rows k (e + 1) (t.place ' ' 1) off :=
    h.place (.inl rfl) (Nat.le_of_eq hlast) hspace
  rw [hlast] at hspaced
  have hwaits : (t.place ' ' 1).cursor.pending = true := by
    rw [hspaced.pending]
    exact decide_eq_true rfl
  have hplain : (t.place ' ' 1).Plain := h.plain
  have hwide : ¬ t.cursor.col + 2 ≤ t.columns := by omega
  have hroom : (t.place ' ' 1).wrap.cursor.col + 2 ≤ (t.place ' ' 1).wrap.columns := by
    rw [congrArg Config.columns (wrap_config (t.place ' ' 1)), Terminal.wrap,
      if_pos ⟨hwaits, h.lineWrap⟩, Nat.zero_add]
    exact hcolumns
  have hprint : t.print F c = (t.place ' ' 1).print F c := by
    rw [h.plain.print, hplain.print, hc, wrap_of_not_pending hpending]
    simp only [if_neg hwide, h.lineWrap, if_true, if_pos hroom]
  have hfirst : t.printOff F c = (t.place ' ' 1).printOff F c := by
    rw [h.plain.printOff, hplain.printOff, hc, wrap_of_not_pending hpending,
      wrapOff_of_not_pending hpending]
    simp only [if_neg hwide, h.lineWrap, if_true, if_pos hroom, List.nil_append, List.append_nil]
  have hrun : t.run F (Terminal.glyph c zs) = (t.place ' ' 1).run F (Terminal.glyph c zs) := by
    show (t.print F c).run F (zs.map .print) = ((t.place ' ' 1).print F c).run F (zs.map .print)
    rw [hprint]
  have hoff : t.offs F (Terminal.glyph c zs) = (t.place ' ' 1).offs F (Terminal.glyph c zs) := by
    show t.printOff F c ++ (t.print F c).offs F (zs.map .print) =
      (t.place ' ' 1).printOff F c ++ ((t.place ' ' 1).print F c).offs F (zs.map .print)
    rw [hfirst, hprint]
  rw [hrun, hoff]
  exact Filled.glyph_wrap (t := t.place ' ' 1) hspaced (.inr rfl) hc hzs hcolumns hholds

/-! What is behind the screen. -/

theorem index_other (t : Terminal) : t.index.other = t.other := by
  unfold Terminal.index
  split_ifs <;> rfl

theorem wrap_other (t : Terminal) : t.wrap.other = t.other := by
  unfold Terminal.wrap
  split
  · exact index_other t
  · rfl

theorem print_other (F : Font) (t : Terminal) (c : Char) : (t.print F c).other = t.other := by
  unfold print
  generalize (if t.cursor.drawing t.cursor.active then F.lineDrawing c else c) = c
  simp only
  split
  · rfl
  · exact wrap_other t
  · split_ifs
    · exact wrap_other t
    · exact (wrap_other (t.wrap.place ' ' 1)).trans (wrap_other t)
    · exact wrap_other t

theorem control_other (t : Terminal) (c : Char) : (t.control c).other = t.other := by
  unfold control
  split_ifs
  · rfl
  · unfold lineFeed
    simp only
    split
    · exact index_other t
    · exact index_other t
  · rfl
  · rfl
  · rfl

theorem Keeps.other {i : Item} (h : Keeps i) (F : Font) (t : Terminal) :
    (t.step F i).other = t.other := by
  cases h with
  | print c => exact print_other F t c
  | control c => exact control_other t c
  | save => rfl
  | designate inter final =>
    show (t.designate inter final).other = t.other
    unfold Terminal.designate
    split
    · rfl
    · rfl
  | cup params => rfl
  | erase params =>
    show (if param params 0 0 = 2 then _ else t : Terminal).other = t.other
    split
    · rfl
    · rfl
  | sgr params => rfl

end Terminal
end Vt
