import RemoteCodex.Lib.VtTerminal

/-! What printing a glyph does to a screen, and when it leaves the screen as it is. -/

namespace Vt
set_option autoImplicit true

namespace Screen

theorem set_self (s : Screen) (row col : Nat) (x : Square) : s.set row col x row col = x :=
  if_pos ⟨rfl, rfl⟩

theorem set_other {s : Screen} (x : Square) (h : ¬ (r = row ∧ c = col)) :
    s.set row col x r c = s r c := if_neg h

theorem set_eq {s : Screen} (h : s row col = x) : s.set row col x = s := by
  funext r c
  by_cases hrc : r = row ∧ c = col
  · rw [hrc.1, hrc.2, set_self, h]
  · exact set_other x hrc

theorem set_set (s : Screen) (row col : Nat) (x y : Square) :
    (s.set row col x).set row col y = s.set row col y := by
  funext r c
  by_cases h : r = row ∧ c = col
  · rw [h.1, h.2, set_self, set_self]
  · rw [set_other y h, set_other x h, set_other y h]

/-- The place itself. -/
theorem put_self (s : Screen) (row col : Nat) (x : Square) (width columns : Nat) (insert : Bool) :
    s.put row col x width columns insert row col = x := by
  unfold put
  split
  · rw [set_other _ (by omega), set_self]
  · exact set_self _ row col x

/-- The second half of a wide glyph. -/
theorem put_rest (s : Screen) (row col : Nat) (x : Square) (columns : Nat) (insert : Bool) :
    s.put row col x 2 columns insert row (col + 1) = .rest := set_self _ row (col + 1) .rest

/-- The other places. -/
theorem put_other {s : Screen} (x : Square) (insert : Bool) (h : ¬ (r = row ∧ c = col))
    (hrest : ¬ (width = 2 ∧ r = row ∧ c = col + 1)) :
    s.put row col x width columns insert r c =
      if (insert = true ∧ col + width < columns) ∧ r = row ∧ col + width ≤ c ∧ c < columns then
        s r (c - width)
      else s r c := by
  have hone : (if insert && decide (col + width < columns) then s.shift row col width columns
      else s) r c = if (insert = true ∧ col + width < columns) ∧ r = row ∧ col + width ≤ c ∧
        c < columns then s r (c - width) else s r c := by
    cases insert with
    | false => simp
    | true =>
      by_cases hfits : col + width < columns
      · simp [hfits, shift]
      · simp [hfits]
  unfold put
  split
  · next hwidth =>
    rw [set_other _ fun he => hrest ⟨hwidth, he⟩, set_other _ h, hone]
  · rw [set_other _ h, hone]

/-- A square may be put in two steps. -/
theorem put_set (s : Screen) (row col : Nat) (x y : Square) (width columns : Nat)
    (insert : Bool) :
    (s.put row col x width columns insert).set row col y =
      s.put row col y width columns insert := by
  funext r c
  by_cases h : r = row ∧ c = col
  · obtain ⟨rfl, rfl⟩ := h
    rw [set_self, put_self]
  · rw [set_other y h]
    by_cases hrest : width = 2 ∧ r = row ∧ c = col + 1
    · obtain ⟨rfl, rfl, rfl⟩ := hrest
      rw [put_rest, put_rest]
    · rw [put_other x insert h hrest, put_other y insert h hrest]

/-- Within the lines and columns of a terminal. -/
def Agree (lines columns : Nat) (s s' : Screen) : Prop :=
  ∀ r < lines, ∀ c < columns, s r c = s' r c

theorem Agree.congr_right (h : Agree lines columns s s') (u : Screen) :
    Agree lines columns u s ↔ Agree lines columns u s' :=
  forall₄_congr fun r hr c hc => by rw [h r hr c hc]

/-- From a column on, a row goes on with the same squares. -/
def Repeats (s : Screen) (row col width columns : Nat) : Prop :=
  ∀ j, col ≤ j → j + width < columns → s row (j + width) = s row j

theorem Agree.repeats_iff (h : Agree lines columns s s') (hrow : row < lines) (col width : Nat) :
    s.Repeats row col width columns ↔ s'.Repeats row col width columns :=
  forall₃_congr fun j _ hlt => by rw [h row hrow _ hlt, h row hrow j (by omega)]

/-- A square leaves the screen as it is where it is there already, with what is moved. -/
theorem put_agree_iff {s : Screen} {x : Square} {insert : Bool} (hwidth : width = 1 ∨ width = 2)
    (hrow : row < lines) (hfit : col + width ≤ columns) :
    Agree lines columns (s.put row col x width columns insert) s ↔
      s row col = x ∧ (width = 2 → s row (col + 1) = .rest) ∧
        (insert = true → Repeats s row col width columns) := by
  constructor
  · intro h
    have hself : x = s row col := by
      rw [← h row hrow col (by omega), put_self]
    refine ⟨hself.symm, ?_, ?_⟩
    · rintro rfl
      rw [← h row hrow (col + 1) (by omega), put_rest]
    · intro hinsert j hj hlt
      have hmoved := h row hrow (j + width) hlt
      rw [put_other x insert (by omega) (by omega),
        if_pos ⟨⟨hinsert, by omega⟩, rfl, by omega, hlt⟩, Nat.add_sub_cancel] at hmoved
      exact hmoved.symm
  · rintro ⟨hself, hrest, hrepeats⟩ r - c hc
    by_cases h : r = row ∧ c = col
    · obtain ⟨rfl, rfl⟩ := h
      rw [put_self, hself]
    · by_cases hsecond : width = 2 ∧ r = row ∧ c = col + 1
      · obtain ⟨rfl, rfl, rfl⟩ := hsecond
        rw [put_rest, hrest rfl]
      · rw [put_other x insert h hsecond]
        split
        · next hmoved =>
          obtain ⟨⟨hinsert, -⟩, rfl, hle, -⟩ := hmoved
          have hrow := hrepeats hinsert (c - width) (by omega) (by omega)
          rw [Nat.sub_add_cancel (by omega)] at hrow
          exact hrow.symm
        · rfl

end Screen

namespace Terminal

/-- Every charset is ASCII. -/
def Plain (t : Terminal) : Prop := ∀ i, t.cursor.drawing i = false

theorem Plain.print {F : Font} {t : Terminal} (h : t.Plain) (c : Char) :
    t.print F c =
      match F.width c with
      | 0 => t.combine c
      | 1 => t.wrap.place c 1
      | _ =>
        let t := t.wrap
        if t.cursor.col + 2 ≤ t.columns then t.place c 2
        else if t.modes.lineWrap then (t.place ' ' 1).wrap.place c 2
        else t := by
  rw [Terminal.print, h t.cursor.active]
  rfl

theorem Plain.print_zero {F : Font} {t : Terminal} (h : t.Plain) (hc : F.width c = 0) :
    t.print F c = t.combine c := by
  rw [h.print, hc]
  rfl

theorem wrap_of_not_pending {t : Terminal} (h : t.cursor.pending = false) : t.wrap = t := by
  rw [wrap, if_neg (by rw [h]; exact fun hp => Bool.false_ne_true hp.1)]

/-- The glyph that the next character of no width joins. -/
structure Behind (t : Terminal) (col width : Nat) : Prop where
  last : (if t.cursor.pending then t.cursor.col else t.cursor.col - 1) + 1 = col + width
  glyph : t.screen t.cursor.row col ≠ .rest
  second : width = 2 → t.screen t.cursor.row (col + 1) = .rest

theorem Behind.combine {t : Terminal} (h : t.Behind col width) (hwidth : width = 1 ∨ width = 2)
    (c : Char) :
    t.combine c = { t with
      screen := t.screen.set t.cursor.row col ((t.screen t.cursor.row col).combine c) } := by
  have hlast := h.last
  unfold Terminal.combine
  simp only
  generalize (if t.cursor.pending then t.cursor.col else t.cursor.col - 1) = last at hlast
  obtain rfl | rfl := hwidth
  · obtain rfl : last = col := by omega
    rw [if_neg h.glyph]
  · obtain rfl : last = col + 1 := by omega
    rw [if_pos (h.second rfl)]
    rfl

/-- After a glyph is placed, the characters of no width join it. -/
theorem behind_place {t : Terminal} (c : Char) (hwidth : width = 1 ∨ width = 2)
    (hfit : t.cursor.col + width ≤ t.columns) : (t.place c width).Behind t.cursor.col width := by
  refine ⟨?_, ?_, ?_⟩
  · show (if (!decide (t.cursor.col + width < t.columns)) = true then
        (if decide (t.cursor.col + width < t.columns) = true then t.cursor.col + width
          else t.columns - 1)
      else (if decide (t.cursor.col + width < t.columns) = true then t.cursor.col + width
          else t.columns - 1) - 1) + 1 = t.cursor.col + width
    by_cases h : t.cursor.col + width < t.columns
    · simp only [h, decide_true, Bool.not_true, Bool.false_eq_true, if_false, if_true]
      omega
    · simp only [h, decide_false, Bool.not_false, if_true, Bool.false_eq_true, if_false]
      omega
  · show t.screen.put _ _ _ _ _ _ t.cursor.row t.cursor.col ≠ .rest
    rw [Screen.put_self]
    exact nofun
  · rintro rfl
    exact Screen.put_rest ..

/-- Characters of no width, one after the other. -/
theorem run_combining {F : Font} {t : Terminal} (hwidth : width = 1 ∨ width = 2)
    (h : t.Behind col width) (hplain : t.Plain)
    (hglyph : t.screen t.cursor.row col = .glyph c before pen wide)
    (hzs : ∀ z ∈ zs, F.width z = 0) :
    t.run F (zs.map .print) = { t with
      screen := t.screen.set t.cursor.row col (.glyph c (before ++ zs) pen wide) } := by
  induction zs generalizing t before with
  | nil =>
    rw [List.append_nil, Screen.set_eq hglyph]
    rfl
  | cons z zs ih =>
    obtain ⟨hz, hzs⟩ := List.forall_mem_cons.1 hzs
    have hstep : t.print F z = { t with
        screen := t.screen.set t.cursor.row col (.glyph c (before ++ [z]) pen wide) } := by
      rw [hplain.print_zero hz, h.combine hwidth, hglyph]
      rfl
    have hbehind : Behind
        { t with screen := t.screen.set t.cursor.row col (.glyph c (before ++ [z]) pen wide) }
        col width := by
      refine ⟨h.last, ?_, ?_⟩
      · show t.screen.set _ _ _ t.cursor.row col ≠ .rest
        rw [Screen.set_self]
        exact nofun
      · intro htwo
        show t.screen.set _ _ _ t.cursor.row (col + 1) = .rest
        rw [Screen.set_other _ (by omega)]
        exact h.second htwo
    show (t.print F z).run F (zs.map .print) = _
    rw [hstep, ih hbehind hplain (Screen.set_self ..) hzs, Screen.set_set, List.append_assoc]
    rfl

/-- A character with the characters of no width that join it. -/
theorem place_combining {F : Font} {t : Terminal} (c : Char) (hwidth : width = 1 ∨ width = 2)
    (hfit : t.cursor.col + width ≤ t.columns) (hplain : t.Plain) (hzs : ∀ z ∈ zs, F.width z = 0) :
    (t.place c width).run F (zs.map .print) = { t.place c width with
      screen := t.screen.put t.cursor.row t.cursor.col
        (.glyph c zs t.cursor.pen (width = 2)) width t.columns t.modes.insert } := by
  have hrun := run_combining hwidth (behind_place c hwidth hfit) hplain
    (Screen.put_self t.screen t.cursor.row t.cursor.col (.glyph c [] t.cursor.pen (width = 2))
      width t.columns t.modes.insert) hzs
  rw [hrun]
  refine congrArg (fun screen => { t.place c width with screen }) ?_
  exact Screen.put_set ..

/-- A glyph that fits in its row. -/
theorem print_fits {F : Font} {t : Terminal} {c : Char} (hplain : t.Plain)
    (hpending : t.cursor.pending = false) (hwidth : width = 1 ∨ width = 2) (hc : F.width c = width)
    (hfit : t.cursor.col + width ≤ t.columns) : t.print F c = t.place c width := by
  rw [hplain.print, hc, wrap_of_not_pending hpending]
  obtain rfl | rfl := hwidth
  · rfl
  · exact if_pos hfit

/-- Characters of no width leave the cursor. -/
theorem run_combining_cursor {F : Font} {t : Terminal} {zs : List Char} (hplain : t.Plain)
    (hzs : ∀ z ∈ zs, F.width z = 0) : (t.run F (zs.map .print)).cursor = t.cursor := by
  induction zs generalizing t with
  | nil => rfl
  | cons z zs ih =>
    obtain ⟨hz, hzs⟩ := List.forall_mem_cons.1 hzs
    show ((t.print F z).run F (zs.map .print)).cursor = _
    rw [hplain.print_zero hz]
    exact ih (t := t.combine z) hplain hzs

theorem index_drawing (t : Terminal) : t.index.cursor.drawing = t.cursor.drawing := by
  unfold index
  split_ifs <;> rfl

theorem Plain.wrap {t : Terminal} (h : t.Plain) : t.wrap.Plain := by
  unfold Terminal.wrap
  split
  · intro i
    show t.index.cursor.drawing i = false
    rw [index_drawing, h i]
  · exact h

/-- What is behind a terminal's pen and charsets stays the same. -/
structure Stays (t t' : Terminal) : Prop where
  config : t'.toConfig = t.toConfig
  screen : t'.screen = t.screen
  row : t'.cursor.row = t.cursor.row
  col : t'.cursor.col = t.cursor.col
  pending : t'.cursor.pending = t.cursor.pending

theorem Stays.trans {t₁ t₂ t₃ : Terminal} (h : Stays t₁ t₂) (h' : Stays t₂ t₃) : Stays t₁ t₃ :=
  ⟨h'.config.trans h.config, h'.screen.trans h.screen, h'.row.trans h.row, h'.col.trans h.col,
    h'.pending.trans h.pending⟩

/-- Items that only set the pen or the charsets. -/
inductive Unseen : Item → Prop where
  | designate (inter final : Char) : Unseen (.esc [inter] final)
  | sgr (params : List (List Nat)) : Unseen (.csi none params [] 'm')
  | shiftOut : Unseen (.control '\x0e')
  | shiftIn : Unseen (.control '\x0f')

theorem Unseen.step (h : Unseen i) (F : Font) (t : Terminal) : Stays t (t.step F i) := by
  cases h with
  | designate inter final =>
    show Stays t (t.designate inter final)
    unfold Terminal.designate
    split
    · exact ⟨rfl, rfl, rfl, rfl, rfl⟩
    · exact ⟨rfl, rfl, rfl, rfl, rfl⟩
  | sgr params => exact ⟨rfl, rfl, rfl, rfl, rfl⟩
  | shiftOut => exact ⟨rfl, rfl, rfl, rfl, rfl⟩
  | shiftIn => exact ⟨rfl, rfl, rfl, rfl, rfl⟩

theorem run_unseen {items : List Item} (h : ∀ i ∈ items, Unseen i) (F : Font) (t : Terminal) :
    Stays t (t.run F items) := by
  induction items generalizing t with
  | nil => exact ⟨rfl, rfl, rfl, rfl, rfl⟩
  | cons i items ih =>
    obtain ⟨hi, hitems⟩ := List.forall_mem_cons.1 h
    exact (hi.step F t).trans (ih hitems (t.step F i))

end Terminal
end Vt
