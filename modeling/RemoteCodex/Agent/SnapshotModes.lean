import RemoteCodex.Agent.TerminalSettings
import RemoteCodex.Agent.SnapshotItems

namespace RemoteCodex
set_option autoImplicit true
open Vt
namespace Alacritty

/-! Where the tail starts. -/

/-- The modes that the tail does not set, or sets only where they are on. -/
structure FreshModes (alt : Bool) (m : Modes) : Prop where
  origin : m.origin = false
  altScreen : m.altScreen = alt
  alternateScroll : m.alternateScroll = true
  urgencyHints : m.urgencyHints = true

/-- What the start of a snapshot leaves, but for the tab stops. -/
structure Fresh (cols rows : Nat) (alt : Bool) (c : Vt.Config) : Prop where
  columns : c.columns = cols
  lines : c.lines = rows
  top : c.top = 0
  bottom : c.bottom = rows
  modes : FreshModes alt c.modes

theorem step_decMode (F : Font) (t : Terminal) (n : Nat) (on : Bool) :
    t.step F (decMode n on) = t.setPrivate on n := by
  cases on with
  | false => rfl
  | true => rfl

theorem step_ansiMode (F : Font) (t : Terminal) (n : Nat) (on : Bool) :
    t.step F (ansiMode n on) = { t with modes := t.modes.setAnsi on n } := by
  cases on with
  | false => rfl
  | true => rfl

/-- An item that leaves a fresh configuration fresh. -/
def Quiet (i : Item) : Prop := ∀ cols rows alt F (t : Terminal),
  Fresh cols rows alt t.toConfig → Fresh cols rows alt (t.step F i).toConfig

theorem Plain.quiet (h : Plain i) : Quiet i := fun _ _ _ F t ht => by
  rwa [h.keeps.step F t]

theorem quiet_lineWrap (on : Bool) : Quiet (decMode 7 on) := fun _ _ _ F t ht => by
  obtain ⟨horigin, halt, hscroll, hhints⟩ := ht.modes
  rw [step_decMode]
  exact ⟨ht.columns, ht.lines, ht.top, ht.bottom, ⟨horigin, halt, hscroll, hhints⟩⟩

theorem quiet_origin : Quiet (decMode 6 false) := fun _ _ _ F t ht => by
  obtain ⟨-, halt, hscroll, hhints⟩ := ht.modes
  rw [step_decMode]
  exact ⟨ht.columns, ht.lines, ht.top, ht.bottom, ⟨rfl, halt, hscroll, hhints⟩⟩

theorem setRegion_config (t : Terminal) (top bottom : Nat) :
    (t.setRegion top bottom).toConfig =
      if top < min bottom t.lines then
        { t.toConfig with top := top - 1, bottom := min bottom t.lines }
      else t.toConfig := by
  unfold Terminal.setRegion
  split
  · rfl
  · rfl

theorem quiet_region : Quiet (.csi none [] [] 'r') := fun cols rows alt F t ht => by
  show Fresh cols rows alt (t.setRegion 1 t.lines).toConfig
  rw [setRegion_config]
  split
  · exact ⟨ht.columns, ht.lines, rfl, (Nat.min_self t.lines).trans ht.lines, ht.modes⟩
  · exact ht

theorem Quiet.run {items : List Item} (h : ∀ i ∈ items, Quiet i) (F : Font) {t : Terminal}
    (ht : Fresh cols rows alt t.toConfig) : Fresh cols rows alt (t.run F items).toConfig := by
  induction items generalizing t with
  | nil => exact ht
  | cons i items ih =>
    obtain ⟨hi, hitems⟩ := List.forall_mem_cons.1 h
    exact ih hitems (hi cols rows alt F t ht)

theorem quiet_paintHeader : ∀ i ∈ paintHeader, Quiet i := by
  intro i hi
  simp only [paintHeader, List.mem_cons, List.not_mem_nil, or_false] at hi
  rcases hi with rfl | rfl | rfl | rfl | rfl
  · exact fun _ _ _ F t ht => by rwa [(Terminal.Keeps.cup []).step F t]
  · exact fun _ _ _ F t ht => by rwa [(Terminal.Keeps.erase [[2]]).step F t]
  · exact quiet_lineWrap true
  · exact quiet_origin
  · exact quiet_region

/-- Painting a grid from a fresh configuration. -/
theorem Grid.fresh_paint (g : Grid) (F : Font) (t : Terminal) {out : List Item}
    (ht : Fresh cols rows alt (t.run F out).toConfig) :
    Fresh cols rows alt (t.run F (g.paint out)).toConfig := by
  obtain ⟨items, hout, hitems⟩ := g.adds_paint out
  rw [hout, Terminal.run_append, Terminal.run_append]
  exact Quiet.run (fun i hi => (hitems i hi).quiet) F (Quiet.run quiet_paintHeader F ht)

theorem fresh_snapshotStart (F : Font) (t : Terminal) :
    Fresh t.columns t.lines false (t.run F Settings.snapshotStart).toConfig :=
  ⟨rfl, rfl, rfl, rfl, ⟨rfl, rfl, rfl, rfl⟩⟩

theorem setAlt_fresh {t : Terminal} (ht : Fresh cols rows false t.toConfig) :
    Fresh cols rows true (t.setAlt true).toConfig := by
  obtain ⟨horigin, halt, hscroll, hhints⟩ := ht.modes
  have hne : ¬ true = t.modes.altScreen := by
    rw [halt]
    exact nofun
  rw [Terminal.setAlt, if_neg hne]
  exact ⟨ht.columns, ht.lines, ht.top, ht.bottom, ⟨horigin, rfl, hscroll, hhints⟩⟩

namespace Settings

theorem fresh_paintInactive (s : Settings) (inactive : Grid) (F : Font) (t : Terminal) :
    Fresh t.columns t.lines s.mode.altScreen (t.run F (s.paintInactive inactive)).toConfig := by
  have hstart := fresh_snapshotStart F t
  unfold paintInactive
  split
  · next halt =>
    rw [halt, Terminal.run_append, Terminal.run_append]
    have hquiet : ∀ i ∈ inactive.restoreCursor, Quiet i :=
      fun i hi => (plain_restoreCursor hi).quiet
    exact setAlt_fresh (Quiet.run hquiet F (inactive.fresh_paint F t hstart))
  · next halt =>
    rw [Bool.eq_false_iff.2 halt]
    exact hstart

/-- Whatever a terminal was before, its start makes the configuration fresh. -/
theorem fresh_head (s : Settings) (inactive g : Grid) (F : Font) (t : Terminal) :
    Fresh t.columns t.lines s.mode.altScreen (t.run F (s.head inactive g)).toConfig := by
  refine g.fresh_paint F t ?_
  rw [Terminal.run_append, emitAsciiCharsets_eq]
  exact Quiet.run (fun i hi => (plain_charsets hi).quiet) F (s.fresh_paintInactive inactive F t)

/-! What the tail leaves. -/

/-- One stop, in a terminal that wide. -/
theorem run_tab (F : Font) (t : Terminal) (hcol : col < t.columns) :
    (t.run F [cup 1 (col + 1), .esc [] 'H']).toConfig =
      { t.toConfig with tabs := fun c => if c = col then true else t.tabs c } := by
  have hmin : min col (t.columns - 1) = col := Nat.min_eq_left (Nat.le_sub_one_of_lt hcol)
  show { t.toConfig with
    tabs := fun c => if c = min col (t.columns - 1) then true else t.tabs c } = _
  rw [hmin]

theorem run_tabs (F : Font) (stops : List Nat) (t : Terminal)
    (hstops : ∀ col ∈ stops, col < t.columns) :
    (t.run F (stops.flatMap fun column => [cup 1 (column + 1), .esc [] 'H'])).toConfig =
      { t.toConfig with tabs := fun c => decide (c ∈ stops) || t.tabs c } := by
  induction stops generalizing t with
  | nil => rfl
  | cons col stops ih =>
    obtain ⟨hcol, hstops⟩ := List.forall_mem_cons.1 hstops
    have hone := run_tab F t hcol
    rw [List.flatMap_cons, Terminal.run_append, ih _ (by rw [hone]; exact hstops), hone]
    refine congrArg (fun tabs => { t.toConfig with tabs }) (funext fun c => ?_)
    by_cases hc : c = col
    · simp [hc]
    · simp [hc]

theorem mem_tabStops {s : Settings} : c ∈ s.tabStops ↔ s.tabs[c]?.getD false = true := by
  rw [tabStops, List.mem_filter, List.mem_range]
  refine and_iff_right_of_imp fun h => ?_
  by_contra hc
  rw [List.getElem?_eq_none (Nat.le_of_not_lt hc)] at h
  exact Bool.false_ne_true h

theorem run_emitTabs {s : Settings} (hs : s.Sound) (F : Font) {t : Terminal}
    (ht : Fresh s.columns s.lines alt t.toConfig) :
    (t.run F s.emitTabs).toConfig =
      { t.toConfig with tabs := fun c => s.tabs[c]?.getD false } := by
  have hstops : ∀ col ∈ s.tabStops, col < t.columns := by
    intro col hcol
    have hlt := List.mem_range.1 (List.mem_of_mem_filter hcol)
    rwa [hs.tabs, ← ht.columns] at hlt
  refine (run_tabs F s.tabStops { t with tabs := fun _ => false } hstops).trans ?_
  refine congrArg (fun tabs => { t.toConfig with tabs }) (funext fun c => ?_)
  rw [Bool.or_false]
  exact Bool.eq_iff_iff.2 (decide_eq_true_iff.trans mem_tabStops)

/-- The lines of the region that a terminal sets. -/
def readRegion (s : Settings) : Nat × Nat :=
  if s.regionStart + 1 < s.regionEnd then (s.regionStart, s.regionEnd) else (0, s.lines)

theorem run_emitRegion {s : Settings} (hs : s.Sound) (F : Font) {t : Terminal}
    (ht : Fresh s.columns s.lines alt t.toConfig) :
    (t.step F s.emitRegion).toConfig =
      { t.toConfig with top := s.readRegion.1, bottom := s.readRegion.2 } := by
  obtain ⟨hstart, hend⟩ := hs.region
  have hsame : t.toConfig = { t.toConfig with top := 0, bottom := s.lines } := by
    rw [← ht.top, ← ht.bottom]
  show (t.setRegion _ _).toConfig = _
  rw [setRegion_config, readRegion]
  cases hlines : s.regionEnd with
  | zero =>
    rw [hlines, Nat.le_zero] at hstart
    rw [hstart, if_neg (Nat.not_lt_zero _)]
    split
    · show { t.toConfig with top := 0, bottom := min t.lines t.lines } = _
      rw [Nat.min_self, ht.lines]
    · exact hsame
  | succ last =>
    have hmin : min (last + 1) t.lines = last + 1 := by
      rw [ht.lines]
      omega
    show (if s.regionStart + 1 < min (last + 1) t.lines then
      { t.toConfig with top := s.regionStart, bottom := min (last + 1) t.lines }
      else t.toConfig) = _
    rw [hmin]
    split
    · rfl
    · exact hsame

/-- The mouse mode that is on. -/
def mouse (s : Settings) : Option Mouse :=
  if s.mode.mouseReportClick then some .click
  else if s.mode.mouseDrag then some .drag
  else if s.mode.mouseMotion then some .motion
  else none

/-- The mouse mode that is on after the last of the three is set or reset. -/
def readMouse (s : Settings) : Option Mouse := if s.mode.mouseMotion then some .motion else none

def modes (s : Settings) : Modes where
  appCursor := s.mode.appCursor
  showCursor := s.mode.showCursor
  lineWrap := s.mode.lineWrap
  focusReport := s.mode.focusInOut
  utf8Mouse := s.mode.utf8Mouse
  sgrMouse := s.mode.sgrMouse
  bracketedPaste := s.mode.bracketedPaste
  appKeypad := s.mode.appKeypad
  insert := s.mode.insert
  lineFeedNewLine := s.mode.lineFeedNewLine
  origin := s.mode.origin
  altScreen := s.mode.altScreen
  alternateScroll := s.mode.alternateScroll
  urgencyHints := s.mode.urgencyHints
  mouse := s.mouse

/-- What a terminal with these settings is configured as. -/
def config (s : Settings) : Vt.Config where
  columns := s.columns
  lines := s.lines
  modes := s.modes
  tabs := fun c => s.tabs[c]?.getD false
  top := s.regionStart
  bottom := s.regionEnd

/-- The modes as a terminal reads them, but for origin mode. -/
def readModes (s : Settings) : Modes :=
  { s.modes with
    origin := false, alternateScroll := true, urgencyHints := true, mouse := s.readMouse }

theorem setPrivate_modes (t : Terminal) (on : Bool) (h : n ≠ 1049 ∧ n ≠ 6) :
    t.setPrivate on n = { t with modes := t.modes.setPrivate on n } := by
  rw [Terminal.setPrivate, if_neg h.1, if_neg h.2]

/-- Private modes in turn, that are neither origin mode nor the alternate screen. -/
theorem run_decModes (F : Font) (settings : List (Nat × Bool)) (t : Terminal)
    (h : ∀ p ∈ settings, p.1 ≠ 1049 ∧ p.1 ≠ 6) :
    t.run F (settings.map fun p => decMode p.1 p.2) =
      { t with modes := settings.foldl (fun m p => m.setPrivate p.2 p.1) t.modes } := by
  induction settings generalizing t with
  | nil => rfl
  | cons p settings ih =>
    obtain ⟨hp, hsettings⟩ := List.forall_mem_cons.1 h
    have hstep : t.step F (decMode p.1 p.2) = { t with modes := t.modes.setPrivate p.2 p.1 } := by
      rw [step_decMode, setPrivate_modes t p.2 hp]
    rw [List.map_cons, Terminal.run_cons, hstep, ih _ hsettings]
    rfl

theorem foldl_privateModes (s : Settings) (m : Modes) :
    s.privateModes.foldl (fun m p => m.setPrivate p.2 p.1) m =
      { m with
        appCursor := s.mode.appCursor
        showCursor := s.cursorStyle.shape ≠ .hidden && s.mode.showCursor
        lineWrap := s.mode.lineWrap
        focusReport := s.mode.focusInOut
        utf8Mouse := if s.mode.sgrMouse then false else s.mode.utf8Mouse
        sgrMouse := s.mode.sgrMouse
        bracketedPaste := s.mode.bracketedPaste
        mouse := s.readMouse } := by
  simp only [privateModes, List.foldl_cons, List.foldl_nil, Modes.setPrivate, readMouse]

theorem run_emitPrivateModes (s : Settings) (F : Font) (t : Terminal) :
    t.run F s.emitPrivateModes =
      { t with modes := s.privateModes.foldl (fun m p => m.setPrivate p.2 p.1) t.modes } := by
  refine run_decModes F s.privateModes t ?_
  intro p hp
  have hnumbers : ∀ n ∈ s.privateModes.map Prod.fst, n ≠ 1049 ∧ n ≠ 6 := by
    show ∀ n ∈ [1, 25, 7, 1000, 1002, 1003, 1004, 1005, 1006, 2004], n ≠ 1049 ∧ n ≠ 6
    decide
  exact hnumbers p.1 (List.mem_map_of_mem hp)

/-- No terminal mode depends on the style of the cursor. -/
theorem run_emitCursorStyle (s : Settings) (F : Font) (t : Terminal) :
    t.run F s.emitCursorStyle = t := by
  unfold emitCursorStyle
  cases styleCode s.cursorStyle with
  | none => rfl
  | some code => rfl

theorem run_emitOtherModes (s : Settings) (F : Font) (t : Terminal) :
    t.run F s.emitOtherModes =
      { t with modes := { t.modes with
          appKeypad := s.mode.appKeypad, insert := s.mode.insert
          lineFeedNewLine := s.mode.lineFeedNewLine } } := by
  have hkeypad : t.step F (.esc [] (if s.mode.appKeypad then '=' else '>')) =
      { t with modes := { t.modes with appKeypad := s.mode.appKeypad } } := by
    cases s.mode.appKeypad with
    | false => rfl
    | true => rfl
  show ((t.step F _).step F (ansiMode 4 _)).step F (ansiMode 20 _) = _
  rw [hkeypad, step_ansiMode, step_ansiMode]
  rfl

/-- The modes as they are set, from the fresh ones. -/
theorem run_emitModes {s : Settings} (hs : s.Sound) (F : Font) {t : Terminal}
    (ht : FreshModes s.mode.altScreen t.modes) :
    (t.run F s.emitModes).toConfig = { t.toConfig with modes := s.readModes } := by
  have hshow : (decide (s.cursorStyle.shape ≠ .hidden) && s.mode.showCursor) =
      s.mode.showCursor := by
    rw [decide_eq_true hs.shape, Bool.true_and]
  have hutf8 : (if s.mode.sgrMouse then false else s.mode.utf8Mouse) = s.mode.utf8Mouse := by
    split
    · next hsgr => exact (hs.modes.encoding hsgr).symm
    · rfl
  rw [emitModes, Terminal.run_append, Terminal.run_append, run_emitPrivateModes,
    run_emitCursorStyle, run_emitOtherModes, foldl_privateModes]
  refine congrArg (fun modes => { t.toConfig with modes }) ?_
  exact Modes.ext rfl hshow rfl rfl hutf8 rfl rfl rfl rfl rfl ht.origin ht.altScreen
    ht.alternateScroll ht.urgencyHints rfl

theorem run_restoreOrigin (s : Settings) (g : Grid) (F : Font) {t : Terminal}
    (ht : t.modes.origin = false) :
    (t.run F (s.restoreOrigin g)).toConfig =
      { t.toConfig with modes := { t.modes with origin := s.mode.origin } } := by
  unfold restoreOrigin
  split
  · next horigin =>
    have hkeeps : ∀ i ∈ g.restoreOne g.cursor s.regionStart, Terminal.Keeps i :=
      fun i hi => (plain_restoreOne hi).keeps
    rw [horigin]
    exact Terminal.run_config hkeeps F _
  · next horigin =>
    rw [Bool.eq_false_iff.2 horigin, ← ht]
    rfl

/-- The configuration at the end of a snapshot. -/
theorem run_snapshot {s : Settings} (hs : s.Sound) (inactive g : Grid) (F : Font) {t : Terminal}
    (hcolumns : t.columns = s.columns) (hlines : t.lines = s.lines) :
    (t.run F (parse (s.snapshot inactive g))).toConfig =
      { s.config with
        modes := { s.readModes with origin := s.mode.origin }
        top := s.readRegion.1, bottom := s.readRegion.2 } := by
  have hhead := s.fresh_head inactive g F t
  rw [hcolumns, hlines] at hhead
  rw [parse_snapshot, Terminal.run_append]
  generalize t.run F (s.head inactive g) = t at hhead
  have htabs := run_emitTabs hs F hhead
  rw [tail, Terminal.run_append]
  generalize t.run F s.emitTabs = t₁ at htabs
  have hfresh₁ : Fresh s.columns s.lines s.mode.altScreen t₁.toConfig := by
    rw [htabs]
    exact ⟨hhead.columns, hhead.lines, hhead.top, hhead.bottom, hhead.modes⟩
  have hregion := run_emitRegion hs F hfresh₁
  rw [Terminal.run_cons]
  generalize t₁.step F s.emitRegion = t₂ at hregion
  have hmodes₂ : FreshModes s.mode.altScreen t₂.modes := by
    rw [hregion]
    exact hfresh₁.modes
  have hmodes := run_emitModes hs F hmodes₂
  rw [modeTail, Terminal.run_append, Terminal.run_append]
  generalize t₂.run F s.emitModes = t₃ at hmodes
  have hcursor : (t₃.run F g.restoreCursor).toConfig = t₃.toConfig :=
    Terminal.run_config (fun i hi => (plain_restoreCursor hi).keeps) F t₃
  rw [run_restoreOrigin s g F (by rw [hcursor, hmodes]; rfl), hcursor, hmodes, hregion, htabs]
  exact Vt.Config.ext hhead.columns hhead.lines rfl rfl rfl rfl

/-- The settings that a snapshot restores: no mouse mode but the one for all motion, a region of
two lines or more or the whole screen, and the two modes that are on from the start. -/
structure Restorable (s : Settings) : Prop where
  click : s.mode.mouseReportClick = false
  drag : s.mode.mouseDrag = false
  region : s.regionStart + 1 < s.regionEnd ∨ s.regionStart = 0 ∧ s.regionEnd = s.lines
  alternateScroll : s.mode.alternateScroll = true
  urgencyHints : s.mode.urgencyHints = true

theorem readMouse_eq {s : Settings} (hs : s.Sound) :
    s.readMouse = s.mouse ↔ s.mode.mouseReportClick = false ∧ s.mode.mouseDrag = false := by
  obtain ⟨hclick, hdrag, -⟩ := hs.modes
  unfold readMouse mouse
  cases hc : s.mode.mouseReportClick with
  | true =>
    rw [(hclick hc).2]
    simp
  | false =>
    cases hd : s.mode.mouseDrag with
    | true =>
      rw [hdrag hd]
      simp
    | false => simp

theorem readRegion_eq {s : Settings} :
    s.readRegion = (s.regionStart, s.regionEnd) ↔
      s.regionStart + 1 < s.regionEnd ∨ s.regionStart = 0 ∧ s.regionEnd = s.lines := by
  unfold readRegion
  split
  · next h => exact iff_of_true rfl (.inl h)
  · next h =>
    rw [Prod.mk.injEq, or_iff_right h]
    exact and_congr eq_comm eq_comm

/-- A terminal of the same size has the settings after the snapshot exactly where they are
restorable. -/
theorem snapshot_restores_settings {s : Settings} (hs : s.Reachable) (inactive g : Grid) (F : Font)
    {t : Terminal} (hcolumns : t.columns = s.columns) (hlines : t.lines = s.lines) :
    (t.run F (parse (s.snapshot inactive g))).toConfig = s.config ↔ s.Restorable := by
  rw [run_snapshot hs.sound inactive g F hcolumns hlines]
  constructor
  · intro h
    have hmodes := congrArg Vt.Config.modes h
    have hregion : s.readRegion = (s.regionStart, s.regionEnd) :=
      Prod.ext (congrArg Vt.Config.top h) (congrArg Vt.Config.bottom h)
    obtain ⟨hclick, hdrag⟩ := (readMouse_eq hs.sound).1 (congrArg Modes.mouse hmodes)
    exact ⟨hclick, hdrag, readRegion_eq.1 hregion, (congrArg Modes.alternateScroll hmodes).symm,
      (congrArg Modes.urgencyHints hmodes).symm⟩
  · intro h
    have hregion := readRegion_eq.2 h.region
    have hmouse := (readMouse_eq hs.sound).2 ⟨h.click, h.drag⟩
    refine Vt.Config.ext rfl rfl ?_ rfl (congrArg Prod.fst hregion) (congrArg Prod.snd hregion)
    exact Modes.ext rfl rfl rfl rfl rfl rfl rfl rfl rfl rfl rfl rfl h.alternateScroll.symm
      h.urgencyHints.symm hmouse

theorem reachable_setPrivateMode (columns lines : Nat) (mode : NamedPrivateMode) :
    ((new columns lines).setPrivateMode mode).Reachable :=
  ⟨columns, lines, [.setPrivate mode], .single ⟨_, rfl, trivial, rfl⟩⟩

theorem snapshot_restores_settings_motion :
    ((Terminal.new 80 24).run ⟨fun _ => 1, id⟩
        (parse (((new 80 24).setPrivateMode .reportAllMouseMotion).snapshot
          (.new 24 80) (.new 24 80)))).toConfig =
      ((new 80 24).setPrivateMode .reportAllMouseMotion).config := by
  refine (snapshot_restores_settings (reachable_setPrivateMode 80 24 _) _ _ _ rfl rfl).2 ?_
  exact ⟨rfl, rfl, .inl (by decide), rfl, rfl⟩

/-- A terminal of 80 columns and 24 lines, with the mouse mode for drags. -/
def dragging : Settings := (new 80 24).setPrivateMode .reportCellMouseMotion

theorem reachable_dragging : dragging.Reachable := reachable_setPrivateMode 80 24 _

theorem snapshot_loses_mouse_mode :
    dragging.Reachable ∧
      ((Terminal.new 80 24).run ⟨fun _ => 1, id⟩
        (parse (dragging.snapshot (.new 24 80) (.new 24 80)))).toConfig ≠ dragging.config := by
  refine ⟨reachable_dragging, ?_⟩
  rw [run_snapshot reachable_dragging.sound _ _ _ rfl rfl]
  intro h
  have hmouse : none = some Mouse.drag := congrArg (fun c => c.modes.mouse) h
  exact nomatch hmouse

end Settings
end Alacritty
end RemoteCodex
