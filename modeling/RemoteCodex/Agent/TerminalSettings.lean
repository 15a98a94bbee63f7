import RemoteCodex.Lib.Trace
import RemoteCodex.Agent.TerminalGrid

namespace RemoteCodex
set_option autoImplicit true
open Trace
namespace Alacritty

inductive NamedPrivateMode where
  | cursorKeys
  | columnMode
  | origin
  | lineWrap
  | blinkingCursor
  | showCursor
  | reportMouseClicks
  | reportCellMouseMotion
  | reportAllMouseMotion
  | reportFocusInOut
  | utf8Mouse
  | sgrMouse
  | alternateScroll
  | urgencyHints
  | swapScreenAndSetRestoreCursor
  | syncUpdate
  | bracketedPaste
  deriving DecidableEq

inductive NamedMode where
  | insert
  | lineFeedNewLine
  deriving DecidableEq

def TermMode.default : TermMode :=
  { showCursor := true, lineWrap := true, alternateScroll := true, urgencyHints := true }

def TermMode.removeMouse (m : TermMode) : TermMode :=
  { m with mouseReportClick := false, mouseMotion := false, mouseDrag := false }

/-- The tab stops from one column to another. -/
def initialTabs (first count : Nat) : List Bool :=
  (List.range' first count).map fun column => decide (column % 8 = 0)

namespace Settings

def new (columns lines : Nat) : Settings :=
  ⟨.default, initialTabs 0 columns, 0, lines, columns, lines, {}⟩

def withMode (s : Settings) (f : TermMode → TermMode) : Settings := { s with mode := f s.mode }

def setScrollingRegion (s : Settings) (top : Nat) (bottom : Option Nat) : Settings :=
  let bottom := bottom.getD s.lines
  if bottom ≤ top then s
  else { s with regionStart := min (top - 1) s.lines, regionEnd := min bottom s.lines }

def deccolm (s : Settings) : Settings := s.setScrollingRegion 1 none

def blink (s : Settings) (blinking : Bool) : Settings :=
  { s with cursorStyle := { s.cursorStyle with blinking } }

def setPrivateMode (s : Settings) : NamedPrivateMode → Settings
  | .urgencyHints => s.withMode fun m => { m with urgencyHints := true }
  | .swapScreenAndSetRestoreCursor => s.withMode fun m => { m with altScreen := true }
  | .showCursor => s.withMode fun m => { m with showCursor := true }
  | .cursorKeys => s.withMode fun m => { m with appCursor := true }
  | .reportMouseClicks => s.withMode fun m => { m.removeMouse with mouseReportClick := true }
  | .reportCellMouseMotion => s.withMode fun m => { m.removeMouse with mouseDrag := true }
  | .reportAllMouseMotion => s.withMode fun m => { m.removeMouse with mouseMotion := true }
  | .reportFocusInOut => s.withMode fun m => { m with focusInOut := true }
  | .bracketedPaste => s.withMode fun m => { m with bracketedPaste := true }
  | .sgrMouse => s.withMode fun m => { m with utf8Mouse := false, sgrMouse := true }
  | .utf8Mouse => s.withMode fun m => { m with sgrMouse := false, utf8Mouse := true }
  | .alternateScroll => s.withMode fun m => { m with alternateScroll := true }
  | .lineWrap => s.withMode fun m => { m with lineWrap := true }
  | .origin => s.withMode fun m => { m with origin := true }
  | .columnMode => s.deccolm
  | .blinkingCursor => s.blink true
  | .syncUpdate => s

def unsetPrivateMode (s : Settings) : NamedPrivateMode → Settings
  | .urgencyHints => s.withMode fun m => { m with urgencyHints := false }
  | .swapScreenAndSetRestoreCursor => s.withMode fun m => { m with altScreen := false }
  | .showCursor => s.withMode fun m => { m with showCursor := false }
  | .cursorKeys => s.withMode fun m => { m with appCursor := false }
  | .reportMouseClicks => s.withMode fun m => { m with mouseReportClick := false }
  | .reportCellMouseMotion => s.withMode fun m => { m with mouseDrag := false }
  | .reportAllMouseMotion => s.withMode fun m => { m with mouseMotion := false }
  | .reportFocusInOut => s.withMode fun m => { m with focusInOut := false }
  | .bracketedPaste => s.withMode fun m => { m with bracketedPaste := false }
  | .sgrMouse => s.withMode fun m => { m with sgrMouse := false }
  | .utf8Mouse => s.withMode fun m => { m with utf8Mouse := false }
  | .alternateScroll => s.withMode fun m => { m with alternateScroll := false }
  | .lineWrap => s.withMode fun m => { m with lineWrap := false }
  | .origin => s.withMode fun m => { m with origin := false }
  | .columnMode => s.deccolm
  | .blinkingCursor => s.blink false
  | .syncUpdate => s

def setMode (s : Settings) (on : Bool) : NamedMode → Settings
  | .insert => s.withMode fun m => { m with insert := on }
  | .lineFeedNewLine => s.withMode fun m => { m with lineFeedNewLine := on }

def setKeypad (s : Settings) (on : Bool) : Settings :=
  s.withMode fun m => { m with appKeypad := on }

/-- The cursor is in a column when a stop is set or cleared there. -/
def setTab (s : Settings) (column : Nat) (on : Bool) : Settings :=
  { s with tabs := s.tabs.set column on }

def clearTabs (s : Settings) : Settings := { s with tabs := s.tabs.map fun _ => false }

def resetState (s : Settings) : Settings :=
  { s with
    mode := .default, tabs := initialTabs 0 s.columns, regionStart := 0, regionEnd := s.lines
    cursorStyle := {} }

/-- New columns have the initial tab stops. -/
def resizeTabs (tabs : List Bool) (columns : Nat) : List Bool :=
  tabs.take columns ++ initialTabs tabs.length (columns - tabs.length)

def resize (s : Settings) (columns lines : Nat) : Settings :=
  if s.columns = columns ∧ s.lines = lines then s
  else
    { s with
      tabs := if s.columns ≠ columns then resizeTabs s.tabs columns else s.tabs
      regionStart := 0, regionEnd := lines, columns, lines }

/-- What output or a resize does to the settings. -/
inductive Op where
  | setPrivate (mode : NamedPrivateMode)
  | unsetPrivate (mode : NamedPrivateMode)
  | setMode (on : Bool) (mode : NamedMode)
  | keypad (on : Bool)
  | region (top : Nat) (bottom : Option Nat)
  | tab (column : Nat) (on : Bool)
  | clearTabs
  | cursorStyle (style : CursorStyle)
  | reset
  | resize (columns lines : Nat)

/-- Output selects no hidden shape, and the first line of a region is 1. -/
def Op.Possible (s : Settings) : Op → Prop
  | .cursorStyle style => style.shape ≠ .hidden
  | .region top _ => 1 ≤ top
  | .tab column _ => column < s.columns
  | _ => True

def perform (s : Settings) : Op → Settings
  | .setPrivate mode => s.setPrivateMode mode
  | .unsetPrivate mode => s.unsetPrivateMode mode
  | .setMode on mode => s.setMode on mode
  | .keypad on => s.setKeypad on
  | .region top bottom => s.setScrollingRegion top bottom
  | .tab column on => s.setTab column on
  | .clearTabs => s.clearTabs
  | .cursorStyle style => { s with cursorStyle := style }
  | .reset => s.resetState
  | .resize columns lines => s.resize columns lines

def Step (s : Settings) (ops : List Op) (s' : Settings) : Prop :=
  ∃ op, ops = [op] ∧ op.Possible s ∧ s' = s.perform op

/-- Settings that a run reaches. -/
def Reachable (s : Settings) : Prop := ∃ columns lines ops, Run Step (new columns lines) ops s

/-- At most one of the mouse modes is on, and at most one of the encodings. -/
structure Exclusive (m : TermMode) : Prop where
  click : m.mouseReportClick = true → m.mouseDrag = false ∧ m.mouseMotion = false
  drag : m.mouseDrag = true → m.mouseMotion = false
  encoding : m.sgrMouse = true → m.utf8Mouse = false

/-- What reachable settings have in common. -/
structure Sound (s : Settings) : Prop where
  tabs : s.tabs.length = s.columns
  region : s.regionStart ≤ s.regionEnd ∧ s.regionEnd ≤ s.lines
  modes : Exclusive s.mode
  shape : s.cursorStyle.shape ≠ .hidden

theorem length_initialTabs (first count : Nat) : (initialTabs first count).length = count := by
  rw [initialTabs, List.length_map, List.length_range']

theorem exclusive_default : Exclusive .default := ⟨nofun, nofun, nofun⟩

theorem sound_new (columns lines : Nat) : (new columns lines).Sound :=
  ⟨length_initialTabs 0 columns, ⟨Nat.zero_le _, Nat.le_refl _⟩, exclusive_default, nofun⟩

theorem Sound.setScrollingRegion {s : Settings} (h : s.Sound) (top : Nat) (bottom : Option Nat) :
    (s.setScrollingRegion top bottom).Sound := by
  unfold Settings.setScrollingRegion
  simp only
  split
  · exact h
  · refine ⟨h.tabs, ⟨?_, Nat.min_le_right _ _⟩, h.modes, h.shape⟩
    show min (top - 1) s.lines ≤ min (bottom.getD s.lines) s.lines
    omega

theorem Sound.setPrivateMode {s : Settings} (h : s.Sound) (mode : NamedPrivateMode) :
    (s.setPrivateMode mode).Sound := by
  obtain ⟨hclick, hdrag, hencoding⟩ := h.modes
  cases mode with
  | reportMouseClicks =>
    exact ⟨h.tabs, h.region, ⟨fun _ => ⟨rfl, rfl⟩, nofun, hencoding⟩, h.shape⟩
  | reportCellMouseMotion =>
    exact ⟨h.tabs, h.region, ⟨nofun, fun _ => rfl, hencoding⟩, h.shape⟩
  | reportAllMouseMotion =>
    exact ⟨h.tabs, h.region, ⟨nofun, nofun, hencoding⟩, h.shape⟩
  | sgrMouse =>
    exact ⟨h.tabs, h.region, ⟨hclick, hdrag, fun _ => rfl⟩, h.shape⟩
  | utf8Mouse =>
    exact ⟨h.tabs, h.region, ⟨hclick, hdrag, nofun⟩, h.shape⟩
  | columnMode => exact h.setScrollingRegion 1 none
  | blinkingCursor => exact ⟨h.tabs, h.region, h.modes, h.shape⟩
  | syncUpdate => exact h
  | _ =>
    exact ⟨h.tabs, h.region, ⟨hclick, hdrag, hencoding⟩, h.shape⟩

theorem Sound.unsetPrivateMode {s : Settings} (h : s.Sound) (mode : NamedPrivateMode) :
    (s.unsetPrivateMode mode).Sound := by
  obtain ⟨hclick, hdrag, hencoding⟩ := h.modes
  cases mode with
  | reportMouseClicks =>
    exact ⟨h.tabs, h.region, ⟨nofun, hdrag, hencoding⟩, h.shape⟩
  | reportCellMouseMotion =>
    exact ⟨h.tabs, h.region, ⟨fun hc => ⟨rfl, (hclick hc).2⟩, nofun, hencoding⟩, h.shape⟩
  | reportAllMouseMotion =>
    exact ⟨h.tabs, h.region, ⟨fun hc => ⟨(hclick hc).1, rfl⟩, fun _ => rfl, hencoding⟩, h.shape⟩
  | sgrMouse =>
    exact ⟨h.tabs, h.region, ⟨hclick, hdrag, nofun⟩, h.shape⟩
  | utf8Mouse =>
    exact ⟨h.tabs, h.region, ⟨hclick, hdrag, fun _ => rfl⟩, h.shape⟩
  | columnMode => exact h.setScrollingRegion 1 none
  | blinkingCursor => exact ⟨h.tabs, h.region, h.modes, h.shape⟩
  | syncUpdate => exact h
  | _ =>
    exact ⟨h.tabs, h.region, ⟨hclick, hdrag, hencoding⟩, h.shape⟩

theorem Sound.resize {s : Settings} (h : s.Sound) (columns lines : Nat) :
    (s.resize columns lines).Sound := by
  unfold Settings.resize
  split
  · exact h
  · refine ⟨?_, ⟨Nat.zero_le _, Nat.le_refl _⟩, h.modes, h.shape⟩
    have htabs := h.tabs
    show (if s.columns ≠ columns then resizeTabs s.tabs columns else s.tabs).length = columns
    split
    · rw [resizeTabs, List.length_append, List.length_take, length_initialTabs]
      omega
    · next hsame => exact htabs.trans (not_not.1 hsame)

theorem Sound.perform {s : Settings} (h : s.Sound) {op : Op} (hop : op.Possible s) :
    (s.perform op).Sound := by
  cases op with
  | setPrivate mode => exact h.setPrivateMode mode
  | unsetPrivate mode => exact h.unsetPrivateMode mode
  | setMode on mode =>
    cases mode with
    | insert =>
      exact ⟨h.tabs, h.region, ⟨h.modes.click, h.modes.drag, h.modes.encoding⟩, h.shape⟩
    | lineFeedNewLine =>
      exact ⟨h.tabs, h.region, ⟨h.modes.click, h.modes.drag, h.modes.encoding⟩, h.shape⟩
  | keypad on =>
    exact ⟨h.tabs, h.region, ⟨h.modes.click, h.modes.drag, h.modes.encoding⟩, h.shape⟩
  | region top bottom => exact h.setScrollingRegion top bottom
  | tab column on => exact ⟨(List.length_set ..).trans h.tabs, h.region, h.modes, h.shape⟩
  | clearTabs => exact ⟨(List.length_map _).trans h.tabs, h.region, h.modes, h.shape⟩
  | cursorStyle style => exact ⟨h.tabs, h.region, h.modes, hop⟩
  | reset =>
    exact ⟨length_initialTabs 0 s.columns, ⟨Nat.zero_le _, Nat.le_refl _⟩, exclusive_default, nofun⟩
  | resize columns lines => exact h.resize columns lines

theorem Reachable.sound {s : Settings} (h : s.Reachable) : s.Sound := by
  obtain ⟨columns, lines, ops, hrun⟩ := h
  refine hrun.preserves (sound_new columns lines) ?_
  rintro t _ u ht ⟨op, -, hop, rfl⟩
  exact ht.perform hop

end Settings
end Alacritty
end RemoteCodex
