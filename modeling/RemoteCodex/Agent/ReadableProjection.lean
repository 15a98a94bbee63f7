import Mathlib.Algebra.GroupWithZero.Nat
import Mathlib.Data.List.DropRight
import RemoteCodex.Lib.Checks
import RemoteCodex.Agent.TerminalGrid

namespace RemoteCodex
set_option autoImplicit true
open Checks
namespace Alacritty

/-- What `readable_projection` tells. -/
inductive Projection where
  | raw (reason : String)
  | current (lines : List (List Char))
  deriving DecidableEq

def textBytes (s : List Char) : Nat := (s.map Char.utf8Size).sum

/-- A row that is being written: the bytes so far, those of earlier rows included. -/
structure RowText where
  bytes : Nat
  chars : List Char

namespace RowText

/-- Characters are added, or the limit is exceeded. -/
def push (r : RowText) (cs : List Char) : Option RowText :=
  let bytes := r.bytes + textBytes cs
  if 256 * 1024 < bytes then none else some ⟨bytes, r.chars ++ cs⟩

def zerowidth (r : RowText) (zw : Char) : Option RowText :=
  if isControl zw then some r else r.push [zw]

def cell (r : RowText) (cell : Cell) : Option RowText :=
  if cell.flags.spacer then some r
  else if cell.flags.hidden then
    r.push (List.replicate (if cell.flags.wideChar then 2 else 1) ' ')
  else do
    let r ← r.push [if isControl cell.c then ' ' else cell.c]
    cell.zerowidth.foldlM zerowidth r

end RowText

/-- The row without the blanks at its end, after the bytes of earlier rows. -/
def Grid.projectRow (g : Grid) (bytes row : Nat) : Option RowText := do
  let r ← (List.range g.columns).foldlM (fun r col => RowText.cell r (g.cell row col)) ⟨bytes, []⟩
  return ⟨r.bytes, r.chars.rdropWhile (· = ' ')⟩

/-- The rows so far and their bytes. -/
structure ScreenText where
  bytes : Nat
  lines : List (List Char)

def Grid.projectNext (g : Grid) (s : ScreenText) (row : Nat) : Option ScreenText := do
  let r ← g.projectRow s.bytes row
  return ⟨r.bytes, s.lines ++ [r.chars]⟩

def Grid.readableProjection (mode : TermMode) (g : Grid) : Projection :=
  if mode.altScreen then .raw "alternate_screen"
  else if 150 < g.screenLines ∨ 400 < g.columns then .raw "limit"
  else ((List.range g.screenLines).foldlM g.projectNext ⟨0, []⟩).elim (.raw "limit") fun s =>
    .current s.lines

/-- Text without control characters. -/
def Clean (s : List Char) : Prop := ∀ c ∈ s, isControl c = false

theorem textBytes_append (s t : List Char) : textBytes (s ++ t) = textBytes s + textBytes t := by
  rw [textBytes, List.map_append, List.sum_append, textBytes, textBytes]

theorem Clean.append (h : Clean s) (h' : Clean t) : Clean (s ++ t) :=
  List.forall_mem_append.2 ⟨h, h'⟩

theorem clean_spaces (n : Nat) : Clean (List.replicate n ' ') := by
  intro c hc
  rw [List.eq_of_mem_replicate hc]
  rfl

/-- A row is within the limit, and its text within the bytes after those of earlier rows. -/
structure RowText.Fits (earlier : Nat) (r : RowText) : Prop where
  limit : r.bytes ≤ 256 * 1024
  text : earlier + textBytes r.chars ≤ r.bytes
  clean : Clean r.chars

theorem RowText.Fits.push {r : RowText} (h : r.Fits earlier) (hcs : Clean cs)
    (hr : r.push cs = some r') : r'.Fits earlier := by
  simp only [RowText.push, Option.ite_none_left_eq_some, Option.some.injEq, Nat.not_lt] at hr
  obtain ⟨hlimit, rfl⟩ := hr
  have htext := h.text
  refine ⟨hlimit, ?_, h.clean.append hcs⟩
  show earlier + textBytes (r.chars ++ cs) ≤ r.bytes + textBytes cs
  rw [textBytes_append]
  omega

theorem RowText.Fits.zerowidth {r : RowText} (h : r.Fits earlier)
    (hr : r.zerowidth zw = some r') : r'.Fits earlier := by
  unfold RowText.zerowidth at hr
  split at hr
  · cases hr
    exact h
  · next hzw => exact h.push (List.forall_mem_singleton.2 (Bool.not_eq_true _ ▸ hzw)) hr

theorem RowText.Fits.cell {r : RowText} (h : r.Fits earlier) (hr : r.cell c = some r') :
    r'.Fits earlier := by
  unfold RowText.cell at hr
  split at hr
  · cases hr
    exact h
  · split at hr
    · exact h.push (clean_spaces _) hr
    · obtain ⟨t, ht, hr⟩ := Option.bind_eq_some_iff.1 hr
      have hglyph : isControl (if isControl c.c then ' ' else c.c) = false := by
        split
        · rfl
        · next hc => exact Bool.not_eq_true _ ▸ hc
      have hfits := h.push (List.forall_mem_singleton.2 hglyph) ht
      exact loop_keeps (fun _ _ _ => RowText.Fits.zerowidth) hfits hr

/-- A row takes its text from the bytes that are left. -/
theorem Grid.projectRow_fits {g : Grid} (h : bytes ≤ 256 * 1024)
    (hr : g.projectRow bytes row = some r) : r.Fits bytes := by
  obtain ⟨t, ht, hr⟩ := Option.bind_eq_some_iff.1 hr
  cases hr
  have hfits : t.Fits bytes :=
    loop_keeps (fun _ _ _ => RowText.Fits.cell)
      ⟨h, Nat.le_refl _, fun _ hc => (List.not_mem_nil hc).elim⟩ ht
  have hsub := List.rdropWhile_prefix (fun c => decide (c = ' ')) (l := t.chars)
  refine ⟨hfits.limit, ?_, fun c hc => hfits.clean c (hsub.subset hc)⟩
  obtain ⟨rest, hrest⟩ := hsub
  have htext := hfits.text
  rw [← hrest, textBytes_append] at htext
  show bytes + textBytes (t.chars.rdropWhile _) ≤ t.bytes
  omega

/-- The rows so far are within the limit. -/
structure ScreenText.Fits (s : ScreenText) : Prop where
  limit : s.bytes ≤ 256 * 1024
  text : (s.lines.map textBytes).sum ≤ s.bytes
  clean : ∀ l ∈ s.lines, Clean l

theorem ScreenText.Fits.next {s : ScreenText} {g : Grid} (h : s.Fits)
    (hs : g.projectNext s row = some s') : s'.Fits := by
  obtain ⟨r, hr, hs⟩ := Option.bind_eq_some_iff.1 hs
  cases hs
  have hrow := Grid.projectRow_fits h.limit hr
  refine ⟨hrow.limit, ?_,
    List.forall_mem_append.2 ⟨h.clean, List.forall_mem_singleton.2 hrow.clean⟩⟩
  rw [List.map_append, List.sum_append, List.map_singleton, List.sum_singleton]
  exact Nat.le_trans (Nat.add_le_add_right h.text _) hrow.text

theorem Grid.projectNext_length {g : Grid} {rows : List Nat} {s s' : ScreenText}
    (h : rows.foldlM g.projectNext s = some s') :
    s'.lines.length = s.lines.length + rows.length := by
  induction rows generalizing s with
  | nil =>
    cases h
    rfl
  | cons row rows ih =>
    rw [List.foldlM_cons] at h
    obtain ⟨t, ht, h⟩ := Option.bind_eq_some_iff.1 h
    obtain ⟨r, -, ht⟩ := Option.bind_eq_some_iff.1 ht
    cases ht
    rw [ih h, List.length_append, List.length_singleton, List.length_cons]
    omega

/-- What is projected is small and without control characters. -/
theorem Grid.readableProjection_fits {g : Grid} {lines : List (List Char)}
    (h : g.readableProjection mode = .current lines) :
    lines.length ≤ 150 ∧ (lines.map textBytes).sum ≤ 256 * 1024 ∧ ∀ l ∈ lines, Clean l := by
  unfold readableProjection at h
  split at h
  · cases h
  · split at h
    · cases h
    · next hsize =>
      cases hs : (List.range g.screenLines).foldlM g.projectNext ⟨0, []⟩ with
      | none =>
        rw [hs] at h
        cases h
      | some s =>
        rw [hs] at h
        cases h
        have hfits : s.Fits := loop_keeps (fun _ _ _ => ScreenText.Fits.next)
          ⟨Nat.zero_le _, Nat.le_refl _, fun _ hl => (List.not_mem_nil hl).elim⟩ hs
        have hlength := projectNext_length hs
        rw [List.length_nil, Nat.zero_add, List.length_range] at hlength
        exact ⟨by omega, Nat.le_trans hfits.text hfits.limit, hfits.clean⟩

end Alacritty
end RemoteCodex
