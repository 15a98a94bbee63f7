import RemoteCodex.Lib.JsText
import RemoteCodex.Agent.ReadableProjection
import RemoteCodex.Client.ReadableOutput

namespace RemoteCodex
set_option autoImplicit true
open Js
namespace Alacritty

/-- Cells of the same flags, that are the same unless they are hidden. -/
def Cell.Alike (a b : Cell) : Prop := a.flags = b.flags ∧ (a.flags.hidden = false → a = b)

/-- Grids of one size whose cells are alike. -/
structure Grid.Alike (g g' : Grid) : Prop where
  screenLines : g.screenLines = g'.screenLines
  columns : g.columns = g'.columns
  cell (row : Int) (col : Nat) : (g.cell row col).Alike (g'.cell row col)

/-- A hidden cell is written by its flags alone. -/
theorem RowText.cell_alike (h : Cell.Alike a b) (r : RowText) : r.cell a = r.cell b := by
  cases hidden : a.flags.hidden with
  | false => rw [h.2 hidden]
  | true => simp only [RowText.cell, ← h.1, hidden, if_true]

theorem Grid.projectRow_alike (h : Grid.Alike g g') (bytes row : Nat) :
    g.projectRow bytes row = g'.projectRow bytes row := by
  have hcell (col : Nat) (r : RowText) : r.cell (g.cell row col) = r.cell (g'.cell row col) :=
    RowText.cell_alike (h.cell row col) r
  simp only [projectRow, hcell, h.columns]

/-- The two runs give one result. -/
theorem Grid.readableProjection_alike (h : Grid.Alike g g') (mode : TermMode) :
    g.readableProjection mode = g'.readableProjection mode := by
  have hnext : g.projectNext = g'.projectNext := by
    funext s row
    simp only [projectNext, projectRow_alike h]
  simp only [readableProjection, hnext, h.screenLines, h.columns]

/-- The object that the agent answers with. -/
def Projection.value : Projection → Value
  | .raw reason =>
    .object [(str "source", .string (str "terminal_raw")), (str "reason", .string (str reason))]
  | .current lines =>
    .object [(str "source", .string (str "terminal_projection")),
      (str "scope", .string (str "current_screen")),
      (str "lines", .array (lines.map fun l => .string (utf16 l))),
      (str "truncated", .bool false)]

/-- A character has at most as many code units as bytes. -/
theorem units_length (c : Char) : (units c).length ≤ c.utf8Size := by
  unfold units Char.utf8Size
  have hval : c.toNat = c.val.toNat := rfl
  split_ifs <;> simp only [List.length_cons, List.length_nil, UInt32.le_iff_toNat_le] at * <;> grind

theorem utf16_length (s : List Char) : (utf16 s).length ≤ textBytes s := by
  induction s with
  | nil => exact Nat.le_refl _
  | cons c s ih =>
    rw [utf16, List.flatMap_cons, List.length_append]
    exact Nat.add_le_add (units_length c) ih

theorem sum_utf16_length (lines : List (List Char)) :
    ((lines.map utf16).map List.length).sum ≤ (lines.map textBytes).sum := by
  induction lines with
  | nil => exact Nat.le_refl _
  | cons l lines ih => exact Nat.add_le_add (utf16_length l) ih

/-- A code unit of a character that is not a control character is not one either. -/
theorem unit_clean (h : isControl c = false) (hu : u ∈ units c) :
    ReadableOutput.isC0OrC1 u = false ∧ u ≠ 0x0a ∧ u ≠ 0x0d := by
  have hrange : 0x20 ≤ u.toNat ∧ (u.toNat < 0x7f ∨ 0x9f < u.toNat) := by
    unfold units at hu
    split at hu
    · next hc =>
      rw [List.mem_singleton.1 hu, unit, UInt16.toNat_ofNat_of_lt' hc]
      simp only [isControl, Bool.or_eq_false_iff, Bool.and_eq_false_iff, decide_eq_false_iff_not]
        at h
      omega
    · have hmax := toNat_lt_planes c
      simp only [List.mem_cons, List.not_mem_nil, or_false] at hu
      rcases hu with rfl | rfl
      · rw [UInt16.toNat_ofNat_of_lt' (by simp only [UInt16.size]; omega)]
        omega
      · rw [UInt16.toNat_ofNat_of_lt' (by simp only [UInt16.size]; omega)]
        omega
  refine ⟨?_, ?_, ?_⟩
  · simp only [ReadableOutput.isC0OrC1, Bool.or_eq_false_iff, Bool.and_eq_false_iff,
      decide_eq_false_iff_not, beq_eq_false_iff_ne, UInt16.lt_iff_toNat_lt, UInt16.le_iff_toNat_le,
      ne_eq, ← UInt16.toNat_inj]
    show (¬ u.toNat < 0x20 ∧ ¬ u.toNat = 0x7f) ∧ (¬ 0x80 ≤ u.toNat ∨ ¬ u.toNat ≤ 0x9f)
    omega
  · rintro rfl
    exact absurd hrange.1 (by decide)
  · rintro rfl
    exact absurd hrange.1 (by decide)

/-- The code units of text without control characters are none. -/
theorem containsControl_clean (h : Clean s) : ReadableOutput.containsControl (utf16 s) = false := by
  rw [ReadableOutput.containsControl, List.any_eq_false]
  intro u hu
  obtain ⟨c, hc, hu⟩ := List.mem_flatMap.1 hu
  obtain ⟨hcontrol, hlf, hcr⟩ := unit_clean (h c hc) hu
  simp only [hcontrol, beq_false_of_ne hlf, beq_false_of_ne hcr, Bool.or_self, Bool.false_eq_true,
    not_false_eq_true]

/-- The client finds the lines of a projection. -/
theorem projectionLines_current {lines : List (List Char)} (h : lines.length ≤ 150) :
    ReadableOutput.projectionLines (some (Projection.current lines).value) =
      some ((lines.map utf16).map .string) := by
  have hsource : (Projection.current lines).value.prop (str "source") =
      some (.string (str "terminal_projection")) := rfl
  have hscope : (Projection.current lines).value.prop (str "scope") =
      some (.string (str "current_screen")) := rfl
  have hlines : (Projection.current lines).value.prop (str "lines") =
      some (.array (lines.map fun l => .string (utf16 l))) := rfl
  have htruncated : (Projection.current lines).value.prop (str "truncated") =
      some (.bool false) := rfl
  rw [ReadableOutput.projectionLines, Option.bind_some, hsource, hscope, hlines, htruncated]
  simp only [List.length_map, h, and_self, if_true, List.map_map]
  rfl

/-- The readable projection shows nothing of hidden cells, and the client accepts what it tells. -/
theorem readable_screen (mode : TermMode) (g : Grid) :
    (∀ g' : Grid, g.Alike g' → g'.readableProjection mode = g.readableProjection mode) ∧
      ∀ lines, g.readableProjection mode = .current lines →
        lines.length ≤ 150 ∧ (lines.map textBytes).sum ≤ 256 * 1024 ∧ (∀ l ∈ lines, Clean l) ∧
          ReadableOutput.linesAccepted (some (g.readableProjection mode).value) = true := by
  refine ⟨fun g' h => (Grid.readableProjection_alike h mode).symm, fun lines h => ?_⟩
  obtain ⟨hlength, hbytes, hclean⟩ := Grid.readableProjection_fits h
  refine ⟨hlength, hbytes, hclean, ?_⟩
  have hlines : ∀ l ∈ lines.map utf16, ReadableOutput.containsControl l = false := by
    intro l hl
    obtain ⟨l, hmem, rfl⟩ := List.mem_map.1 hl
    exact containsControl_clean (hclean l hmem)
  rw [h, ReadableOutput.linesAccepted, projectionLines_current hlength]
  simp only [ReadableOutput.countLines_strings _ hlines, Bool.true_and, decide_eq_true_eq,
    Nat.zero_add]
  exact Nat.le_trans (sum_utf16_length lines) hbytes

/-- A screen of two cells, the second of which is hidden. -/
def secretScreen (c : Char) : Grid :=
  { cell := fun _ col => if col = 0 then { c := 'a' } else { c, flags := { hidden := true } },
    cursor := {}, savedCursor := {}, historySize := 0, screenLines := 1, columns := 2 }

theorem readable_screen_hidden :
    (secretScreen 'x').readableProjection {} = (secretScreen 'y').readableProjection {} ∧
      ReadableOutput.linesAccepted
        (some ((secretScreen 'y').readableProjection {}).value) = true := by
  have h := readable_screen {} (secretScreen 'y')
  refine ⟨h.1 (secretScreen 'x') ⟨rfl, rfl, fun row col => ?_⟩,
    (h.2 [['a']] (by decide)).2.2.2⟩
  by_cases hcol : col = 0
  · simp only [secretScreen, hcol, if_true]
    exact ⟨rfl, fun _ => rfl⟩
  · simp only [secretScreen, hcol, if_false]
    exact ⟨rfl, nofun⟩

end Alacritty
end RemoteCodex
