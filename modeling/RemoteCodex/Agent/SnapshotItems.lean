import RemoteCodex.Lib.VtTerminal
import RemoteCodex.Agent.Snapshot

namespace RemoteCodex
set_option autoImplicit true
open Vt
namespace Alacritty

/-! What is painted and what restores a cursor can be read back, and leaves the configuration. -/

theorem plain_lt {c : Char} (h : isControl c = false) : 0x20 ≤ c.toNat := by
  rw [isControl, Bool.or_eq_false_iff, decide_eq_false_iff_not] at h
  exact Nat.not_lt.1 h.1

theorem isControl_shown (cell : Cell) : isControl cell.shown = false := by
  unfold Cell.shown
  split
  · rfl
  · next h => exact Bool.eq_false_iff.2 h

theorem isControl_combining {cell : Cell} (h : c ∈ cell.combining) : isControl c = false := by
  have hc := (List.mem_filter.1 h).2
  rwa [Bool.not_eq_true'] at hc

theorem flag_ne_nil (h : p ∈ flag on n) : p ≠ [] := by
  unfold flag at h
  split at h
  · rw [List.mem_singleton.1 h]
    exact List.cons_ne_nil n []
  · exact absurd h List.not_mem_nil

theorem color_ne_nil {c : Color} (h : p ∈ color c fg) : p ≠ [] := by
  rintro rfl
  cases c with
  | spec r g b => simp [color] at h
  | indexed n => simp [color] at h
  | named n =>
    unfold color at h
    simp only at h
    split at h <;> simp at h

theorem underlineColorParams_ne_nil {c : Color} (h : p ∈ underlineColorParams c) : p ≠ [] := by
  rintro rfl
  cases c <;> simp [underlineColorParams] at h

theorem styleParams_ne_nil {c : Cell} (h : p ∈ styleParams c) : p ≠ [] := by
  simp only [styleParams, List.mem_cons, List.mem_append] at h
  rcases h with rfl | ((((((((h | h) | h) | h) | h) | h) | h) | h) | h) | h
  · exact List.cons_ne_nil 0 []
  · exact color_ne_nil h
  · exact color_ne_nil h
  · exact flag_ne_nil h
  · exact flag_ne_nil h
  · exact flag_ne_nil h
  · exact flag_ne_nil h
  · exact flag_ne_nil h
  · exact flag_ne_nil h
  · cases hu : underlineCode c.flags with
    | none => simp [hu] at h
    | some n =>
      rw [hu, Option.elim_some, List.mem_singleton] at h
      rw [h]
      exact List.cons_ne_nil 4 [n]
  · cases hu : c.underlineColor with
    | none => simp [hu] at h
    | some colour =>
      rw [hu, Option.elim_some] at h
      exact underlineColorParams_ne_nil h

/-- An item that is read back, and leaves the configuration. -/
structure Plain (i : Item) : Prop where
  valid : i.Valid
  keeps : Terminal.Keeps i

theorem plain_print {c : Char} (h : isControl c = false) : Plain (.print c) :=
  ⟨plain_lt h, .print c⟩

theorem plain_control {c : Char} (hc : c.toNat < 0x20 ∧ c ≠ escape) : Plain (.control c) :=
  ⟨hc, .control c⟩

theorem plain_sgr {params : List (List Nat)} (h : ∀ p ∈ params, p ≠ []) : Plain (sgr params) := by
  refine ⟨⟨nofun, h, nofun, ?_, ?_, ?_⟩, .sgr params⟩
  · decide
  · decide
  · decide

theorem plain_style (c : Cell) : Plain (style c) := plain_sgr fun _ => styleParams_ne_nil

theorem plain_cup (row col : Nat) : Plain (cup row col) := by
  refine ⟨⟨nofun, ?_, nofun, ?_, ?_, ?_⟩, .cup _⟩
  · intro p hp
    rw [List.mem_cons, List.mem_singleton] at hp
    rcases hp with rfl | rfl
    · exact List.cons_ne_nil row []
    · exact List.cons_ne_nil col []
  · decide
  · decide
  · decide

theorem plain_designate {inter : Char} (hi : interChar inter = true) (charset : StandardCharset) :
    Plain (.esc [inter] (designator charset)) := by
  refine ⟨⟨?_, ?_, fun _ => List.cons_ne_nil inter []⟩, .designate inter _⟩
  · intro c hc
    rwa [List.mem_singleton.1 hc]
  · cases charset with
    | ascii => decide
    | specialCharacterAndLineDrawing => decide

theorem plain_saveCursor : Plain saveCursor := by
  refine ⟨⟨nofun, ?_, ?_⟩, .save⟩
  · decide
  · decide

theorem plain_printed {cell : Cell} (h : i ∈ cell.printed) : Plain i := by
  rw [Cell.printed, List.mem_cons, List.mem_cons, List.mem_map] at h
  rcases h with rfl | rfl | ⟨c, hc, rfl⟩
  · exact plain_style cell
  · exact plain_print (isControl_shown cell)
  · exact plain_print (isControl_combining hc)

theorem plain_charsets {charsets : CharsetIndex → StandardCharset}
    (h : i ∈ emitCharsets charsets) : Plain i := by
  rw [emitCharsets] at h
  simp only [List.mem_cons, List.not_mem_nil, or_false] at h
  rcases h with rfl | rfl | rfl | rfl
  · exact plain_designate (by decide) _
  · exact plain_designate (by decide) _
  · exact plain_designate (by decide) _
  · exact plain_designate (by decide) _

theorem emitAsciiCharsets_eq : emitAsciiCharsets = emitCharsets fun _ => .ascii := rfl

theorem plain_placeCursor {g : Grid} (h : i ∈ g.placeCursor cursor originTop) : Plain i := by
  unfold Grid.placeCursor at h
  simp only at h
  split at h
  · obtain rfl | h := List.mem_cons.1 h
    · exact plain_cup _ _
    · exact plain_printed h
  · split at h
    · obtain rfl | h := List.mem_cons.1 h
      · exact plain_cup _ _
      · exact plain_printed h
    · rw [List.mem_singleton.1 h]
      exact plain_cup _ _

theorem plain_restoreOne {g : Grid} (h : i ∈ g.restoreOne cursor originTop) : Plain i := by
  simp only [Grid.restoreOne, List.mem_append, List.mem_cons, List.not_mem_nil, or_false] at h
  rcases h with ((h | h) | h) | rfl | rfl | rfl
  · exact plain_charsets (emitAsciiCharsets_eq ▸ h)
  · exact plain_placeCursor h
  · exact plain_charsets h
  · exact plain_sgr (by decide)
  · cases cursor.activeCharset with
    | g0 => exact plain_control (by decide)
    | g1 => exact plain_control (by decide)
    | g2 => exact plain_control (by decide)
    | g3 => exact plain_control (by decide)
  · exact plain_style cursor.template

theorem plain_restoreCursor {g : Grid} (h : i ∈ g.restoreCursor) : Plain i := by
  rw [Grid.restoreCursor, List.mem_append, List.mem_cons] at h
  rcases h with h | rfl | h
  · exact plain_restoreOne h
  · exact plain_saveCursor
  · exact plain_restoreOne h

/-! Painting adds plain items after its header. -/

/-- Plain items have been added. -/
def Adds (out out' : List Item) : Prop := ∃ items, out' = out ++ items ∧ ∀ i ∈ items, Plain i

theorem Adds.append (out : List Item) (h : ∀ i ∈ items, Plain i) : Adds out (out ++ items) :=
  ⟨items, rfl, h⟩

theorem Adds.refl (out : List Item) : Adds out out := ⟨[], (List.append_nil out).symm, nofun⟩

theorem Adds.trans (h : Adds a b) (h' : Adds b c) : Adds a c := by
  obtain ⟨items, rfl, hitems⟩ := h
  obtain ⟨items', rfl, hitems'⟩ := h'
  refine ⟨items ++ items', List.append_assoc .., ?_⟩
  intro i hi
  exact (List.mem_append.1 hi).elim (hitems i) (hitems' i)

theorem Painting.adds_cell (p : Painting) (cell : Cell) : Adds p.out (p.cell cell).out := by
  unfold Painting.cell
  split
  · exact .refl _
  · have hcell : ∀ i ∈ .print cell.shown :: cell.combining.map .print, Plain i :=
      fun i hi => plain_printed (List.mem_cons_of_mem _ hi)
    simp only
    split
    · exact .append _ hcell
    · refine .trans (.append _ ?_) (.append _ hcell)
      intro i hi
      rw [List.mem_singleton.1 hi]
      exact plain_style cell

theorem Painting.adds_cells (g : Grid) (row : Int) (cols : List Nat) (p : Painting) :
    Adds p.out (cols.foldl (fun p col => p.cell (g.cell row col)) p).out := by
  induction cols generalizing p with
  | nil => exact .refl _
  | cons col cols ih => exact (p.adds_cell _).trans (ih _)

theorem Painting.adds_row (p : Painting) (g : Grid) (row : Int) : Adds p.out (p.row g row).out := by
  have hcells := Painting.adds_cells g row (List.range g.columns) p
  unfold Painting.row
  simp only
  split
  · refine hcells.trans (.append _ ?_)
    intro i hi
    rw [List.mem_cons, List.mem_singleton] at hi
    rcases hi with rfl | rfl
    · exact plain_control (by decide)
    · exact plain_control (by decide)
  · exact hcells

theorem Painting.adds_rows (g : Grid) (n : Nat) (row : Int) (p : Painting) :
    Adds p.out (p.rows g n row).out := by
  induction n generalizing row p with
  | zero => exact .refl _
  | succ n ih =>
    unfold Painting.rows
    simp only
    split
    · exact p.adds_row g row
    · exact (p.adds_row g row).trans (ih _ _)

theorem Grid.adds_paint (g : Grid) (out : List Item) : Adds (out ++ paintHeader) (g.paint out) :=
  Painting.adds_rows g _ _ _

namespace Settings

/-! What is sent can be read back. -/

theorem valid_csi {n : Nat} (hmarker : ∀ c ∈ marker, markerChar c = true)
    (hinter : ∀ c ∈ inter, interChar c = true)
    (hfinal : markerChar final = false ∧ paramChar final = false ∧ interChar final = false) :
    (Item.csi marker [[n]] inter final).Valid := by
  refine ⟨hmarker, ?_, hinter, hfinal⟩
  intro p hp
  rw [List.mem_singleton.1 hp]
  exact List.cons_ne_nil n []

theorem valid_decMode (n : Nat) (on : Bool) : (decMode n on).Valid := by
  have hmarker : ∀ c ∈ some '?', markerChar c = true := by
    intro c hc
    rw [← Option.some.inj hc]
    rfl
  cases on with
  | false => exact valid_csi hmarker nofun (by decide)
  | true => exact valid_csi hmarker nofun (by decide)

theorem valid_ansiMode (n : Nat) (on : Bool) : (ansiMode n on).Valid := by
  cases on with
  | false => exact valid_csi nofun nofun (by decide)
  | true => exact valid_csi nofun nofun (by decide)

theorem valid_esc {final : Char} (h : interChar final = false ∧ final ≠ '[') :
    (Item.esc [] final).Valid := ⟨nofun, h.1, fun he => absurd he h.2⟩

theorem valid_paintHeader : ∀ i ∈ paintHeader, i.Valid := by
  intro i hi
  simp only [paintHeader, List.mem_cons, List.not_mem_nil, or_false] at hi
  rcases hi with rfl | rfl | rfl | rfl | rfl
  · exact ⟨nofun, nofun, nofun, by decide⟩
  · exact valid_csi nofun nofun (by decide)
  · exact valid_decMode 7 true
  · exact valid_decMode 6 false
  · exact ⟨nofun, nofun, nofun, by decide⟩

theorem valid_paint (g : Grid) {out : List Item} (h : ∀ i ∈ out, i.Valid) :
    ∀ i ∈ g.paint out, i.Valid := by
  obtain ⟨items, hout, hitems⟩ := g.adds_paint out
  intro i hi
  rw [hout, List.mem_append, List.mem_append] at hi
  rcases hi with (hi | hi) | hi
  · exact h i hi
  · exact valid_paintHeader i hi
  · exact (hitems i hi).valid

theorem valid_paintInactive (s : Settings) (inactive : Grid) :
    ∀ i ∈ s.paintInactive inactive, i.Valid := by
  have hstart : ∀ i ∈ snapshotStart, i.Valid := by
    intro i hi
    simp only [snapshotStart, List.mem_cons, List.not_mem_nil, or_false] at hi
    rcases hi with rfl | rfl | rfl | rfl | rfl
    · exact valid_esc (by decide)
    · exact valid_decMode 25 false
    · exact valid_decMode 7 true
    · exact valid_decMode 6 false
    · exact (plain_sgr (by decide)).valid
  unfold paintInactive
  split
  · intro i hi
    rw [List.mem_append, List.mem_append, List.mem_singleton] at hi
    rcases hi with (hi | hi) | rfl
    · exact valid_paint inactive hstart i hi
    · exact (plain_restoreCursor hi).valid
    · exact valid_decMode 1049 true
  · exact hstart

theorem valid_head (s : Settings) (inactive g : Grid) : ∀ i ∈ s.head inactive g, i.Valid := by
  refine valid_paint g ?_
  intro i hi
  rw [List.mem_append] at hi
  rcases hi with hi | hi
  · exact s.valid_paintInactive inactive i hi
  · exact (plain_charsets (emitAsciiCharsets_eq ▸ hi)).valid

theorem valid_emitTabs (s : Settings) : ∀ i ∈ s.emitTabs, i.Valid := by
  intro i hi
  rw [emitTabs, List.mem_cons, List.mem_flatMap] at hi
  rcases hi with rfl | ⟨column, -, hi⟩
  · exact valid_csi nofun nofun (by decide)
  · rw [List.mem_cons, List.mem_singleton] at hi
    rcases hi with rfl | rfl
    · exact (plain_cup 1 (column + 1)).valid
    · exact valid_esc (by decide)

theorem valid_emitRegion (s : Settings) : s.emitRegion.Valid := by
  refine ⟨nofun, ?_, nofun, by decide⟩
  intro p hp
  rw [List.mem_cons, List.mem_singleton] at hp
  rcases hp with rfl | rfl
  · exact List.cons_ne_nil _ []
  · exact List.cons_ne_nil _ []

theorem valid_emitModes (s : Settings) : ∀ i ∈ s.emitModes, i.Valid := by
  intro i hi
  rw [emitModes, List.mem_append, List.mem_append] at hi
  rcases hi with (hi | hi) | hi
  · obtain ⟨p, -, rfl⟩ := List.mem_map.1 hi
    exact valid_decMode p.1 p.2
  · cases hcode : styleCode s.cursorStyle with
    | none => simp [emitCursorStyle, hcode] at hi
    | some code =>
      rw [emitCursorStyle, hcode, Option.elim_some, List.mem_singleton] at hi
      rw [hi]
      exact valid_csi nofun (List.forall_mem_singleton.2 rfl) (by decide)
  · simp only [emitOtherModes, List.mem_cons, List.not_mem_nil, or_false] at hi
    rcases hi with rfl | rfl | rfl
    · split
      · exact valid_esc (by decide)
      · exact valid_esc (by decide)
    · exact valid_ansiMode 4 _
    · exact valid_ansiMode 20 _

theorem valid_modeTail (s : Settings) (g : Grid) : ∀ i ∈ s.modeTail g, i.Valid := by
  intro i hi
  rw [modeTail, List.mem_append, List.mem_append] at hi
  rcases hi with (hi | hi) | hi
  · exact s.valid_emitModes i hi
  · exact (plain_restoreCursor hi).valid
  · unfold restoreOrigin at hi
    split at hi
    · obtain rfl | hi := List.mem_cons.1 hi
      · exact valid_decMode 6 true
      · exact (plain_restoreOne hi).valid
    · exact absurd hi List.not_mem_nil

/-- A terminal reads the items that were sent. -/
theorem parse_snapshot (s : Settings) (inactive g : Grid) :
    parse (s.snapshot inactive g) = s.head inactive g ++ s.tail g := by
  refine parse_text ?_
  intro i hi
  rw [tail, List.mem_append, List.mem_append, List.mem_cons] at hi
  rcases hi with hi | hi | rfl | hi
  · exact s.valid_head inactive g i hi
  · exact s.valid_emitTabs i hi
  · exact s.valid_emitRegion
  · exact s.valid_modeTail g i hi

end Settings
end Alacritty
end RemoteCodex
