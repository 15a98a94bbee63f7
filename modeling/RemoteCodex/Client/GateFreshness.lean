import Mathlib.Data.List.Induction
import RemoteCodex.Lib.History
import RemoteCodex.Lib.JsText
import RemoteCodex.Client.MediaClient

namespace RemoteCodex
set_option autoImplicit true
open Js History
namespace MediaClient

namespace PresentationGate

def geometryChanged (g : PresentationGate) (generation : Number) (geometry : Str) :
    PresentationGate :=
  if generation.strictEq g.generation = false ∨ geometry ≠ g.geometry then
    { g with generation, geometry, lastPresented := none, state := .stalled }
  else g

/-- `presented`, at any number -/
def presentedAt (g : PresentationGate) : Number → PresentationGate
  | .finite now => g.presented now
  | _ => g

/-- `lastPresented` -/
def last (g : PresentationGate) : Number := g.lastPresented.elim (.infinity true) .finite

/-- `canControl`, at any number -/
def canControlAt (rounded : Rat → Number) (g : PresentationGate) (now generation : Number)
    (geometry : Str) : Bool :=
  let age := now.sub rounded g.last
  g.connected && g.state == .live && generation.strictEq g.generation && geometry == g.geometry &&
    Number.le (.finite 0) age && age.le (.finite 500)

/-- At finite times, with exact differences, it is the gate of the client. -/
theorem canControlAt_finite (g : PresentationGate) (now : Rat) (generation : Number)
    (geometry : Str) :
    g.canControlAt .finite (.finite now) generation geometry =
      g.canControl now generation geometry := by
  unfold canControlAt canControl last
  cases g.lastPresented with
  | none => simp only [Option.elim_none, Number.sub, Number.le, Option.any_none, Bool.and_false,
      Bool.not_true]
  | some t => simp only [Option.elim_some, Number.sub, Number.le, Option.any_some, Bool.and_assoc]

end PresentationGate

/-- A call of a method that changes the gate. -/
inductive GateCall where
  | reset (generation : Number) (geometry : Str)
  | transport (connected : Bool)
  | geometryChanged (generation : Number) (geometry : Str)
  | presented (now : Number)
  | stop

namespace GateCall

def apply (g : PresentationGate) : GateCall → PresentationGate
  | .reset generation geometry => .reset generation geometry
  | .transport connected => g.transport connected
  | .geometryChanged generation geometry => g.geometryChanged generation geometry
  | .presented now => g.presentedAt now
  | .stop => g.stop

def run (calls : List GateCall) : PresentationGate := calls.foldl apply .new

/-- The generation and the geometry that a call tells. -/
def source : GateCall → Option (Number × Str)
  | .reset generation geometry | .geometryChanged generation geometry => some (generation, geometry)
  | _ => none

/-- The current generation and geometry: the last ones told. -/
def current (calls : List GateCall) : Number × Str :=
  (calls.filterMap source).getLast?.getD (.finite 0, [])

/-- The call takes the transport down. -/
def Severs : GateCall → Prop
  | .reset .. | .transport false | .stop => True
  | _ => False

/-- The transport came up, and nothing took it down since. -/
def Up (calls : List GateCall) : Prop :=
  Since (fun c => ¬ c.Severs) (fun _ c => c = .transport true) calls

/-- After the calls so far, the call takes the transport down or tells another geometry. -/
def Invalidates (calls : List GateCall) (c : GateCall) : Prop :=
  c.Severs ∨ ∃ generation geometry, c = .geometryChanged generation geometry ∧
    (generation.strictEq (current calls).1 = false ∨ geometry ≠ (current calls).2)

/-- The last frame presented while the transport was up is that of a time, and nothing has made it
stale since. -/
def LastPresented (calls : List GateCall) (t : Rat) : Prop :=
  ∃ before after, calls = before ++ .presented (.finite t) :: after ∧ Up before ∧
    ∀ mid c rest, after = mid ++ c :: rest →
      ¬ Invalidates (before ++ .presented (.finite t) :: mid) c ∧
        ∀ t', c ≠ .presented (.finite t')

/-- What the fields of the gate say about the calls so far. -/
structure Records (calls : List GateCall) (g : PresentationGate) : Prop where
  source : (g.generation, g.geometry) = current calls
  connected : g.connected = true → Up calls
  down : g.connected = false → g.lastPresented = none
  last : ∀ t, g.lastPresented = some t → LastPresented calls t

theorem records_new : Records [] .new where
  source := rfl
  connected := nofun
  down _ := rfl
  last := nofun

theorem current_snoc_none {c : GateCall} (h : c.source = none) (calls : List GateCall) :
    current (calls ++ [c]) = current calls := by
  rw [current, List.filterMap_append, List.filterMap_cons_none h, List.filterMap_nil,
    List.append_nil, current]

theorem current_snoc_some {c : GateCall} {s : Number × Str} (h : c.source = some s)
    (calls : List GateCall) : current (calls ++ [c]) = s := by
  rw [current, List.filterMap_append, List.filterMap_cons_some h, List.filterMap_nil,
    List.getLast?_concat]
  rfl

theorem Up.snoc (h : Up calls) (hc : ¬ c.Severs) : Up (calls ++ [c]) :=
  h.append fun _ hx => List.mem_singleton.1 hx ▸ hc

theorem LastPresented.snoc (h : LastPresented calls t) (hc : ¬ Invalidates calls c)
    (hp : ∀ t', c ≠ .presented (.finite t')) : LastPresented (calls ++ [c]) t := by
  obtain ⟨before, after, rfl, hup, hafter⟩ := h
  refine ⟨before, after ++ [c], by rw [List.append_assoc, List.cons_append], hup, ?_⟩
  intro mid x rest he
  rcases List.eq_nil_or_concat rest with rfl | ⟨rest, y, rfl⟩
  · obtain ⟨rfl, hx⟩ := List.append_inj' he rfl
    cases hx
    exact ⟨hc, hp⟩
  · rw [List.concat_eq_append, ← List.cons_append, ← List.append_assoc] at he
    obtain ⟨rfl, -⟩ := List.append_inj' he rfl
    exact hafter mid x rest rfl

theorem LastPresented.now (h : Up calls) : LastPresented (calls ++ [.presented (.finite t)]) t :=
  ⟨calls, [], rfl, h, fun mid _ _ he => by cases mid <;> cases he⟩

/-- Every call keeps what the fields say. -/
theorem Records.snoc (h : Records calls g) (c : GateCall) :
    Records (calls ++ [c]) (c.apply g) := by
  cases c with
  | reset generation geometry =>
    exact ⟨(current_snoc_some rfl calls).symm, nofun, fun _ => rfl, nofun⟩
  | transport connected =>
    have hsource := h.source.trans (current_snoc_none (c := .transport connected) rfl calls).symm
    cases connected with
    | false => exact ⟨hsource, nofun, fun _ => rfl, nofun⟩
    | true =>
      refine ⟨hsource, fun _ => .now rfl, nofun, fun t ht => (h.last t ht).snoc ?_ nofun⟩
      rintro (hc | ⟨_, _, hc, -⟩) <;> cases hc
  | geometryChanged generation geometry =>
    have hcurrent := current_snoc_some (c := .geometryChanged generation geometry) rfl calls
    simp only [apply, PresentationGate.geometryChanged]
    split
    · exact ⟨hcurrent.symm, fun hup => (h.connected hup).snoc id, fun _ => rfl, nofun⟩
    · next hsame =>
      obtain ⟨hgen, hgeo⟩ := not_or.1 hsame
      rw [Bool.not_eq_false] at hgen
      rw [not_not] at hgeo
      refine ⟨?_, fun hup => (h.connected hup).snoc id, h.down,
        fun t ht => (h.last t ht).snoc ?_ nofun⟩
      · rw [hcurrent, hgeo, Number.strictEq_eq hgen]
      · rintro (hc | ⟨_, _, hc, hdiff⟩)
        · exact hc
        · cases hc
          rw [← h.source] at hdiff
          exact hsame hdiff
  | presented now =>
    have hsource := h.source.trans (current_snoc_none (c := .presented now) rfl calls).symm
    have hup : g.connected = true → Up (calls ++ [.presented now]) :=
      fun hup => (h.connected hup).snoc id
    have hkeep : ¬ Invalidates calls (.presented now) := by
      rintro (hc | ⟨_, _, hc, -⟩) <;> cases hc
    cases now with
    | finite now =>
      simp only [apply, PresentationGate.presentedAt, PresentationGate.presented]
      split
      · next hconnected =>
        refine ⟨hsource, hup, fun hdown => ?_, fun t ht => ?_⟩
        · exact absurd hconnected (ne_true_of_eq_false hdown)
        · cases ht
          exact .now (h.connected hconnected)
      · next hdown =>
        rw [Bool.not_eq_true] at hdown
        exact ⟨hsource, hup, h.down, fun t ht => by rw [h.down hdown] at ht; cases ht⟩
    | nan => exact ⟨hsource, hup, h.down, fun t ht => (h.last t ht).snoc hkeep nofun⟩
    | infinity _ => exact ⟨hsource, hup, h.down, fun t ht => (h.last t ht).snoc hkeep nofun⟩
  | stop =>
    exact ⟨h.source.trans (current_snoc_none rfl calls).symm, nofun, fun _ => rfl, nofun⟩

theorem records_run (calls : List GateCall) : Records calls (run calls) := by
  induction calls using List.reverseRecOn with
  | nil => exact records_new
  | append_singleton calls c ih =>
    rw [run, List.foldl_append]
    exact ih.snoc c

end GateCall

/-- The presentation gate: control is open only on the source told last, while the transport is up,
and for 500 ms after a frame that nothing has made stale. Times may go backwards, and `rounded` is
how a difference of two of them is rounded. -/
theorem control_needs_fresh_frame (rounded : Rat → Number) (calls : List GateCall)
    (now generation : Number) (geometry : Str)
    (h : (GateCall.run calls).canControlAt rounded now generation geometry = true) :
    GateCall.Up calls ∧ generation = (GateCall.current calls).1 ∧
      geometry = (GateCall.current calls).2 ∧
      ∃ t, GateCall.LastPresented calls t ∧
        Number.le (.finite 0) (now.sub rounded (.finite t)) = true ∧
        (now.sub rounded (.finite t)).le (.finite 500) = true := by
  have hrun := GateCall.records_run calls
  simp only [PresentationGate.canControlAt, Bool.and_eq_true, beq_iff_eq] at h
  obtain ⟨⟨⟨⟨⟨hup, -⟩, hgen⟩, hgeo⟩, hfrom⟩, hto⟩ := h
  refine ⟨hrun.connected hup, ?_, ?_, ?_⟩
  · rw [← hrun.source, Number.strictEq_eq hgen]
  · rw [← hrun.source, hgeo]
  · cases ht : (GateCall.run calls).lastPresented with
    | none =>
      rw [PresentationGate.last, ht] at hto
      cases now with
      | nan => cases hto
      | finite now => cases hto
      | infinity below => cases below <;> cases hto
    | some t =>
      rw [PresentationGate.last, ht] at hfrom hto
      exact ⟨t, hrun.last t ht, hfrom, hto⟩

theorem control_needs_fresh_frame_late :
    ∃ t, GateCall.LastPresented
      [.reset (.finite 3) [71], .transport true, .presented (.finite 1000)] t ∧
      Number.le (.finite 0) (Number.sub .finite (.finite 1500) (.finite t)) = true ∧
      (Number.sub .finite (.finite 1500) (.finite t)).le (.finite 500) = true :=
  (control_needs_fresh_frame .finite
    [.reset (.finite 3) [71], .transport true, .presented (.finite 1000)] (.finite 1500) (.finite 3)
    [71] (by decide +kernel)).2.2.2

end MediaClient
end RemoteCodex
