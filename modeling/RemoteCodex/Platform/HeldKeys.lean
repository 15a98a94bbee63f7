import RemoteCodex.Lib.History
import RemoteCodex.Platform.InputCalls

namespace RemoteCodex
set_option autoImplicit true
open Fallible
namespace GuiInput

/-- The system has taken such an input. -/
def Event.Took (down : Input → Prop) : Event → Prop
  | .sent inputs ok => ok = true ∧ ∃ i ∈ inputs, down i
  | .disarmed _ => False

/-- The system has taken such an input, or it is a disarm. -/
def Event.Frees (up : Input → Prop) : Event → Prop
  | .sent inputs ok => ok = true ∧ ∃ i ∈ inputs, up i
  | .disarmed _ => True

/-- It went down, and since then it did not go up and there was no disarm. -/
def Held (inp : α → Bool → Input → Prop) (log : List Event) (a : α) : Prop :=
  History.Since (fun e => ¬ e.Frees (inp a false)) (fun _ e => e.Took (inp a true)) log

def Tracks (inp : α → Bool → Input → Prop) (held : List α) (log : List Event) : Prop :=
  ∀ a, a ∈ held ↔ Held inp log a

section Tracking
variable {inp : α → Bool → Input → Prop}

theorem held_snoc :
    Held inp (log ++ [e]) a ↔ e.Took (inp a true) ∨ (Held inp log a ∧ ¬ e.Frees (inp a false)) :=
  History.Since.snoc_iff

theorem Tracks.nil : Tracks inp [] [] := by
  refine fun a => ⟨fun h => (List.not_mem_nil h).elim, ?_⟩
  rintro ⟨before, e, after, he, -⟩
  cases before <;> cases he

/-- What is sent goes down or up for none of them. -/
theorem Tracks.other (h : Tracks inp held log) {inputs : List Input} {ok : Bool}
    (hi : ok = true → ∀ a down, ∀ i ∈ inputs, ¬ inp a down i) :
    Tracks inp held (log ++ [.sent inputs ok]) := by
  intro a
  have hnone (down : Bool) : ¬ (ok = true ∧ ∃ i ∈ inputs, inp a down i) := by
    rintro ⟨hok, i, hmem, hinp⟩
    exact hi hok a down i hmem hinp
  rw [h a, held_snoc]
  refine ⟨fun hheld => .inr ⟨hheld, hnone false⟩, ?_⟩
  rintro (htook | hheld)
  · exact (hnone true htook).elim
  · exact hheld.1

theorem Tracks.disarmed : Tracks inp [] (log ++ [.disarmed attempts]) := by
  intro a
  rw [held_snoc]
  exact ⟨fun h => (List.not_mem_nil h).elim, fun h => h.elim False.elim fun h => (h.2 trivial).elim⟩

end Tracking

/-- A system that lets everything through. -/
def calm : Os where
  now _ := 5000000000
  inputDesktopAvailable _ := true
  validateSource _ source := .ok source.rect
  virtualDesktop _ := .ok ⟨0, 0, 1920, 1080⟩
  foregroundWindow _ := some 1
  windowProcess _ _ := 7
  guiIntegrityPermitted _ _ := .ok ()
  rootWindowFromPoint _ _ := some 1
  sendInput _ inputs := inputs.length
  allowed _ := true
  map _ _ _ := .ok (0, 0)
  absolute _ p := .ok p
  drainKeys _ keys := keys
  drainButtons _ buttons := buttons
  drainKeys_perm _ _ := .refl _
  drainButtons_perm _ _ := .refl _

def screen : LocalSource := ⟨.monitor "65537" "DISPLAY1", "1", ⟨0, 0, 1920, 1080⟩⟩

/-- The backend for a screen that is all of the desktop. -/
def screenStart : State := ⟨⟨screen, screen.rect, 0, [], [], false⟩, 0, []⟩

/-- Ctrl is pressed, once the backend is armed. -/
def pressCtrl : List Op := [.frame, .arm, .apply (.key 29 false true)]

theorem new_screen : new screen (.ok screen.rect) 0 = .ok screenStart := rfl

/-- Ctrl, Alt and Delete are all held. -/
def Attention (keys : List Key) : Prop :=
  (∃ k ∈ keys, k.1 = 29) ∧ (∃ k ∈ keys, k.1 = 56) ∧ (83, true) ∈ keys

/-- The call is no press of Ctrl or Alt that makes the three complete. -/
def Op.Careful (keys : List Key) (op : Op) : Prop :=
  ∀ scan extended, op = .apply (.key scan extended true) → (83, true) ∈ keys →
    (scan = 29 → ¬ ∃ k ∈ keys, k.1 = 56) ∧ (scan = 56 → ¬ ∃ k ∈ keys, k.1 = 29)

/-- Every call is careful when it is made. -/
def CarefulRun (os : Os) (s : State) : List Op → Prop
  | [] => True
  | op :: ops => op.Careful s.backend.keys ∧ CarefulRun os (exec (op.run os) s).2 ops

theorem secureHeld_iff :
    secureHeld keys = true ↔ (∃ k ∈ keys, k.1 = 29) ∧ ∃ k ∈ keys, k.1 = 56 := by
  simp only [secureHeld, Bool.and_eq_true, List.any_eq_true, beq_iff_eq]

theorem Attention.mono {keys keys' : List Key} (h : Attention keys) (hk : keys ⊆ keys') :
    Attention keys' :=
  ⟨h.1.imp fun _ hc => ⟨hk hc.1, hc.2⟩, h.2.1.imp fun _ ha => ⟨hk ha.1, ha.2⟩, hk h.2.2⟩

/-- The held keys are among those before the call and the one that it presses. -/
def Pressing (keys : List Key) (op : Op) (v : View) : Prop :=
  ¬ Attention v.keys ∧ ∀ k ∈ v.keys, k ∈ keys ∨ op = .apply (.key k.1 k.2 true)

/-- The three do not become complete with one more key. -/
theorem Pressing.insert (h : Pressing keys op v) (hop : op = .apply (.key k.1 k.2 true))
    (hsafe : op.Careful keys) (hs : ¬ (k = (83, true) ∧ secureHeld v.keys = true)) :
    ¬ Attention (v.keys.insert k) := by
  have hold {j : Key} (hj : j ∈ v.keys) (hjk : j.1 ≠ k.1) : j ∈ keys := by
    refine (h.2 j hj).resolve_right fun hpress => hjk ?_
    injection hpress.symm.trans hop with hkey
    injection hkey
  rintro ⟨⟨c, hc, hc29⟩, ⟨a, ha, ha56⟩, hd⟩
  rw [List.mem_insert_iff] at hc ha hd
  rcases hd with hd | hd
  · -- The guard of the source is about this key.
    have hne {j : Key} (hj : j.1 ≠ 83) : j ≠ k := fun he => hj (by rw [he, ← hd])
    have hc' := hc.resolve_left (hne (by rw [hc29]; decide))
    have ha' := ha.resolve_left (hne (by rw [ha56]; decide))
    exact hs ⟨hd.symm, secureHeld_iff.2 ⟨⟨c, hc', hc29⟩, a, ha', ha56⟩⟩
  rcases hc with rfl | hc
  · have hne : a.1 ≠ c.1 := by rw [ha56, hc29]; decide
    have ha' := ha.resolve_left fun he => hne (congrArg Prod.fst he)
    have hd' := hold hd (by rw [hc29]; decide)
    exact (hsafe _ _ hop hd').1 hc29 ⟨a, hold ha' hne, ha56⟩
  rcases ha with rfl | ha
  · have hne : c.1 ≠ a.1 := by rw [ha56, hc29]; decide
    have hd' := hold hd (by rw [ha56]; decide)
    exact (hsafe _ _ hop hd').2 ha56 ⟨c, hold hc hne, hc29⟩
  · exact h.1 ⟨⟨c, hc, hc29⟩, ⟨a, ha, ha56⟩, hd⟩

theorem Pressing.closed (hsafe : op.Careful keys) : Closed op (Pressing keys op) := by
  intro v v' h hact
  cases hact with
  | armed => exact h
  | sent => exact h
  | button => exact h
  | disarmed => exact ⟨fun ha => List.not_mem_nil ha.2.2, fun k hk => (List.not_mem_nil hk).elim⟩
  | key scan extended down he hop hs =>
    cases down with
    | false =>
      have hsub : v.keys.filter (· != (scan, extended)) ⊆ v.keys := List.filter_subset_self _
      exact ⟨fun ha => h.1 (ha.mono hsub), fun k hk => h.2 k (hsub hk)⟩
    | true =>
      refine ⟨h.insert hop hsafe fun hk => ?_, fun k hk => ?_⟩
      · obtain ⟨heq, hsec⟩ := hk
        injection heq with hscan hextended
        exact hs ⟨rfl, hscan, hextended, hsec⟩
      · rcases List.mem_insert_iff.1 hk with rfl | hk
        · exact .inr hop
        · exact h.2 k hk

/-- A careful call does not make the three complete. -/
theorem Op.Careful.run {op : Op} {s : State} (hsafe : op.Careful s.backend.keys)
    (h : ¬ Attention s.backend.keys) (os : Os) :
    ¬ Attention (exec (op.run os) s).2.backend.keys := by
  have hstart : Pressing s.backend.keys op s.view := ⟨h, fun k hk => .inl hk⟩
  exact ((op.run_spec os (Pressing.closed hsafe)).left hstart).1

end GuiInput
open GuiInput

/-- If no press of Ctrl or Alt makes the three complete, they are never all held. -/
theorem attention_not_held (os : Os) (source : LocalSource) (virtualDesktop : Except String Rect)
    (now : Nat) (h : GuiInput.new source virtualDesktop now = .ok s) (ops : List Op)
    (hops : CarefulRun os s ops) : ¬ Attention (run os s ops).backend.keys := by
  have hstart : ¬ Attention s.backend.keys := by
    cases virtualDesktop with
    | error e => cases h
    | ok desktop =>
      cases h
      exact fun ha => List.not_mem_nil ha.2.2
  clear h
  induction ops generalizing s with
  | nil => exact hstart
  | cons op ops ih => exact ih hops.2 (hops.1.run hstart os)

theorem attention_not_held_press : ¬ Attention (run calm screenStart pressCtrl).backend.keys := by
  refine attention_not_held calm screen _ 0 new_screen _ ⟨nofun, nofun, ?_, trivial⟩
  exact fun _ _ _ hd => absurd hd List.not_mem_nil

/-- The keys are let through one by one, with Delete as the first. -/
theorem attention_held : ∃ s, GuiInput.new screen (.ok screen.rect) 0 = .ok s ∧
    Attention (run calm s
      [.frame, .arm, .apply (.key 83 true true), .apply (.key 29 false true),
        .apply (.key 56 false true)]).backend.keys := by
  have hkeys : (run calm screenStart
      [.frame, .arm, .apply (.key 83 true true), .apply (.key 29 false true),
        .apply (.key 56 false true)]).backend.keys = [(56, false), (29, false), (83, true)] := rfl
  refine ⟨_, new_screen, ?_⟩
  rw [hkeys]
  exact ⟨⟨(29, false), by decide, rfl⟩, ⟨(56, false), by decide, rfl⟩, by decide⟩

end RemoteCodex
