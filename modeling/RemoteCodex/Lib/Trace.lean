import Mathlib.Data.List.Basic

namespace Trace
set_option autoImplicit true

/-- Runs of a transition relation whose steps emit lists of events. -/
inductive Run (step : σ → List ε → σ → Prop) (s : σ) : List ε → σ → Prop where
  | nil : Run step s [] s
  | snoc : Run step s es t → step t e u → Run step s (es ++ e) u

theorem Run.single {step : σ → List ε → σ → Prop} (h : step s e t) : Run step s e t :=
  .snoc .nil h

theorem Run.trans {step : σ → List ε → σ → Prop} (h : Run step s es t)
    (h' : Run step t fs u) : Run step s (es ++ fs) u := by
  induction h' with
  | nil => simpa only [List.append_nil] using h
  | snoc _ hs ih => simpa only [List.append_assoc] using ih.snoc hs

/-- An invariant relating the events emitted so far to the state reached. -/
theorem Run.invariant {step : σ → List ε → σ → Prop} {I : List ε → σ → Prop}
    (h : Run step s es t) (h₀ : I [] s)
    (hstep : ∀ {es t e u}, I es t → step t e u → I (es ++ e) u) : I es t := by
  induction h with
  | nil => exact h₀
  | snoc _ hs ih => exact hstep ih hs

/-- An invariant of the states alone. -/
theorem Run.preserves {step : σ → List ε → σ → Prop} {P : σ → Prop}
    (h : Run step s es t) (h₀ : P s) (hstep : ∀ {t e u}, P t → step t e u → P u) : P t :=
  h.invariant (I := fun _ => P) h₀ hstep

/-- A property of single events that every step out of a good state guarantees. -/
theorem Run.forall_events {step : σ → List ε → σ → Prop} {P : σ → Prop} {Q : ε → Prop}
    (h : Run step s es t) (h₀ : P s) (hstep : ∀ {t e u}, P t → step t e u → P u)
    (hev : ∀ {t e u}, P t → step t e u → ∀ x ∈ e, Q x) : ∀ x ∈ es, Q x := by
  induction h with
  | nil => intro x hx; cases hx
  | snoc hr hs ih =>
    intro x hx
    rcases List.mem_append.1 hx with hx | hx
    · exact ih x hx
    · exact hev (hr.preserves h₀ hstep) hs x hx

theorem Run.imp {step step' : σ → List ε → σ → Prop} (h : Run step s es t)
    (himp : ∀ {t e u}, step t e u → step' t e u) : Run step' s es t := by
  induction h with
  | nil => exact .nil
  | snoc _ hs ih => exact ih.snoc (himp hs)

/-- The step that emitted an event, with the run before it and the run after it. -/
theorem Run.split {step : σ → List ε → σ → Prop} (h : Run step s es t) (hx : x ∈ es) :
    ∃ before u e v after, es = before ++ e ++ after ∧ x ∈ e ∧ Run step s before u ∧
      step u e v ∧ Run step v after t := by
  induction h with
  | nil => cases hx
  | snoc hr hs ih =>
    rcases List.mem_append.1 hx with hx | hx
    · obtain ⟨before, u, e, v, after, he, hxe, hb, hu, ha⟩ := ih hx
      refine ⟨before, u, e, v, _, ?_, hxe, hb, hu, ha.snoc hs⟩
      rw [he, List.append_assoc]
    · exact ⟨_, _, _, _, [], (List.append_nil _).symm, hx, hr, hs, .nil⟩

end Trace
