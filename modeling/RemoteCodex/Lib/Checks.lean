import Mathlib.Init

/-! Programs that make one check after the other and stop at the first that fails. -/

namespace Checks
set_option autoImplicit true

/-- An error if something is the case. -/
def refuse (c : Prop) [Decidable c] (e : ε) : Except ε Unit := if c then .error e else .ok ()

theorem refuse_ok {c : Prop} [Decidable c] {e : ε} : refuse c e = .ok () ↔ ¬ c := by
  unfold refuse
  split
  · next h => exact iff_of_false (fun he => by cases he) fun hn => hn h
  · next h => exact iff_of_true rfl h

theorem bind_ok {x : Except ε α} {f : α → Except ε β} :
    x >>= f = .ok b ↔ ∃ a, x = .ok a ∧ f a = .ok b := by
  cases x with
  | error e =>
    refine iff_of_false (fun h => by cases h) ?_
    rintro ⟨a, h, -⟩
    cases h
  | ok a =>
    constructor
    · exact fun h => ⟨a, rfl, h⟩
    · rintro ⟨_, h, hf⟩
      cases h
      exact hf

/-- A check that succeeds tells nothing to what follows. -/
theorem then_ok {x : Except ε Unit} {y : Except ε β} :
    (x >>= fun _ => y) = .ok b ↔ x = .ok () ∧ y = .ok b := by
  rw [bind_ok]
  constructor
  · rintro ⟨⟨⟩, hx, hy⟩
    exact ⟨hx, hy⟩
  · exact fun h => ⟨(), h⟩

/-- What every step keeps, a loop that is not left early keeps. -/
theorem loop_keeps {f : σ → α → Option σ} {I : σ → Prop}
    (hstep : ∀ s a s', I s → f s a = some s' → I s') {l : List α} {s s' : σ} (h : I s)
    (hl : l.foldlM f s = some s') : I s' := by
  induction l generalizing s with
  | nil =>
    cases hl
    exact h
  | cons a l ih =>
    rw [List.foldlM_cons] at hl
    obtain ⟨t, ht, hl⟩ := Option.bind_eq_some_iff.1 hl
    exact ih (hstep s a t h ht) hl

end Checks
