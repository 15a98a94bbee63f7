import Mathlib.Data.List.Forall2

/-! Programs over a state that may fail and keep the state when they do, and triples for them. -/

namespace Fallible
set_option autoImplicit true

abbrev Prog (σ ε α : Type) := ExceptT ε (StateM σ) α

/-- How a program ends, and the state that it leaves. -/
def exec (p : Prog σ ε α) (s : σ) : Except ε α × σ := StateT.run (ExceptT.run p) s

def bailIf (c : Prop) [Decidable c] (e : ε) : Prog σ ε Unit := if c then throw e else return ()

/-- The outcome of a program, whose failure is not passed on. -/
def attempt (p : Prog σ ε α) : Prog σ ε' (Except ε α) := ExceptT.mk (Except.ok <$> ExceptT.run p)

/-- The program ends with a result in `Q`, or it fails in `E`. -/
def Ends (Q : α → σ → Prop) (E : σ → Prop) : Except ε α × σ → Prop
  | (.ok a, s) => Q a s
  | (.error _, s) => E s

def Triple (P : σ → Prop) (p : Prog σ ε α) (Q : α → σ → Prop) (E : σ → Prop) : Prop :=
  ∀ s, P s → Ends Q E (exec p s)

theorem Ends.imp {Q Q' : α → σ → Prop} {E E' : σ → Prop} {r : Except ε α × σ} (h : Ends Q E r)
    (hQ : ∀ a s, Q a s → Q' a s) (hE : ∀ s, E s → E' s) : Ends Q' E' r := by
  obtain ⟨x, s⟩ := r
  cases x with
  | ok a => exact hQ a s h
  | error e => exact hE s h

/-- The state that is left, whether or not the program failed. -/
theorem Ends.left {E : σ → Prop} {r : Except ε α × σ} (h : Ends (fun _ => E) E r) : E r.2 := by
  obtain ⟨x, s⟩ := r
  cases x with
  | ok a => exact h
  | error e => exact h

namespace Triple

variable {P : σ → Prop} {Q : α → σ → Prop} {E : σ → Prop}

theorem pure (h : ∀ s, P s → Q a s) : Triple P (Pure.pure a : Prog σ ε α) Q E := h

theorem throw (h : ∀ s, P s → E s) : Triple P (MonadExcept.throw e : Prog σ ε α) Q E := h

theorem get {Q : σ → σ → Prop} (h : ∀ s, P s → Q s s) :
    Triple P (MonadState.get : Prog σ ε σ) Q E := h

theorem modify {Q : Unit → σ → Prop} {g : σ → σ} (h : ∀ s, P s → Q () (g s)) :
    Triple P (modify g : Prog σ ε Unit) Q E := h

theorem bind {p : Prog σ ε α} {k : α → Prog σ ε β} {R : β → σ → Prop} (hp : Triple P p Q E)
    (hk : ∀ a, Triple (Q a) (k a) R E) : Triple P (p >>= k) R E := by
  intro s hs
  have h := hp s hs
  show Ends R E (match exec p s with | (x, s') => ExceptT.bindCont k x s')
  generalize exec p s = r at h
  obtain ⟨x, s'⟩ := r
  cases x with
  | ok a => exact hk a s' h
  | error e => exact h

theorem conseq {p : Prog σ ε α} {P' : σ → Prop} {Q' : α → σ → Prop} {E' : σ → Prop}
    (h : Triple P' p Q' E') (hP : ∀ s, P s → P' s) (hQ : ∀ a s, Q' a s → Q a s)
    (hE : ∀ s, E' s → E s) : Triple P p Q E :=
  fun s hs => (h s (hP s hs)).imp hQ hE

/-- A fact that does not depend on the state. -/
theorem given {c : Prop} {p : Prog σ ε α} (h : c → Triple P p Q E) :
    Triple (fun s => P s ∧ c) p Q E := fun s hs => h hs.2 s hs.1

theorem ofExcept {x : Except ε α} (hok : ∀ a s, x = .ok a → P s → Q a s) (hE : ∀ s, P s → E s) :
    Triple P (MonadExcept.ofExcept x : Prog σ ε α) Q E := by
  intro s hs
  cases x with
  | ok a => exact hok a s rfl hs
  | error e => exact hE s hs

theorem bailIf {c : Prop} [Decidable c] {Q : Unit → σ → Prop} (hok : ∀ s, ¬ c → P s → Q () s)
    (hE : ∀ s, c → P s → E s) : Triple P (Fallible.bailIf c e : Prog σ ε Unit) Q E := by
  unfold Fallible.bailIf
  split
  · next hc => exact throw fun s => hE s hc
  · next hc => exact pure fun s hs => hok s hc hs

theorem attempt {p : Prog σ ε α} {Q : Except ε α → σ → Prop} {E : σ → Prop}
    (h : Triple P p (fun a => Q (.ok a)) (fun s => ∀ e, Q (.error e) s)) :
    Triple P (Fallible.attempt p : Prog σ ε' (Except ε α)) Q E := by
  intro s hs
  have h := h s hs
  show Ends Q E ((match exec p s with | (x, s') => (Except.ok x, s')) : Except ε' (Except ε α) × σ)
  generalize exec p s = r at h
  obtain ⟨x, s'⟩ := r
  cases x with
  | ok a => exact h
  | error e => exact h e

/-- A loop that keeps an invariant. -/
theorem forM {f : α → Prog σ ε PUnit} {I : σ → Prop} (h : ∀ a, Triple I (f a) (fun _ => I) E)
    (l : List α) : Triple I (l.forM f) (fun _ => I) E := by
  induction l with
  | nil => exact pure fun s hs => hs
  | cons a l ih => exact (h a).bind fun _ => ih

/-- A loop that keeps an invariant, and whose results have a property. -/
theorem mapM {f : α → Prog σ ε β} {I : σ → Prop} {R : α → β → Prop}
    (h : ∀ a, Triple I (f a) (fun b s => I s ∧ R a b) E) (l : List α) :
    Triple I (l.mapM f) (fun bs s => I s ∧ List.Forall₂ R l bs) E := by
  induction l with
  | nil => exact pure fun s hs => ⟨hs, .nil⟩
  | cons a l ih =>
    rw [List.mapM_cons]
    refine (h a).bind fun b => given fun hb => ih.bind fun bs => given fun hbs => ?_
    exact pure fun s hs => ⟨hs, .cons hb hbs⟩

end Triple

/-- What holds of the state that a program leaves. -/
theorem Triple.left {p : Prog σ ε α} {P E : σ → Prop} (h : Triple P p (fun _ => E) E) (hs : P s) :
    E (exec p s).2 := (h s hs).left

end Fallible
