import Mathlib.Init

/-! Programs that may fail or crash at every action, and triples for them. -/

namespace Crash
set_option autoImplicit true

inductive Report where
  | ok
  | unsuccessful
  | error (text : String)
  | crash
  deriving DecidableEq

/-- What happens at a point of a program: whether the action there took place, and what the program
sees of it. -/
structure Outcome where
  took : Bool
  report : Report
  deriving DecidableEq

def Outcome.fine : Outcome := ⟨true, .ok⟩

/-- An action that cannot succeed without taking place. -/
def Outcome.wrote (o : Outcome) : Bool := o.took || o.report == .ok

namespace Outcome

theorem wrote_of_ok {o : Outcome} (h : o.report = .ok) : o.wrote = true := by
  rw [wrote, h]
  exact Bool.or_true _

theorem wrote_of_took {o : Outcome} (h : o.took = true) : o.wrote = true := by
  rw [wrote, h, Bool.true_or]

theorem wrote_eq_false {o : Outcome} (ht : o.took = false) (hr : o.report ≠ .ok) :
    o.wrote = false := by
  rw [wrote, ht, Bool.false_or]
  exact beq_eq_false_iff_ne.2 hr

end Outcome

inductive Ending (α : Type) where
  | ok (a : α)
  | error (text : String)
  | crashed

/-- A program over states `σ` with points `π`, at each of which something may happen to it. -/
def Proc (π σ α : Type) := (π → Outcome) → σ → Ending α × σ

namespace Proc

protected def pure (a : α) : Proc π σ α := fun _ s => (.ok a, s)

protected def bind (p : Proc π σ α) (k : α → Proc π σ β) : Proc π σ β := fun f s =>
  match p f s with
  | (.ok a, s) => k a f s
  | (.error text, s) => (.error text, s)
  | (.crashed, s) => (.crashed, s)

instance : Monad (Proc π σ) where
  pure := Proc.pure
  bind := Proc.bind

def fail (text : String) : Proc π σ α := fun _ s => (.error text, s)

def ofExcept : Except String α → Proc π σ α
  | .ok a => pure a
  | .error text => fail text

/-- A change of the state. -/
def act (p : π) (g : σ → σ) : Proc π σ Unit := fun f s =>
  match (f p).report with
  | .ok => (.ok (), g s)
  | .unsuccessful => (.error "", if (f p).took then g s else s)
  | .error text => (.error text, if (f p).took then g s else s)
  | .crash => (.crashed, if (f p).took then g s else s)

/-- What the state shows. -/
def read (p : π) (g : σ → Except String α) : Proc π σ α := fun f s =>
  match (f p).report with
  | .ok => ofExcept (g s) f s
  | .unsuccessful => (.error "", s)
  | .error text => (.error text, s)
  | .crash => (.crashed, s)

/-- A command, which tells whether it was successful. -/
def command (p : π) (g : σ → σ) : Proc π σ (Except String Bool) := fun f s =>
  match (f p).report with
  | .ok => (.ok (.ok true), if (f p).took then g s else s)
  | .unsuccessful => (.ok (.ok false), if (f p).took then g s else s)
  | .error text => (.ok (.error text), if (f p).took then g s else s)
  | .crash => (.crashed, if (f p).took then g s else s)

def get : Proc π σ σ := fun _ s => (.ok s, s)

/-- The drop of a guard, which a crash leaves out. -/
def ensure (p : Proc π σ α) (g : σ → σ) : Proc π σ α := fun f s =>
  match p f s with
  | (.ok a, s) => (.ok a, g s)
  | (.error text, s) => (.error text, g s)
  | (.crashed, s) => (.crashed, s)

end Proc

/-- The program ended in `Q`, or it stopped early, by an error or a crash, in `C`. -/
def Ends (Q : α → σ → Prop) (C : σ → Prop) : Ending α × σ → Prop
  | (.ok a, s) => Q a s
  | (.error _, s) => C s
  | (.crashed, s) => C s

def Triple (f : π → Outcome) (P : σ → Prop) (p : Proc π σ α) (Q : α → σ → Prop) (C : σ → Prop) :
    Prop :=
  ∀ s, P s → Ends Q C (p f s)

theorem Ends.imp {Q Q' : α → σ → Prop} {C C' : σ → Prop} {r : Ending α × σ} (h : Ends Q C r)
    (hQ : ∀ a s, Q a s → Q' a s) (hC : ∀ s, C s → C' s) : Ends Q' C' r := by
  obtain ⟨e, s⟩ := r
  cases e with
  | ok a => exact hQ a s h
  | error text => exact hC s h
  | crashed => exact hC s h

/-- The state that is left, however the program ended. -/
theorem Ends.left {C : σ → Prop} {r : Ending α × σ} (h : Ends (fun _ => C) C r) : C r.2 := by
  obtain ⟨e, s⟩ := r
  cases e with
  | ok a => exact h
  | error text => exact h
  | crashed => exact h

namespace Triple

variable {f : π → Outcome} {P : σ → Prop} {Q : α → σ → Prop} {C : σ → Prop}

theorem pure (h : ∀ s, P s → Q a s) : Triple f P (Pure.pure a) Q C := h

theorem fail (h : ∀ s, P s → C s) : Triple f P (Proc.fail text) Q C := h

theorem bind {p : Proc π σ α} {k : α → Proc π σ β} {R : β → σ → Prop} (hp : Triple f P p Q C)
    (hk : ∀ a, Triple f (Q a) (k a) R C) : Triple f P (p >>= k) R C := by
  intro s hs
  have h := hp s hs
  show Ends R C (Proc.bind p k f s)
  unfold Proc.bind
  generalize p f s = r at h
  obtain ⟨e, s'⟩ := r
  cases e with
  | ok a => exact hk a s' h
  | error text => exact h
  | crashed => exact h

theorem conseq {p : Proc π σ α} {P' : σ → Prop} {Q' : α → σ → Prop} {C' : σ → Prop}
    (h : Triple f P' p Q' C') (hP : ∀ s, P s → P' s) (hQ : ∀ a s, Q' a s → Q a s)
    (hC : ∀ s, C' s → C s) : Triple f P p Q C :=
  fun s hs => (h s (hP s hs)).imp hQ hC

/-- A fact that does not depend on the state. -/
theorem given {c : Prop} {p : Proc π σ α} (h : c → Triple f P p Q C) :
    Triple f (fun s => P s ∧ c) p Q C := fun s hs => h hs.2 s hs.1

/-- The rest of a program, which knows what the first part has found out. -/
theorem learn {p : Proc π σ α} {k : α → Proc π σ β} {S : σ → Prop} {c : α → Prop}
    {R : β → σ → Prop} (hp : Triple f P p (fun a s => S s ∧ c a) C)
    (hk : ∀ a, c a → Triple f S (k a) R C) : Triple f P (p >>= k) R C :=
  hp.bind fun a => given (hk a)

theorem get {Q : σ → σ → Prop} (h : ∀ s, P s → Q s s) : Triple f P Proc.get Q C := h

theorem ensure {p : Proc π σ α} {R : α → σ → Prop} {D : σ → Prop} (h : Triple f P p R D)
    (hQ : ∀ a s, R a s → Q a (g s)) (hC : ∀ s, D s → C s ∧ C (g s)) :
    Triple f P (p.ensure g) Q C := by
  intro s hs
  have h := h s hs
  unfold Proc.ensure
  generalize p f s = r at h
  obtain ⟨e, s'⟩ := r
  cases e with
  | ok a => exact hQ a s' h
  | error text => exact (hC s' h).2
  | crashed => exact (hC s' h).1

theorem ofExcept {r : Except String α} (hok : ∀ a s, r = .ok a → P s → Q a s)
    (hC : ∀ s, P s → C s) : Triple f P (Proc.ofExcept r) Q C := by
  intro s hs
  cases r with
  | ok a => exact hok a s rfl hs
  | error text => exact hC s hs

theorem act {Q : Unit → σ → Prop} {p : π} {g : σ → σ}
    (hok : ∀ s, P s → (f p).report = .ok → Q () (g s))
    (hC : ∀ s, P s → (f p).report ≠ .ok → C (if (f p).took then g s else s)) :
    Triple f P (Proc.act p g) Q C := by
  intro s hs
  cases hr : (f p).report with
  | ok =>
    simp only [Proc.act, hr]
    exact hok s hs hr
  | unsuccessful | error | crash =>
    simp only [Proc.act, hr]
    exact hC s hs (by rw [hr]; exact Report.noConfusion)

/-- A change where nothing happens to the program. -/
theorem acts {Q : Unit → σ → Prop} {p : π} {g : σ → σ} (hf : (f p).report = .ok)
    (h : ∀ s, P s → Q () (g s)) : Triple f P (Proc.act p g) Q C :=
  act (fun s hs _ => h s hs) fun _ _ hr => absurd hf hr

/-- A change that may fail before and after it took place. -/
theorem update {Q : σ → Prop} {p : π} {g : σ → σ} (h : ∀ s, P s → Q (g s))
    (hP : ∀ s, P s → C s) (hQ : ∀ s, Q s → C s) : Triple f P (Proc.act p g) (fun _ => Q) C := by
  apply act
  · exact fun s hs _ => h s hs
  · intro s hs _
    split
    · exact hQ _ (h s hs)
    · exact hP s hs

theorem read {p : π} {g : σ → Except String α} (hok : ∀ a s, P s → g s = .ok a → Q a s)
    (hC : ∀ s, P s → C s) : Triple f P (Proc.read p g) Q C := by
  intro s hs
  cases hr : (f p).report with
  | ok =>
    simp only [Proc.read, hr]
    cases hg : g s with
    | ok a => exact hok a s hs hg
    | error text => exact hC s hs
  | unsuccessful | error | crash =>
    simp only [Proc.read, hr]
    exact hC s hs

theorem reads {p : π} {g : σ → Except String α} (hf : (f p).report = .ok)
    (h : ∀ s, P s → ∃ a, g s = .ok a ∧ Q a s) : Triple f P (Proc.read p g) Q C := by
  intro s hs
  obtain ⟨a, hg, hq⟩ := h s hs
  simp only [Proc.read, hf, hg]
  exact hq

theorem command {Q : Except String Bool → σ → Prop} {p : π} {g : σ → σ}
    (hok : ∀ s, P s → (f p).report = .ok → Q (.ok true) (if (f p).took then g s else s))
    (hno : ∀ s, P s → (f p).report = .unsuccessful →
      Q (.ok false) (if (f p).took then g s else s))
    (herr : ∀ text s, P s → (f p).report = .error text →
      Q (.error text) (if (f p).took then g s else s))
    (hC : ∀ s, P s → (f p).report = .crash → C (if (f p).took then g s else s)) :
    Triple f P (Proc.command p g) Q C := by
  intro s hs
  cases hr : (f p).report with
  | ok =>
    simp only [Proc.command, hr]
    exact hok s hs hr
  | unsuccessful =>
    simp only [Proc.command, hr]
    exact hno s hs hr
  | error text =>
    simp only [Proc.command, hr]
    exact herr text s hs hr
  | crash =>
    simp only [Proc.command, hr]
    exact hC s hs hr

end Triple

end Crash
