import Mathlib.Data.List.Basic

namespace Mealy
set_option autoImplicit true

/-- Feed a list of inputs to a machine, collecting the outputs of its steps in order. -/
def run (step : σ → α → σ × List β) : σ → List α → σ × List β
  | s, [] => (s, [])
  | s, a :: l =>
    let p := step s a
    let q := run step p.1 l
    (q.1, p.2 ++ q.2)

variable (step : σ → α → σ × List β)

@[simp] theorem run_nil (s : σ) : run step s [] = (s, []) := rfl

@[simp] theorem run_cons (s : σ) (a : α) (l : List α) :
    run step s (a :: l) =
      ((run step (step s a).1 l).1, (step s a).2 ++ (run step (step s a).1 l).2) := rfl

theorem run_append (s : σ) (l m : List α) :
    run step s (l ++ m) =
      ((run step (run step s l).1 m).1, (run step s l).2 ++ (run step (run step s l).1 m).2) := by
  induction l generalizing s with
  | nil => rfl
  | cons a l ih => simp only [List.cons_append, run_cons, ih, List.append_assoc]

/-- Feed a list of chunks, one run after another. -/
def runChunks (s : σ) : List (List α) → σ × List β
  | [] => (s, [])
  | c :: cs =>
    let p := run step s c
    let q := runChunks p.1 cs
    (q.1, p.2 ++ q.2)

/-- The result does not depend on how the input is cut into chunks. -/
theorem runChunks_eq (s : σ) (cs : List (List α)) :
    runChunks step s cs = run step s cs.flatten := by
  induction cs generalizing s with
  | nil => rfl
  | cons c cs ih => simp only [runChunks, List.flatten_cons, run_append, ih]

/-- Steps admitted by a condition on the state and the input. -/
def Admits (ok : σ → α → Prop) : σ → List α → Prop
  | _, [] => True
  | s, a :: l => ok s a ∧ Admits ok (step s a).1 l

end Mealy
