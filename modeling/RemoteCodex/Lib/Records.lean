import Mathlib.Data.List.Basic

namespace Records
set_option autoImplicit true

/-- Takes the record at an offset: what it is, and the offset behind it. -/
structure Reader (ε α : Type) where
  next : Nat → Except ε (α × Nat)
  advances : ∀ {pos a stop}, next pos = .ok (a, stop) → pos < stop

/-- The records from an offset up to the end. -/
def Reader.readAll (r : Reader ε α) (len pos : Nat) : Except ε (List α) :=
  if pos < len then
    match h : r.next pos with
    | .error e => .error e
    | .ok (a, stop) =>
      have : pos < stop := r.advances h
      (r.readAll len stop).map (a :: ·)
  else .ok []
termination_by len - pos

/-- One record after the other, up to the end. -/
inductive Reads (next : Nat → Except ε (α × Nat)) (len : Nat) : Nat → List α → Prop where
  | done (h : len ≤ pos) : Reads next len pos []
  | item (h : pos < len) (hn : next pos = .ok (a, stop)) (hr : Reads next len stop l) :
      Reads next len pos (a :: l)

/-- Both succeed with related results, or both fail. -/
inductive Alike (R : α → β → Prop) : Except ε α → Except δ β → Prop where
  | ok (h : R a b) : Alike R (.ok a) (.ok b)
  | error (e : ε) (d : δ) : Alike R (.error e) (.error d)

variable {ε α : Type} {r : Reader ε α} {len pos stop : Nat} {a : α} {l : List α}

theorem readAll_done (h : len ≤ pos) : r.readAll len pos = .ok [] := by
  rw [Reader.readAll, if_neg (Nat.not_lt.2 h)]

theorem readAll_item (h : pos < len) (hn : r.next pos = .ok (a, stop)) :
    r.readAll len pos = (r.readAll len stop).map (a :: ·) := by
  rw [Reader.readAll, if_pos h]
  split
  · next he => rw [hn] at he; cases he
  · next he => rw [hn] at he; cases he; rfl

theorem readAll_error {e : ε} (h : pos < len) (hn : r.next pos = .error e) :
    r.readAll len pos = .error e := by
  rw [Reader.readAll, if_pos h]
  split
  · next he => rw [hn] at he; cases he; rfl
  · next he => rw [hn] at he; cases he

/-- The loop succeeds with the records it reads. -/
theorem readAll_eq_ok : r.readAll len pos = .ok l ↔ Reads r.next len pos l := by
  constructor
  · intro h
    induction pos using Reader.readAll.induct r len generalizing l with
    | case1 pos hlt e hn =>
      rw [readAll_error hlt hn] at h
      cases h
    | case2 pos hlt a stop hn _ ih =>
      rw [readAll_item hlt hn] at h
      cases hrest : r.readAll len stop with
      | error e =>
        rw [hrest] at h
        cases h
      | ok l' =>
        rw [hrest] at h
        cases h
        exact .item hlt hn (ih hrest)
    | case3 pos hge =>
      rw [readAll_done (Nat.not_lt.1 hge)] at h
      cases h
      exact .done (Nat.not_lt.1 hge)
  · intro h
    induction h with
    | done h => exact readAll_done h
    | item h hn _ ih => rw [readAll_item h hn, ih]; rfl

variable {δ β : Type} {q : Reader δ β} {R : α → β → Prop}

theorem Alike.imp {S : α → β → Prop} {x : Except ε α} {y : Except δ β} (h : Alike R x y)
    (hi : ∀ a b, R a b → S a b) : Alike S x y := by
  cases h with
  | ok h => exact .ok (hi _ _ h)
  | error e d => exact .error e d

theorem Alike.cons {x : Except ε (List α)} {y : Except δ (List β)} {b : β}
    (h : Alike (List.Forall₂ R) x y) (hab : R a b) :
    Alike (List.Forall₂ R) (x.map (a :: ·)) (y.map (b :: ·)) := by
  cases h with
  | ok hl => exact .ok (.cons hab hl)
  | error e d => exact .error e d

/-- Two readers that agree on each record agree on all of them. -/
theorem readAll_alike
    (h : ∀ pos, pos < len →
      Alike (fun x y => R x.1 y.1 ∧ x.2 = y.2) (r.next pos) (q.next pos)) :
    Alike (List.Forall₂ R) (r.readAll len pos) (q.readAll len pos) := by
  induction pos using Reader.readAll.induct r len with
  | case1 pos hlt e hn =>
    rw [readAll_error hlt hn]
    have hpos := h pos hlt
    rw [hn] at hpos
    cases hq : q.next pos with
    | error d =>
      rw [readAll_error hlt hq]
      exact .error ..
    | ok y =>
      rw [hq] at hpos
      cases hpos
  | case2 pos hlt a stop hn _ ih =>
    rw [readAll_item hlt hn]
    have hpos := h pos hlt
    rw [hn] at hpos
    cases hq : q.next pos with
    | error d =>
      rw [hq] at hpos
      cases hpos
    | ok y =>
      obtain ⟨b, stop'⟩ := y
      rw [hq] at hpos
      obtain ⟨hab, hstop⟩ : R a b ∧ stop = stop' := by
        cases hpos with
        | ok h => exact h
      subst hstop
      rw [readAll_item hlt hq]
      exact ih.cons hab
  | case3 pos hge =>
    rw [readAll_done (Nat.not_lt.1 hge), readAll_done (Nat.not_lt.1 hge)]
    exact .ok .nil

end Records
