import Mathlib.Data.List.Basic
import Mathlib.Tactic.Ring

namespace Numbered
set_option autoImplicit true

/-- Each entry of a list satisfies a predicate of its position, counted from after `n`. -/
def Indexed (P : Nat → α → Prop) : Nat → List α → Prop
  | _, [] => True
  | n, a :: l => P (n + 1) a ∧ Indexed P (n + 1) l

variable {P : Nat → α → Prop} {num : α → Nat}

@[simp] theorem indexed_nil (n : Nat) : Indexed P n [] := trivial

@[simp] theorem indexed_cons (n : Nat) (a : α) (l : List α) :
    Indexed P n (a :: l) ↔ P (n + 1) a ∧ Indexed P (n + 1) l := Iff.rfl

theorem indexed_append (n : Nat) (l m : List α) :
    Indexed P n (l ++ m) ↔ Indexed P n l ∧ Indexed P (n + l.length) m := by
  induction l generalizing n with
  | nil => simp only [List.nil_append, indexed_nil, List.length_nil, Nat.add_zero, true_and]
  | cons a l ih =>
    have hn : n + 1 + l.length = n + (l.length + 1) := by omega
    simp only [List.cons_append, indexed_cons, ih, List.length_cons, hn, and_assoc]

theorem indexed_succ (n : Nat) (l : List α) :
    Indexed P (n + 1) l ↔ Indexed (fun i a => P (i + 1) a) n l := by
  induction l generalizing n with
  | nil => exact Iff.rfl
  | cons a l ih => simp only [indexed_cons, ih]

/-- The entries of a list carry the numbers following `n`, without gap. -/
def From (num : α → Nat) (n : Nat) (l : List α) : Prop := Indexed (fun i a => num a = i) n l

@[simp] theorem from_nil (n : Nat) : From num n [] := trivial

@[simp] theorem from_cons (n : Nat) (a : α) (l : List α) :
    From num n (a :: l) ↔ num a = n + 1 ∧ From num (n + 1) l := Iff.rfl

theorem from_append (n : Nat) (l m : List α) :
    From num n (l ++ m) ↔ From num n l ∧ From num (n + l.length) m :=
  indexed_append n l m

theorem From.mem (h : From num n l) (ha : a ∈ l) : n < num a ∧ num a ≤ n + l.length := by
  induction l generalizing n with
  | nil => cases ha
  | cons b l ih =>
    rcases List.mem_cons.1 ha with he | ha
    · subst he
      have hn := h.1
      simp only [List.length_cons]
      omega
    · have hb := ih h.2 ha
      simp only [List.length_cons]
      omega

/-- An entry stands where its number says. -/
theorem From.prefix_drop (h : From num n l) (ha : a ∈ l) : [a] <+: l.drop (num a - (n + 1)) := by
  induction l generalizing n with
  | nil => cases ha
  | cons b l ih =>
    rcases List.mem_cons.1 ha with he | ha
    · subst he
      rw [h.1, Nat.sub_self, List.drop_zero]
      exact List.prefix_append [a] l
    · have htail : From num (n + 1) l := h.2
      have hm := htail.mem ha
      have hnum : num a - (n + 1) = num a - (n + 1 + 1) + 1 := by omega
      rw [hnum, List.drop_succ_cons]
      exact ih h.2 ha

theorem From.suffix (h : From num n l) (hs : m <:+ l) :
    From num (n + (l.length - m.length)) m := by
  obtain ⟨p, rfl⟩ := hs
  have hp := ((from_append n p m).1 h).2
  simpa only [List.length_append, Nat.add_sub_cancel] using hp

/-- Keeping what is numbered above `k` drops the entries up to `k`. -/
theorem From.filter_gt (h : From num n l) (hk : n ≤ k) :
    l.filter (fun a => decide (k < num a)) = l.drop (k - n) := by
  induction l generalizing n with
  | nil => simp only [List.filter_nil, List.drop_nil]
  | cons a l ih =>
    have ha := h.1
    by_cases hlt : k < num a
    · have hkn : k - n = 0 := by omega
      have hall : (a :: l).filter (fun b => decide (k < num b)) = a :: l := by
        apply List.filter_eq_self.2
        intro b hb
        have hm := h.mem hb
        simp only [decide_eq_true_eq]
        omega
      rw [hall, hkn, List.drop_zero]
    · have hkn : k - n = (k - (n + 1)) + 1 := by omega
      rw [List.filter_cons_of_neg (by simpa using hlt), hkn, List.drop_succ_cons,
        ih h.2 (by omega)]

/-- Entries above a number inside the range are the same in a list and in a suffix of it
that still reaches down to that number. -/
theorem From.filter_gt_suffix (h : From num n l) (hs : m <:+ l)
    (hk : n + (l.length - m.length) ≤ k) :
    m.filter (fun a => decide (k < num a)) = l.filter (fun a => decide (k < num a)) := by
  obtain ⟨p, rfl⟩ := hs
  have hp : p.filter (fun a => decide (k < num a)) = [] := by
    apply List.filter_eq_nil_iff.2
    intro a ha
    have hm := ((from_append n p m).1 h).1.mem ha
    simp only [List.length_append, Nat.add_sub_cancel] at hk
    simp only [decide_eq_true_eq]
    omega
  rw [List.filter_append, hp, List.nil_append]

end Numbered
