import Mathlib.Data.List.Infix

namespace Marker
set_option autoImplicit true

variable (m : α) (tails : List (List α))

/-- A marker followed by one of the tails occurs somewhere in a list. -/
def Occurs (l : List α) : Prop := ∃ p ∈ tails, m :: p <:+: l

instance [DecidableEq α] (l : List α) : Decidable (Occurs m tails l) :=
  inferInstanceAs (Decidable (∃ p ∈ tails, m :: p <:+: l))

/-- Neither list is a prefix of the other. -/
def Apart (t p : List α) : Prop := ¬ p <+: t ∧ ¬ t <+: p

/-- No marker of the list is followed by one of the tails, whatever is appended. -/
def Sealed (l : List α) : Prop := ∀ a t, l = a ++ m :: t → ∀ p ∈ tails, Apart t p

variable {m tails}

theorem Apart.append (h : Apart t p) (u : List α) : Apart (t ++ u) p := by
  constructor
  · intro hp
    rcases List.prefix_or_prefix_of_prefix hp (List.prefix_append t u) with hpt | htp
    · exact h.1 hpt
    · exact h.2 htp
  · intro htp
    exact h.2 ((List.prefix_append t u).trans htp)

/-- Lists with different heads are apart. -/
theorem Apart.of_head {a b : α} (h : a ≠ b) : Apart (a :: t) (b :: p) := by
  constructor
  · intro hp
    exact h (List.cons_prefix_cons.1 hp).1.symm
  · intro hp
    exact h (List.cons_prefix_cons.1 hp).1

theorem Occurs.mono (h : Occurs m tails l) (hl : l <:+: l') : Occurs m tails l' := by
  obtain ⟨p, hp, hpl⟩ := h
  exact ⟨p, hp, hpl.trans hl⟩

theorem Occurs.marker_mem (h : Occurs m tails l) : m ∈ l := by
  obtain ⟨p, _, hpl⟩ := h
  exact hpl.subset (List.mem_cons_self ..)

theorem sealed_of_not_mem (h : m ∉ l) : Sealed m tails l := by
  intro a t hl
  exact absurd (hl ▸ List.mem_append_right a (List.mem_cons_self ..)) h

theorem sealed_cons (h : Sealed m tails l) (ha : ∀ p ∈ tails, Apart l p) :
    Sealed m tails (m :: l) := by
  intro a t hl
  cases a with
  | nil =>
    simp only [List.nil_append, List.cons.injEq, true_and] at hl
    subst hl
    exact ha
  | cons b a =>
    simp only [List.cons_append, List.cons.injEq] at hl
    exact h a t hl.2

theorem Sealed.append (h : Sealed m tails l) (h' : Sealed m tails l') :
    Sealed m tails (l ++ l') := by
  intro a t hl p hp
  rcases List.append_eq_append_iff.1 hl with ⟨c, ha, hl'⟩ | ⟨c, hlc, ht⟩
  · exact h' c t hl' p hp
  · cases c with
    | nil => exact h' [] t ht.symm p hp
    | cons b c =>
      simp only [List.cons_append, List.cons.injEq] at ht
      rw [ht.2]
      exact (h a c (by rw [hlc, ht.1]) p hp).append l'

theorem Sealed.not_occurs (h : Sealed m tails l) : ¬ Occurs m tails l := by
  rintro ⟨p, hp, a, c, hl⟩
  have hap := h a (p ++ c) (by rw [← hl, List.append_assoc, List.cons_append]) p hp
  exact hap.1 (List.prefix_append p c)

/-- An element that no tail has ends every occurrence. -/
theorem not_occurs_snoc (h : ¬ Occurs m tails l) (hm : c ≠ m) (hc : ∀ p ∈ tails, c ∉ p) :
    ¬ Occurs m tails (l ++ [c]) := by
  rintro ⟨p, hp, hpl⟩
  rcases List.infix_concat_iff.1 hpl with hs | hi
  · rcases List.suffix_concat_iff.1 hs with hnil | ⟨t, ht, _⟩
    · cases hnil
    · have hmem : c ∈ m :: p := ht ▸ List.mem_append_right t (List.mem_singleton_self c)
      rcases List.mem_cons.1 hmem with he | hcp
      · exact hm he
      · exact hc p hp hcp
  · exact h ⟨p, hp, hi⟩

theorem sealed_snoc (h : ¬ Occurs m tails l) (hm : c ≠ m) (hc : ∀ p ∈ tails, c ∉ p) :
    Sealed m tails (l ++ [c]) := by
  intro a t hl p hp
  have hct : c ∈ t := by
    rcases List.eq_nil_or_concat t with ht | ⟨t', d, ht⟩
    · rw [ht] at hl
      exact absurd (List.append_inj' hl rfl).2 (by simpa using hm)
    · rw [ht, List.concat_eq_append] at hl ⊢
      rw [← List.cons_append, ← List.append_assoc] at hl
      have hd := (List.append_inj' hl rfl).2
      rw [← hd]
      exact List.mem_append_right t' (List.mem_singleton_self c)
  constructor
  · intro hpt
    refine not_occurs_snoc h hm hc ⟨p, hp, ?_⟩
    rw [hl]
    exact ((List.cons_prefix_cons.2 ⟨rfl, hpt⟩).isInfix).trans (List.suffix_append a _).isInfix
  · intro htp
    exact hc p hp (htp.subset hct)

/-- An occurrence that needs the last element ends in the last element of a tail. -/
theorem Occurs.last (h : Occurs m tails (l ++ [c])) (hn : ¬ Occurs m tails l)
    (hnil : [] ∉ tails) : ∃ p ∈ tails, p.getLast? = some c := by
  obtain ⟨p, hp, hpl⟩ := h
  rcases List.infix_concat_iff.1 hpl with hs | hi
  · rcases List.suffix_concat_iff.1 hs with he | ⟨t, ht, _⟩
    · cases he
    · refine ⟨p, hp, ?_⟩
      have hlast := congrArg List.getLast? ht
      rw [List.getLast?_concat, List.getLast?_cons_of_ne_nil] at hlast
      · exact hlast
      · rintro rfl
        exact hnil hp
  · exact absurd ⟨p, hp, hi⟩ hn

end Marker
