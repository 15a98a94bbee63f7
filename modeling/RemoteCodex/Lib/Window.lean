import Mathlib.Data.List.Infix

namespace Window
set_option autoImplicit true

/-- Drop entries from the front until the rest is acceptable. -/
def keep (ok : List α → Prop) [DecidablePred ok] : List α → List α
  | [] => []
  | a :: l => if ok (a :: l) then a :: l else keep ok l

variable (ok : List α → Prop) [DecidablePred ok]

theorem keep_suffix (l : List α) : keep ok l <:+ l := by
  induction l with
  | nil => exact List.suffix_rfl
  | cons a l ih =>
    unfold keep
    split
    · exact List.suffix_rfl
    · exact ih.trans (List.suffix_cons a l)

theorem keep_ok (h : ok []) (l : List α) : ok (keep ok l) := by
  induction l with
  | nil => exact h
  | cons a l ih =>
    unfold keep
    split
    · next hok => exact hok
    · exact ih

variable {ok}

/-- What is kept is the longest acceptable suffix. -/
theorem suffix_keep (hs : s <:+ l) (h : ok s) : s <:+ keep ok l := by
  induction l with
  | nil => exact hs
  | cons a l ih =>
    unfold keep
    split
    · exact hs
    · next hno =>
      rcases List.suffix_cons_iff.1 hs with he | hs
      · exact absurd (he ▸ h) hno
      · exact ih hs

theorem keep_eq_self (h : ok l) : keep ok l = l := by
  cases l with
  | nil => rfl
  | cons a l => exact if_pos h

/-- Keeping can be done after each new entry instead of once. -/
theorem keep_keep_append (hnil : ok []) (hlast : ∀ s e, ok (s ++ [e]) → ok s) (l : List α)
    (e : α) : keep ok (keep ok l ++ [e]) = keep ok (l ++ [e]) := by
  have hle : keep ok (keep ok l ++ [e]) <:+ keep ok (l ++ [e]) := by
    refine suffix_keep ?_ (keep_ok ok hnil _)
    obtain ⟨p, hp⟩ := keep_suffix ok l
    exact (keep_suffix ok _).trans ⟨p, by rw [← List.append_assoc, hp]⟩
  have hge : keep ok (l ++ [e]) <:+ keep ok (keep ok l ++ [e]) := by
    refine suffix_keep ?_ (keep_ok ok hnil _)
    have hok := keep_ok ok hnil (l ++ [e])
    rcases List.suffix_concat_iff.1 (keep_suffix ok (l ++ [e])) with hn | ⟨s, hs, hsl⟩
    · rw [hn]
      exact List.nil_suffix
    · rw [hs] at hok ⊢
      obtain ⟨p, hp⟩ := suffix_keep hsl (hlast s e hok)
      exact ⟨p, by rw [← List.append_assoc, hp]⟩
  exact hle.eq_of_length_le hge.length_le

end Window
