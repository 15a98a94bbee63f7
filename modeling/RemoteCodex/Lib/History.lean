import Mathlib.Data.List.Basic

namespace History
set_option autoImplicit true

/-- Some event of the history is marked, and all events after it are good. The mark may speak of
the history before the event. -/
def Since (good : ε → Prop) (mark : List ε → ε → Prop) (es : List ε) : Prop :=
  ∃ before e after, es = before ++ e :: after ∧ mark before e ∧ ∀ x ∈ after, good x

variable {good : ε → Prop} {mark : List ε → ε → Prop}

theorem Since.now (h : mark es e) : Since good mark (es ++ [e]) :=
  ⟨es, e, [], rfl, h, fun _ hx => (List.not_mem_nil hx).elim⟩

theorem Since.append (h : Since good mark es) (hg : ∀ x ∈ fs, good x) :
    Since good mark (es ++ fs) := by
  obtain ⟨before, e, after, rfl, hm, ha⟩ := h
  refine ⟨before, e, after ++ fs, by rw [List.append_assoc, List.cons_append], hm, ?_⟩
  intro x hx
  rcases List.mem_append.1 hx with hx | hx
  · exact ha x hx
  · exact hg x hx

/-- The last event is the marked one, or it is good. -/
theorem Since.snoc_iff :
    Since good mark (es ++ [e]) ↔ mark es e ∨ (Since good mark es ∧ good e) := by
  constructor
  · rintro ⟨before, x, after, he, hm, ha⟩
    rcases List.eq_nil_or_concat after with rfl | ⟨after, y, rfl⟩
    · obtain ⟨rfl, hx⟩ := List.append_inj' he rfl
      cases hx
      exact .inl hm
    · rw [List.concat_eq_append] at he ha
      rw [← List.cons_append, ← List.append_assoc] at he
      obtain ⟨rfl, hx⟩ := List.append_inj' he rfl
      cases hx
      refine .inr ⟨⟨before, x, after, rfl, hm, fun z hz => ?_⟩, ?_⟩
      · exact ha z (List.mem_append_left _ hz)
      · exact ha e (List.mem_append_right _ (List.mem_singleton_self _))
  · rintro (hm | ⟨h, hg⟩)
    · exact .now hm
    · exact h.append fun x hx => List.mem_singleton.1 hx ▸ hg

/-- Every event fits the history before it. -/
def Each (fits : List ε → ε → Prop) (es : List ε) : Prop :=
  ∀ before e after, es = before ++ e :: after → fits before e

theorem Each.nil (fits : List ε → ε → Prop) : Each fits [] := by
  intro before e after he
  cases before <;> cases he

theorem Each.append {fits : List ε → ε → Prop} (h : Each fits es)
    (hfs : ∀ before e after, fs = before ++ e :: after → fits (es ++ before) e) :
    Each fits (es ++ fs) := by
  intro before x after hx
  rcases List.append_eq_append_iff.1 hx with ⟨mid, rfl, hmid⟩ | ⟨mid, rfl, hmid⟩
  · exact hfs mid x after hmid
  · cases mid with
    | nil =>
      have hnow := hfs [] x after hmid.symm
      rw [List.append_nil, List.append_nil] at hnow
      exact hnow
    | cons y mid =>
      cases hmid
      exact h before x mid rfl

theorem Each.snoc {fits : List ε → ε → Prop} (h : Each fits l) (he : fits l e) :
    Each fits (l ++ [e]) := by
  apply h.append
  intro before x after hx
  cases before with
  | nil =>
    cases hx
    rw [List.append_nil]
    exact he
  | cons y before =>
    have hnil := (List.append_eq_nil_iff.1 (List.cons.inj hx).2.symm).2
    cases hnil

theorem Each.left {fits : List ε → ε → Prop} (h : Each fits (es ++ fs)) : Each fits es := by
  intro before e after he
  exact h before e (after ++ fs) (by rw [he, List.append_assoc, List.cons_append])

theorem Each.mem {fits : List ε → ε → Prop} (h : Each fits es) (he : e ∈ es) :
    ∃ before after, es = before ++ e :: after ∧ fits before e := by
  obtain ⟨before, after, hes⟩ := List.append_of_mem he
  exact ⟨before, after, hes, h before e after hes⟩

/-- A marked event, after which all of `facts` happened. -/
def Then (mark : List ε → ε → Prop) (facts : List ε) (es : List ε) : Prop :=
  ∃ before e after, es = before ++ e :: after ∧ mark before e ∧ facts ⊆ after

theorem Then.now (h : mark es e) : Then mark [] (es ++ [e]) :=
  ⟨es, e, [], rfl, h, List.nil_subset _⟩

theorem Then.append (h : Then mark facts es) : Then mark (facts ++ fs) (es ++ fs) := by
  obtain ⟨before, e, after, rfl, hm, hs⟩ := h
  refine ⟨before, e, after ++ fs, by rw [List.append_assoc, List.cons_append], hm, ?_⟩
  exact List.append_subset.2 ⟨List.Subset.trans hs (List.subset_append_left ..),
    List.subset_append_right ..⟩

theorem Then.later (h : Then mark facts es) : Then mark facts (es ++ fs) := by
  have happ : Then mark (facts ++ fs) (es ++ fs) := h.append
  obtain ⟨before, e, after, he, hm, hs⟩ := happ
  exact ⟨before, e, after, he, hm, (List.append_subset.1 hs).1⟩

theorem Then.marked (h : Then mark facts es) : ∃ before e after, es = before ++ e :: after ∧
    mark before e := by
  obtain ⟨before, e, after, he, hm, -⟩ := h
  exact ⟨before, e, after, he, hm⟩

/-- What does not happen in the rest of a history has happened before. -/
theorem Then.before (h : Then mark (f :: facts) (es ++ fs)) (hq : ∀ x ∈ fs, x ∉ f :: facts) :
    Then mark (f :: facts) es := by
  obtain ⟨before, e, after, he, hm, hs⟩ := h
  have hf : f ∈ after := hs (List.mem_cons_self ..)
  have hnot : f ∉ fs := fun hmem => hq f hmem (List.mem_cons_self ..)
  rcases List.append_eq_append_iff.1 he with ⟨mid, rfl, hmid⟩ | ⟨mid, rfl, hmid⟩
  · rw [hmid] at hnot
    exact absurd (List.mem_append_right _ (List.mem_cons_of_mem _ hf)) hnot
  · cases mid with
    | nil =>
      rw [List.nil_append] at hmid
      rw [← hmid] at hnot
      exact absurd (List.mem_cons_of_mem _ hf) hnot
    | cons y mid =>
      cases hmid
      refine ⟨before, e, mid, rfl, hm, fun x hx => ?_⟩
      rcases List.mem_append.1 (hs hx) with hx' | hx'
      · exact hx'
      · exact absurd hx (hq x hx')

/-- After an event that happened, another one happened too or it did not. -/
theorem since_or_then (x y : ε) (h : x ∈ es) :
    Since (fun e => e ≠ y) (fun _ e => e = x) es ∨ Then (fun _ e => e = x) [y] es := by
  obtain ⟨before, after, rfl⟩ := List.append_of_mem h
  by_cases hy : y ∈ after
  · exact .inr ⟨before, x, after, rfl, rfl, List.cons_subset.2 ⟨hy, List.nil_subset _⟩⟩
  · exact .inl ⟨before, x, after, rfl, rfl, fun e he hey => hy (hey ▸ he)⟩

end History
