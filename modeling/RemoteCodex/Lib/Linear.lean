import Mathlib.Data.List.Basic

/-! The order in which concurrent calls took effect, against the order of the calls and their
returns in a history. -/

namespace Linear
set_option autoImplicit true

section
variable {ε κ : Type} (called returned : κ → ε → Prop)

/-- The call `c` returned before the call `d` was made. -/
def Precedes (es : List ε) (c d : κ) : Prop :=
  ∃ before after, es = before ++ after ∧ (∃ e ∈ before, returned c e) ∧ ∃ e ∈ after, called d e

/-- No call stands in the order after one that was made when it had already returned. -/
def Respects (es : List ε) (order : List κ) : Prop :=
  order.Pairwise fun c d => ¬ Precedes called returned es d c

variable {called returned}

theorem Precedes.returned_mem (h : Precedes called returned es c d) : ∃ e ∈ es, returned c e := by
  obtain ⟨before, after, rfl, ⟨e, he, hr⟩, _⟩ := h
  exact ⟨e, List.mem_append_left _ he, hr⟩

/-- A history in which the second call is not made again orders nothing new before it. -/
theorem Precedes.of_append (h : Precedes called returned (es ++ fs) c d)
    (hd : ∀ e ∈ fs, ¬ called d e) : Precedes called returned es c d := by
  obtain ⟨before, after, he, hc, e, hm, hcall⟩ := h
  rcases List.append_eq_append_iff.1 he with ⟨mid, rfl, rfl⟩ | ⟨mid, rfl, rfl⟩
  · exact absurd hcall (hd e (List.mem_append_right _ hm))
  · rcases List.mem_append.1 hm with hm | hm
    · exact ⟨before, mid, rfl, hc, e, hm, hcall⟩
    · exact absurd hcall (hd e hm)

theorem Respects.append (h : Respects called returned es order)
    (hc : ∀ c ∈ order, ∀ e ∈ fs, ¬ called c e) : Respects called returned (es ++ fs) order := by
  apply List.Pairwise.imp_of_mem _ h
  intro c d hm _ hnot hp
  exact hnot (hp.of_append (hc c hm))

/-- A call that has not returned may take effect after all others. -/
theorem Respects.snoc (h : Respects called returned es order) (hr : ∀ e ∈ es, ¬ returned c e) :
    Respects called returned es (order ++ [c]) := by
  apply List.pairwise_append.2
  refine ⟨h, List.pairwise_singleton _ _, ?_⟩
  intro d _ c' hc' hp
  rw [List.mem_singleton.1 hc'] at hp
  obtain ⟨e, he, hret⟩ := hp.returned_mem
  exact hr e he hret

end
end Linear
