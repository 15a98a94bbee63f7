import Mathlib.Data.List.Nodup
import Mathlib.Data.List.Pairwise
import RemoteCodex.Lib.Trace

set_option autoImplicit true
open Trace

/-- Items that are issued once and spent once. What is held was issued and is not spent. -/
structure Ledger (held : α → Prop) (issued spent : List α) : Prop where
  held_issued : ∀ c, held c → c ∈ issued
  held_unspent : ∀ c, held c → c ∉ spent
  spent_issued : ∀ c ∈ spent, c ∈ issued
  spent_once : spent.Nodup

namespace Ledger

theorem empty {held : α → Prop} (h : ∀ c, ¬ held c) : Ledger held [] [] where
  held_issued := fun c hc => absurd hc (h c)
  held_unspent := fun c hc => absurd hc (h c)
  spent_issued := fun c hc => by cases hc
  spent_once := List.nodup_nil

/-- What a step that issues and spends may do to the items held. -/
structure Turn (held held' : α → Prop) (issues spends : List α) : Prop where
  kept : ∀ c, held' c → held c ∨ c ∈ issues
  taken : ∀ c ∈ spends, held c ∧ ¬ held' c
  once : spends.Nodup

theorem Turn.unspent {held held' : α → Prop} {issues : List α}
    (h : ∀ c, held' c → held c ∨ c ∈ issues) : Turn held held' issues [] where
  kept := h
  taken := fun _ hc => (List.not_mem_nil hc).elim
  once := List.nodup_nil

theorem turn {held held' : α → Prop} (h : Ledger held issued spent)
    (ht : Turn held held' issues spends) (hf : (issued ++ issues).Nodup) :
    Ledger held' (issued ++ issues) (spent ++ spends) where
  held_issued := by
    intro c hc
    rcases ht.kept c hc with hold | hnew
    · exact List.mem_append_left _ (h.held_issued c hold)
    · exact List.mem_append_right _ hnew
  held_unspent := by
    intro c hc hs
    rcases List.mem_append.1 hs with hs | hs
    · rcases ht.kept c hc with hold | hnew
      · exact h.held_unspent c hold hs
      · exact List.disjoint_of_nodup_append hf (h.spent_issued c hs) hnew
    · exact (ht.taken c hs).2 hc
  spent_issued := by
    intro c hs
    rcases List.mem_append.1 hs with hs | hs
    · exact List.mem_append_left _ (h.spent_issued c hs)
    · exact List.mem_append_left _ (h.held_issued c (ht.taken c hs).1)
  spent_once := by
    apply h.spent_once.append ht.once
    intro c hold hnew
    exact h.held_unspent c (ht.taken c hnew).1 hold

/-- Over a run that issues nothing twice, nothing is spent twice. -/
theorem run {step : σ → List ε → σ → Prop} {held : σ → α → Prop} {issues spends : ε → List α}
    (h : Run step s es t) (h₀ : ∀ c, ¬ held s c)
    (hstep : ∀ {t e u}, step t e u →
      Turn (held t) (held u) (e.flatMap issues) (e.flatMap spends))
    (hf : (es.flatMap issues).Nodup) :
    Ledger (held t) (es.flatMap issues) (es.flatMap spends) := by
  induction h with
  | nil => exact empty h₀
  | snoc _ hs ih =>
    rw [List.flatMap_append] at hf ⊢
    rw [List.flatMap_append]
    exact (ih hf.of_append_left).turn (hstep hs) hf

/-- Two events that issue the same item are one event. -/
theorem issued_by_one {es : List ε} {issues : ε → List α} (hf : (es.flatMap issues).Nodup)
    (hx : x ∈ es) (hy : y ∈ es) (hcx : c ∈ issues x) (hcy : c ∈ issues y) : x = y := by
  have hs : Std.Symm fun a b => List.Disjoint (issues a) (issues b) :=
    ⟨fun _ _ h => List.disjoint_symm h⟩
  by_contra hne
  have hd : List.Disjoint (issues x) (issues y) :=
    (List.nodup_flatMap.1 hf).2.forall hx hy hne
  exact hd hcx hcy

end Ledger
