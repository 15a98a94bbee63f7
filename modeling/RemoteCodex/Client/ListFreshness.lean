import RemoteCodex.Client.SessionList

namespace RemoteCodex
set_option autoImplicit true
open Trace
namespace Client

theorem onMessage_grants (w : Page) (m : Message) : (w.onMessage m).grants = w.grants := by
  cases m with
  | notice n => rw [Page.onMessage, want_grants, refreshSessions_grants]
  | hello | lease | invalid | other => rfl

/-- The grants change when the server grants a lease. -/
theorem step_grants (hs : Step w fs w') :
    (w'.grants = w.grants ∧ ∀ g id v, .granted g id v ∉ fs) ∨
      ∃ p, fs = [.granted w.grants.length p.1 p.2] ∧ w'.grants = w.grants ++ [p] := by
  cases hs with
  | grant id v => exact .inr ⟨(id, v), rfl, rfl⟩
  | hosted a retry host hc =>
    refine .inl ⟨?_, by simp⟩
    unfold Page.hosted
    split
    · exact refreshSessions_grants _
    · rfl
  | opened a retry hc =>
    refine .inl ⟨?_, by simp⟩
    unfold Page.opened
    split <;> rfl
  | caught a retry hc =>
    refine .inl ⟨?_, by simp⟩
    cases retry with
    | true => exact disconnected_grants w
    | false => rfl
  | refresh => exact .inl ⟨refreshSessions_grants w, nofun⟩
  | answered r l list n hr hl =>
    refine .inl ⟨rfl, ?_⟩
    split <;> simp
  | message s a m hs hg =>
    refine .inl ⟨?_, ?_⟩
    · split
      · exact onMessage_grants w m
      · rfl
    · split <;> simp
  | closed s a hs =>
    refine .inl ⟨?_, by simp⟩
    unfold Page.closed
    split
    · exact disconnected_grants _
    · rfl
  | _ => exact .inl ⟨rfl, by simp⟩

theorem step_received (hs : Step w fs w') (hm : .processed (.lease g sessionId v) ∈ fs) :
    w.grants[g]? = some (sessionId, v) := by
  cases hs with
  | message s a m hs hg =>
    split at hm
    · simp only [List.mem_cons, reduceCtorEq, Event.processed.injEq, List.not_mem_nil, or_false,
        false_or] at hm
      exact hg g sessionId v hm.symm
    · simp at hm
  | answered r l list n hr hl => split at hm <;> simp at hm
  | _ => simp at hm

/-- The grants of the server are those of the run, and messages bring leases of these. -/
structure Granted (es : List Event) (w : Page) : Prop where
  granted : ∀ g p, .granted g p.1 p.2 ∈ es ↔ w.grants[g]? = some p
  received : ∀ g id v, .processed (.lease g id v) ∈ es → w.grants[g]? = some (id, v)

theorem getElem?_concat_iff {l : List α} {g : Nat} :
    (l ++ [x])[g]? = some y ↔ l[g]? = some y ∨ (g = l.length ∧ y = x) := by
  rw [List.getElem?_append]
  split
  · next hlt => exact (or_iff_left fun h => Nat.ne_of_lt hlt h.1).symm
  · next hge =>
    rw [List.getElem?_eq_none (Nat.le_of_not_lt hge), List.getElem?_singleton]
    split
    · next hz =>
      have hg : g = l.length := by omega
      simp only [Option.some.injEq, reduceCtorEq, hg, true_and, false_or, eq_comm]
    · next hz =>
      have hg : g ≠ l.length := by omega
      simp only [reduceCtorEq, hg, false_and, or_self]

theorem Granted.step (h : Granted es w) (hs : Step w fs w') : Granted (es ++ fs) w' := by
  have hold (g : Nat) p (hp : w.grants[g]? = some p) : w'.grants[g]? = some p := by
    rcases step_grants hs with ⟨hg, -⟩ | ⟨q, -, hg⟩
    · rwa [hg]
    · rw [hg]
      exact getElem?_concat_iff.2 (.inl hp)
  constructor
  · intro g p
    rw [List.mem_append, h.granted]
    rcases step_grants hs with ⟨hg, hn⟩ | ⟨q, rfl, hg⟩
    · rw [hg, or_iff_left (hn g p.1 p.2)]
    · rw [hg, getElem?_concat_iff, List.mem_singleton, Event.granted.injEq, Prod.ext_iff]
  · intro g id v hm
    rcases List.mem_append.1 hm with hm | hm
    · exact hold g _ (h.received g id v hm)
    · exact hold g _ (step_received hs hm)

theorem Granted.run (hr : Run Step .start es w) : Granted es w := by
  refine hr.invariant (I := Granted) ⟨fun g p => ?_, nofun⟩ fun h hs => h.step hs
  simp [Page.start]

/-- The server has produced the list that the controller waits for. -/
def Page.offered (w : Page) (r : Nat) (list : List SessionInfo) (n : Nat) : Prop :=
  w.c.reload = some r ∧ ∃ l, w.reloads r = some l ∧ l.progress = .produced list n

theorem Timely.idle (hs : Step w fs w') (hr : w.c.reload = none) : Timely w fs w' := by
  have hwait := waiting_none hr
  refine ⟨hs, fun m l _ hl => ?_, fun g id v l list n _ hl => ?_, fun a r l _ hl => ?_,
    fun a l _ _ hl => ?_⟩
  · cases hwait.symm.trans hl
  · cases hwait.symm.trans hl
  · cases hr.symm.trans hl
  · cases hwait.symm.trans hl

end Client
end RemoteCodex
