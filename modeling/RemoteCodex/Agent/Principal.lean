import Mathlib.Data.Finset.Basic
import RemoteCodex.Core.Protocol

namespace RemoteCodex
set_option autoImplicit true

/-- Cancellation tokens are shared flags: a token is a name, and the tokens cancelled so far
are a set that only grows. -/
abbrev CancellationToken := Nat

structure Principal where
  clientId : Uuid
  scopes : List Scope
  expires : Nat
  revoked : CancellationToken
  deriving DecidableEq

namespace Principal

def require (p : Principal) (cancelled : Finset CancellationToken) (now : Nat) (s : Scope) :
    Except ErrorCode Unit :=
  if p.revoked ∈ cancelled then .error .deviceRevoked
  else if p.expires ≤ now then .error .unauthenticated
  else if s ∉ p.scopes then .error .forbidden
  else .ok ()

theorem require_eq_ok (p : Principal) (cancelled : Finset CancellationToken) (now : Nat)
    (s : Scope) :
    p.require cancelled now s = .ok () ↔
      p.revoked ∉ cancelled ∧ now < p.expires ∧ s ∈ p.scopes := by
  unfold require
  split
  · next h => simp only [reduceCtorEq, h, not_true_eq_false, false_and]
  · next h =>
    split
    · next h' => simp only [reduceCtorEq, false_iff, not_and]; omega
    · next h' =>
      have hlt : now < p.expires := by omega
      split
      · next hs => simp only [reduceCtorEq, hs, and_false]
      · next hs =>
        rw [not_not] at hs
        exact iff_of_true rfl ⟨h, hlt, hs⟩

/-- A principal that no scope saves. -/
def Dead (p : Principal) (cancelled : Finset CancellationToken) (now : Nat) : Prop :=
  p.revoked ∈ cancelled ∨ p.expires ≤ now ∨ p.scopes = []

theorem dead_iff (p : Principal) (cancelled : Finset CancellationToken) (now : Nat) :
    p.Dead cancelled now ↔ ∀ s, p.require cancelled now s ≠ .ok () := by
  simp only [ne_eq, require_eq_ok, not_and]
  constructor
  · intro h s hr hn hs
    rcases h with h | h | h
    · exact hr h
    · omega
    · rw [h] at hs
      cases hs
  · intro h
    by_cases hr : p.revoked ∈ cancelled
    · exact .inl hr
    · by_cases hn : now < p.expires
      · exact .inr (.inr (List.eq_nil_iff_forall_not_mem.2 fun s => h s hr hn))
      · exact .inr (.inl (by omega))

theorem Dead.mono {p : Principal} {now now' : Nat} (h : p.Dead cancelled now)
    (hc : cancelled ⊆ cancelled') (hn : now ≤ now') : p.Dead cancelled' now' := by
  rcases h with h | h | h
  · exact .inl (hc h)
  · exact .inr (.inl (by omega))
  · exact .inr (.inr h)

end Principal
end RemoteCodex
