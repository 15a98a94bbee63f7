import Mathlib.Data.Option.Basic
import RemoteCodex.Lib.Outcome
import RemoteCodex.Core.Protocol

namespace RemoteCodex
set_option autoImplicit true

def LEASE_TTL : Nat := fromSecs 15

/-- The holder of the input lease; `untilTime` is the source's `until`. -/
structure Owner where
  client : Uuid
  connection : Uuid
  untilTime : Nat
  deriving DecidableEq

structure Lease where
  epoch : Nat
  owner : Option Owner
  deriving DecidableEq

namespace Lease

def default : Lease := ⟨0, none⟩

def view (l : Lease) (now : Nat) : Option LeaseView :=
  (l.owner.filter fun o => decide (now < o.untilTime)).map fun o =>
    { clientId := o.client
      connectionId := o.connection
      epoch := l.epoch
      remainingMs := (o.untilTime - now) / 1000000 }

def verify (l : Lease) (client connection : Uuid) (epoch : Nat) (now : Nat) :
    Except ErrorCode Unit :=
  match l.owner with
  | none => .error .leaseRequired
  | some o =>
    if o.untilTime ≤ now ∨ o.client ≠ client ∨ o.connection ≠ connection ∨ l.epoch ≠ epoch then
      .error .leaseStale
    else .ok ()

/-- The statements `acquire` and `renew` share: the owner is taken with `unwrap`, its time is
moved on, and the view is taken with a second `unwrap`. -/
def extend (l : Lease) (now : Nat) : Outcome ErrorCode LeaseView × Lease :=
  match l.owner with
  | none => (.panic, l)
  | some o =>
    let l' := { l with owner := some { o with untilTime := now + LEASE_TTL } }
    (.unwrap (l'.view now), l')

/-- The end of `acquire`: a fresh epoch for the new owner, unless the counter is exhausted. -/
def grant (l : Lease) (client connection : Uuid) (now : Nat) :
    Outcome ErrorCode LeaseView × Lease :=
  if l.epoch + 1 ≤ u64Max then
    let l' := ⟨l.epoch + 1, some ⟨client, connection, now + LEASE_TTL⟩⟩
    (.unwrap (l'.view now), l')
  else (.err .internal, l)

def acquire (l : Lease) (client connection : Uuid) (takeover : Bool) (now : Nat) :
    Outcome ErrorCode LeaseView × Lease :=
  match l.owner.filter fun o => decide (now < o.untilTime) with
  | some owner =>
    if owner.client = client ∧ owner.connection = connection then l.extend now
    else if !takeover then (.err .leaseBusy, l)
    else l.grant client connection now
  | none => l.grant client connection now

def renew (l : Lease) (client connection : Uuid) (epoch : Nat) (now : Nat) :
    Outcome ErrorCode LeaseView × Lease :=
  match l.verify client connection epoch now with
  | .error e => (.err e, l)
  | .ok () => l.extend now

def release (l : Lease) (client connection : Uuid) (epoch : Nat) (now : Nat) :
    Outcome ErrorCode Unit × Lease :=
  match l.verify client connection epoch now with
  | .error e => (.err e, l)
  | .ok () => (.ok (), { l with owner := none })

def revokeConnection (l : Lease) (id : Uuid) : Lease :=
  if l.owner.any fun o => decide (o.connection = id) then { l with owner := none } else l

def revokeClient (l : Lease) (id : Uuid) : Lease :=
  if l.owner.any fun o => decide (o.client = id) then { l with owner := none } else l

def revokeAll (l : Lease) : Lease := { l with owner := none }

/-- Everything an operation on the lease can do to it at the given time. -/
inductive Change (now : Nat) (l : Lease) : Lease → Prop where
  | keep : Change now l l
  | extend (o : Owner) (ho : l.owner = some o) (hnow : now < o.untilTime) :
      Change now l { l with owner := some { o with untilTime := now + LEASE_TTL } }
  | drop : Change now l { l with owner := none }
  | grant (client connection : Uuid) :
      Change now l ⟨l.epoch + 1, some ⟨client, connection, now + LEASE_TTL⟩⟩

theorem verify_eq_ok (l : Lease) (client connection : Uuid) (epoch : Nat) (now : Nat) :
    l.verify client connection epoch now = .ok () ↔
      ∃ o, l.owner = some o ∧ now < o.untilTime ∧ o.client = client ∧
        o.connection = connection ∧ l.epoch = epoch := by
  unfold verify
  cases l.owner with
  | none => simp only [reduceCtorEq, false_and, exists_false]
  | some o =>
    simp only [Option.some.injEq, exists_eq_left']
    split
    · next h =>
      simp only [reduceCtorEq, false_iff]
      rintro ⟨h₁, h₂, h₃, h₄⟩
      rcases h with h | h | h | h
      · omega
      · exact h h₂
      · exact h h₃
      · exact h h₄
    · next h =>
      simp only [not_or, Nat.not_le, ne_eq, not_not] at h
      exact iff_of_true rfl h

theorem lt_ttl (now : Nat) : now < now + LEASE_TTL :=
  Nat.lt_add_of_pos_right (by decide)

theorem extend_eq {l : Lease} {o : Owner} (ho : l.owner = some o) (now : Nat) :
    l.extend now =
      (.ok ⟨o.client, o.connection, l.epoch, LEASE_TTL / 1000000⟩,
        { l with owner := some { o with untilTime := now + LEASE_TTL } }) := by
  have hlt := lt_ttl now
  simp only [extend, ho, view, Option.filter, hlt, decide_true, ↓reduceIte, Option.map_some,
    Outcome.unwrap_some, Nat.add_sub_cancel_left]

theorem grant_eq {l : Lease} (h : l.epoch + 1 ≤ u64Max) (client connection : Uuid)
    (now : Nat) :
    l.grant client connection now =
      (.ok ⟨client, connection, l.epoch + 1, LEASE_TTL / 1000000⟩,
        ⟨l.epoch + 1, some ⟨client, connection, now + LEASE_TTL⟩⟩) := by
  have hlt := lt_ttl now
  simp only [grant, h, ↓reduceIte, view, Option.filter, hlt, decide_true, Option.map_some,
    Outcome.unwrap_some, Nat.add_sub_cancel_left]

/-- What `acquire` can do, with its answer. -/
theorem acquire_cases (h : acquire l client connection takeover now = (r, l')) :
    (∃ e, r = .err e ∧ l' = l) ∨
    (∃ o, l.owner = some o ∧ now < o.untilTime ∧ o.client = client ∧ o.connection = connection ∧
      r = .ok ⟨client, connection, l.epoch, LEASE_TTL / 1000000⟩ ∧
      l' = { l with owner := some { o with untilTime := now + LEASE_TTL } }) ∨
    (r = .ok ⟨client, connection, l.epoch + 1, LEASE_TTL / 1000000⟩ ∧
      l' = ⟨l.epoch + 1, some ⟨client, connection, now + LEASE_TTL⟩⟩) := by
  have hgrant (hg : l.grant client connection now = (r, l')) :
      (∃ e, r = .err e ∧ l' = l) ∨
      (r = .ok ⟨client, connection, l.epoch + 1, LEASE_TTL / 1000000⟩ ∧
        l' = ⟨l.epoch + 1, some ⟨client, connection, now + LEASE_TTL⟩⟩) := by
    by_cases hmax : l.epoch + 1 ≤ u64Max
    · rw [grant_eq hmax] at hg
      cases hg
      exact .inr ⟨rfl, rfl⟩
    · simp only [grant, hmax, ↓reduceIte] at hg
      cases hg
      exact .inl ⟨_, rfl, rfl⟩
  unfold acquire at h
  split at h
  · next owner hf =>
    obtain ⟨ho, hlive⟩ := Option.filter_eq_some_iff.1 hf
    split at h
    · next hsame =>
      rw [extend_eq ho] at h
      cases h
      obtain ⟨rfl, rfl⟩ := hsame
      exact .inr (.inl ⟨owner, ho, of_decide_eq_true hlive, rfl, rfl, rfl, rfl⟩)
    · split at h
      · cases h
        exact .inl ⟨_, rfl, rfl⟩
      · exact (hgrant h).imp_right .inr
  · exact (hgrant h).imp_right .inr

theorem renew_cases {epoch : Nat} (h : renew l client connection epoch now = (r, l')) :
    (∃ e, r = .err e ∧ l' = l) ∨
    (∃ o, l.owner = some o ∧ now < o.untilTime ∧ o.client = client ∧ o.connection = connection ∧
      l.epoch = epoch ∧ r = .ok ⟨client, connection, epoch, LEASE_TTL / 1000000⟩ ∧
      l' = { l with owner := some { o with untilTime := now + LEASE_TTL } }) := by
  unfold renew at h
  split at h
  · cases h
    exact .inl ⟨_, rfl, rfl⟩
  · next hv =>
    obtain ⟨o, ho, hlive, rfl, rfl, rfl⟩ := (verify_eq_ok ..).1 hv
    rw [extend_eq ho] at h
    cases h
    exact .inr ⟨o, ho, hlive, rfl, rfl, rfl, rfl, rfl⟩

theorem release_cases {epoch : Nat} (h : release l client connection epoch now = (r, l')) :
    (∃ e, r = .err e ∧ l' = l) ∨
    (l.verify client connection epoch now = .ok () ∧ r = .ok () ∧
      l' = { l with owner := none }) := by
  unfold release at h
  split at h
  · cases h
    exact .inl ⟨_, rfl, rfl⟩
  · next hv =>
    cases h
    exact .inr ⟨hv, rfl, rfl⟩

theorem acquire_change (h : acquire l client connection takeover now = (r, l')) :
    Change now l l' := by
  rcases acquire_cases h with ⟨_, _, he⟩ | ⟨o, ho, hlive, _, _, _, he⟩ | ⟨_, he⟩
  · rw [he]; exact .keep
  · rw [he]; exact .extend o ho hlive
  · rw [he]; exact .grant client connection

theorem renew_change {epoch : Nat} (h : renew l client connection epoch now = (r, l')) :
    Change now l l' := by
  rcases renew_cases h with ⟨_, _, he⟩ | ⟨o, ho, hlive, _, _, _, _, he⟩
  · rw [he]; exact .keep
  · rw [he]; exact .extend o ho hlive

theorem release_change {epoch : Nat} (h : release l client connection epoch now = (r, l')) :
    Change now l l' := by
  rcases release_cases h with ⟨_, _, he⟩ | ⟨_, _, he⟩
  · rw [he]; exact .keep
  · rw [he]; exact .drop

theorem revokeConnection_change (l : Lease) (id : Uuid) (now : Nat) :
    Change now l (l.revokeConnection id) := by
  unfold revokeConnection
  split
  · exact .drop
  · exact .keep

theorem revokeClient_change (l : Lease) (id : Uuid) (now : Nat) :
    Change now l (l.revokeClient id) := by
  unfold revokeClient
  split
  · exact .drop
  · exact .keep

theorem Change.epoch_le (h : Change now l l') : l.epoch ≤ l'.epoch := by
  cases h with
  | keep => exact Nat.le_refl _
  | extend => exact Nat.le_refl _
  | drop => exact Nat.le_refl _
  | grant => exact Nat.le_succ _

/-- Within one epoch the lease has at most one holder, who can only lose it. -/
theorem Change.owner_of_epoch (h : Change now l l') (he : l'.epoch = l.epoch)
    (ho : l'.owner = some o') : ∃ o, l.owner = some o ∧ o'.client = o.client ∧
      o'.connection = o.connection ∧ (o' = o ∨ now < o.untilTime) := by
  cases h with
  | keep => exact ⟨o', ho, rfl, rfl, .inl rfl⟩
  | extend o hl hnow =>
    cases ho
    exact ⟨o, hl, rfl, rfl, .inr hnow⟩
  | drop => cases ho
  | grant => simp only [Nat.succ_ne_self] at he

end Lease
end RemoteCodex
