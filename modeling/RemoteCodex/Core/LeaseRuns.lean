import RemoteCodex.Lib.Trace
import RemoteCodex.Core.Lease

namespace RemoteCodex
set_option autoImplicit true
open Trace

namespace Lease

/-- The operations of the lease module. -/
inductive Op where
  | acquire (client connection : Uuid) (takeover : Bool)
  | verify (client connection : Uuid) (epoch : Nat)
  | renew (client connection : Uuid) (epoch : Nat)
  | release (client connection : Uuid) (epoch : Nat)
  | revokeConnection (id : Uuid)
  | revokeClient (id : Uuid)
  | revokeAll

/-- Run one operation; the answer is the view where the operation returns one. -/
def exec (l : Lease) (now : Nat) : Op → Outcome ErrorCode (Option LeaseView) × Lease
  | .acquire client connection takeover =>
    let p := l.acquire client connection takeover now
    (p.1.map some, p.2)
  | .verify client connection epoch =>
    match l.verify client connection epoch now with
    | .error e => (.err e, l)
    | .ok () => (.ok none, l)
  | .renew client connection epoch =>
    let p := l.renew client connection epoch now
    (p.1.map some, p.2)
  | .release client connection epoch =>
    let p := l.release client connection epoch now
    (p.1.map fun _ => none, p.2)
  | .revokeConnection id => (.ok none, l.revokeConnection id)
  | .revokeClient id => (.ok none, l.revokeClient id)
  | .revokeAll => (.ok none, l.revokeAll)

theorem exec_change (l : Lease) (now : Nat) (op : Op) : Change now l (l.exec now op).2 := by
  cases op with
  | acquire client connection takeover => exact acquire_change rfl
  | verify client connection epoch =>
    simp only [exec]
    split <;> exact .keep
  | renew client connection epoch => exact renew_change rfl
  | release client connection epoch => exact release_change rfl
  | revokeConnection id => exact revokeConnection_change l id now
  | revokeClient id => exact revokeClient_change l id now
  | revokeAll => exact .drop

/-- An operation that answers with an error leaves the lease as it was. -/
theorem exec_err (l : Lease) (now : Nat) (op : Op) (h : (l.exec now op).1 = .err e) :
    (l.exec now op).2 = l := by
  cases op with
  | acquire client connection takeover =>
    cases hp : l.acquire client connection takeover now with | mk r l' =>
    simp only [exec, hp] at h ⊢
    rcases acquire_cases hp with ⟨_, _, he⟩ | ⟨_, _, _, _, _, hr, _⟩ | ⟨hr, _⟩
    · exact he
    · rw [hr] at h; cases h
    · rw [hr] at h; cases h
  | verify client connection epoch =>
    simp only [exec]
    split <;> rfl
  | renew client connection epoch =>
    cases hp : l.renew client connection epoch now with | mk r l' =>
    simp only [exec, hp] at h ⊢
    rcases renew_cases hp with ⟨_, _, he⟩ | ⟨_, _, _, _, _, _, hr, _⟩
    · exact he
    · rw [hr] at h; cases h
  | release client connection epoch =>
    cases hp : l.release client connection epoch now with | mk r l' =>
    simp only [exec, hp] at h ⊢
    rcases release_cases hp with ⟨_, _, he⟩ | ⟨_, hr, _⟩
    · exact he
    · rw [hr] at h; cases h
  | revokeConnection | revokeClient | revokeAll => cases h

/-- No `unwrap` of the module is reached on `None`. -/
theorem exec_ne_panic (l : Lease) (now : Nat) (op : Op) : (l.exec now op).1 ≠ .panic := by
  intro h
  cases op with
  | acquire client connection takeover =>
    cases hp : l.acquire client connection takeover now with | mk r l' =>
    simp only [exec, hp] at h
    rcases acquire_cases hp with ⟨_, hr, _⟩ | ⟨_, _, _, _, _, hr, _⟩ | ⟨hr, _⟩
    all_goals rw [hr] at h; cases h
  | verify client connection epoch =>
    simp only [exec] at h
    split at h <;> cases h
  | renew client connection epoch =>
    cases hp : l.renew client connection epoch now with | mk r l' =>
    simp only [exec, hp] at h
    rcases renew_cases hp with ⟨_, hr, _⟩ | ⟨_, _, _, _, _, _, hr, _⟩
    all_goals rw [hr] at h; cases h
  | release client connection epoch =>
    cases hp : l.release client connection epoch now with | mk r l' =>
    simp only [exec, hp] at h
    rcases release_cases hp with ⟨_, hr, _⟩ | ⟨_, hr, _⟩
    all_goals rw [hr] at h; cases h
  | revokeConnection | revokeClient | revokeAll => cases h

/-- A lease together with the monotonic clock. -/
structure Clocked where
  lease : Lease
  now : Nat

def Clocked.init : Clocked := ⟨default, 0⟩

/-- One call of an operation with its answer. -/
structure Call where
  op : Op
  answer : Outcome ErrorCode (Option LeaseView)

/-- Time passes, or some client or connection calls an operation. -/
inductive Step : Clocked → List Call → Clocked → Prop where
  | tick (s : Clocked) (d : Nat) : Step s [] { s with now := s.now + d }
  | call (s : Clocked) (op : Op) :
      Step s [⟨op, (s.lease.exec s.now op).1⟩] { s with lease := (s.lease.exec s.now op).2 }

/-- A client, a connection and the epoch they were granted. -/
structure Grant where
  client : Uuid
  connection : Uuid
  epoch : Nat

def Call.grant? : Call → Option Grant
  | ⟨.acquire _ _ _, .ok (some v)⟩ => some ⟨v.clientId, v.connectionId, v.epoch⟩
  | _ => none

/-- The grants handed out by `acquire`, in order. -/
def grants (es : List Call) : List Grant := es.filterMap Call.grant?

def Verifies (s : Clocked) (g : Grant) : Prop :=
  s.lease.verify g.client g.connection g.epoch s.now = .ok ()

/-- The current owner agrees with every grant of the current epoch, and no grant is ahead. -/
structure Granted (es : List Call) (s : Clocked) : Prop where
  le : ∀ g ∈ grants es, g.epoch ≤ s.lease.epoch
  owner : ∀ g ∈ grants es, g.epoch = s.lease.epoch →
    ∀ o, s.lease.owner = some o → g.client = o.client ∧ g.connection = o.connection
  fresh : (grants es).Pairwise fun g h => g = h ∨ g.epoch < h.epoch

theorem grants_snoc (es : List Call) (c : Call) :
    grants (es ++ [c]) = grants es ++ c.grant?.toList := by
  unfold grants
  cases h : c.grant? with
  | none => simp only [List.filterMap_append, List.filterMap_cons_none h, List.filterMap_nil,
      Option.toList_none]
  | some g => simp only [List.filterMap_append, List.filterMap_cons_some h, List.filterMap_nil,
      Option.toList_some]

/-- Changing the lease keeps the old grants behind the lease's epoch and owner. -/
theorem Granted.change (h : Granted es s) (hc : Change s.now s.lease l') :
    Granted es { s with lease := l' } where
  le := fun g hg => Nat.le_trans (h.le g hg) hc.epoch_le
  owner := by
    intro g hg he o' ho'
    have hle := h.le g hg
    have heq : l'.epoch = s.lease.epoch := by
      have hmono := hc.epoch_le
      simp only at he
      omega
    obtain ⟨o, ho, hcl, hcon, _⟩ := hc.owner_of_epoch heq ho'
    have hg' := h.owner g hg (he.trans heq) o ho
    exact ⟨hg'.1.trans hcl.symm, hg'.2.trans hcon.symm⟩
  fresh := h.fresh

/-- Recording the triple that now owns the lease. -/
theorem Granted.record (h : Granted es s) (hg : c.grant? = some g) (he : s.lease.epoch = g.epoch)
    (hown : ∀ o, s.lease.owner = some o → g.client = o.client ∧ g.connection = o.connection)
    (hnew : ∀ g' ∈ grants es, g' = g ∨ g'.epoch < g.epoch) : Granted (es ++ [c]) s := by
  have hgr : grants (es ++ [c]) = grants es ++ [g] := by
    rw [grants_snoc, hg, Option.toList_some]
  constructor
  · intro g' hm
    rw [hgr, List.mem_append, List.mem_singleton] at hm
    rcases hm with hm | rfl
    · exact h.le g' hm
    · exact Nat.le_of_eq he.symm
  · intro g' hm he' o ho
    rw [hgr, List.mem_append, List.mem_singleton] at hm
    rcases hm with hm | rfl
    · exact h.owner g' hm he' o ho
    · exact hown o ho
  · rw [hgr, List.pairwise_append]
    refine ⟨h.fresh, List.pairwise_singleton _ _, ?_⟩
    intro g' hm g'' hm'
    rw [List.mem_singleton] at hm'
    subst g''
    exact hnew g' hm

/-- Calls that grant nothing leave the list of grants alone. -/
theorem Granted.silent (h : Granted es s) (hg : c.grant? = none) : Granted (es ++ [c]) s := by
  have hgr : grants (es ++ [c]) = grants es := by
    rw [grants_snoc, hg, Option.toList_none, List.append_nil]
  exact ⟨hgr ▸ h.le, hgr ▸ h.owner, hgr ▸ h.fresh⟩

theorem Granted.acquire (h : Granted es s)
    (hp : s.lease.acquire client connection takeover s.now = (r, l')) :
    Granted (es ++ [⟨.acquire client connection takeover, r.map some⟩])
      { s with lease := l' } := by
  have hold := h.change (acquire_change hp)
  rcases acquire_cases hp with ⟨e, rfl, _⟩ | ⟨o, ho, _, hcl, hcon, rfl, rfl⟩ | ⟨rfl, rfl⟩
  · exact hold.silent rfl
  · -- the holder asks again: all grants of its epoch are that triple
    apply hold.record rfl rfl
    · intro o' ho'
      cases ho'
      exact ⟨hcl.symm, hcon.symm⟩
    · intro g hm
      rcases Nat.lt_or_eq_of_le (h.le g hm) with hlt | heq
      · exact .inr hlt
      · obtain ⟨hgc, hgk⟩ := h.owner g hm heq o ho
        left
        cases g
        simp only at heq hgc hgk
        simp only [Grant.mk.injEq]
        exact ⟨hgc.trans hcl, hgk.trans hcon, heq⟩
  · -- a new owner: its epoch is above every earlier grant
    apply hold.record rfl rfl
    · intro o' ho'
      cases ho'
      exact ⟨rfl, rfl⟩
    · intro g hm
      exact .inr (Nat.lt_succ_of_le (h.le g hm))

theorem Granted.step (h : Granted es s) (hs : Step s e t) : Granted (es ++ e) t := by
  cases hs with
  | tick d =>
    rw [List.append_nil]
    exact ⟨h.le, h.owner, h.fresh⟩
  | call op =>
    cases op with
    | acquire client connection takeover => exact h.acquire rfl
    | verify | renew | release | revokeConnection | revokeClient | revokeAll =>
      exact (h.change (exec_change s.lease s.now _)).silent rfl

theorem Granted.of_run (h : Run Step Clocked.init es s) : Granted es s := by
  apply h.invariant (I := Granted)
  · exact ⟨by simp [grants], by simp [grants], .nil⟩
  · exact Granted.step

/-- A triple that is behind the lease and does not verify. -/
def Dead (g : Grant) (s : Clocked) : Prop := g.epoch ≤ s.lease.epoch ∧ ¬ Verifies s g

theorem Dead.step (h : Dead g s) (hs : Step s e t) : Dead g t := by
  obtain ⟨hle, hv⟩ := h
  simp only [Verifies, verify_eq_ok, not_exists, not_and] at hv
  cases hs with
  | tick d =>
    refine ⟨hle, ?_⟩
    simp only [Verifies, verify_eq_ok]
    rintro ⟨o, ho, hlive, hc, hk, he⟩
    exact hv o ho (by omega) hc hk he
  | call op =>
    have hch := exec_change s.lease s.now op
    refine ⟨Nat.le_trans hle hch.epoch_le, ?_⟩
    simp only [Verifies, verify_eq_ok]
    rintro ⟨o', ho', hlive, hc, hk, he⟩
    have heq : (s.lease.exec s.now op).2.epoch = s.lease.epoch := by
      have hmono := hch.epoch_le
      omega
    obtain ⟨o, ho, hcl, hcon, hsame | hlive'⟩ := hch.owner_of_epoch heq ho'
    · subst o'
      exact hv o ho hlive hc hk (heq ▸ he)
    · exact hv o ho hlive' (hcl ▸ hc) (hcon ▸ hk) (heq ▸ he)

theorem Dead.of_run (h : Dead g s) (hr : Run Step s es t) : Dead g t :=
  hr.preserves h Dead.step

theorem Verifies.unique (h : Verifies s g) (h' : Verifies s g') : g = g' := by
  simp only [Verifies, verify_eq_ok] at h h'
  obtain ⟨o, ho, _, hc, hk, he⟩ := h
  obtain ⟨o', ho', _, hc', hk', he'⟩ := h'
  rw [ho] at ho'
  cases ho'
  cases g
  cases g'
  simp only at hc hk he hc' hk' he'
  simp only [Grant.mk.injEq]
  exact ⟨hc.symm.trans hc', hk.symm.trans hk', he.symm.trans he'⟩

/-- Lease safety over all runs: one triple verifies at a time, an epoch belongs to one client
and connection, fresh grants take larger epochs, a triple that stopped verifying stays dead,
errors change nothing and no `unwrap` fails. -/
theorem lease_safety (h : Run Step Clocked.init es s) :
    (∀ g g', Verifies s g → Verifies s g' → g = g') ∧
    (∀ g ∈ grants es, ∀ g' ∈ grants es, g.epoch = g'.epoch → g = g') ∧
    (grants es).Pairwise (fun g g' => g = g' ∨ g.epoch < g'.epoch) ∧
    (∀ g ∈ grants es, ¬ Verifies s g →
      ∀ es' s', Run Step s es' s' → ¬ Verifies s' g) ∧
    (∀ op e, (s.lease.exec s.now op).1 = .err e → (s.lease.exec s.now op).2 = s.lease) ∧
    (∀ op, (s.lease.exec s.now op).1 ≠ .panic) := by
  have hg := Granted.of_run h
  refine ⟨fun g g' => Verifies.unique, ?_, hg.fresh, ?_, fun op e => exec_err _ _ op,
    exec_ne_panic _ _⟩
  · have hone := List.Pairwise.forall_of_forall_of_flip
      (R := fun g g' => g.epoch = g'.epoch → g = g') (fun _ _ _ => rfl)
      (hg.fresh.imp fun h he => h.resolve_right (Nat.ne_of_lt · he))
      (hg.fresh.imp fun h he => (h.resolve_right (Nat.ne_of_lt · he.symm)).symm)
    intro g hm g' hm' he
    exact hone hm hm' he
  · intro g hm hv es' s' hr
    exact (Dead.of_run ⟨hg.le g hm, hv⟩ hr).2

/-- The holder that a takeover displaced stays locked out as time goes on. -/
theorem lease_safety_takeover :
    ¬ Verifies ⟨⟨2, some ⟨.fill 3, .fill 4, 15000000001⟩⟩, 8⟩ ⟨.fill 1, .fill 2, 1⟩ := by
  have hrun : Run Step Clocked.init
      [⟨.acquire (.fill 1) (.fill 2) false, .ok (some ⟨.fill 1, .fill 2, 1, 15000⟩)⟩,
        ⟨.acquire (.fill 3) (.fill 4) true, .ok (some ⟨.fill 3, .fill 4, 2, 15000⟩)⟩]
      ⟨⟨2, some ⟨.fill 3, .fill 4, 15000000001⟩⟩, 1⟩ :=
    ((Run.single (Step.call _ (.acquire (.fill 1) (.fill 2) false))).snoc (Step.tick _ 1)).snoc
      (Step.call _ (.acquire (.fill 3) (.fill 4) true))
  have hdead : ¬ Verifies ⟨⟨2, some ⟨.fill 3, .fill 4, 15000000001⟩⟩, 1⟩ ⟨.fill 1, .fill 2, 1⟩ := by
    simp only [Verifies]
    decide
  exact (lease_safety hrun).2.2.2.1 _ (.head _) hdead [] _ (Run.single (Step.tick _ 7))

end Lease
end RemoteCodex
