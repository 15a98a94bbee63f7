import Mathlib.Data.List.Pairwise
import RemoteCodex.Agent.Delivery

namespace RemoteCodex
set_option autoImplicit true

/-- The accepted inputs against the lease and the ledger: no epoch is ahead of the lease, the
ledger's highest sequence covers the current epoch, and within an epoch both the sequence
numbers and the channel names grow in the order of acceptance. -/
structure Keys (as : List Accepted) (lease : Lease) (ledger : InputLedger) (next : Nat) :
    Prop where
  le : ∀ a ∈ as, a.epoch ≤ lease.epoch
  highest : ∀ a ∈ as, a.epoch = lease.epoch → ∀ o, lease.owner = some o →
    ∃ h, ledger.highest.lookup (o.connection, lease.epoch) = some h ∧ a.seq ≤ h
  reply : ∀ a ∈ as, a.reply < next
  order : as.Pairwise fun a b => a.reply < b.reply ∧ (a.epoch = b.epoch → a.seq < b.seq)

theorem Keys.nil (lease : Lease) (ledger : InputLedger) (next : Nat) :
    Keys [] lease ledger next where
  le := by intro a ha; cases ha
  highest := by intro a ha; cases ha
  reply := by intro a ha; cases ha
  order := .nil

theorem Keys.change (h : Keys as lease ledger next) (hc : Lease.Change now lease lease') :
    Keys as lease' ledger next where
  le := fun a ha => Nat.le_trans (h.le a ha) hc.epoch_le
  highest := by
    intro a ha he o' ho'
    have heq : lease'.epoch = lease.epoch := by
      have hle := h.le a ha
      have hmono := hc.epoch_le
      omega
    obtain ⟨o, ho, _, hk, _⟩ := hc.owner_of_epoch heq ho'
    rw [heq, hk]
    exact h.highest a ha (he.trans heq) o ho
  reply := h.reply
  order := h.order

/-- A sequence the ledger admits moves its highest sequence above all earlier inputs of the
epoch. -/
theorem Keys.raise (h : Keys as s.input.lease s.input.ledger next)
    (ha : Session.Admitted s c lease seq s') :
    Keys as s'.input.lease s'.input.ledger next ∧
      ∀ a ∈ as, a.epoch = lease → a.seq < seq := by
  obtain ⟨o, ho, hoc⟩ := ha.owner
  have hbelow : ∀ a ∈ as, a.epoch = lease → a.seq < seq := by
    intro a hm he
    obtain ⟨top, htop, hle⟩ := h.highest a hm (he.trans ha.epoch.symm) o ho
    rw [hoc, ha.epoch] at htop
    have habove := ha.above top htop
    omega
  refine ⟨⟨?_, ?_, h.reply, h.order⟩, hbelow⟩
  · rw [ha.lease_eq]
    exact h.le
  · rw [ha.lease_eq]
    intro a hm he o' ho'
    rw [ho] at ho'
    cases ho'
    refine ⟨seq, ?_, Nat.le_of_lt (hbelow a hm (he.trans ha.epoch))⟩
    rw [hoc, ha.epoch]
    exact ha.highest

theorem Keys.accept (h : Keys as s.input.lease s.input.ledger next)
    (ha : Session.Admitted s c lease seq s') (data : List UInt8) :
    Keys (as ++ [⟨next, lease, seq, data⟩]) s'.input.lease s'.input.ledger (next + 1) := by
  obtain ⟨h', hbelow⟩ := h.raise ha
  constructor
  · intro a hm
    rcases List.mem_append.1 hm with hm | hm
    · exact h'.le a hm
    · rw [List.mem_singleton.1 hm, ha.lease_eq, ha.epoch]
  · intro a hm he o ho
    rcases List.mem_append.1 hm with hm | hm
    · exact h'.highest a hm he o ho
    · rw [List.mem_singleton.1 hm]
      rw [ha.lease_eq] at ho
      obtain ⟨o', ho', hoc⟩ := ha.owner
      rw [ho] at ho'
      cases ho'
      refine ⟨seq, ?_, Nat.le_refl _⟩
      rw [ha.lease_eq, hoc, ha.epoch]
      exact ha.highest
  · intro a hm
    rcases List.mem_append.1 hm with hm | hm
    · exact Nat.lt_succ_of_lt (h.reply a hm)
    · rw [List.mem_singleton.1 hm]
      exact Nat.lt_succ_self next
  · rw [List.pairwise_append]
    refine ⟨h.order, List.pairwise_singleton _ _, ?_⟩
    intro a hm b hb
    rw [List.mem_singleton.1 hb]
    exact ⟨h.reply a hm, hbelow a hm⟩

theorem Keys.mono (h : Keys as lease ledger next) (hle : next ≤ next') :
    Keys as lease ledger next' :=
  ⟨h.le, h.highest, fun a ha => Nat.lt_of_lt_of_le (h.reply a ha) hle, h.order⟩

/-- The ledger matters only through its highest sequences. -/
theorem Keys.congr (h : Keys as lease ledger next) (he : ledger'.highest = ledger.highest) :
    Keys as lease ledger' next :=
  ⟨h.le, he ▸ h.highest, h.reply, h.order⟩

theorem Keys.unique (h : Keys as lease ledger next) (ha : a ∈ as) (hb : b ∈ as)
    (he : a.reply = b.reply) : a = b := by
  have hall := List.Pairwise.forall_of_forall_of_flip
    (R := fun a b : Accepted => a.reply = b.reply → a = b) (l := as) (fun _ _ _ => rfl)
    (h.order.imp fun hab he => absurd he (Nat.ne_of_lt hab.1))
    (h.order.imp fun hab he => absurd he.symm (Nat.ne_of_lt hab.1))
  exact hall ha hb he

/-- Inputs of one epoch that were accepted later carry larger sequence numbers. -/
theorem Keys.seq_lt (h : Keys as lease ledger next) (ha : a ∈ as) (hb : b ∈ as)
    (hr : a.reply < b.reply) (he : a.epoch = b.epoch) : a.seq < b.seq := by
  have hall := List.Pairwise.forall_of_forall_of_flip
    (R := fun a b : Accepted => a.reply < b.reply → a.epoch = b.epoch → a.seq < b.seq) (l := as)
    (fun _ _ hr => absurd hr (Nat.lt_irrefl _))
    (h.order.imp fun hab _ he => hab.2 he)
    (h.order.imp fun hab hr => absurd hr (Nat.lt_asymm hab.1))
  exact hall ha hb hr he

theorem accepts_append (es fs : List Event) : accepts (es ++ fs) = accepts es ++ accepts fs :=
  List.filterMap_append

theorem Keys.enqueued (h : Keys as s.input.lease s.input.ledger next)
    (hq : Session.Enqueued s c lease seq next r s') :
    Keys (as ++ accepts (acceptEvents next lease seq r)) s'.input.lease s'.input.ledger
      (next + 1) := by
  cases hq with
  | refused e =>
    simp only [acceptEvents, accepts, List.filterMap_nil, List.append_nil]
    exact h.mono (Nat.le_succ _)
  | full _ ha =>
    simp only [acceptEvents, accepts, List.filterMap_nil, List.append_nil]
    exact (h.raise ha).1.mono (Nat.le_succ _)
  | normal _ job ha => exact h.accept ha job.data
  | priority _ job ha => exact h.accept ha job.data

def Keyed (es : List Event) (w : World) : Prop :=
  Keys (accepts es) w.s.input.lease w.s.input.ledger w.nextReply

theorem Keyed.quiet (h : Keyed es w) (hl : u.s.input.lease = w.s.input.lease)
    (hh : u.s.input.ledger.highest = w.s.input.ledger.highest) (hn : u.nextReply = w.nextReply)
    (hq : ∀ e ∈ fs, Event.quiet e = true) : Keyed (es ++ fs) u := by
  unfold Keyed
  rw [accepts_quiet es hq, hl, hn]
  exact Keys.congr h hh

theorem Keyed.lease (h : Keyed es w) (hc : Lease.Change now w.s.input.lease l) (u : World)
    (hu : u.s.input = { w.s.input with lease := l }) (hn : u.nextReply = w.nextReply) :
    Keyed (es ++ []) u := by
  unfold Keyed
  rw [List.append_nil, hu, hn]
  exact Keys.change h hc

theorem Keyed.locked (h : Keyed es w) (call : Call) :
    Keyed (es ++ (w.locked call).2) (w.locked call).1 := by
  cases call with
  | acquire p c takeover => exact h.lease (Lease.acquire_change rfl) _ rfl rfl
  | renew p c epoch => exact h.lease (Lease.renew_change rfl) _ rfl rfl
  | release p c epoch => exact h.lease (Lease.release_change rfl) _ rfl rfl
  | enqueue p c lease id seq data received =>
    unfold Keyed
    rw [accepts_append]
    exact Keys.enqueued h (Session.enqueue_spec ..)
  | enqueuePaste p c lease id seq text bracketed appendEnter received =>
    unfold Keyed
    rw [accepts_append]
    exact Keys.enqueued h (Session.enqueuePaste_spec ..)

/-- Writing a job touches neither the lease nor the highest sequences. -/
theorem Writing.step_input (w : World) (j : Writing) (io : Bool) :
    (j.step w io).1.s.input.lease = w.s.input.lease ∧
      (j.step w io).1.s.input.ledger.highest = w.s.input.ledger.highest ∧
      (j.step w io).1.nextReply = w.nextReply ∧
      ∀ e ∈ (j.step w io).2, e.accepted? = none := by
  unfold step
  cases j.stage with
  | permitted check site => simp only; split <;> exact ⟨rfl, rfl, rfl, by simp⟩
  | opening => simp only; split <;> exact ⟨rfl, rfl, rfl, by simp [Event.accepted?]⟩
  | chunk =>
    simp only
    split
    · exact ⟨rfl, rfl, rfl, by simp⟩
    · split
      · split <;> exact ⟨rfl, rfl, rfl, by simp⟩
      · exact ⟨rfl, rfl, rfl, by simp⟩
  | write => simp only; split <;> exact ⟨rfl, rfl, rfl, by simp [Event.accepted?]⟩
  | suffix result =>
    simp only
    split
    · split <;> exact ⟨rfl, rfl, rfl, by simp [Event.accepted?]⟩
    · exact ⟨rfl, rfl, rfl, by simp⟩
  | enter => exact ⟨rfl, rfl, rfl, by simp [Event.accepted?]⟩
  | finish result =>
    exact ⟨rfl, Session.finishId_highest _ _ _, rfl, by simp [Event.accepted?]⟩

theorem Keyed.step (h : Keyed es w) (hs : Step w e u) : Keyed (es ++ e) u := by
  cases hs with
  | locked before after call hc =>
    exact Keyed.locked (w := { w with calls := before ++ after }) h call
  | revokeConnection id => exact h.lease (Lease.revokeConnection_change _ id w.now) _ rfl rfl
  | revokeClient id => exact h.lease (Lease.revokeClient_change _ id w.now) _ rfl rfl
  | revokeAll => exact h.lease (.drop : Lease.Change w.now _ _) _ rfl rfl
  | write j io hp =>
    obtain ⟨hl, hh, hn, hq⟩ := j.step_input w io
    unfold Keyed
    have hnone : accepts (j.step w io).2 = [] := List.filterMap_eq_nil_iff.2 hq
    rw [accepts_append, hnone, List.append_nil, hl, hn]
    exact Keys.congr h hh
  | cancelQueued job pending held others hp hn =>
    refine h.quiet ?_ ?_ rfl (by simp [Event.quiet])
    · simp only; split <;> rfl
    · simp only; split
      · exact Session.finishId_highest _ _ _
      · rfl
  | tick | cancel | request | stopRunning | signalStop | query | dropSession | selectStop
  | selectInterrupt | selectQuery | selectNormal | selectLost | startInterrupt | loseInterrupt
  | drainNormal | drainedNormal | drainInterrupt | drainedInterrupt | exit =>
    exact h.quiet rfl rfl rfl (by simp [Event.quiet])

end RemoteCodex
