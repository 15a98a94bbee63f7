import RemoteCodex.Desktop.Serve

namespace RemoteCodex
set_option autoImplicit true
open Crash
namespace Desktop

/-- The rule of `apply` is the only one on port 443. -/
def ours (name : String) : ObservedServe := ⟨some name, some BACKEND, true, false⟩

def unused : ObservedServe := ⟨none, none, false, false⟩

def receiptFor (name : String) : ServeReceipt := ⟨name, BACKEND, 443, "https://" ++ name⟩

theorem inspection_absent {o : ObservedServe} :
    (inspectionOf o r).ownership = .absent ↔ o.occupied = false := by
  unfold inspectionOf
  simp only
  split
  · next hocc => exact ⟨fun _ => Bool.eq_false_of_not_eq_true hocc, fun _ => rfl⟩
  · next hocc =>
    constructor
    · intro h
      split at h
      · simp only at h
        split at h <;> cases h
      · cases h
    · intro h
      exact absurd (by rw [h]; exact Bool.false_ne_true) hocc

theorem inspection_owned {o : ObservedServe} (h : (inspectionOf o r).ownership = .owned) :
    ∃ receipt, r = some receipt ∧ o.dnsName = some receipt.dnsName ∧ o.proxy = some BACKEND ∧
      o.funnelEnabled = false ∧ (inspectionOf o r).dnsName = some receipt.dnsName ∧
      receipt.httpsPort = 443 ∧ receipt.proxy = BACKEND ∧
      receipt.publicOrigin = (publicOrigin receipt.dnsName).getD "" := by
  unfold inspectionOf at h ⊢
  simp only at h ⊢
  split at h
  · cases h
  · next hocc =>
    rw [if_neg hocc]
    split at h
    · next dns proxy hd hp =>
      simp only at h
      split at h
      · next howned =>
        rw [Bool.and_eq_true, Bool.not_eq_true', Option.any_eq_true] at howned
        obtain ⟨hfunnel, receipt, hr, hmatch⟩ := howned
        simp only [Bool.and_eq_true, beq_iff_eq] at hmatch
        obtain ⟨⟨⟨⟨hport, hdns⟩, hproxy⟩, hback⟩, horigin⟩ := hmatch
        refine ⟨receipt, hr, by rw [hd, hdns], by rw [hp, ← hproxy, hback], hfunnel, ?_, hport,
          hback,
          ?_⟩
        · simp only [hdns]
        · rw [hdns]
          exact horigin
      · cases h
    · cases h

theorem dnsNameOf_valid (h : dnsNameOf v = .ok name) :
    publicOrigin name = some ("https://" ++ name) := by
  unfold dnsNameOf at h
  split at h
  · cases h
  · simp only at h
    split at h
    · cases h
    · next hvalid =>
      cases h
      exact if_pos (Classical.not_not.1 hvalid)

theorem stripPrefix_append (p s : String) : stripPrefix p (p ++ s) = some s := by
  unfold stripPrefix
  rw [String.toList_append, if_pos (List.isPrefixOf_iff_prefix.2 (List.prefix_append ..)),
    List.drop_left, String.ofList_toList]

theorem originValid_of (h : publicOrigin name = some ("https://" ++ name)) :
    originValid ("https://" ++ name) = true := by
  unfold originValid
  rw [stripPrefix_append]
  exact beq_iff_eq.2 h

/-- Without a receipt a rule of ours is a foreign one. -/
theorem inspection_ours (h : publicOrigin name = some ("https://" ++ name)) :
    (inspectionOf (ours name) r).dnsName = some name ∧
      (inspectionOf (ours name) r).proxy = some BACKEND ∧
      receiptFrom (inspectionOf (ours name) r) = .ok (receiptFor name) := by
  have horigin : (inspectionOf (ours name) r).publicOrigin = some ("https://" ++ name) := h
  refine ⟨rfl, rfl, ?_⟩
  unfold receiptFrom
  rw [horigin]
  rfl

theorem inspection_receipt (h : publicOrigin name = some ("https://" ++ name)) :
    (inspectionOf (ours name) (some (receiptFor name))).ownership = .owned := by
  unfold inspectionOf ours
  simp only [h]
  rw [if_neg (by decide)]
  simp [receiptFor]

/-- The stores of a host, whoever holds its lock. -/
def At (x h : Host) : Prop := ∃ b, h = { x with locked := b }

section Specs
variable {f : Point → Outcome} {x : Host}

theorem query_spec (p : Point) : Triple f (At x) (Proc.command p id) (fun _ => At x) (At x) := by
  apply Triple.command
  · intro h hat _
    split <;> exact hat
  · intro h hat _
    split <;> exact hat
  · intro text h hat _
    split <;> exact hat
  · intro h hat _
    split <;> exact hat

/-- An inspection shows the rules, and nothing changes. -/
theorem inspect_spec (site : Site) (r : Option ServeReceipt) :
    Triple f (At x) (inspectWithReceipt site r)
      (fun a h => At x h ∧ (inspectionFrom x.serve r = a ∨ ∃ e, a = .error e ∧ e ≠ .commandFailed))
      (At x) := by
  have herror (e : ServeError) (he : e ≠ .commandFailed) :
      Triple f (At x) (Pure.pure (Except.error e) : Call (Except ServeError ServeInspection))
        (fun a h => At x h ∧ (inspectionFrom x.serve r = a ∨
          ∃ e, a = .error e ∧ e ≠ .commandFailed)) (At x) :=
    .pure fun h hat => ⟨hat, .inr ⟨e, rfl, he⟩⟩
  have hcli (e : String) : (if notFound e then ServeError.notInstalled else .failed e) ≠
      .commandFailed := by
    split <;> exact ServeError.noConfusion
  apply Triple.bind (query_spec _)
  intro a
  cases a with
  | error e => exact herror _ (hcli e)
  | ok success =>
    cases success with
    | false => exact herror _ ServeError.noConfusion
    | true =>
      apply Triple.bind (query_spec _)
      intro a
      cases a with
      | error e => exact herror _ (hcli e)
      | ok success =>
        cases success with
        | false => exact herror _ ServeError.noConfusion
        | true =>
          apply Triple.bind (Triple.get (Q := fun a h => At x h ∧ a = h) fun h hat => ⟨hat, rfl⟩)
          intro host
          apply Triple.pure
          rintro h ⟨⟨b, rfl⟩, rfl⟩
          exact ⟨⟨b, rfl⟩, .inl rfl⟩

theorem pending_spec (p : Point) :
    Triple f (At x) (loadPending p) (fun pending h => At x h ∧ pending = x.journal) (At x) := by
  apply Triple.read
  · rintro pending h ⟨b, rfl⟩ hp
    cases hp
    exact ⟨⟨b, rfl⟩, rfl⟩
  · exact fun h hat => hat

theorem receipt_spec :
    Triple f (At x) loadReceipt (fun receipt h => At x h ∧ receipt = x.receipt) (At x) := by
  apply Triple.read
  · rintro receipt h ⟨b, rfl⟩ hr
    cases hr
    exact ⟨⟨b, rfl⟩, rfl⟩
  · exact fun h hat => hat

theorem refuse_spec {c : Prop} [Decidable c] (text : String) :
    Triple f (At x) (refuseIf c text) (fun _ h => At x h ∧ ¬ c) (At x) := by
  unfold refuseIf
  split
  · exact .fail fun h hat => hat
  · next hc => exact .pure fun h hat => ⟨hat, hc⟩

theorem name_spec (cli : Cli) (enabled : Bool) (current : ServeInspection) :
    Triple f (At x) (expectedName cli enabled current)
      (fun name h => At x h ∧ (enabled = true → ∃ n, dnsNameOf cli.status = .ok n ∧ name = some n))
      (At x) := by
  unfold expectedName
  split
  · apply Triple.bind (Q := fun n h => At x h ∧ dnsNameOf cli.status = .ok n)
    · apply Triple.bind (query_spec _)
      intro a
      cases a with
      | error e => exact .fail fun h hat => hat
      | ok success =>
        cases success with
        | false => exact .fail fun h hat => hat
        | true => exact .ofExcept (fun n h hn hat => ⟨hat, hn⟩) fun h hat => hat
    · intro n
      exact .pure fun h hat => ⟨hat.1, fun _ => ⟨n, hat.2, rfl⟩⟩
  · next hoff => exact .pure fun h hat => ⟨hat, fun hon => absurd hon hoff⟩

end Specs

/-- What the checks of a call establish. -/
structure Prepared (cli : Cli) (enabled : Bool) (x : Host) (r : Ready) : Prop where
  journal : x.journal = none
  receipt : r.receipt = x.receipt
  current : inspectionFrom x.serve x.receipt = .ok r.current
  absent : enabled = true → r.current.ownership = .absent ∧
    ∃ name, dnsNameOf cli.status = .ok name ∧ r.expectedDnsName = some name
  owned : enabled = false → r.current.ownership = .owned

theorem prepare_spec {f : Point → Outcome} {x : Host} (cli : Cli) (enabled abandoned : Bool) :
    Triple f (At x) (prepare cli enabled abandoned)
      (fun r h => At x h ∧ Prepared cli enabled x r) (At x) := by
  apply Triple.bind (Triple.read (Q := fun _ => At x) (fun _ _ hat _ => hat) fun _ hat => hat)
  intro _
  apply Triple.bind (Q := fun _ => At x)
  · unfold checkAbandoned
    split
    · apply Triple.learn (pending_spec _)
      intro _ _
      exact (refuse_spec _).conseq (fun _ => id) (fun _ _ h => h.1) fun _ => id
    · exact .pure fun h hat => hat
  intro _
  apply Triple.learn (pending_spec _)
  rintro pending rfl
  apply Triple.learn (refuse_spec _)
  intro _ hnone
  apply Triple.learn receipt_spec
  rintro receipt rfl
  apply Triple.learn (inspect_spec _ _)
  intro outcome houtcome
  apply Triple.bind (Q := fun current h => At x h ∧ inspectionFrom x.serve x.receipt = .ok current)
  · apply Triple.ofExcept _ fun h hat => hat
    intro current h hcurrent hat
    cases outcome with
    | error e => cases hcurrent
    | ok i =>
      cases hcurrent
      rcases houtcome with hi | ⟨e, he, -⟩
      · exact ⟨hat, hi⟩
      · cases he
  intro current
  apply Triple.given
  intro hcurrent
  apply Triple.learn (refuse_spec _)
  intro _ habsent
  apply Triple.learn (name_spec cli enabled current)
  intro name hname
  apply Triple.learn (refuse_spec _)
  intro _ howned
  apply Triple.pure
  intro h hat
  refine ⟨hat, Option.not_isSome_iff_eq_none.1 hnone, rfl, hcurrent, fun hon => ⟨?_, hname hon⟩, ?_⟩
  · exact Classical.byContradiction fun hne => habsent ⟨hon, hne⟩
  · intro hoff
    apply Classical.byContradiction
    intro hne
    exact howned ⟨by rw [hoff]; exact Bool.false_ne_true, .inl hne⟩

/-- The host after the command, which may have taken place. -/
def changedBy (f : Point → Outcome) (cli : Cli) (plan : ServePlan) (x : Host) : Host :=
  if (f .command).took then plan.change cli x else x

/-- The inspection that a successful `apply` ends with. -/
def Verified (plan : ServePlan) (v : Value) (i : ServeInspection) : Prop :=
  match plan with
  | .apply => ∃ a candidate, inspectionFrom v none = .ok a ∧ receiptFrom a = .ok candidate ∧
      inspectionFrom v (some candidate) = .ok i ∧ i.ownership = .owned
  | .remove => inspectionFrom v none = .ok i ∧ i.ownership = .absent

theorem verified_error {e : ServeError} (i : ServeInspection) (h : Except.error e = .ok i) :
    Verified plan v i := by
  cases h

theorem postcondition_spec {f : Point → Outcome} {x : Host} (plan : ServePlan)
    (hparse : parseStatus x.serve = .ok o) :
    Triple f (At x) (postcondition plan)
      (fun a h => At x h ∧ a ≠ .error .commandFailed ∧ ∀ i, a = .ok i → Verified plan x.serve i)
      (At x) := by
  have hread (r : Option ServeReceipt) : inspectionFrom x.serve r = .ok (inspectionOf o r) := by
    unfold inspectionFrom
    rw [hparse]
    rfl
  have herror (e : ServeError) (he : e ≠ .commandFailed) :
      Triple f (At x) (Pure.pure (Except.error e) : Call (Except ServeError ServeInspection))
        (fun a h => At x h ∧ a ≠ .error .commandFailed ∧ ∀ i, a = .ok i → Verified plan x.serve i)
        (At x) := by
    apply Triple.pure
    intro h hat
    exact ⟨hat, fun ha => he (Except.error.inj ha), verified_error⟩
  have hok (i : ServeInspection) (hi : Verified plan x.serve i) :
      Triple f (At x) (Pure.pure (Except.ok i) : Call (Except ServeError ServeInspection))
        (fun a h => At x h ∧ a ≠ .error .commandFailed ∧ ∀ i, a = .ok i → Verified plan x.serve i)
        (At x) := by
    apply Triple.pure
    intro h hat
    refine ⟨hat, nofun, fun j hj => ?_⟩
    cases hj
    exact hi
  have hcases {r : Option ServeReceipt} {a : Except ServeError ServeInspection}
      (ha : inspectionFrom x.serve r = a ∨ ∃ e, a = .error e ∧ e ≠ .commandFailed) :
      a = .ok (inspectionOf o r) ∨ ∃ e, a = .error e ∧ e ≠ .commandFailed := by
    rcases ha with ha | he
    · rw [hread] at ha
      exact .inl ha.symm
    · exact .inr he
  apply Triple.learn (inspect_spec _ _)
  intro a ha
  rcases hcases ha with rfl | ⟨e, rfl, he⟩
  · cases plan with
    | apply =>
      cases hr : receiptFrom (inspectionOf o none) with
      | error text =>
        simp only [hr]
        exact herror _ ServeError.noConfusion
      | ok candidate =>
        simp only [hr]
        apply Triple.learn (inspect_spec _ _)
        intro a ha
        rcases hcases ha with rfl | ⟨e, rfl, he⟩
        · by_cases howned : (inspectionOf o (some candidate)).ownership = .owned
          · simp only [howned, if_true]
            exact hok _ ⟨_, candidate, hread _, hr, hread _, howned⟩
          · simp only [howned, if_false]
            exact herror _ ServeError.noConfusion
        · exact herror _ he
    | remove =>
      by_cases habsent : (inspectionOf o none).ownership = .absent
      · simp only [habsent, if_true]
        exact hok _ ⟨hread _, habsent⟩
      · simp only [habsent, if_false]
        exact herror _ ServeError.noConfusion
  · exact herror _ he

/-- What `apply` tells of its command. -/
structure Ran (f : Point → Outcome) (cli : Cli) (plan : ServePlan) (x : Host)
    (a : Except ServeError ServeInspection) : Prop where
  failed : (f .command).report = .unsuccessful ↔ a = .error .commandFailed
  verified : ∀ i, a = .ok i → Verified plan (changedBy f cli plan x).serve i

theorem apply_spec {f : Point → Outcome} {x : Host} {cli : Cli} {plan : ServePlan}
    {current : ServeInspection}
    (hgo : plan = .apply ∧ current.ownership = .absent ∨
      plan = .remove ∧ current.ownership = .owned)
    (hparse : parseStatus (changedBy f cli plan x).serve = .ok o) :
    Triple f (At x) (apply cli plan current)
      (fun a h => At (changedBy f cli plan x) h ∧ Ran f cli plan x a)
      (fun h => At (changedBy f cli plan x) h ∧ (f .command).report ≠ .unsuccessful) := by
  have hchange (h : Host) (hat : At x h) :
      At (changedBy f cli plan x) (if (f .command).took then plan.change cli h else h) := by
    obtain ⟨b, rfl⟩ := hat
    unfold changedBy
    split
    · cases plan with
      | apply => exact ⟨b, rfl⟩
      | remove => exact ⟨b, rfl⟩
    · exact ⟨b, rfl⟩
  unfold apply
  rw [if_pos hgo]
  apply Triple.bind (Q := fun a h => At (changedBy f cli plan x) h ∧
    ((f .command).report = .unsuccessful ↔ a = .ok false))
  · apply Triple.command
    · exact fun h hat hr => ⟨hchange h hat, by rw [hr]; simp⟩
    · exact fun h hat hr => ⟨hchange h hat, by rw [hr]; simp⟩
    · exact fun text h hat hr => ⟨hchange h hat, by rw [hr]; simp⟩
    · exact fun h hat hr => ⟨hchange h hat, by rw [hr]; exact Report.noConfusion⟩
  intro a
  apply Triple.given
  intro ha
  cases a with
  | error e =>
    have hr : (f .command).report ≠ .unsuccessful := fun hr => nomatch ha.1 hr
    exact .pure fun h hat => ⟨hat, iff_of_false hr nofun, verified_error⟩
  | ok success =>
    cases success with
    | false => exact .pure fun h hat => ⟨hat, iff_of_true (ha.2 rfl) rfl, verified_error⟩
    | true =>
      have hr : (f .command).report ≠ .unsuccessful := fun hr => nomatch ha.1 hr
      apply (postcondition_spec plan hparse).conseq fun _ => id
      · exact fun a h ⟨hat, hne, hv⟩ => ⟨hat, iff_of_false hr hne, hv⟩
      · exact fun h hat => ⟨hat, hr⟩

def planOf (enabled : Bool) : ServePlan := if enabled then .apply else .remove

/-- The command was reached, and it changed the rules. -/
def Changed (f : Point → Outcome) : Prop :=
  (f .journal).report = .ok ∧ (f .command).took = true

/-- The journal was taken away because the command was reported as failed. -/
def Withdrawn (f : Point → Outcome) : Prop :=
  (f .journal).report = .ok ∧ (f .command).report = .unsuccessful ∧ (f .withdraw).wrote = true

/-- A journal of the call. -/
structure Journal (cli : Cli) (enabled : Bool) (p : PendingServe) : Prop where
  direction : p.enabled = enabled
  expected : enabled = true → ∃ name, dnsNameOf cli.status = .ok name ∧
    p.expectedDnsName = some name ∧ p.expectedProxy = BACKEND ∧
    (p.receipt = none ∨ p.receipt = some (receiptFor name))

/-- The call did all it should. -/
def Done (cli : Cli) (enabled : Bool) (x h : Host) : Prop :=
  h.journal = none ∧ h.serve = ((planOf enabled).change cli x).serve ∧
    if enabled then ∃ name, dnsNameOf cli.status = .ok name ∧ h.receipt = some (receiptFor name) ∧
      h.origin = some ("https://" ++ name)
    else h.receipt = none ∧ h.origin = none

/-- How a call may leave the host once it has passed its checks. -/
inductive Left (cli : Cli) (f : Point → Outcome) (enabled : Bool) (x h : Host) : Prop where
  | unwritten (hw : (f .journal).wrote = false) (hat : At x h)
  | unchanged (hw : (f .journal).wrote = true) (hn : ¬ Withdrawn f) (hc : ¬ Changed f)
      (p : PendingServe) (hj : Journal cli enabled p) (hat : At { x with journal := some p } h)
  | withdrawn (hw : (f .journal).wrote = true) (hwd : Withdrawn f)
      (hat : At (changedBy f cli (planOf enabled) x) h)
  | changed (hw : (f .journal).wrote = true) (hn : ¬ Withdrawn f) (hc : Changed f)
      (p : PendingServe) (hj : Journal cli enabled p) (hjournal : h.journal = some p)
      (hserve : h.serve = ((planOf enabled).change cli x).serve)
  | done (hw : (f .journal).wrote = true) (hn : ¬ Withdrawn f) (hc : Changed f)
      (hd : Done cli enabled x h)

section Branches
variable {f : Point → Outcome} {x : Host} {cli : Cli} {enabled : Bool} {p : PendingServe}

theorem change_journal (plan : ServePlan) (x : Host) (j : Option PendingServe) :
    plan.change cli { x with journal := j } = { plan.change cli x with journal := j } := by
  cases plan with
  | apply => rfl
  | remove => rfl

/-- The call stops after its command. -/
theorem left_stopped (hw : (f .journal).report = .ok) (hn : ¬ Withdrawn f)
    (hj : Journal cli enabled p)
    (hat : At (changedBy f cli (planOf enabled) { x with journal := some p }) h) :
    Left cli f enabled x h := by
  have hwrote := Outcome.wrote_of_ok hw
  unfold changedBy at hat
  split at hat
  · next htook =>
    rw [change_journal] at hat
    obtain ⟨b, rfl⟩ := hat
    exact .changed hwrote hn ⟨hw, htook⟩ p hj rfl rfl
  · next htook => exact .unchanged hwrote hn (fun hc => htook hc.2) p hj hat

theorem changedBy_journal (plan : ServePlan) (j : Option PendingServe) :
    changedBy f cli plan { x with journal := j } =
      { changedBy f cli plan x with journal := j } := by
  unfold changedBy
  split
  · exact change_journal plan x j
  · rfl

/-- The journal is written, or the call stops. -/
theorem journal_spec (hj : Journal cli enabled p) :
    Triple f (At x) (writePending .journal p)
      (fun _ h => At { x with journal := some p } h ∧ (f .journal).report = .ok)
      (Left cli f enabled x) := by
  apply Triple.act
  · rintro h ⟨b, rfl⟩ hr
    exact ⟨⟨b, rfl⟩, hr⟩
  · rintro h ⟨b, rfl⟩ hr
    have hn : ¬ Withdrawn f := fun hwd => hr hwd.1
    have hc : ¬ Changed f := fun hc => hr hc.1
    cases htook : (f .journal).took with
    | true => exact .unchanged (Outcome.wrote_of_took htook) hn hc p hj ⟨b, rfl⟩
    | false => exact .unwritten (Outcome.wrote_eq_false htook hr) ⟨b, rfl⟩

/-- The journal is taken away after a command that was reported as failed, or that fails too. -/
theorem withdraw_spec (hx : x.journal = none) (hj : Journal cli enabled p)
    (hw : (f .journal).report = .ok) (hu : (f .command).report = .unsuccessful) :
    Triple f (At (changedBy f cli (planOf enabled) { x with journal := some p }))
      (removePending .withdraw) (fun _ => Left cli f enabled x) (Left cli f enabled x) := by
  have hwrote := Outcome.wrote_of_ok hw
  have hgone (h : Host)
      (hat : At (changedBy f cli (planOf enabled) { x with journal := some p }) h) :
      At (changedBy f cli (planOf enabled) x) { h with journal := none } := by
    have hnone : (changedBy f cli (planOf enabled) x).journal = none := by
      have hkeep : changedBy f cli (planOf enabled) { x with journal := x.journal } =
          { changedBy f cli (planOf enabled) x with journal := x.journal } :=
        changedBy_journal _ _
      exact (congrArg Host.journal hkeep).trans hx
    rw [changedBy_journal] at hat
    obtain ⟨b, rfl⟩ := hat
    exact ⟨b, congrArg (fun j => { changedBy f cli (planOf enabled) x with
      journal := j
      locked := b }) hnone.symm⟩
  apply Triple.act
  · intro h hat hr
    exact .withdrawn hwrote ⟨hw, hu, Outcome.wrote_of_ok hr⟩ (hgone h hat)
  · intro h hat hr
    split
    · next htook => exact .withdrawn hwrote ⟨hw, hu, Outcome.wrote_of_took htook⟩ (hgone h hat)
    · next htook =>
      have hwd := Outcome.wrote_eq_false (Bool.eq_false_of_not_eq_true htook) hr
      refine left_stopped hw (fun hwithdrawn => ?_) hj hat
      rw [hwithdrawn.2.2] at hwd
      cases hwd

variable (enabled) in
/-- The command has run, and nothing else was done after the journal. -/
theorem attempt_spec (hx : x.journal = none) (hj : Journal cli enabled p)
    (hgo : planOf enabled = .apply ∧ current.ownership = .absent ∨
      planOf enabled = .remove ∧ current.ownership = .owned)
    (hparse : parseStatus (changedBy f cli (planOf enabled) x).serve = .ok o) :
    Triple f (At x) (attempt cli (planOf enabled) p current)
      (fun i h => At (changedBy f cli (planOf enabled) { x with journal := some p }) h ∧
        (f .journal).report = .ok ∧ (f .command).report ≠ .unsuccessful ∧
        Verified (planOf enabled) (changedBy f cli (planOf enabled) x).serve i)
      (Left cli f enabled x) := by
  apply Triple.learn (journal_spec hj)
  intro _ hw
  have hparse' : parseStatus
      (changedBy f cli (planOf enabled) { x with journal := some p }).serve = .ok o := by
    rw [changedBy_journal]
    exact hparse
  apply Triple.bind ((apply_spec hgo hparse').conseq (fun _ => id) (fun _ _ => id) fun h hat =>
    left_stopped hw (fun hwd => hat.2 hwd.2.1) hj hat.1)
  intro outcome
  apply Triple.given
  intro hran
  have hstop (e : ServeError) (ho : outcome = .error e) (he : e ≠ .commandFailed) :
      Triple f (At (changedBy f cli (planOf enabled) { x with journal := some p }))
        (Proc.fail e.text : Call ServeInspection)
        (fun i h => At (changedBy f cli (planOf enabled) { x with journal := some p }) h ∧
          (f .journal).report = .ok ∧ (f .command).report ≠ .unsuccessful ∧
          Verified (planOf enabled) (changedBy f cli (planOf enabled) x).serve i)
        (Left cli f enabled x) := by
    apply Triple.fail
    intro h hat
    apply left_stopped hw _ hj hat
    intro hwd
    exact he (Except.error.inj (ho.symm.trans (hran.failed.1 hwd.2.1)))
  cases outcome with
  | ok i =>
    apply Triple.pure
    intro h hat
    have hv := hran.verified i rfl
    rw [changedBy_journal] at hv
    exact ⟨hat, hw, fun hu => (nomatch hran.failed.1 hu), hv⟩
  | error e =>
    cases e with
    | commandFailed =>
      apply Triple.bind (withdraw_spec hx hj hw (hran.failed.2 rfl))
      intro _
      exact .fail fun h hleft => hleft
    | notInstalled => exact hstop _ rfl ServeError.noConfusion
    | failed text => exact hstop _ rfl ServeError.noConfusion

end Branches

theorem inspectionFrom_ok (h : inspectionFrom v r = .ok i) :
    ∃ o, parseStatus v = .ok o ∧ i = inspectionOf o r := by
  unfold inspectionFrom at h
  cases hp : parseStatus v with
  | error e =>
    rw [hp] at h
    cases h
  | ok o =>
    rw [hp] at h
    cases h
    exact ⟨o, rfl, rfl⟩

theorem inspectionFrom_of (h : parseStatus v = .ok o) (r : Option ServeReceipt) :
    inspectionFrom v r = .ok (inspectionOf o r) := by
  unfold inspectionFrom
  rw [h]
  rfl

section Enable
variable {f : Point → Outcome} {x : Host} {cli : Cli} {r : Ready}

/-- The command puts a rule of ours where there was none. -/
theorem applied_parse (hp : Prepared cli true x r) (hname : dnsNameOf cli.status = .ok name) :
    parseStatus (cli.applied x.serve) = .ok (ours name) ∧
      ∃ o, parseStatus x.serve = .ok o ∧ o.occupied = false ∧
        r.current = inspectionOf o x.receipt := by
  obtain ⟨o, ho, hcurrent⟩ := inspectionFrom_ok hp.current
  have hocc : o.occupied = false := by
    apply inspection_absent.1
    rw [← hcurrent]
    exact (hp.absent rfl).1
  exact ⟨cli.applied_rule x.serve o name ho hocc hname, o, ho, hocc, hcurrent⟩

/-- A rule that was verified is the one that the command made. -/
theorem verified_enable (hp : Prepared cli true x r) (hname : dnsNameOf cli.status = .ok name)
    (hv : Verified .apply (changedBy f cli .apply x).serve i) :
    (f .command).took = true ∧ receiptFrom i = .ok (receiptFor name) ∧
      i.publicOrigin = some ("https://" ++ name) := by
  have horigin := dnsNameOf_valid hname
  obtain ⟨hours, o, ho, hocc, -⟩ := applied_parse hp hname
  obtain ⟨a, candidate, ha, hcandidate, hi, -⟩ := hv
  unfold changedBy at ha hi
  split at ha
  · next htook =>
    rw [if_pos htook] at hi
    obtain ⟨-, -, hreceipt⟩ := inspection_ours (r := none) horigin
    have ha' : inspectionFrom (cli.applied x.serve) none = .ok a := ha
    have hi' : inspectionFrom (cli.applied x.serve) (some candidate) = .ok i := hi
    rw [inspectionFrom_of hours] at ha' hi'
    cases ha'
    cases hi'
    exact ⟨htook, (inspection_ours horigin).2.2, horigin⟩
  · rw [inspectionFrom_of ho] at ha
    cases ha
    unfold inspectionOf at hcandidate
    rw [if_pos (by rw [hocc]; exact Bool.false_ne_true)] at hcandidate
    cases hcandidate

theorem enable_spec (running : Option String) (hp : Prepared cli true x r) :
    Triple f (At x) (enable cli running r) (fun _ => Left cli f true x) (Left cli f true x) := by
  obtain ⟨habsent, name, hname, hexpected⟩ := hp.absent rfl
  have horigin := dnsNameOf_valid hname
  obtain ⟨hours, o, ho, hocc, -⟩ := applied_parse hp hname
  have hj : Journal cli true ⟨true, none, r.expectedDnsName, BACKEND⟩ :=
    ⟨rfl, fun _ => ⟨name, hname, hexpected, rfl, .inl rfl⟩⟩
  have hj' : Journal cli true ⟨true, some (receiptFor name), r.expectedDnsName, BACKEND⟩ :=
    ⟨rfl, fun _ => ⟨name, hname, hexpected, rfl, .inr rfl⟩⟩
  obtain ⟨o', hparse⟩ : ∃ o', parseStatus (changedBy f cli .apply x).serve = .ok o' := by
    unfold changedBy
    split
    · exact ⟨_, hours⟩
    · exact ⟨o, ho⟩
  apply Triple.learn (attempt_spec true hp.journal hj (.inl ⟨rfl, habsent⟩) hparse)
  rintro after ⟨hw, hu, hv⟩
  obtain ⟨htook, hreceipt, hpublic⟩ := verified_enable hp hname hv
  have hchanged : changedBy f cli (planOf true)
      { x with journal := some ⟨true, none, r.expectedDnsName, BACKEND⟩ } =
      { ServePlan.apply.change cli x with
        journal := some ⟨true, none, r.expectedDnsName, BACKEND⟩ } := if_pos htook
  rw [hchanged, hreceipt, hpublic]
  have hwrote := Outcome.wrote_of_ok hw
  have hn : ¬ Withdrawn f := fun hwd => hu hwd.2.1
  -- the journal stays while the receipt and the origin change
  have hleft {p : PendingServe} (hjp : Journal cli true p) (rc : Option ServeReceipt)
      (origin : Option String) (h : Host) (hat : At { ServePlan.apply.change cli x with
        journal := some p
        receipt := rc
        origin } h) : Left cli f true x h := by
    obtain ⟨b, rfl⟩ := hat
    exact .changed hwrote hn ⟨hw, htook⟩ p hjp rfl rfl
  have hdone (h : Host) (hd : Done cli true x h) : Left cli f true x h :=
    .done hwrote hn ⟨hw, htook⟩ hd
  apply Triple.bind (Q := fun newReceipt h => At { ServePlan.apply.change cli x with
    journal := some ⟨true, none, r.expectedDnsName, BACKEND⟩ } h ∧ newReceipt = receiptFor name)
  · apply Triple.ofExcept
    · intro newReceipt h he hat
      cases he
      exact ⟨hat, rfl⟩
    · exact hleft hj _ _
  intro newReceipt
  apply Triple.given
  rintro rfl
  apply Triple.bind (Triple.update (Q := At { ServePlan.apply.change cli x with
    journal := some ⟨true, some (receiptFor name), r.expectedDnsName, BACKEND⟩ }) _ (hleft hj _ _)
    (hleft hj' _ _))
  · intro _
    apply Triple.bind (Triple.update (Q := At { ServePlan.apply.change cli x with
      journal := some ⟨true, some (receiptFor name), r.expectedDnsName, BACKEND⟩
      receipt := some (receiptFor name) }) _ (hleft hj' _ _) (hleft hj' _ _))
    · intro _
      apply Triple.bind (Q := fun _ => At { ServePlan.apply.change cli x with
        journal := some ⟨true, some (receiptFor name), r.expectedDnsName, BACKEND⟩
        receipt := some (receiptFor name)
        origin := some ("https://" ++ name) })
      · have hvalid : (some ("https://" ++ name)).all originValid = true := originValid_of horigin
        unfold updatePublicOrigin
        rw [if_pos hvalid]
        apply Triple.update _ (hleft hj' _ _) (hleft hj' _ _)
        rintro h ⟨b, rfl⟩
        exact ⟨b, rfl⟩
      intro _
      apply Triple.bind (Triple.update (Q := Done cli true x) _ (hleft hj' _ _) hdone)
      · intro _
        apply Triple.bind (Triple.read (Q := fun _ => Done cli true x) (fun _ h hd _ => hd) hdone)
        intro _
        exact .pure hdone
      · rintro h ⟨b, rfl⟩
        exact ⟨rfl, rfl, name, hname, rfl, rfl⟩
    · rintro h ⟨b, rfl⟩
      exact ⟨b, rfl⟩
  · rintro h ⟨b, rfl⟩
    exact ⟨b, rfl⟩

end Enable

section Disable
variable {f : Point → Outcome} {x : Host} {cli : Cli} {r : Ready}

/-- The rule of a matching receipt goes with the command. -/
theorem removed_parse (hp : Prepared cli false x r) :
    parseStatus (cli.removed x.serve) = .ok unused ∧
      ∃ o, parseStatus x.serve = .ok o ∧ o.occupied = true ∧ r.receipt ≠ none := by
  obtain ⟨o, ho, hcurrent⟩ := inspectionFrom_ok hp.current
  have howned : (inspectionOf o x.receipt).ownership = .owned := by
    rw [← hcurrent]
    exact hp.owned rfl
  obtain ⟨receipt, hreceipt, hdns, hproxy, hfunnel, -⟩ := inspection_owned howned
  refine ⟨cli.removed_rule x.serve o _ ho hdns hproxy hfunnel, o, ho, ?_, ?_⟩
  · apply Bool.eq_true_of_not_eq_false
    intro hocc
    rw [inspection_absent.2 hocc] at howned
    cases howned
  · rw [hp.receipt, hreceipt]
    exact Option.some_ne_none _

theorem verified_disable (hp : Prepared cli false x r)
    (hv : Verified .remove (changedBy f cli .remove x).serve i) : (f .command).took = true := by
  obtain ⟨-, o, ho, hocc, -⟩ := removed_parse hp
  obtain ⟨hi, habsent⟩ := hv
  unfold changedBy at hi
  split at hi
  · next htook => exact htook
  · rw [inspectionFrom_of ho] at hi
    cases hi
    rw [inspection_absent.1 habsent] at hocc
    cases hocc

theorem disable_spec (running : Option String) (hp : Prepared cli false x r) :
    Triple f (At x) (disable cli running r) (fun _ => Left cli f false x) (Left cli f false x) := by
  obtain ⟨hremoved, o, ho, -, -⟩ := removed_parse hp
  have hj : Journal cli false ⟨false, r.receipt, r.expectedDnsName, BACKEND⟩ :=
    ⟨rfl, fun hon => nomatch hon⟩
  obtain ⟨o', hparse⟩ : ∃ o', parseStatus (changedBy f cli .remove x).serve = .ok o' := by
    unfold changedBy
    split
    · exact ⟨_, hremoved⟩
    · exact ⟨o, ho⟩
  apply Triple.learn (attempt_spec false hp.journal hj (.inr ⟨rfl, hp.owned rfl⟩) hparse)
  rintro after ⟨hw, hu, hv⟩
  have htook := verified_disable hp hv
  have hchanged : changedBy f cli (planOf false)
      { x with journal := some ⟨false, r.receipt, r.expectedDnsName, BACKEND⟩ } =
      { ServePlan.remove.change cli x with
        journal := some ⟨false, r.receipt, r.expectedDnsName, BACKEND⟩ } := if_pos htook
  rw [hchanged]
  have hwrote := Outcome.wrote_of_ok hw
  have hn : ¬ Withdrawn f := fun hwd => hu hwd.2.1
  have hleft (rc : Option ServeReceipt) (origin : Option String) (h : Host)
      (hat : At { ServePlan.remove.change cli x with
        journal := some ⟨false, r.receipt, r.expectedDnsName, BACKEND⟩
        receipt := rc
        origin } h) : Left cli f false x h := by
    obtain ⟨b, rfl⟩ := hat
    exact .changed hwrote hn ⟨hw, htook⟩ _ hj rfl rfl
  have hdone (h : Host) (hd : Done cli false x h) : Left cli f false x h :=
    .done hwrote hn ⟨hw, htook⟩ hd
  apply Triple.bind (Triple.update (Q := At { ServePlan.remove.change cli x with
    journal := some ⟨false, r.receipt, r.expectedDnsName, BACKEND⟩
    receipt := none }) _ (hleft _ _) (hleft _ _))
  · intro _
    apply Triple.bind (Triple.update (Q := At { ServePlan.remove.change cli x with
      journal := some ⟨false, r.receipt, r.expectedDnsName, BACKEND⟩
      receipt := none
      origin := none }) _ (hleft _ _) (hleft _ _))
    · intro _
      apply Triple.bind (Triple.update (Q := Done cli false x) _ (hleft _ _) hdone)
      · intro _
        apply Triple.bind (Triple.read (Q := fun _ => Done cli false x) (fun _ h hd _ => hd) hdone)
        intro _
        exact .pure hdone
      · rintro h ⟨b, rfl⟩
        exact ⟨rfl, rfl, rfl, rfl⟩
    · rintro h ⟨b, rfl⟩
      exact ⟨b, rfl⟩
  · rintro h ⟨b, rfl⟩
    exact ⟨b, rfl⟩

end Disable

/-- The call passes its checks, and comes to its journal. -/
def Reaches (cli : Cli) (f : Point → Outcome) (request : ServeRequest) (x : Host) : Prop :=
  request.consent = true ∧ (f .acquire).report = .ok ∧
    ∃ r h, prepare cli request.enabled x.locked f { x with locked := true } = (.ok r, h)

theorem Left.unlocked (h : Left cli f enabled x y) (b : Bool) :
    Left cli f enabled x { y with locked := b } := by
  cases h with
  | unwritten hw hat =>
    obtain ⟨c, rfl⟩ := hat
    exact .unwritten hw ⟨b, rfl⟩
  | unchanged hw hn hc p hj hat =>
    obtain ⟨c, rfl⟩ := hat
    exact .unchanged hw hn hc p hj ⟨b, rfl⟩
  | withdrawn hw hwd hat =>
    obtain ⟨c, rfl⟩ := hat
    exact .withdrawn hw hwd ⟨b, rfl⟩
  | changed hw hn hc p hj hjournal hserve => exact .changed hw hn hc p hj hjournal hserve
  | done hw hn hc hd => exact .done hw hn hc hd

/-- The checks decide whether the call comes to its journal. -/
theorem reaches_spec {f : Point → Outcome} {request : ServeRequest} (x : Host)
    (hconsent : request.consent = true) (hok : (f .acquire).report = .ok) :
    Triple f (fun h => h = { x with locked := true })
      (prepare cli request.enabled x.locked)
      (fun r h => At x h ∧ Prepared cli request.enabled x r ∧ Reaches cli f request x)
      (fun h => At x h ∧ ¬ Reaches cli f request x) := by
  rintro h rfl
  have hends := prepare_spec (f := f) cli request.enabled x.locked { x with locked := true }
    ⟨true, rfl⟩
  have hreach : Reaches cli f request x ↔
      ∃ r h, prepare cli request.enabled x.locked f { x with locked := true } = (.ok r, h) :=
    ⟨fun h => h.2.2, fun h => ⟨hconsent, hok, h⟩⟩
  rw [hreach]
  generalize prepare cli request.enabled x.locked f { x with locked := true } = r at hends ⊢
  obtain ⟨e, h⟩ := r
  cases e with
  | ok r => exact ⟨hends.1, hends.2, r, h, rfl⟩
  | error text => exact ⟨hends, fun ⟨r, h, he⟩ => nomatch he⟩
  | crashed => exact ⟨hends, fun ⟨r, h, he⟩ => nomatch he⟩

theorem acquire_spec {f : Point → Outcome} (x : Host) :
    Triple f (fun h => h = x) acquire
      (fun abandoned h => h = { x with locked := true } ∧ abandoned = x.locked ∧
        (f .acquire).report = .ok)
      (fun h => At x h ∧ (f .acquire).report ≠ .ok) := by
  apply Triple.learn (Triple.get (Q := fun a h => h = x ∧ a = x) fun h hx => ⟨hx, hx⟩)
  rintro host rfl
  apply Triple.bind (Triple.act (Q := fun _ h => h = { host with locked := true } ∧
    (f .acquire).report = .ok) _ _)
  · intro _
    exact .pure fun h hx => ⟨hx.1, rfl, hx.2⟩
  · rintro h rfl hr
    exact ⟨rfl, hr⟩
  · rintro h rfl hr
    refine ⟨?_, hr⟩
    split
    · exact ⟨true, rfl⟩
    · exact ⟨h.locked, rfl⟩

theorem acquire_keeps {f : Point → Outcome} (x : Host) :
    Triple f (At x) acquire (fun _ => At x) (At x) := by
  rintro h ⟨b, rfl⟩
  apply (acquire_spec { x with locked := b } _ rfl).imp
  · rintro _ _ ⟨rfl, -⟩
    exact ⟨true, rfl⟩
  · rintro _ ⟨⟨c, rfl⟩, -⟩
    exact ⟨c, rfl⟩

/-- A call leaves the host as it was, or as its branch leaves it. -/
theorem set_left (cli : Cli) (running : Option String) (f : Point → Outcome)
    (request : ServeRequest) (x : Host) :
    (¬ Reaches cli f request x ∧ At x (setTailscaleServe cli running request f x).2) ∨
    (Reaches cli f request x ∧ (∃ r, Prepared cli request.enabled x r) ∧
      Left cli f request.enabled x (setTailscaleServe cli running request f x).2) := by
  unfold setTailscaleServe
  split
  · next hno => exact .inl ⟨fun h => hno h.1, x.locked, rfl⟩
  next hyes =>
  have hconsent : request.consent = true := Classical.not_not.1 hyes
  apply Ends.left (C := fun h => (¬ Reaches cli f request x ∧ At x h) ∨
    (Reaches cli f request x ∧ (∃ r, Prepared cli request.enabled x r) ∧
      Left cli f request.enabled x h))
  apply Triple.bind ((acquire_spec x).conseq (fun _ => id) (fun _ _ => id) fun h hx =>
    .inl ⟨fun hr => hx.2 hr.2.1, hx.1⟩)
  · intro abandoned
    apply Triple.given
    rintro ⟨rfl, hok⟩
    apply Triple.ensure (R := fun _ h => Left cli f request.enabled x h ∧
      Reaches cli f request x ∧ ∃ r, Prepared cli request.enabled x r)
      (D := fun h => (¬ Reaches cli f request x ∧ At x h) ∨
        (Reaches cli f request x ∧ (∃ r, Prepared cli request.enabled x r) ∧
          Left cli f request.enabled x h))
    · apply Triple.bind ((reaches_spec x hconsent hok).conseq (fun _ => id) (fun _ _ => id)
        fun h hx => .inl ⟨hx.2, hx.1⟩)
      intro r
      apply Triple.given
      rintro ⟨hp, hreach⟩
      have hspec (q : Call ServeInspection) (hq : Triple f (At x) q
          (fun _ => Left cli f request.enabled x) (Left cli f request.enabled x)) :
          Triple f (At x) q (fun _ h => Left cli f request.enabled x h ∧
            Reaches cli f request x ∧ ∃ r, Prepared cli request.enabled x r)
            (fun h => (¬ Reaches cli f request x ∧ At x h) ∨
              (Reaches cli f request x ∧ (∃ r, Prepared cli request.enabled x r) ∧
                Left cli f request.enabled x h)) :=
        hq.conseq (fun _ => id) (fun _ h hl => ⟨hl, hreach, r, hp⟩)
          fun h hl => .inr ⟨hreach, ⟨r, hp⟩, hl⟩
      cases hen : request.enabled with
      | true =>
        rw [hen] at hp hspec
        exact hspec _ (enable_spec running hp)
      | false =>
        rw [hen] at hp hspec
        exact hspec _ (disable_spec running hp)
    · exact fun _ h hl => .inr ⟨hl.2.1, hl.2.2, hl.1.unlocked false⟩
    · rintro h (⟨hr, b, rfl⟩ | ⟨hr, hp, hl⟩)
      · exact ⟨.inl ⟨hr, b, rfl⟩, .inl ⟨hr, false, rfl⟩⟩
      · exact ⟨.inr ⟨hr, hp, hl⟩, .inr ⟨hr, hp, hl.unlocked false⟩⟩
  · rfl

/-- Nothing happens to the call. -/
def fine : Point → Outcome := fun _ => .fine

section Recovery
variable {y z : Host}

theorem inspect_fine (site : Site) (r : Option ServeReceipt) :
    Triple fine (At y) (inspectWithReceipt site r)
      (fun a h => At y h ∧ a = inspectionFrom y.serve r) C := by
  rintro h ⟨b, rfl⟩
  exact ⟨⟨b, rfl⟩, rfl⟩

theorem acquire_fine : Triple fine (At y) acquire (fun _ => At y) C := by
  rintro h ⟨b, rfl⟩
  exact ⟨true, rfl⟩

theorem answer_spec {f : Point → Outcome} (running : Option String) (value : ServeInspection) :
    Triple f (At z) (answer running value) (fun _ => At z) (At z) := by
  apply Triple.bind (Triple.read (fun _ _ hat _ => hat) fun _ hat => hat)
  intro _
  exact .pure fun _ hat => hat

/-- A status call that finds a journal does what its recovery does. -/
theorem status_pending (running : Option String) (hj : y.journal = some p)
    (hv : inspectionFrom y.serve y.receipt = .ok value)
    (hrec : Triple fine (At y) (recover p value) (fun _ => At z) (At z)) :
    Triple fine (At y) (tailscaleStatus running) (fun _ => At z) (At z) := by
  apply Triple.bind acquire_fine
  intro abandoned
  apply Triple.ensure (R := fun _ => At z) (D := At z)
  · apply Triple.bind (Triple.reads (Q := fun receipt h => At y h ∧ receipt = y.receipt) rfl _)
    · intro receipt
      apply Triple.given
      rintro rfl
      apply Triple.bind (Triple.reads (Q := fun pending h => At y h ∧ pending = some p) rfl _)
      · intro pending
        apply Triple.given
        rintro rfl
        apply Triple.bind (Q := fun _ => At y)
        · unfold refuseIf
          rw [if_neg (fun h => nomatch h.2)]
          exact .pure fun _ hat => hat
        intro _
        apply Triple.learn (inspect_fine _ _)
        rintro outcome rfl
        rw [hv]
        apply Triple.bind hrec
        exact fun value => answer_spec running value
      · rintro h ⟨b, rfl⟩
        exact ⟨_, rfl, ⟨b, rfl⟩, hj⟩
    · rintro h ⟨b, rfl⟩
      exact ⟨_, rfl, ⟨b, rfl⟩, rfl⟩
  · rintro _ h ⟨b, rfl⟩
    exact ⟨false, rfl⟩
  · rintro h ⟨b, rfl⟩
    exact ⟨⟨b, rfl⟩, false, rfl⟩

/-- Recovery has no branch that gives an enabling call up. -/
theorem recover_unused (hen : p.enabled = true)
    (ho : parseStatus y.serve = .ok o) (hocc : o.occupied = false) :
    Triple fine (At y) (recover p (inspectionOf o r)) (fun _ => At y) (At y) := by
  unfold recover
  rw [if_pos hen]
  cases recoveredReceipt p (inspectionOf o r) with
  | none => exact .pure fun _ hat => hat
  | some candidate =>
    have habsent : (inspectionOf o (some candidate)).ownership ≠ .owned := by
      rw [inspection_absent.2 hocc]
      exact ServeOwnership.noConfusion
    apply Triple.learn (inspect_fine _ _)
    rintro outcome rfl
    rw [inspectionFrom_of ho]
    apply Triple.bind (Triple.pure (Q := fun value h => At y h ∧ value = inspectionOf o candidate)
      fun _ hat => ⟨hat, rfl⟩)
    intro value
    apply Triple.given
    rintro rfl
    rw [if_neg habsent]
    exact .pure fun _ hat => hat

/-- Nor one that gives a disabling call up. -/
theorem recover_owned (hen : p.enabled = false) (hvalue : value.ownership = .owned) :
    Triple fine (At y) (recover p value) (fun _ => At y) (At y) := by
  unfold recover
  rw [if_neg (by rw [hen]; exact Bool.false_ne_true),
    if_neg (by rw [hvalue]; exact ServeOwnership.noConfusion)]
  exact .pure fun _ hat => hat

theorem recovered_ours (hname : publicOrigin name = some ("https://" ++ name))
    (hexpected : p.expectedDnsName = some name) (hproxy : p.expectedProxy = BACKEND)
    (hreceipt : p.receipt = none ∨ p.receipt = some (receiptFor name)) :
    recoveredReceipt p (inspectionOf (ours name) r) = some (receiptFor name) := by
  obtain ⟨hdns, hp, hr⟩ := inspection_ours (r := r) hname
  unfold recoveredReceipt
  rcases hreceipt with hnone | hsome
  · rw [hnone, Option.none_or, if_pos ⟨by rw [hp, hproxy], by rw [hdns, hexpected]⟩, hr]
    rfl
  · rw [hsome]
    rfl

/-- Recovery ends an enabling call whose rule is there. -/
theorem recover_ours (hname : publicOrigin name = some ("https://" ++ name))
    (hen : p.enabled = true) (hserve : parseStatus y.serve = .ok (ours name))
    (hexpected : p.expectedDnsName = some name) (hproxy : p.expectedProxy = BACKEND)
    (hreceipt : p.receipt = none ∨ p.receipt = some (receiptFor name)) :
    Triple fine (At y) (recover p (inspectionOf (ours name) r))
      (fun _ => At { y with
        receipt := some (receiptFor name)
        origin := some ("https://" ++ name)
        journal := none }) C := by
  have howned := inspection_receipt hname
  unfold recover
  rw [if_pos hen, recovered_ours hname hexpected hproxy hreceipt]
  apply Triple.learn (inspect_fine _ _)
  rintro outcome rfl
  rw [inspectionFrom_of hserve]
  apply Triple.bind (Triple.pure (Q := fun value h =>
    At y h ∧ value = inspectionOf (ours name) (some (receiptFor name))) fun _ hat => ⟨hat, rfl⟩)
  intro value
  apply Triple.given
  rintro rfl
  rw [if_pos howned]
  apply Triple.bind (Triple.acts (Q := fun _ => At { y with receipt := some (receiptFor name) })
    rfl _)
  · intro _
    apply Triple.bind (Q := fun _ => At { y with
      receipt := some (receiptFor name)
      origin := some ("https://" ++ name) })
    · have hvalid : (some ("https://" ++ name)).all originValid = true := originValid_of hname
      have horigin : (inspectionOf (ours name) (some (receiptFor name))).publicOrigin =
          some ("https://" ++ name) := hname
      unfold updatePublicOrigin
      rw [horigin, if_pos hvalid]
      apply Triple.acts rfl
      rintro h ⟨b, rfl⟩
      exact ⟨b, rfl⟩
    intro _
    apply Triple.bind (Triple.acts (Q := fun _ => At { y with
      receipt := some (receiptFor name)
      origin := some ("https://" ++ name)
      journal := none }) rfl _)
    · intro _
      exact .pure fun _ hat => hat
    · rintro h ⟨b, rfl⟩
      exact ⟨b, rfl⟩
  · rintro h ⟨b, rfl⟩
    exact ⟨b, rfl⟩

/-- Recovery ends a disabling call whose rule is gone. -/
theorem recover_absent (hen : p.enabled = false) (hvalue : value.ownership = .absent) :
    Triple fine (At y) (recover p value)
      (fun _ => At { y with
        receipt := none
        origin := none
        journal := none }) C := by
  unfold recover
  rw [if_neg (by rw [hen]; exact Bool.false_ne_true), if_pos hvalue]
  apply Triple.bind (Triple.acts (Q := fun _ => At { y with receipt := none }) rfl _)
  · intro _
    apply Triple.bind (Triple.acts (Q := fun _ => At { y with
      receipt := none
      origin := none }) rfl _)
    · intro _
      apply Triple.bind (Triple.acts (Q := fun _ => At { y with
        receipt := none
        origin := none
        journal := none }) rfl _)
      · intro _
        exact .pure fun _ hat => hat
      · rintro h ⟨b, rfl⟩
        exact ⟨b, rfl⟩
    · rintro h ⟨b, rfl⟩
      exact ⟨b, rfl⟩
  · rintro h ⟨b, rfl⟩
    exact ⟨b, rfl⟩

/-- A status call without a journal changes nothing. -/
theorem status_settled {f : Point → Outcome} (running : Option String) (hj : y.journal = none) :
    Triple f (At y) (tailscaleStatus running) (fun _ => At y) (At y) := by
  apply Triple.bind (acquire_keeps y)
  intro abandoned
  apply Triple.ensure (R := fun _ => At y) (D := At y)
  · apply Triple.learn receipt_spec
    rintro receipt rfl
    apply Triple.learn (pending_spec _)
    rintro pending rfl
    apply Triple.learn (refuse_spec _)
    intro _ _
    apply Triple.learn (inspect_spec _ _)
    intro outcome _
    cases outcome with
    | ok value =>
      rw [hj]
      exact answer_spec running value
    | error e =>
      cases e with
      | notInstalled => exact .pure fun _ hat => hat
      | commandFailed => exact .fail fun _ hat => hat
      | failed text => exact .fail fun _ hat => hat
  · rintro _ h ⟨b, rfl⟩
    exact ⟨false, rfl⟩
  · rintro h ⟨b, rfl⟩
    exact ⟨⟨b, rfl⟩, false, rfl⟩

end Recovery

section Calls
variable {f : Point → Outcome} {x h : Host} {cli : Cli} {enabled : Bool} {p : PendingServe}
  {r : Ready}

/-- The host is as it was before the call. -/
structure RolledBack (x h : Host) : Prop where
  serve : h.serve = x.serve
  receipt : h.receipt = x.receipt
  origin : h.origin = x.origin

/-- The rules, the receipt and the origin are those of a call that did all it should. -/
def Applied (enabled : Bool) (h : Host) : Prop :=
  if enabled then ∃ r i, h.receipt = some r ∧ inspectionFrom h.serve (some r) = .ok i ∧
    i.ownership = .owned ∧ h.origin = some r.publicOrigin
  else h.receipt = none ∧ h.origin = none ∧ ∃ i, inspectionFrom h.serve none = .ok i ∧
    i.ownership = .absent

/-- A call to which nothing happens comes to its journal. -/
def Accepts (cli : Cli) (h : Host) : Prop :=
  ∃ enabled r s, prepare cli enabled false fine { h with locked := false } = (.ok r, s)

def Reachable (cli : Cli) : Prop := ∃ name, dnsNameOf cli.status = .ok name

/-- What a call and a later status call leave. -/
structure Recovered (cli : Cli) (enabled : Bool) (x h : Host) : Prop where
  journal : h.journal = none
  consistent : RolledBack x h ∨ Applied enabled h
  accepts : Accepts cli x → Reachable cli → Accepts cli h

/-- A call that does not stop before its journal changes the rules just when it keeps that
journal, or it finds the receipt and the origin of the change already there. -/
def Good (cli : Cli) (f : Point → Outcome) (request : ServeRequest) (x : Host) : Prop :=
  Reaches cli f request x → (f .journal).wrote = true →
    (Changed f ↔ ¬ Withdrawn f) ∨
      (Withdrawn f ∧ Applied request.enabled (changedBy f cli (planOf request.enabled) x))

theorem status_unchanged (running : Option String) (hp : Prepared cli enabled x r)
    (hj : Journal cli enabled p) :
    Triple fine (At { x with journal := some p }) (tailscaleStatus running)
      (fun _ => At { x with journal := some p }) (At { x with journal := some p }) := by
  apply status_pending (y := { x with journal := some p }) running rfl hp.current
  cases enabled with
  | true =>
    obtain ⟨name, hname, -⟩ := hj.expected rfl
    obtain ⟨-, o, ho, hocc, hcurrent⟩ := applied_parse hp hname
    rw [hcurrent]
    exact recover_unused (y := { x with journal := some p }) hj.direction ho hocc
  | false => exact recover_owned hj.direction (hp.owned rfl)

theorem status_changed (running : Option String) (hp : Prepared cli enabled x r)
    (hj : Journal cli enabled p) (hjournal : h.journal = some p)
    (hserve : h.serve = ((planOf enabled).change cli x).serve) :
    Triple fine (At h) (tailscaleStatus running) (fun _ => Done cli enabled x)
      (Done cli enabled x) := by
  cases enabled with
  | true =>
    obtain ⟨name, hname, hexpected, hproxy, hreceipt⟩ := hj.expected rfl
    have hours : parseStatus h.serve = .ok (ours name) := by
      rw [hserve]
      exact (applied_parse hp hname).1
    have hdone (s : Host) (hat : At { h with
        receipt := some (receiptFor name)
        origin := some ("https://" ++ name)
        journal := none } s) : Done cli true x s := by
      obtain ⟨b, rfl⟩ := hat
      exact ⟨rfl, hserve, name, hname, rfl, rfl⟩
    have hrec (C : Host → Prop) := recover_ours (r := h.receipt) (C := C) (dnsNameOf_valid hname)
      hj.direction hours hexpected hproxy hreceipt
    exact (status_pending running hjournal (inspectionFrom_of hours _) (hrec _)).conseq
      (fun _ => id) (fun _ => hdone) hdone
  | false =>
    obtain ⟨hremoved, -⟩ := removed_parse hp
    have hunused : parseStatus h.serve = .ok unused := by
      rw [hserve]
      exact hremoved
    have hdone (s : Host) (hat : At { h with
        receipt := none
        origin := none
        journal := none } s) : Done cli false x s := by
      obtain ⟨b, rfl⟩ := hat
      exact ⟨rfl, hserve, rfl, rfl⟩
    have habsent : (inspectionOf unused h.receipt).ownership = .absent := inspection_absent.2 rfl
    exact (status_pending running hjournal (inspectionFrom_of hunused _)
      (recover_absent hj.direction habsent)).conseq
      (fun _ => id) (fun _ => hdone) hdone

theorem Done.applied (hp : Prepared cli enabled x r) (hd : Done cli enabled x h) :
    Applied enabled h := by
  obtain ⟨-, hserve, hstores⟩ := hd
  cases enabled with
  | true =>
    obtain ⟨name, hname, hreceipt, horigin⟩ := hstores
    have hours : parseStatus h.serve = .ok (ours name) := by
      rw [hserve]
      exact (applied_parse hp hname).1
    exact ⟨_, _, hreceipt, inspectionFrom_of hours _, inspection_receipt (dnsNameOf_valid hname),
      horigin⟩
  | false =>
    obtain ⟨hremoved, -⟩ := removed_parse hp
    have hunused : parseStatus h.serve = .ok unused := by
      rw [hserve]
      exact hremoved
    exact ⟨hstores.1, hstores.2, _, inspectionFrom_of hunused _, inspection_absent.2 rfl⟩

theorem refuse_fine {c : Prop} [Decidable c] {y : Host} (text : String) (hc : ¬ c) :
    Triple fine (At y) (refuseIf c text) (fun _ => At y) C := by
  unfold refuseIf
  rw [if_neg hc]
  exact .pure fun _ hat => hat

theorem name_fine {y : Host} (hname : dnsNameOf cli.status = .ok name) :
    Triple fine (At y) (expectedDnsName cli) (fun _ => At y) C := by
  rintro h ⟨b, rfl⟩
  show Ends _ _ (Proc.ofExcept (dnsNameOf cli.status) fine { y with locked := b })
  rw [hname]
  exact ⟨b, rfl⟩

/-- The checks of a call that should be accepted. -/
theorem prepare_fine {y : Host} (hj : y.journal = none)
    (hi : inspectionFrom y.serve y.receipt = .ok i)
    (hon : enabled = true → i.ownership = .absent ∧ Reachable cli)
    (hoff : enabled = false → i.ownership = .owned ∧ y.receipt ≠ none) :
    Triple fine (At y) (prepare cli enabled false) (fun _ => At y) (fun _ => False) := by
  apply Triple.bind (Triple.reads (Q := fun _ => At y) rfl fun _ hat => ⟨(), rfl, hat⟩)
  intro _
  apply Triple.bind (Q := fun _ => At y)
  · exact .pure fun _ hat => hat
  intro _
  apply Triple.bind (Triple.reads (Q := fun pending h => At y h ∧ pending = none) rfl _)
  · intro pending
    apply Triple.given
    rintro rfl
    apply Triple.bind (refuse_fine _ Bool.false_ne_true)
    intro _
    apply Triple.bind (Triple.reads (Q := fun receipt h => At y h ∧ receipt = y.receipt) rfl _)
    · intro receipt
      apply Triple.given
      rintro rfl
      apply Triple.learn (inspect_fine _ _)
      rintro outcome rfl
      rw [hi]
      apply Triple.bind (Triple.pure (Q := fun current h => At y h ∧ current = i)
        fun _ hat => ⟨hat, rfl⟩)
      intro current
      apply Triple.given
      rintro rfl
      apply Triple.bind (refuse_fine _ fun h => h.2 (hon h.1).1)
      intro _
      apply Triple.bind (Q := fun _ => At y)
      · unfold expectedName
        split
        · next he =>
          obtain ⟨-, name, hname⟩ := hon he
          apply Triple.bind (name_fine hname)
          intro _
          exact .pure fun _ hat => hat
        · exact .pure fun _ hat => hat
      intro name
      apply Triple.bind (refuse_fine _ _)
      · intro _
        exact .pure fun _ hat => hat
      · rintro ⟨hne, hno⟩
        obtain ⟨howned, hsome⟩ := hoff (Bool.eq_false_of_not_eq_true hne)
        rcases hno with hno | hno
        · exact hno howned
        · exact hsome (Option.isNone_iff_eq_none.1 hno)
    · rintro h ⟨b, rfl⟩
      exact ⟨_, rfl, ⟨b, rfl⟩, rfl⟩
  · rintro h ⟨b, rfl⟩
    exact ⟨_, rfl, ⟨b, rfl⟩, hj⟩

/-- A call is accepted after another that did all it should. -/
theorem Applied.accepts (hj : h.journal = none) (ha : Applied enabled h) (hr : Reachable cli) :
    Accepts cli h := by
  have hok (again : Bool) (hp : Triple fine (At h) (prepare cli again false) (fun _ => At h)
      fun _ => False) : Accepts cli h := by
    have hends := hp { h with locked := false } ⟨false, rfl⟩
    refine ⟨again, ?_⟩
    generalize prepare cli again false fine { h with locked := false } = r at hends ⊢
    obtain ⟨e, s⟩ := r
    cases e with
    | ok r => exact ⟨r, s, rfl⟩
    | error text => exact hends.elim
    | crashed => exact hends.elim
  cases enabled with
  | true =>
    obtain ⟨receipt, i, hreceipt, hi, howned, -⟩ := ha
    apply hok false
    apply prepare_fine (i := i) hj
    · rw [hreceipt]
      exact hi
    · exact Bool.noConfusion
    · exact fun _ => ⟨howned, by rw [hreceipt]; exact Option.some_ne_none _⟩
  | false =>
    obtain ⟨hreceipt, -, i, hi, habsent⟩ := ha
    apply hok true
    apply prepare_fine (i := i) hj
    · rw [hreceipt]
      exact hi
    · exact fun _ => ⟨habsent, hr⟩
    · exact Bool.noConfusion

/-- A call that changed nothing leaves the host that it found. -/
theorem At.recovered (hj : x.journal = none) (hat : At x h) : Recovered cli enabled x h := by
  obtain ⟨b, rfl⟩ := hat
  exact ⟨hj, .inl ⟨rfl, rfl, rfl⟩, fun ha _ => ha⟩

theorem Applied.recovered (hj : h.journal = none) (ha : Applied enabled h) :
    Recovered cli enabled x h := ⟨hj, .inr ha, fun _ hr => ha.accepts hj hr⟩

/-- The command is never without effect where it was sent. -/
theorem changed_serve (hp : Prepared cli enabled x r)
    (hserve : ((planOf enabled).change cli x).serve = x.serve) : False := by
  cases enabled with
  | true =>
    obtain ⟨-, name, hname, -⟩ := hp.absent rfl
    obtain ⟨hours, o, ho, hocc, -⟩ := applied_parse hp hname
    have hsame : cli.applied x.serve = x.serve := hserve
    rw [hsame, ho] at hours
    cases hours
    cases hocc
  | false =>
    obtain ⟨hremoved, o, ho, hocc, -⟩ := removed_parse hp
    have hsame : cli.removed x.serve = x.serve := hserve
    rw [hsame, ho] at hremoved
    cases hremoved
    cases hocc

theorem change_stores (plan : ServePlan) (x : Host) :
    (plan.change cli x).receipt = x.receipt ∧ (plan.change cli x).origin = x.origin ∧
      (plan.change cli x).journal = x.journal := by
  cases plan with
  | apply => exact ⟨rfl, rfl, rfl⟩
  | remove => exact ⟨rfl, rfl, rfl⟩

/-- A failed command whose journal was taken away. -/
theorem withdrawn_recovers (hj : x.journal = none) (hp : Prepared cli enabled x r)
    (hwd : Withdrawn f) (hat : At (changedBy f cli (planOf enabled) x) h) :
    Recovered cli enabled x h ↔
      ((Changed f ↔ ¬ Withdrawn f) ∨
        (Withdrawn f ∧ Applied enabled (changedBy f cli (planOf enabled) x))) := by
  by_cases htook : (f .command).took = true
  · have hchanged : Changed f := ⟨hwd.1, htook⟩
    have heq : changedBy f cli (planOf enabled) x = (planOf enabled).change cli x := if_pos htook
    obtain ⟨b, rfl⟩ := hat
    rw [heq]
    constructor
    · intro hrec
      rcases hrec.consistent with hback | happlied
      · exact (changed_serve hp hback.serve).elim
      · exact .inr ⟨hwd, happlied⟩
    · rintro (hiff | ⟨-, happlied⟩)
      · exact absurd hwd (hiff.1 hchanged)
      · have hnone : ((planOf enabled).change cli x).journal = none :=
          (change_stores (planOf enabled) x).2.2.trans hj
        exact Applied.recovered hnone happlied
  · have hkept : ¬ Changed f := fun hc => htook hc.2
    have heq : changedBy f cli (planOf enabled) x = x := if_neg htook
    rw [heq] at hat
    exact iff_of_true (hat.recovered hj) (.inl (iff_of_false hkept fun hn => hn hwd))

/-- What a later status call makes of what a call left. -/
theorem left_recovers (running : Option String) (hj : x.journal = none)
    (hp : Prepared cli enabled x r) (hl : Left cli f enabled x h) :
    Recovered cli enabled x (tailscaleStatus running fine h).2 ↔
      ((f .journal).wrote = true → (Changed f ↔ ¬ Withdrawn f) ∨
        (Withdrawn f ∧ Applied enabled (changedBy f cli (planOf enabled) x))) := by
  cases hl with
  | unwritten hw hat =>
    have hend : At x (tailscaleStatus running fine h).2 := (status_settled running hj h hat).left
    apply iff_of_true (hend.recovered hj)
    intro hwrote
    rw [hw] at hwrote
    cases hwrote
  | unchanged hw hn hc p hjp hat =>
    have hend := (status_unchanged running hp hjp h hat).left
    apply iff_of_false
    · intro hrec
      obtain ⟨b, hb⟩ := hend
      have hjournal := hrec.journal
      rw [hb] at hjournal
      cases hjournal
    · intro hgood
      rcases hgood hw with hiff | hwd
      · exact hc (hiff.2 hn)
      · exact hn hwd.1
  | withdrawn hw hwd hat =>
    have hnone : (changedBy f cli (planOf enabled) x).journal = none := by
      unfold changedBy
      split
      · exact (change_stores (planOf enabled) x).2.2.trans hj
      · exact hj
    have hend := (status_settled (f := fine) running hnone h hat).left
    rw [withdrawn_recovers hj hp hwd hend]
    exact ⟨fun hgood _ => hgood, fun hgood => hgood hw⟩
  | changed hw hn hc p hjp hjournal hserve =>
    have hend : Done cli enabled x (tailscaleStatus running fine h).2 :=
      (status_changed running hp hjp hjournal hserve h ⟨h.locked, rfl⟩).left
    exact iff_of_true (Applied.recovered hend.1 (hend.applied hp)) fun _ =>
      .inl (iff_of_true hc hn)
  | done hw hn hc hd =>
    obtain ⟨b, hend⟩ := (status_settled (f := fine) running hd.1 h ⟨h.locked, rfl⟩).left
    have hdone : Done cli enabled x (tailscaleStatus running fine h).2 := by
      rw [hend]
      exact hd
    exact iff_of_true (Applied.recovered hdone.1 (hdone.applied hp)) fun _ =>
      .inl (iff_of_true hc hn)

end Calls

/-- One later status call recovers exactly the calls whose journal fits their rules. -/
theorem recovers_iff (cli : Cli) (running later : Option String) (f : Point → Outcome)
    (request : ServeRequest) (x : Host) (hj : x.journal = none) :
    Recovered cli request.enabled x
        (tailscaleStatus later fine (setTailscaleServe cli running request f x).2).2 ↔
      Good cli f request x := by
  rcases set_left cli running f request x with ⟨hno, hat⟩ | ⟨hreach, ⟨r, hp⟩, hl⟩
  · have hend := (status_settled (f := fine) later hj _ hat).left
    exact iff_of_true (At.recovered hj hend) fun hreach => absurd hreach hno
  · rw [left_recovers later hj hp hl]
    exact ⟨fun hgood _ => hgood, fun hgood => hgood hreach⟩

/-- A node whose rule is put by any command, and taken away by any. -/
def localCli : Cli where
  status := .object [("Self", .object [("DNSName", .string "host.ts.net.")])]
  applied _ := .object
    [("TCP", .object [("443", .object [("HTTPS", .bool true)])]),
      ("Web", .object [("host.ts.net:443",
        .object [("Handlers", .object [("/", .object [("Proxy", .string BACKEND)])])])])]
  removed _ := .object []
  applied_rule := by
    intro v o name _ _ hname
    have hhost : dnsNameOf (.object [("Self", .object [("DNSName", .string "host.ts.net.")])]) =
        .ok "host.ts.net" := by decide
    cases hhost.symm.trans hname
    rfl
  removed_rule := fun _ _ _ _ _ _ _ => rfl

def freshHost : Host := ⟨none, none, none, .object [], false⟩

/-- The call crashes at its command. -/
def crashAt (took : Bool) (p : Point) : Outcome :=
  if p = .command then ⟨took, .crash⟩ else .fine

theorem recovers_changed : Recovered localCli true freshHost
    (tailscaleStatus none fine
      (setTailscaleServe localCli none ⟨true, true⟩ (crashAt true) freshHost).2).2 := by
  apply (recovers_iff localCli none none (crashAt true) ⟨true, true⟩ freshHost rfl).2
  intro _ _
  apply Or.inl
  exact iff_of_true ⟨rfl, rfl⟩ fun h => Report.noConfusion h.2.1

/-- A crash before the command leaves a journal that no later call can take away. -/
theorem unchanged_stuck : ¬ Recovered localCli true freshHost
    (tailscaleStatus none fine
      (setTailscaleServe localCli none ⟨true, true⟩ (crashAt false) freshHost).2).2 := by
  intro h
  have hjournal : (tailscaleStatus none fine (setTailscaleServe localCli none ⟨true, true⟩
      (crashAt false) freshHost).2).2.journal ≠ none := by decide
  exact hjournal h.journal

end Desktop
end RemoteCodex
