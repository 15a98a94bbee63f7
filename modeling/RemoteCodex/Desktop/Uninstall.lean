import RemoteCodex.Lib.Trace
import RemoteCodex.Desktop.Autostart
import RemoteCodex.Desktop.ServeJournal

namespace RemoteCodex
set_option autoImplicit true
open Crash Trace
namespace Desktop

/-- The inspection of a cleanup, which may do without the CLI when there is no receipt. -/
def currentServe (receipt : Option ServeReceipt) : Call (Option ServeInspection) := do
  match ← inspectWithReceipt .current receipt with
  | .ok value => return some value
  | .error .notInstalled =>
    if receipt.isNone then return none else Proc.fail ServeError.notInstalled.text
  | .error e => Proc.fail e.text

def clearStores : Call Unit := do
  removeReceipt
  updatePublicOrigin none
  removePending .unjournal

/-- What a cleanup does about the rule of a receipt. -/
def clearServe (cli : Cli) (matching : ServeReceipt) (current : ServeInspection) : Call Unit := do
  preflightConfig
  if current.ownership = .owned then
    writePending .journal ⟨false, some matching, some matching.dnsName, matching.proxy⟩
    let outcome ← apply cli .remove current
    let after ← Proc.ofExcept (outcome.mapError ServeError.text)
    refuseIf (after.ownership ≠ .absent) "Owned Serve rule did not clear"
    clearStores
  else if current.ownership = .absent then clearStores
  else Proc.fail "Serve ownership could not be verified"

/-- `uninstall_cleanup` between the two parts that are about the autostart value. -/
def serveCleanup (cli : Cli) (abandoned : Bool) : Call Unit := do
  checkAbandoned abandoned
  let pending ← loadPending .loadPending
  refuseIf pending.isSome
    "A pending Serve transaction requires recovery before uninstall cleanup"
  let receipt ← loadReceipt
  let current ← currentServe receipt
  match current, receipt with
  | some current, some matching => clearServe cli matching current
  | some _, none => pure ()
  | none, some _ => Proc.fail "Serve ownership could not be verified"
  | none, none => pure ()

def uninstallCleanup (cli : Cli) (agent config : HostPath) : Task Unit := do
  let abandoned ← Task.of acquire
  let rest : Task Unit := do
    Proc.read .paths fun _ => .ok ()
    let autostart ← autostartStatus .status agent config
    Task.of (refuseIf (autostart = .conflict) "A foreign autostart value is present")
    Task.of (serveCleanup cli abandoned)
    if autostart = .enabled then
      let _ ← setEnabled agent config false
      return ()
  rest.ensure fun m => { m with host := { m.host with locked := false } }

/-- No rule is on port 443. -/
def Vacated (v : Value) : Prop := ∃ o, parseStatus v = .ok o ∧ o.occupied = false

/-- The rule is the one of the receipt. -/
def Owns (x : Host) (r : ServeReceipt) : Prop :=
  x.receipt = some r ∧ ∃ i, inspectionFrom x.serve (some r) = .ok i ∧ i.ownership = .owned

/-- A cleanup that may have stopped anywhere. Only the rule of the receipt is taken away, and the
receipt goes after it, the journal last. -/
structure Midway (cli : Cli) (x h : Host) : Prop where
  serve : h.serve = x.serve ∨
    (x.journal = none ∧ (∃ r, Owns x r) ∧ h.serve = cli.removed x.serve)
  receipt : h.receipt = x.receipt ∨ (h.receipt = none ∧ Vacated h.serve)
  origin : h.origin = x.origin ∨ (h.origin = none ∧ h.receipt = none)
  journal : h.journal = x.journal ∨ (x.journal = none ∧
    ∃ r, Owns x r ∧ h.journal = some ⟨false, some r, some r.dnsName, r.proxy⟩)
  traced : h.serve = x.serve ∨ h.journal ≠ none ∨ (h.receipt = none ∧ h.origin = none)

/-- A cleanup that did all it should. -/
structure CleanedUp (cli : Cli) (x h : Host) : Prop where
  midway : Midway cli x h
  journal : h.journal = none
  receipt : h.receipt = none
  cleared : x.receipt ≠ none → Vacated h.serve ∧ h.origin = none
  kept : x.receipt = none → At x h

section Specs
variable {g : Point → Outcome} {cli : Cli} {x y : Host} {r : ServeReceipt}

theorem At.midway (h : At x y) : Midway cli x y := by
  obtain ⟨b, rfl⟩ := h
  exact ⟨.inl rfl, .inl rfl, .inl rfl, .inl rfl, .inl rfl⟩

theorem Owns.removed (h : Owns x r) (cli : Cli) : Vacated (cli.removed x.serve) := by
  obtain ⟨-, i, hi, howned⟩ := h
  obtain ⟨o, ho, rfl⟩ := inspectionFrom_ok hi
  obtain ⟨receipt, -, hdns, hproxy, hfunnel, -⟩ := inspection_owned howned
  exact ⟨_, cli.removed_rule x.serve o _ ho hdns hproxy hfunnel, rfl⟩

/-- The stores are cleared one after another. -/
theorem clear_spec :
    Triple g (At y) clearStores
      (fun _ => At { y with receipt := none, origin := none, journal := none })
      (fun h => At y h ∨ At { y with receipt := none } h ∨
        At { y with receipt := none, origin := none } h ∨
        At { y with receipt := none, origin := none, journal := none } h) := by
  apply Triple.bind (Triple.update (Q := At { y with receipt := none }) _ (fun _ h => .inl h)
    fun _ h => .inr (.inl h))
  · intro _
    apply Triple.bind (Triple.update (Q := At { y with receipt := none, origin := none }) _
      (fun _ h => .inr (.inl h)) fun _ h => .inr (.inr (.inl h)))
    · intro _
      apply Triple.update _ (fun _ h => .inr (.inr (.inl h))) fun _ h => .inr (.inr (.inr h))
      rintro h ⟨b, rfl⟩
      exact ⟨b, rfl⟩
    · rintro h ⟨b, rfl⟩
      exact ⟨b, rfl⟩
  · rintro h ⟨b, rfl⟩
    exact ⟨b, rfl⟩

/-- A cleanup that has found no rule, or has taken it away, and now clears its stores. -/
theorem cleared_spec (hx : x.journal = none) (hr : x.receipt = some r) (hm : Midway cli x y)
    (hv : Vacated y.serve) :
    Triple g (At y) clearStores (fun _ => CleanedUp cli x) (Midway cli x) := by
  have hall {receipt : Option ServeReceipt} {origin : Option String} {journal : Option PendingServe}
      {b : Bool} (hreceipt : receipt = y.receipt ∨ receipt = none)
      (horigin : origin = y.origin ∨ (origin = none ∧ receipt = none))
      (hjournal : journal = y.journal ∨ (journal = none ∧ origin = none ∧ receipt = none)) :
      Midway cli x ⟨journal, receipt, origin, y.serve, b⟩ := by
    refine ⟨hm.serve, ?_, ?_, ?_, ?_⟩
    · rcases hreceipt with rfl | rfl
      · exact hm.receipt
      · exact .inr ⟨rfl, hv⟩
    · rcases horigin with rfl | ⟨rfl, rfl⟩
      · rcases hm.origin with ho | ⟨ho, hno⟩
        · exact .inl ho
        · refine .inr ⟨ho, ?_⟩
          rcases hreceipt with rfl | rfl
          · exact hno
          · rfl
      · exact .inr ⟨rfl, rfl⟩
    · rcases hjournal with rfl | ⟨rfl, -, -⟩
      · exact hm.journal
      · exact .inl hx.symm
    · rcases hjournal with rfl | ⟨rfl, rfl, rfl⟩
      · rcases hm.traced with hs | hj | ⟨hno, ho⟩
        · exact .inl hs
        · exact .inr (.inl hj)
        · refine .inr (.inr ⟨?_, ?_⟩)
          · rcases hreceipt with rfl | rfl
            · exact hno
            · rfl
          · rcases horigin with rfl | ⟨rfl, -⟩
            · exact ho
            · rfl
      · exact .inr (.inr ⟨rfl, rfl⟩)
  apply clear_spec.conseq (fun _ => id)
  · rintro _ h ⟨b, rfl⟩
    exact ⟨hall (.inr rfl) (.inr ⟨rfl, rfl⟩) (.inr ⟨rfl, rfl, rfl⟩), rfl, rfl, fun _ => ⟨hv, rfl⟩,
      fun hno => absurd (hr.symm.trans hno) (Option.some_ne_none r)⟩
  · rintro h (⟨b, rfl⟩ | ⟨b, rfl⟩ | ⟨b, rfl⟩ | ⟨b, rfl⟩)
    · exact hall (.inl rfl) (.inl rfl) (.inl rfl)
    · exact hall (.inr rfl) (.inl rfl) (.inl rfl)
    · exact hall (.inr rfl) (.inr ⟨rfl, rfl⟩) (.inl rfl)
    · exact hall (.inr rfl) (.inr ⟨rfl, rfl⟩) (.inr ⟨rfl, rfl, rfl⟩)

/-- The command for a rule of the receipt, which may have taken it away. -/
theorem Owns.changed (h : Owns x r) (hx : x.journal = none) (b : Bool) :
    Midway cli x { changedBy g cli .remove { x with
      journal := some ⟨false, some r, some r.dnsName, r.proxy⟩ } with locked := b } := by
  have hjournal : ∃ s, Owns x s ∧ some (PendingServe.mk false (some r) (some r.dnsName) r.proxy) =
      some ⟨false, some s, some s.dnsName, s.proxy⟩ := ⟨r, h, rfl⟩
  unfold changedBy
  split
  · exact ⟨.inr ⟨hx, ⟨r, h⟩, rfl⟩, .inl rfl, .inl rfl, .inr ⟨hx, hjournal⟩,
      .inr (.inl (Option.some_ne_none _))⟩
  · exact ⟨.inl rfl, .inl rfl, .inl rfl, .inr ⟨hx, hjournal⟩, .inl rfl⟩

theorem clearServe_spec (hx : x.journal = none) (hr : x.receipt = some r)
    (hi : inspectionFrom x.serve (some r) = .ok i) :
    Triple g (At x) (clearServe cli r i) (fun _ => CleanedUp cli x) (Midway cli x) := by
  have hstay (h : Host) (hat : At x h) : Midway cli x h := hat.midway
  apply Triple.bind (Triple.read (Q := fun _ => At x) (fun _ _ hat _ => hat) hstay)
  intro _
  by_cases howned : i.ownership = .owned
  · rw [if_pos howned]
    have hown : Owns x r := ⟨hr, i, hi, howned⟩
    let y : Host := { x with journal := some ⟨false, some r, some r.dnsName, r.proxy⟩ }
    have hy (h : Host) (hat : At y h) : Midway cli x h := by
      obtain ⟨b, rfl⟩ := hat
      exact ⟨.inl rfl, .inl rfl, .inl rfl, .inr ⟨hx, r, hown, rfl⟩, .inl rfl⟩
    have hafter (h : Host) (hat : At (changedBy g cli .remove y) h) : Midway cli x h := by
      obtain ⟨b, rfl⟩ := hat
      exact hown.changed hx b
    apply Triple.bind (Triple.update (Q := At y) _ hstay hy)
    · intro _
      obtain ⟨o, hparse⟩ : ∃ o, parseStatus (changedBy g cli .remove y).serve = .ok o := by
        unfold changedBy
        split
        · obtain ⟨o, ho, -⟩ := hown.removed cli
          exact ⟨o, ho⟩
        · obtain ⟨o, ho, -⟩ := inspectionFrom_ok hi
          exact ⟨o, ho⟩
      apply Triple.bind ((apply_spec (.inr ⟨rfl, howned⟩) hparse).conseq (fun _ => id)
        (fun _ _ => id) fun h hat => hafter h hat.1)
      intro outcome
      apply Triple.given
      intro hran
      apply Triple.bind (Q := fun after h => At (changedBy g cli .remove y) h ∧
        outcome = .ok after)
      · apply Triple.ofExcept _ hafter
        intro after h he hat
        cases outcome with
        | error e => cases he
        | ok a =>
          cases he
          exact ⟨hat, rfl⟩
      intro after
      apply Triple.given
      rintro rfl
      apply Triple.bind ((refuse_spec _).conseq (fun _ => id) (fun _ _ => id) hafter)
      intro _
      apply Triple.given
      intro hclear
      obtain ⟨hi', -⟩ := hran.verified after rfl
      obtain ⟨o', ho', rfl⟩ := inspectionFrom_ok hi'
      have hocc := inspection_absent.1 (Classical.not_not.1 hclear)
      exact cleared_spec hx hr (hafter _ ⟨_, rfl⟩) ⟨o', ho', hocc⟩
    · rintro h ⟨b, rfl⟩
      exact ⟨b, rfl⟩
  · rw [if_neg howned]
    by_cases habsent : i.ownership = .absent
    · rw [if_pos habsent]
      obtain ⟨o, ho, rfl⟩ := inspectionFrom_ok hi
      exact cleared_spec hx hr (At.midway ⟨x.locked, rfl⟩) ⟨o, ho, inspection_absent.1 habsent⟩
    · rw [if_neg habsent]
      exact .fail hstay

theorem currentServe_spec (receipt : Option ServeReceipt) :
    Triple g (At x) (currentServe receipt)
      (fun a h => At x h ∧ ((∃ i, a = some i ∧ inspectionFrom x.serve receipt = .ok i) ∨ a = none))
      (At x) := by
  apply Triple.learn (inspect_spec _ _)
  intro outcome houtcome
  cases outcome with
  | ok i =>
    refine .pure fun h hat => ⟨hat, .inl ⟨i, rfl, ?_⟩⟩
    rcases houtcome with hi | ⟨e, he, -⟩
    · exact hi
    · cases he
  | error e =>
    cases e with
    | notInstalled =>
      by_cases hnone : receipt.isNone = true
      · simp only [if_pos hnone]
        exact .pure fun h hat => ⟨hat, .inr rfl⟩
      · simp only [if_neg hnone]
        exact .fail fun h hat => hat
    | commandFailed => exact .fail fun h hat => hat
    | failed text => exact .fail fun h hat => hat

theorem serveCleanup_spec (abandoned : Bool) :
    Triple g (At x) (serveCleanup cli abandoned) (fun _ => CleanedUp cli x) (Midway cli x) := by
  have hstay (h : Host) (hat : At x h) : Midway cli x h := hat.midway
  have hmidway {α : Type} {p : Call α} {Q : α → Host → Prop} (h : Triple g (At x) p Q (At x)) :
      Triple g (At x) p Q (Midway cli x) := h.conseq (fun _ => id) (fun _ _ => id) hstay
  apply Triple.bind (Q := fun _ => At x)
  · unfold checkAbandoned
    split
    · apply Triple.learn (hmidway (pending_spec _))
      intro _ _
      exact (hmidway (refuse_spec _)).conseq (fun _ => id) (fun _ _ h => h.1) fun _ => id
    · exact .pure fun h hat => hat
  intro _
  apply Triple.learn (hmidway (pending_spec _))
  rintro pending rfl
  apply Triple.learn (hmidway (refuse_spec _))
  intro _ hnone
  have hx : x.journal = none := Option.not_isSome_iff_eq_none.1 hnone
  apply Triple.learn (hmidway receipt_spec)
  rintro receipt rfl
  apply Triple.learn (hmidway (currentServe_spec _))
  intro current hcurrent
  cases hr : x.receipt with
  | some r =>
    cases current with
    | some i =>
      rcases hcurrent with ⟨j, hj, hi⟩ | hno
      · cases hj
        rw [hr] at hi
        exact clearServe_spec hx hr hi
      · cases hno
    | none => exact .fail hstay
  | none =>
    have hdone (h : Host) (hat : At x h) : CleanedUp cli x h := by
      refine ⟨hat.midway, ?_, ?_, fun hne => absurd hr hne, fun _ => hat⟩
      · obtain ⟨b, rfl⟩ := hat
        exact hx
      · obtain ⟨b, rfl⟩ := hat
        exact hr
    cases current with
    | some i => exact .pure hdone
    | none => exact .pure hdone

end Specs

theorem Midway.unlocked (h : Midway cli x y) (b : Bool) : Midway cli x { y with locked := b } :=
  ⟨h.serve, h.receipt, h.origin, h.journal, h.traced⟩

theorem CleanedUp.unlocked (h : CleanedUp cli x y) (b : Bool) :
    CleanedUp cli x { y with locked := b } := by
  refine ⟨h.midway.unlocked b, h.journal, h.receipt, h.cleared, fun hno => ?_⟩
  obtain ⟨c, rfl⟩ := h.kept hno
  exact ⟨b, rfl⟩

/-- A call about the host leaves the autostart value. -/
theorem Task.of_spec {f : Spot → Outcome} {c : Call α} {P C : Host → Prop} {Q : α → Host → Prop}
    (h : Triple (fun p => f (.serve p)) P c Q C) (run : Option RunValue) :
    Triple f (fun m => P m.host ∧ m.run = run) (Task.of c) (fun a m => Q a m.host ∧ m.run = run)
      (fun m => C m.host ∧ m.run = run) := by
  rintro ⟨host, _⟩ ⟨hp, rfl⟩
  have hends := h host hp
  unfold Task.of
  simp only
  generalize c (fun p => f (.serve p)) host = e at hends ⊢
  obtain ⟨e, host'⟩ := e
  cases e with
  | ok a => exact ⟨hends, rfl⟩
  | error text => exact ⟨hends, rfl⟩
  | crashed => exact ⟨hends, rfl⟩

/-- The autostart value of a cleanup: it is taken away only where it is the command. -/
structure Stopped (agent config : HostPath) (run run' : Option RunValue) : Prop where
  ours : ∃ line, command agent config = .ok line ∧ readRun run = .ok (some line)
  gone : run' = none

section Runs
variable {f : Spot → Outcome} {agent config : HostPath} {run : Option RunValue} {P : Host → Prop}

theorem autostart_spec (p : Spot) :
    Triple f (fun m => P m.host ∧ m.run = run) (autostartStatus p agent config)
      (fun a m => (P m.host ∧ m.run = run) ∧
        ∃ line stored, command agent config = .ok line ∧ readRun run = .ok stored ∧
          a = classify stored line)
      (fun m => P m.host ∧ m.run = run) := by
  apply Triple.bind (Q := fun line m => (P m.host ∧ m.run = run) ∧ command agent config = .ok line)
  · exact .ofExcept (fun line m hline hm => ⟨hm, hline⟩) fun m hm => hm
  intro line
  apply Triple.given
  intro hline
  apply Triple.bind (Q := fun stored m => (P m.host ∧ m.run = run) ∧ readRun run = .ok stored)
  · exact .read (fun stored m hm hstored => ⟨hm, hm.2 ▸ hstored⟩) fun m hm => hm
  intro stored
  apply Triple.given
  intro hstored
  exact .pure fun m hm => ⟨hm, line, stored, hline, hstored, rfl⟩

theorem refuse_task {c : Prop} [Decidable c] {x : Host} (text : String) :
    Triple f (fun m => At x m.host ∧ m.run = run) (Task.of (refuseIf c text))
      (fun _ m => (At x m.host ∧ m.run = run) ∧ ¬ c) (fun m => At x m.host ∧ m.run = run) := by
  apply (Task.of_spec (refuse_spec text) run).conseq (fun _ => id) _ fun _ => id
  rintro _ m ⟨⟨hat, hc⟩, hrun⟩
  exact ⟨⟨hat, hrun⟩, hc⟩

/-- The value is turned off just where it is the command. -/
theorem off_spec (henabled : command agent config = .ok line ∧ readRun run = .ok (some line)) :
    Triple f (fun m => P m.host ∧ m.run = run) (setEnabled agent config false)
      (fun _ m => P m.host ∧ m.run = none)
      (fun m => P m.host ∧ (m.run = run ∨ m.run = none)) := by
  obtain ⟨hline, hrun⟩ := henabled
  apply Triple.bind (Q := fun expected m => (P m.host ∧ m.run = run) ∧ expected = line)
  · refine .ofExcept (fun expected m he hm => ⟨hm, ?_⟩) fun m hm => ⟨hm.1, .inl hm.2⟩
    exact Except.ok.inj (he.symm.trans hline)
  intro expected
  apply Triple.given
  rintro rfl
  apply Triple.bind (Q := fun stored m => (P m.host ∧ m.run = run) ∧ stored = some expected)
  · refine .read (fun stored m hm he => ⟨hm, ?_⟩) fun m hm => ⟨hm.1, .inl hm.2⟩
    exact Except.ok.inj (he.symm.trans (hm.2 ▸ hrun))
  intro stored
  apply Triple.given
  rintro rfl
  have hremove : mayRemove (some expected) expected = true := beq_self_eq_true _
  simp only [Bool.false_eq_true, if_false, hremove, if_true]
  apply Triple.bind (Triple.update (Q := fun m => P m.host ∧ m.run = none) _
    (fun m hm => ⟨hm.1, .inl hm.2⟩) fun m hm => ⟨hm.1, .inr hm.2⟩)
  · intro _
    apply (autostart_spec _).conseq (fun m (hm : P m.host ∧ m.run = none) => hm)
    · exact fun _ m hm => hm.1
    · exact fun m hm => ⟨hm.1, .inr hm.2⟩
  · exact fun m hm => ⟨hm.1, rfl⟩

end Runs

/-- What a cleanup has done when it succeeds. -/
def Succeeded (cli : Cli) (agent config : HostPath) (m m' : Machine) : Prop :=
  CleanedUp cli m.host m'.host ∧ readRun m'.run = .ok none ∧
    (m'.run = m.run ∨ Stopped agent config m.run m'.run)

/-- What a cleanup may have done when it stops. -/
def Interrupted (cli : Cli) (agent config : HostPath) (m m' : Machine) : Prop :=
  Midway cli m.host m'.host ∧
    (m'.run = m.run ∨ Stopped agent config m.run m'.run ∧ CleanedUp cli m.host m'.host)

/-- The end of a cleanup. -/
theorem turn_off_spec {f : Spot → Outcome} {m : Machine} (hline : command agent config = .ok line)
    (hstored : readRun m.run = .ok stored) (hours : classify stored line ≠ .conflict) :
    Triple f (fun m' => CleanedUp cli m.host m'.host ∧ m'.run = m.run)
      (if classify stored line = .enabled then do
        let _ ← setEnabled agent config false
        return ()
      else pure ())
      (fun _ => Succeeded cli agent config m) (Interrupted cli agent config m) := by
  cases stored with
  | none => exact .pure fun m' hm => ⟨hm.1, by rw [hm.2, hstored], .inl hm.2⟩
  | some value =>
    by_cases hv : value = line
    · rw [classify, if_pos hv, if_pos rfl]
      rw [hv] at hstored
      have hstop : Stopped agent config m.run none := ⟨⟨line, hline, hstored⟩, rfl⟩
      apply Triple.bind ((off_spec (P := CleanedUp cli m.host) ⟨hline, hstored⟩).conseq
        (fun _ => id) (fun _ _ => id) _)
      · intro _
        refine .pure fun m' hm => ?_
        obtain ⟨hclean, hrun⟩ := hm
        exact ⟨hclean, by rw [hrun]; rfl, .inr (hrun ▸ hstop)⟩
      · rintro m' ⟨hclean, hrun | hrun⟩
        · exact ⟨hclean.midway, .inl hrun⟩
        · exact ⟨hclean.midway, .inr ⟨hrun ▸ hstop, hclean⟩⟩
    · exact absurd (if_neg hv) hours

theorem cleanup_spec (cli : Cli) (agent config : HostPath) (f : Spot → Outcome) (m : Machine) :
    Triple f (fun m' => m' = m) (uninstallCleanup cli agent config)
      (fun _ => Succeeded cli agent config m) (Interrupted cli agent config m) := by
  have hstay (m' : Machine) (h : At m.host m'.host ∧ m'.run = m.run) :
      Interrupted cli agent config m m' := ⟨h.1.midway, .inl h.2⟩
  have hstart (m' : Machine) (h : m' = m) : At m.host m'.host ∧ m'.run = m.run := by
    rw [h]
    exact ⟨⟨m.host.locked, rfl⟩, rfl⟩
  apply Triple.bind ((Task.of_spec (acquire_keeps m.host) m.run).conseq hstart (fun _ _ => id)
    hstay)
  intro abandoned
  apply Triple.ensure (R := fun _ => Succeeded cli agent config m)
    (D := Interrupted cli agent config m)
  · apply Triple.bind (Triple.read
      (Q := fun _ m' => At m.host m'.host ∧ m'.run = m.run) (fun _ _ hm _ => hm) hstay)
    intro _
    apply Triple.bind ((autostart_spec _).conseq (fun _ => id) (fun _ _ => id) hstay)
    intro autostart
    apply Triple.given
    rintro ⟨line, stored, hline, hstored, rfl⟩
    apply Triple.bind ((refuse_task _).conseq (fun _ => id) (fun _ _ => id) hstay)
    intro _
    apply Triple.given
    intro hours
    apply Triple.bind ((Task.of_spec (serveCleanup_spec abandoned) m.run).conseq (fun _ => id)
      (fun _ _ => id) fun m' h => ⟨h.1, .inl h.2⟩)
    intro _
    exact turn_off_spec hline hstored hours
  · rintro _ m' ⟨hclean, hrest⟩
    exact ⟨hclean.unlocked false, hrest⟩
  · rintro m' ⟨hmid, hrest⟩
    exact ⟨⟨hmid, hrest⟩, hmid.unlocked false,
      hrest.imp_right fun h => ⟨h.1, h.2.unlocked false⟩⟩

theorem cleanup_left (cli : Cli) (agent config : HostPath) (f : Spot → Outcome) (m : Machine) :
    Interrupted cli agent config m (uninstallCleanup cli agent config f m).2 := by
  have h := cleanup_spec cli agent config f m m rfl
  generalize uninstallCleanup cli agent config f m = r at h ⊢
  obtain ⟨e, m'⟩ := r
  cases e with
  | ok _ =>
    obtain ⟨hclean, -, hrun⟩ := h
    exact ⟨hclean.midway, hrun.imp_right fun hs => ⟨hs, hclean⟩⟩
  | error text => exact h
  | crashed => exact h

/-- What a cleanup leaves, wherever it stops: only the rule of the receipt is ever taken away, the
receipt goes only when there is no rule, and until both the receipt and the origin are gone the
journal tells of it. The autostart value goes last, and only if it is the command. A cleanup that
succeeds leaves nothing. -/
theorem uninstall_cleanup (cli : Cli) (agent config : HostPath) (f : Spot → Outcome)
    (m : Machine) :
    Midway cli m.host (uninstallCleanup cli agent config f m).2.host ∧
    ((uninstallCleanup cli agent config f m).2.run = m.run ∨
      Stopped agent config m.run (uninstallCleanup cli agent config f m).2.run ∧
        CleanedUp cli m.host (uninstallCleanup cli agent config f m).2.host) ∧
    ((uninstallCleanup cli agent config f m).1 = .ok () →
      CleanedUp cli m.host (uninstallCleanup cli agent config f m).2.host ∧
        readRun (uninstallCleanup cli agent config f m).2.run = .ok none) := by
  obtain ⟨hm, hrun⟩ := cleanup_left cli agent config f m
  refine ⟨hm, hrun, fun hok => ?_⟩
  have h := cleanup_spec cli agent config f m m rfl
  generalize uninstallCleanup cli agent config f m = r at h hok ⊢
  obtain ⟨e, m'⟩ := r
  cases hok
  exact ⟨h.1, h.2.1⟩

def setAutostart (agent config : HostPath) (enabled : Bool) : Task AutostartStatus := do
  Proc.read .paths fun _ => .ok ()
  setEnabled agent config enabled

/-- What is asked of the desktop application. -/
inductive Errand where
  | serve (running : Option String) (request : ServeRequest)
  | status (running : Option String)
  | autostart (enabled : Bool)
  | cleanup

def Errand.run (cli : Cli) (agent config : HostPath) (f : Spot → Outcome) (m : Machine) :
    Errand → Machine
  | .serve running request => (Task.of (setTailscaleServe cli running request) f m).2
  | .status running => (Task.of (tailscaleStatus running) f m).2
  | .autostart enabled => (setAutostart agent config enabled f m).2
  | .cleanup => (uninstallCleanup cli agent config f m).2

/-- A command that is reported as failed has not taken place. -/
def Honest (f : Point → Outcome) : Prop :=
  (f .command).report = .unsuccessful → (f .command).took = false

/-- Anything may fail, and the application may crash, at every point. -/
inductive Errands (cli : Cli) (agent config : HostPath) :
    Machine → List Errand → Machine → Prop where
  | run (e : Errand) (f : Spot → Outcome) (m : Machine) (hf : Honest fun p => f (.serve p)) :
      Errands cli agent config m [e] (e.run cli agent config f m)

/-- What tells of the rule for a name: its receipt, or the journal of the call that puts it. -/
inductive Known (h : Host) (name : String) : Prop where
  | receipt (hr : h.receipt = some (receiptFor name))
  | journal (p : PendingServe) (hj : h.journal = some p) (hen : p.enabled = true)
      (hname : p.expectedDnsName = some name) (hproxy : p.expectedProxy = BACKEND)
      (hr : p.receipt = none ∨ p.receipt = some (receiptFor name))

/-- Port 443 is unused, or its rule is one that the application has put and knows of. -/
def Tracked (h : Host) : Prop :=
  ∃ o, parseStatus h.serve = .ok o ∧ (o.occupied = true → ∃ name, o = ours name ∧
    publicOrigin name = some ("https://" ++ name) ∧ Known h name)

/-- Port 443 has a rule that is not of the kind that the application puts. -/
def Foreign (h : Host) : Prop :=
  ∃ o, parseStatus h.serve = .ok o ∧ o.occupied = true ∧ ∀ name, o ≠ ours name

section Tracking
variable {g : Point → Outcome} {cli : Cli} {x h : Host} {name : String}

theorem Vacated.tracked (hv : Vacated h.serve) : Tracked h := by
  obtain ⟨o, ho, hocc⟩ := hv
  exact ⟨o, ho, fun ht => absurd (hocc.symm.trans ht) Bool.false_ne_true⟩

theorem tracked_ours (hparse : parseStatus h.serve = .ok (ours name))
    (hname : publicOrigin name = some ("https://" ++ name)) (hk : Known h name) : Tracked h :=
  ⟨_, hparse, fun _ => ⟨name, rfl, hname, hk⟩⟩

/-- The rules are the same, and so is what tells of them. -/
theorem Tracked.same (ht : Tracked x) (hs : h.serve = x.serve) (hr : h.receipt = x.receipt)
    (hj : x.journal = none ∨ h.journal = x.journal) : Tracked h := by
  obtain ⟨o, ho, hknown⟩ := ht
  refine ⟨o, hs ▸ ho, fun hocc => ?_⟩
  obtain ⟨name, hours, hname, hk⟩ := hknown hocc
  refine ⟨name, hours, hname, ?_⟩
  cases hk with
  | receipt hreceipt => exact .receipt (hr.trans hreceipt)
  | journal p hp hen hd hproxy hrec =>
    rcases hj with hno | hsame
    · cases hno.symm.trans hp
    · exact .journal p (hsame.trans hp) hen hd hproxy hrec

theorem Owned.occupied (howned : (inspectionOf o r).ownership = .owned) : o.occupied = true := by
  apply Bool.eq_true_of_not_eq_false
  intro hocc
  rw [inspection_absent.2 hocc] at howned
  cases howned

/-- A receipt that fits a rule of ours is the receipt for it. -/
theorem owned_receipt (hname : publicOrigin name = some ("https://" ++ name))
    (howned : (inspectionOf (ours name) (some r)).ownership = .owned) : r = receiptFor name := by
  obtain ⟨receipt, hr, hdns, -, -, -, hport, hproxy, horigin⟩ := inspection_owned howned
  cases hr
  have hdns' : r.dnsName = name := (Option.some.inj hdns).symm
  rw [hdns', hname, Option.getD_some] at horigin
  obtain ⟨dnsName, proxy, port, origin⟩ := r
  simp only at hdns' hport hproxy horigin
  rw [hdns', hport, hproxy, horigin, receiptFor]

theorem Tracked.verified (ht : Tracked x) (hparse : parseStatus x.serve = .ok o)
    (howned : (inspectionOf o (some r)).ownership = .owned) (hs : h.serve = x.serve)
    (hr : h.receipt = some r) : Tracked h := by
  obtain ⟨o', ho', hknown⟩ := ht
  cases ho'.symm.trans hparse
  obtain ⟨name, rfl, hname, -⟩ := hknown (Owned.occupied howned)
  refine tracked_ours (hs ▸ hparse) hname (.receipt ?_)
  rw [hr, owned_receipt hname howned]

/-- The rules are the same, and something still tells of them. -/
def Tracks (x h : Host) : Prop := h.serve = x.serve ∧ (Tracked x → Tracked h)

theorem At.tracks (hat : At x h) : Tracks x h := by
  obtain ⟨b, rfl⟩ := hat
  exact ⟨rfl, fun ht => ht.same rfl rfl (.inr rfl)⟩

theorem Tracks.unlocked (ht : Tracks x h) (b : Bool) : Tracks x { h with locked := b } :=
  ⟨ht.1, fun htracked => (ht.2 htracked).same rfl rfl (.inr rfl)⟩

theorem recover_tracks (p : PendingServe)
    (hv : inspectionFrom x.serve x.receipt = .ok value) :
    Triple g (At x) (recover p value) (fun _ => Tracks x) (Tracks x) := by
  have hstay (h : Host) (hat : At x h) : Tracks x h := hat.tracks
  obtain ⟨o, ho, rfl⟩ := inspectionFrom_ok hv
  unfold recover
  split
  · split
    · exact .pure hstay
    next candidate _ =>
    apply Triple.learn ((inspect_spec _ _).conseq (fun _ => id) (fun _ _ => id) hstay)
    intro outcome houtcome
    apply Triple.bind (Q := fun verified h => At x h ∧ verified = inspectionOf o (some candidate))
    · apply Triple.ofExcept _ hstay
      intro verified h he hat
      refine ⟨hat, ?_⟩
      rcases houtcome with hi | ⟨e, rfl, -⟩
      · rw [inspectionFrom_of ho] at hi
        rw [← hi] at he
        exact (Except.ok.inj he).symm
      · cases he
    intro verified
    apply Triple.given
    rintro rfl
    split
    · next howned =>
      have hdone (h : Host) (hs : h.serve = x.serve) (hr : h.receipt = some candidate) :
          Tracks x h := ⟨hs, fun ht => ht.verified ho howned hs hr⟩
      let Kept (h : Host) : Prop := h.serve = x.serve ∧ h.receipt = some candidate
      have hkept (h : Host) (hk : Kept h) : Tracks x h := hdone h hk.1 hk.2
      apply Triple.bind (Triple.update (Q := Kept) _ hstay hkept)
      · intro _
        apply Triple.bind (Q := fun _ => Kept)
        · unfold updatePublicOrigin
          split
          · exact .update (fun _ hk => hk) hkept hkept
          · exact .fail hkept
        intro _
        apply Triple.bind (Triple.update (Q := Kept) _ hkept hkept)
        · intro _
          exact .pure hkept
        · exact fun _ hk => hk
      · rintro h ⟨b, rfl⟩
        exact ⟨rfl, rfl⟩
    · exact .pure hstay
  · split
    · next habsent =>
      let Same (h : Host) : Prop := h.serve = x.serve
      have hsame (h : Host) (hs : Same h) : Tracks x h :=
        ⟨hs, fun _ => Vacated.tracked ⟨o, hs ▸ ho, inspection_absent.1 habsent⟩⟩
      apply Triple.bind (Triple.update (Q := Same) _ hstay hsame)
      · intro _
        apply Triple.bind (Triple.update (Q := Same) _ hsame hsame)
        · intro _
          apply Triple.bind (Triple.update (Q := Same) _ hsame hsame)
          · intro _
            exact .pure hsame
          · exact fun _ hs => hs
        · exact fun _ hs => hs
      · rintro h ⟨b, rfl⟩
        exact rfl
    · exact .pure hstay

theorem status_tracks (running : Option String) :
    Triple g (At x) (tailscaleStatus running) (fun _ => Tracks x) (Tracks x) := by
  have hstay (h : Host) (hat : At x h) : Tracks x h := hat.tracks
  have hkeep {α : Type} {p : Call α} {Q : α → Host → Prop} (h : Triple g (At x) p Q (At x)) :
      Triple g (At x) p Q (Tracks x) := h.conseq (fun _ => id) (fun _ _ => id) hstay
  apply Triple.bind (hkeep (acquire_keeps x))
  intro abandoned
  apply Triple.ensure (R := fun _ => Tracks x) (D := Tracks x)
  · apply Triple.learn (hkeep receipt_spec)
    rintro receipt rfl
    apply Triple.learn (hkeep (pending_spec _))
    rintro pending rfl
    apply Triple.learn (hkeep (refuse_spec _))
    intro _ _
    apply Triple.learn (hkeep (inspect_spec _ _))
    intro outcome houtcome
    have hanswer (value : ServeInspection) :
        Triple g (Tracks x) (answer running value) (fun _ => Tracks x) (Tracks x) := by
      apply Triple.bind (Triple.read (Q := fun _ => Tracks x) (fun _ _ ht _ => ht) fun _ => id)
      intro _
      exact .pure fun _ => id
    cases outcome with
    | ok value =>
      have hv : inspectionFrom x.serve x.receipt = .ok value := by
        rcases houtcome with hi | ⟨e, he, -⟩
        · exact hi
        · cases he
      cases x.journal with
      | none =>
        apply Triple.bind (Q := fun _ => Tracks x)
        · exact .pure hstay
        · exact hanswer
      | some p => exact (recover_tracks p hv).bind hanswer
    | error e =>
      cases e with
      | notInstalled => exact .pure hstay
      | commandFailed => exact .fail hstay
      | failed text => exact .fail hstay
  · exact fun _ h ht => ht.unlocked false
  · exact fun h ht => ⟨ht, ht.unlocked false⟩

/-- A rule that is owned is one of ours. -/
theorem owned_ours (howned : (inspectionOf o receipt).ownership = .owned) :
    ∃ name, o = ours name := by
  obtain ⟨r, -, hdns, hproxy, hfunnel, -⟩ := inspection_owned howned
  have hocc := Owned.occupied howned
  obtain ⟨dnsName, proxy, occupied, funnel⟩ := o
  cases hdns
  cases hproxy
  cases hfunnel
  cases hocc
  exact ⟨_, rfl⟩

theorem Foreign.unchanged (hf : Foreign x) (hp : Prepared cli enabled x r) : False := by
  obtain ⟨o, ho, hocc, hours⟩ := hf
  obtain ⟨o', ho', hcurrent⟩ := inspectionFrom_ok hp.current
  cases ho.symm.trans ho'
  cases enabled with
  | true =>
    have habsent := (hp.absent rfl).1
    rw [hcurrent, inspection_absent, hocc] at habsent
    cases habsent
  | false =>
    have howned := hp.owned rfl
    rw [hcurrent] at howned
    obtain ⟨name, he⟩ := owned_ours howned
    exact hours name he

/-- A call that is honest about its command leaves a rule only with what tells of it. -/
theorem Left.tracked (hg : Honest g) (hp : Prepared cli enabled x r)
    (hl : Left cli g enabled x h) (ht : Tracked x) : Tracked h := by
  cases hl with
  | unwritten hw hat =>
    obtain ⟨b, rfl⟩ := hat
    exact ht.same rfl rfl (.inr rfl)
  | unchanged hw hn hc p hj hat =>
    obtain ⟨b, rfl⟩ := hat
    exact ht.same rfl rfl (.inl hp.journal)
  | withdrawn hw hwd hat =>
    have hsame : changedBy g cli (planOf enabled) x = x :=
      if_neg fun htook => Bool.false_ne_true ((hg hwd.2.1).symm.trans htook)
    rw [hsame] at hat
    obtain ⟨b, rfl⟩ := hat
    exact ht.same rfl rfl (.inr rfl)
  | changed hw hn hc p hj hjournal hserve =>
    cases enabled with
    | true =>
      obtain ⟨name, hname, hexpected, hproxy, hreceipt⟩ := hj.expected rfl
      have hours : parseStatus h.serve = .ok (ours name) := by
        rw [hserve]
        exact (applied_parse hp hname).1
      exact tracked_ours hours (dnsNameOf_valid hname)
        (.journal p hjournal hj.direction hexpected hproxy hreceipt)
    | false =>
      apply Vacated.tracked
      rw [hserve]
      exact ⟨_, (removed_parse hp).1, rfl⟩
  | done hw hn hc hd =>
    obtain ⟨-, hserve, hstores⟩ := hd
    cases enabled with
    | true =>
      obtain ⟨name, hname, hreceipt, -⟩ := hstores
      have hours : parseStatus h.serve = .ok (ours name) := by
        rw [hserve]
        exact (applied_parse hp hname).1
      exact tracked_ours hours (dnsNameOf_valid hname) (.receipt hreceipt)
    | false =>
      apply Vacated.tracked
      rw [hserve]
      exact ⟨_, (removed_parse hp).1, rfl⟩

theorem Owns.not_foreign (ho : Owns x r) (hf : Foreign x) : False := by
  obtain ⟨-, i, hi, howned⟩ := ho
  obtain ⟨o, hparse, hocc, hours⟩ := hf
  obtain ⟨o', ho', rfl⟩ := inspectionFrom_ok hi
  cases hparse.symm.trans ho'
  obtain ⟨name, he⟩ := owned_ours howned
  exact hours name he

theorem Midway.tracked (hm : Midway cli x h) (ht : Tracked x) : Tracked h := by
  rcases hm.serve with hs | ⟨-, ⟨r, hown⟩, hs⟩
  · rcases hm.receipt with hr | ⟨-, hv⟩
    · rcases hm.journal with hj | ⟨hno, -⟩
      · exact ht.same hs hr (.inr hj)
      · exact ht.same hs hr (.inl hno)
    · exact hv.tracked
  · apply Vacated.tracked
    rw [hs]
    exact hown.removed cli

end Tracking

/-- The value of another program. -/
def ForeignRun (agent config : HostPath) (run : Option RunValue) : Prop :=
  readRun run ≠ .ok none ∧ ∀ line, command agent config = .ok line → readRun run ≠ .ok (some line)

theorem setAutostart_spec {f : Spot → Outcome} (agent config : HostPath) (m : Machine)
    (enabled : Bool) :
    Triple f (fun m' => m' = m) (setAutostart agent config enabled)
      (fun _ m' => m'.host = m.host ∧ (ForeignRun agent config m.run → m'.run = m.run))
      (fun m' => m'.host = m.host ∧ (ForeignRun agent config m.run → m'.run = m.run)) := by
  let After (m' : Machine) : Prop :=
    m'.host = m.host ∧ (ForeignRun agent config m.run → m'.run = m.run)
  have hstay (m' : Machine) (h : m' = m) : After m' := by
    rw [h]
    exact ⟨rfl, fun _ => rfl⟩
  have hstatus : Triple f After (autostartStatus .result agent config) (fun _ => After) After := by
    apply Triple.bind (Triple.ofExcept (Q := fun _ => After) (fun _ _ _ h => h) fun _ => id)
    intro _
    apply Triple.bind (Triple.read (Q := fun _ => After) (fun _ _ h _ => h) fun _ => id)
    intro _
    exact .pure fun _ => id
  apply Triple.bind (Triple.read (Q := fun _ m' => m' = m) (fun _ _ h _ => h) hstay)
  intro _
  apply Triple.bind (Q := fun line m' => m' = m ∧ command agent config = .ok line)
  · exact .ofExcept (fun line m' hline h => ⟨h, hline⟩) hstay
  intro line
  apply Triple.given
  intro hline
  apply Triple.bind (Q := fun stored m' => m' = m ∧ readRun m.run = .ok stored)
  · refine .read (fun stored m' h hs => ⟨h, ?_⟩) hstay
    rw [← h]
    exact hs
  intro stored
  apply Triple.given
  intro hstored
  -- the value is written where there was none, and taken away where it is the command
  have hours (hs : stored = none ∨ stored = some line) : ¬ ForeignRun agent config m.run := by
    rintro ⟨hno, hline'⟩
    rcases hs with rfl | rfl
    · exact hno hstored
    · exact hline' line hline hstored
  have hset (p : Spot) (run : Option RunValue) (hs : stored = none ∨ stored = some line) :
      Triple f (fun m' => m' = m) (Proc.act p fun m => { m with run }) (fun _ => After) After := by
    apply Triple.update _ hstay fun _ => id
    rintro m' rfl
    exact ⟨rfl, fun hf => absurd hf (hours hs)⟩
  have hgo : Triple f (fun m' => m' = m) (autostartStatus .result agent config) (fun _ => After)
      After := hstatus.conseq hstay (fun _ _ => id) fun _ => id
  have hfail (text : String) : Triple f (fun m' => m' = m)
      (do let __r ← Proc.fail text; (fun _ : Unit => autostartStatus .result agent config) __r)
      (fun _ => After) After :=
    Triple.bind (Q := fun _ m' => m' = m) (.fail hstay) fun _ => hgo
  cases stored with
  | none =>
    cases enabled with
    | true => exact (hset _ _ (.inl rfl)).bind fun _ => hstatus
    | false => exact hgo
  | some value =>
    by_cases hv : value = line
    · cases enabled with
      | true =>
        simp only [classify, if_pos hv, if_true]
        exact hgo
      | false =>
        have hremove : mayRemove (some value) line = true := beq_iff_eq.2 (congrArg some hv)
        simp only [hremove, Bool.false_eq_true, if_false, if_true]
        exact (hset _ _ (.inr (congrArg some hv))).bind fun _ => hstatus
    · cases enabled with
      | true =>
        simp only [classify, if_neg hv, if_true]
        exact hfail _
      | false =>
        have hkeep : ¬ mayRemove (some value) line = true :=
          fun h => hv (Option.some.inj (beq_iff_eq.1 h))
        simp only [if_neg hkeep, Bool.false_eq_true, if_false, Option.isSome_some, if_true]
        exact hfail _

theorem Errands.step (h : Errands cli agent config m es m') :
    (Tracked m.host → Tracked m'.host) ∧
    (Foreign m.host → m'.host.serve = m.host.serve) ∧
    (ForeignRun agent config m.run → m'.run = m.run) := by
  obtain ⟨e, f, m, hf⟩ := h
  cases e with
  | serve running request =>
    rcases set_left cli running (fun p => f (.serve p)) request m.host with
      ⟨-, hat⟩ | ⟨-, ⟨r, hp⟩, hl⟩
    · exact ⟨hat.tracks.2, fun _ => hat.tracks.1, fun _ => rfl⟩
    · exact ⟨hl.tracked hf hp, fun hforeign => (hforeign.unchanged hp).elim, fun _ => rfl⟩
  | status running =>
    have ht : Tracks m.host (tailscaleStatus running (fun p => f (.serve p)) m.host).2 :=
      (status_tracks running m.host ⟨m.host.locked, rfl⟩).left
    exact ⟨ht.2, fun _ => ht.1, fun _ => rfl⟩
  | autostart enabled =>
    obtain ⟨hhost, hrun⟩ := (setAutostart_spec (f := f) agent config m enabled m rfl).left
    have hserve : (Errand.run cli agent config f m (.autostart enabled)).host = m.host := hhost
    rw [hserve]
    exact ⟨id, fun _ => rfl, hrun⟩
  | cleanup =>
    obtain ⟨hm, hrun⟩ := cleanup_left cli agent config f m
    refine ⟨hm.tracked, fun hf => ?_, fun hf => ?_⟩
    · exact hm.serve.resolve_right fun ⟨_, ⟨r, hown⟩, _⟩ => hown.not_foreign hf
    · refine hrun.resolve_right fun ⟨hs, _⟩ => ?_
      obtain ⟨line, hline, hread⟩ := hs.ours
      exact hf.2 line hline hread

end Desktop
end RemoteCodex
