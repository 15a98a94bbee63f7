import RemoteCodex.Lib.Fallible
import RemoteCodex.Desktop.ServeRules

namespace RemoteCodex
set_option autoImplicit true
open Fallible
namespace Desktop

structure CommandOutput where
  success : Bool
  stdout : String
  stderr : String

/-- The arguments of a command. -/
abbrev Args := List String

/-- `CliRunner` and the parser of what it prints. An answer may depend on all commands so far. -/
structure CliRunner where
  run : List Args → Args → Except String CommandOutput
  fromStr : String → Option Value

/-- Programs over the commands so far. -/
abbrev Commands (α : Type) := Prog (List Args) ServeError α

def VERSION : Args := ["version"]

def SERVE_STATUS : Args := ["serve", "status", "--json"]

def SERVE_OFF : Args := ["serve", "--yes", "--https=443", "off"]

namespace CliRunner
variable (r : CliRunner)

def call (args : Args) : Commands (Except String CommandOutput) := do
  let log ← get
  set (log ++ [args])
  return r.run log args

def inspectWithReceipt (receipt : Option ServeReceipt) : Commands ServeInspection := do
  match ← r.call VERSION with
  | .error e => throw (if notFound e then .notInstalled else .failed e)
  | .ok v =>
    bailIf (v.success = false) (.failed "Tailscale CLI version check failed")
    match ← r.call SERVE_STATUS with
    | .error e => throw (if notFound e then .notInstalled else .failed e)
    | .ok o =>
      bailIf (o.success = false) (.failed "Tailscale Serve status failed")
      match r.fromStr o.stdout with
      | none => throw (.failed "Tailscale returned invalid Serve status JSON")
      | some v => ofExcept (inspectionFrom v receipt)

/-- The command for a plan, if it may be carried out. -/
def argsOf : ServePlan → ServeOwnership → Option Args
  | .apply, .absent => some ["serve", "--bg", "--yes", "--https=443", BACKEND]
  | .remove, .owned => some SERVE_OFF
  | _, _ => none

def verify (a : ServeInspection) : ServePlan → Commands ServeInspection
  | .apply => do
    let candidate ← ofExcept ((receiptFrom a).mapError .failed)
    let verified ← r.inspectWithReceipt (some candidate)
    bailIf (verified.ownership ≠ .owned)
      (.failed "Tailscale Serve postcondition was not an exclusive RemoteCodex rule")
    return verified
  | .remove => do
    bailIf (a.ownership ≠ .absent) (.failed "Tailscale Serve postcondition was not met")
    return a

def apply (plan : ServePlan) (current : ServeInspection) : Commands ServeInspection := do
  match argsOf plan current.ownership with
  | none =>
    throw (.failed "Serve configuration changed or is not exclusively owned by RemoteCodex")
  | some args =>
    match ← r.call args with
    | .error e => throw (.failed e)
    | .ok o =>
      bailIf (o.success = false) .commandFailed
      let a ← r.inspectWithReceipt none
      r.verify a plan

/-- Only queries were made since then. -/
def Asked (log log' : List Args) : Prop :=
  ∃ more, log' = log ++ more ∧ ∀ args ∈ more, args = VERSION ∨ args = SERVE_STATUS

theorem Asked.refl (log : List Args) : Asked log log := ⟨[], (List.append_nil log).symm, nofun⟩

theorem Asked.snoc (h : Asked log log') (ha : args = VERSION ∨ args = SERVE_STATUS) :
    Asked log (log' ++ [args]) := by
  obtain ⟨more, rfl, hmore⟩ := h
  refine ⟨more ++ [args], List.append_assoc .., fun c hc => ?_⟩
  rcases List.mem_append.1 hc with hc | hc
  · exact hmore c hc
  · rwa [List.mem_singleton.1 hc]

abbrev Asks (log : List Args) (p : Commands α) : Prop :=
  Triple (Asked log) p (fun _ => Asked log) (Asked log)

variable {r}

theorem call_spec {log : List Args} {E : List Args → Prop} (args : Args) :
    Triple (fun l => l = log) (r.call args) (fun _ l => l = log ++ [args]) E := by
  rintro _ rfl
  exact rfl

theorem call_asks (h : args = VERSION ∨ args = SERVE_STATUS) : Asks log (r.call args) :=
  fun _ hlog => hlog.snoc h

theorem bail_asks {log : List Args} (c : Prop) [Decidable c] (e : ServeError) :
    Asks log (bailIf c e) := .bailIf (fun _ _ h => h) fun _ _ h => h

theorem ofExcept_asks {log : List Args} (x : Except ServeError α) :
    Asks log (ofExcept x : Commands α) := .ofExcept (fun _ _ _ h => h) fun _ h => h

theorem inspect_asks {log : List Args} (receipt : Option ServeReceipt) :
    Asks log (r.inspectWithReceipt receipt) := by
  refine (call_asks (.inl rfl)).bind fun v => ?_
  cases v with
  | error e => exact .throw fun _ h => h
  | ok v =>
    refine (bail_asks _ _).bind fun _ => (call_asks (.inr rfl)).bind fun o => ?_
    cases o with
    | error e => exact .throw fun _ h => h
    | ok o =>
      refine (bail_asks _ _).bind fun _ => ?_
      split
      · exact .throw fun _ h => h
      · exact ofExcept_asks _

theorem verify_asks {log : List Args} (a : ServeInspection) (plan : ServePlan) :
    Asks log (r.verify a plan) := by
  cases plan with
  | apply =>
    refine (ofExcept_asks _).bind fun candidate => (inspect_asks _).bind fun verified => ?_
    exact (bail_asks _ _).bind fun _ => .pure fun _ h => h
  | remove => exact (bail_asks _ _).bind fun _ => .pure fun _ h => h

/-- The command of the plan comes first, and only queries after it. -/
theorem apply_asks {log : List Args} (h : argsOf plan current.ownership = some args) :
    Triple (fun l => l = log) (r.apply plan current) (fun _ => Asked (log ++ [args]))
      (Asked (log ++ [args])) := by
  have hlog : ∀ l, l = log ++ [args] → Asked (log ++ [args]) l := fun l hl => hl ▸ .refl _
  unfold apply
  rw [h]
  refine (call_spec args).bind fun o => ?_
  refine Triple.conseq ?_ hlog (fun _ _ => id) fun _ => id
  cases o with
  | error e => exact .throw fun _ h => h
  | ok o =>
    exact (bail_asks _ _).bind fun _ => (inspect_asks _).bind fun a => verify_asks a plan

/-- A plan that may not be carried out leads to no command at all. -/
theorem apply_refused (h : argsOf plan current.ownership = none) (log : List Args) :
    (exec (r.apply plan current) log).2 = log := by
  unfold apply
  rw [h]
  rfl

end CliRunner
open CliRunner

theorem argsOf_off (h : argsOf plan ownership = some SERVE_OFF) :
    plan = .remove ∧ ownership = .owned := by
  cases plan <;> cases ownership <;> first | exact ⟨rfl, rfl⟩ | exact absurd h (by decide)

/-- The commands that `apply` gives. -/
theorem apply_issued (r : CliRunner) (plan : ServePlan) (current : ServeInspection)
    (log : List Args) : ∃ more, (exec (r.apply plan current) log).2 = log ++ more ∧
      ∀ args ∈ more, args = VERSION ∨ args = SERVE_STATUS ∨
        argsOf plan current.ownership = some args := by
  cases h : argsOf plan current.ownership with
  | none => exact ⟨[], by rw [apply_refused h, List.append_nil], nofun⟩
  | some args =>
    obtain ⟨more, hlog, hmore⟩ := (apply_asks (r := r) h).left rfl
    refine ⟨args :: more, by rw [hlog, List.append_assoc]; rfl, fun c hc => ?_⟩
    rcases List.mem_cons.1 hc with rfl | hc
    · exact .inr (.inr rfl)
    · exact (hmore c hc).imp_right .inl

/-- What a command makes of the rules. -/
def Cli.effect (cli : Cli) (v : Value) (args : Args) : Value :=
  if argsOf .apply .absent = some args then cli.applied v
  else if argsOf .remove .owned = some args then cli.removed v
  else v

/-- The rules after the commands of `apply` are those of its one command, which is given only when
the plan may be carried out. -/
theorem apply_effect (r : CliRunner) (cli : Cli) (plan : ServePlan) (current : ServeInspection)
    (log : List Args) (x : Host) : ∃ more, (exec (r.apply plan current) log).2 = log ++ more ∧
      more.foldl cli.effect x.serve =
        if plan = .apply ∧ current.ownership = .absent ∨ plan = .remove ∧ current.ownership = .owned
        then (plan.change cli x).serve else x.serve := by
  have hquery (more : List Args) (hmore : ∀ args ∈ more, args = VERSION ∨ args = SERVE_STATUS)
      (v : Value) : more.foldl cli.effect v = v := by
    induction more generalizing v with
    | nil => rfl
    | cons args more ih =>
      obtain ⟨hargs, hmore⟩ := List.forall_mem_cons.1 hmore
      rw [List.foldl_cons, ih hmore]
      rcases hargs with rfl | rfl <;> rfl
  cases h : argsOf plan current.ownership with
  | none =>
    refine ⟨[], by rw [apply_refused h, List.append_nil], ?_⟩
    rw [if_neg]
    · rfl
    · rintro (⟨rfl, ho⟩ | ⟨rfl, ho⟩) <;> rw [ho] at h <;> cases h
  | some args =>
    obtain ⟨more, hlog, hmore⟩ := (apply_asks (r := r) h).left rfl
    refine ⟨args :: more, by rw [hlog, List.append_assoc]; rfl, ?_⟩
    rw [List.foldl_cons, hquery more hmore]
    unfold argsOf at h
    split at h
    · next ho =>
      cases h
      rw [if_pos (.inl ⟨rfl, ho⟩)]
      rfl
    · next ho =>
      cases h
      rw [if_pos (.inr ⟨rfl, ho⟩)]
      rfl
    · cases h

end Desktop
open Desktop

/-- Serve is switched off only when its rule on port 443 is the one of the receipt. -/
theorem serve_off_ours :
    (∀ v receipt i, inspectionFrom v receipt = .ok i → i.ownership = .owned →
      ∃ root host r, v = .object root ∧ receipt = some r ∧ Exclusive root host ∧ r.Matches host) ∧
    ∀ (r : CliRunner) plan current log, ∃ more,
      (Fallible.exec (r.apply plan current) log).2 = log ++ more ∧
        (SERVE_OFF ∈ more → plan = .remove ∧ current.ownership = .owned) := by
  refine ⟨fun v receipt i h howned => owned_exclusive h howned, fun r plan current log => ?_⟩
  obtain ⟨more, hlog, hmore⟩ := apply_issued r plan current log
  refine ⟨more, hlog, fun hoff => ?_⟩
  rcases hmore _ hoff with h | h | h
  · exact absurd h (by decide)
  · exact absurd h (by decide)
  · exact argsOf_off h

theorem serve_off_ours_rule : ∃ i,
    inspectionFrom (localCli.applied (.object [])) (some (receiptFor "host.ts.net")) = .ok i ∧
      i.ownership = .owned ∧ ∃ root host r, localCli.applied (.object []) = .object root ∧
        some (receiptFor "host.ts.net") = some r ∧ Exclusive root host ∧ r.Matches host := by
  obtain ⟨i, hi, howned⟩ : ∃ i,
      inspectionFrom (localCli.applied (.object [])) (some (receiptFor "host.ts.net")) = .ok i ∧
        i.ownership = .owned := ⟨_, rfl, by decide +kernel⟩
  exact ⟨i, hi, howned, serve_off_ours.1 _ _ i hi howned⟩

end RemoteCodex
