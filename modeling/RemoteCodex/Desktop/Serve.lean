import Mathlib.Data.List.Infix
import RemoteCodex.Desktop.Tailscale

namespace RemoteCodex
set_option autoImplicit true
open Crash
namespace Desktop

/-- The inspections of a call: before the change, and after it without and with a receipt. -/
inductive Site where
  | current
  | after
  | verified
  deriving DecidableEq

/-- The points at which a call touches the host. -/
inductive Point where
  | acquire
  | preflight
  | loadAbandoned
  | loadPending
  | loadReceipt
  | version (site : Site)
  | serveStatus (site : Site)
  | status
  | journal
  | command
  | withdraw
  | rejournal
  | receipt
  | config
  | unjournal
  | readOrigin
  deriving DecidableEq

/-- What outlives a call: the journal, the receipt, the `public_origin` of the agent's
configuration, the rules of Tailscale Serve, and the lock of a call that crashed. -/
structure Host where
  journal : Option PendingServe
  receipt : Option ServeReceipt
  origin : Option String
  serve : Value
  locked : Bool

/-- The Tailscale CLI: what `status` prints, and what the commands of `apply` make of the rules.
A command puts one rule for the node's own name on an unused port 443, and takes such a rule
away. -/
structure Cli where
  status : Value
  applied : Value → Value
  removed : Value → Value
  applied_rule : ∀ v o name, parseStatus v = .ok o → o.occupied = false →
    dnsNameOf status = .ok name →
    parseStatus (applied v) = .ok ⟨some name, some BACKEND, true, false⟩
  removed_rule : ∀ v o name, parseStatus v = .ok o → o.dnsName = some name →
    o.proxy = some BACKEND → o.funnelEnabled = false →
    parseStatus (removed v) = .ok ⟨none, none, false, false⟩

abbrev Call (α : Type) := Proc Point Host α

def acquire : Call Bool := do
  let host ← Proc.get
  Proc.act .acquire fun h => { h with locked := true }
  return host.locked

/-- The call under the guard of its transaction. -/
def transaction (call : Bool → Call α) : Call α := do
  let abandoned ← acquire
  (call abandoned).ensure fun h => { h with locked := false }

def preflightConfig : Call Unit := Proc.read .preflight fun _ => .ok ()

def loadPending (p : Point) : Call (Option PendingServe) := Proc.read p fun h => .ok h.journal

def loadReceipt : Call (Option ServeReceipt) := Proc.read .loadReceipt fun h => .ok h.receipt

def writePending (p : Point) (pending : PendingServe) : Call Unit :=
  Proc.act p fun h => { h with journal := some pending }

def removePending (p : Point) : Call Unit := Proc.act p fun h => { h with journal := none }

def writeReceipt (r : ServeReceipt) : Call Unit :=
  Proc.act .receipt fun h => { h with receipt := some r }

def removeReceipt : Call Unit := Proc.act .receipt fun h => { h with receipt := none }

def updatePublicOrigin (origin : Option String) : Call Unit :=
  if origin.all originValid then Proc.act .config fun h => { h with origin }
  else Proc.fail "Invalid public_origin"

def readPublicOrigin : Call (Option String) :=
  Proc.read .readOrigin fun h =>
    match h.origin with
    | none => .ok none
    | some value =>
      if originValid value then .ok (some value) else .error "Agent public_origin is invalid"

def notFound (e : String) : Bool :=
  decide ("not found".toList <:+: e.toList.map Char.toLower)

/-- A query prints the rules as they are. -/
def inspectWithReceipt (site : Site) (receipt : Option ServeReceipt) :
    Call (Except ServeError ServeInspection) := do
  match ← Proc.command (.version site) id with
  | .ok false => return .error (.failed "Tailscale CLI version check failed")
  | .error e => return .error (if notFound e then .notInstalled else .failed e)
  | .ok true =>
    match ← Proc.command (.serveStatus site) id with
    | .error e => return .error (if notFound e then .notInstalled else .failed e)
    | .ok false => return .error (.failed "Tailscale Serve status failed")
    | .ok true =>
      let host ← Proc.get
      return inspectionFrom host.serve receipt

def expectedDnsName (cli : Cli) : Call String := do
  match ← Proc.command .status id with
  | .error e => Proc.fail e
  | .ok false => Proc.fail "Tailscale status query failed"
  | .ok true => Proc.ofExcept (dnsNameOf cli.status)

def ServePlan.change (cli : Cli) : ServePlan → Host → Host
  | .apply, h => { h with serve := cli.applied h.serve }
  | .remove, h => { h with serve := cli.removed h.serve }

/-- The check of `apply` that the command did what it should. -/
def postcondition (plan : ServePlan) : Call (Except ServeError ServeInspection) := do
  match ← inspectWithReceipt .after none with
  | .error e => return .error e
  | .ok a =>
    match plan with
    | .apply =>
      match receiptFrom a with
      | .error text => return .error (.failed text)
      | .ok candidate =>
        match ← inspectWithReceipt .verified (some candidate) with
        | .error e => return .error e
        | .ok verified =>
          if verified.ownership = .owned then return .ok verified
          else
            return .error
              (.failed "Tailscale Serve postcondition was not an exclusive RemoteCodex rule")
    | .remove =>
      if a.ownership = .absent then return .ok a
      else return .error (.failed "Tailscale Serve postcondition was not met")

def apply (cli : Cli) (plan : ServePlan) (current : ServeInspection) :
    Call (Except ServeError ServeInspection) := do
  if plan = .apply ∧ current.ownership = .absent ∨ plan = .remove ∧ current.ownership = .owned then
    match ← Proc.command .command (plan.change cli) with
    | .error e => return .error (.failed e)
    | .ok false => return .error .commandFailed
    | .ok true => postcondition plan
  else
    return .error
      (.failed "Serve configuration changed or is not exclusively owned by RemoteCodex")

/-- What a call knows when it writes its journal. -/
structure Ready where
  receipt : Option ServeReceipt
  current : ServeInspection
  expectedDnsName : Option String

def refuseIf (c : Prop) [Decidable c] (text : String) : Call Unit :=
  if c then Proc.fail text else pure ()

/-- A call that crashed must have left its journal. -/
def checkAbandoned (abandoned : Bool) : Call Unit :=
  if abandoned then do
    let pending ← loadPending .loadAbandoned
    refuseIf pending.isNone
      "A previous settings transaction was interrupted without a recovery journal"
  else pure ()

def expectedName (cli : Cli) (enabled : Bool) (current : ServeInspection) :
    Call (Option String) :=
  if enabled then do
    let name ← expectedDnsName cli
    return some name
  else return current.dnsName

/-- `set_tailscale_serve` up to the journal. -/
def prepare (cli : Cli) (enabled abandoned : Bool) : Call Ready := do
  preflightConfig
  checkAbandoned abandoned
  let pending ← loadPending .loadPending
  refuseIf pending.isSome
    "A previous settings transaction requires recovery before a new change"
  let receipt ← loadReceipt
  let outcome ← inspectWithReceipt .current receipt
  let current ← Proc.ofExcept (outcome.mapError ServeError.text)
  refuseIf (enabled ∧ current.ownership ≠ .absent) "Serve 443 is not exclusively unused"
  let expectedDnsName ← expectedName cli enabled current
  refuseIf (¬ enabled ∧ (current.ownership ≠ .owned ∨ receipt.isNone))
    "Only a matching RemoteCodex Serve receipt can be removed"
  return ⟨receipt, current, expectedDnsName⟩

/-- The answer of a call, with the origin that the agent runs with. -/
def answer (running : Option String) (after : ServeInspection) : Call ServeInspection := do
  let stored ← readPublicOrigin
  return { after with restartRequired := restartRequired stored running }

/-- What `set_tailscale_serve` makes of the outcome of `apply`. -/
def applied : Except ServeError ServeInspection → Call ServeInspection
  | .ok value => pure value
  | .error .commandFailed => do
    removePending .withdraw
    Proc.fail ServeError.commandFailed.text
  | .error e => Proc.fail e.text

/-- The first half of both branches of `set_tailscale_serve`. -/
def attempt (cli : Cli) (plan : ServePlan) (pending : PendingServe) (current : ServeInspection) :
    Call ServeInspection := do
  writePending .journal pending
  let outcome ← apply cli plan current
  applied outcome

def enable (cli : Cli) (running : Option String) (r : Ready) : Call ServeInspection := do
  let after ← attempt cli .apply ⟨true, none, r.expectedDnsName, BACKEND⟩ r.current
  let newReceipt ← Proc.ofExcept (receiptFrom after)
  writePending .rejournal ⟨true, some newReceipt, r.expectedDnsName, BACKEND⟩
  writeReceipt newReceipt
  updatePublicOrigin after.publicOrigin
  removePending .unjournal
  answer running after

def disable (cli : Cli) (running : Option String) (r : Ready) : Call ServeInspection := do
  let after ← attempt cli .remove ⟨false, r.receipt, r.expectedDnsName, BACKEND⟩ r.current
  removeReceipt
  updatePublicOrigin none
  removePending .unjournal
  answer running after

def setTailscaleServe (cli : Cli) (running : Option String) (request : ServeRequest) :
    Call ServeInspection :=
  if ¬ request.consent then Proc.fail "Explicit consent is required"
  else transaction fun abandoned => do
    let r ← prepare cli request.enabled abandoned
    if request.enabled then enable cli running r else disable cli running r

/-- The receipt that the journal of an enabling call leads to. -/
def recoveredReceipt (p : PendingServe) (value : ServeInspection) : Option ServeReceipt :=
  p.receipt.or
    (if value.proxy = some p.expectedProxy ∧ value.dnsName = p.expectedDnsName then
      (receiptFrom value).toOption
    else none)

def recover (p : PendingServe) (value : ServeInspection) : Call ServeInspection :=
  if p.enabled then
    match recoveredReceipt p value with
    | none => pure value
    | some candidate => do
      let verified ← inspectWithReceipt .verified (some candidate)
      let verified ← Proc.ofExcept (verified.mapError ServeError.text)
      if verified.ownership = .owned then
        writeReceipt candidate
        updatePublicOrigin verified.publicOrigin
        removePending .unjournal
        return verified
      else return value
  else if value.ownership = .absent then do
    removeReceipt
    updatePublicOrigin none
    removePending .unjournal
    return value
  else return value

def tailscaleStatus (running : Option String) : Call ServeInspection :=
  transaction fun abandoned => do
    let receipt ← loadReceipt
    let pending ← loadPending .loadPending
    refuseIf (abandoned ∧ pending.isNone)
      "A previous settings transaction was interrupted without a recovery journal"
    match ← inspectWithReceipt .current receipt with
    | .error .notInstalled => return notInstalled
    | .error e => Proc.fail e.text
    | .ok value =>
      let value ← match pending with
        | none => pure value
        | some p => recover p value
      answer running value

end Desktop
end RemoteCodex
