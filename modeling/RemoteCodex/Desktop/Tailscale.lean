import RemoteCodex.Lib.Crash
import RemoteCodex.Core.MediaWire

namespace RemoteCodex
set_option autoImplicit true
open Crash
namespace Desktop

/-- `serde_json::Value` -/
inductive Value where
  | null
  | bool (b : Bool)
  | number (text : String)
  | string (s : String)
  | array (items : List Value)
  | object (entries : List (String × Value))

namespace Value

def asObject : Value → Option (List (String × Value))
  | .object entries => some entries
  | _ => none

def asBool : Value → Option Bool
  | .bool b => some b
  | _ => none

def asStr : Value → Option String
  | .string s => some s
  | _ => none

def get (v : Value) (key : String) : Option Value :=
  v.asObject.bind fun entries => entries.lookup key

end Value

def BACKEND : String := "http://127.0.0.1:3847"

inductive ServeOwnership where
  | absent
  | owned
  | conflict
  deriving DecidableEq

inductive CliState where
  | installed
  | notInstalled
  deriving DecidableEq

structure ServeInspection where
  installed : Bool
  cli : CliState
  ownership : ServeOwnership
  detail : String
  dnsName : Option String
  proxy : Option String
  publicOrigin : Option String
  restartRequired : Bool
  previewPorts : List (Nat × Nat)
  deriving DecidableEq

inductive ServePlan where
  | apply
  | remove
  deriving DecidableEq

inductive ServeError where
  | notInstalled
  | commandFailed
  | failed (text : String)
  deriving DecidableEq

def ServeError.text : ServeError → String
  | .notInstalled => "Tailscale CLI is not installed"
  | .commandFailed => "Tailscale Serve command failed"
  | .failed s => s

structure ServeReceipt where
  dnsName : String
  proxy : String
  httpsPort : Nat
  publicOrigin : String
  deriving DecidableEq

structure PendingServe where
  enabled : Bool
  receipt : Option ServeReceipt
  expectedDnsName : Option String
  expectedProxy : String
  deriving DecidableEq

structure ServeRequest where
  enabled : Bool
  consent : Bool

def stripPrefix (p s : String) : Option String :=
  if p.toList.isPrefixOf s.toList then some (String.ofList (s.toList.drop p.toList.length))
  else none

def stripSuffix (p s : String) : Option String :=
  if p.toList.isSuffixOf s.toList then
    some (String.ofList (s.toList.take (s.toList.length - p.toList.length)))
  else none

/-- Drop copies of `p` from the start, `n` of them at most. -/
def dropCopies (p : List Char) : Nat → List Char → List Char
  | 0, s => s
  | n + 1, s => if p.isPrefixOf s then dropCopies p n (s.drop p.length) else s

/-- `str::trim_end_matches` -/
def trimEndMatches (p s : String) : String :=
  let chars := s.toList.reverse
  String.ofList (dropCopies p.toList.reverse chars.length chars).reverse

def validLabel (p : List Char) : Bool :=
  p != [] && decide (utf8Length p ≤ 63) && (p.all fun c => c.isAlphanum || c == '-') &&
    p.head? != some '-' && p.getLast? != some '-'

def validDnsName (name : String) : Bool :=
  match stripSuffix ".ts.net" name with
  | none => false
  | some p => p != "" && (p.toList.splitOn '.').all validLabel

def publicOrigin (name : String) : Option String :=
  if validDnsName name then some ("https://" ++ name) else none

def previewPorts : List (Nat × Nat) := (List.range' 8444 8).map fun p => (p, p + 5400)

def notInstalled : ServeInspection :=
  ⟨false, .notInstalled, .absent, "Tailscale CLI is not installed", none, none, none, false,
    previewPorts⟩

structure ObservedServe where
  dnsName : Option String
  proxy : Option String
  occupied : Bool
  funnelEnabled : Bool
  deriving DecidableEq

def okOr (text : String) : Option α → Except ServeError α
  | some a => .ok a
  | none => .error (.failed text)

def checkObject (root : List (String × Value)) (key : String) : Except ServeError Unit :=
  match root.lookup key with
  | none => .ok ()
  | some x =>
    if x.asObject.isSome then .ok ()
    else .error (.failed ("Tailscale Serve field " ++ key ++ " has an invalid type"))

def allowFunnel (root : List (String × Value)) : Except ServeError Bool :=
  match root.lookup "AllowFunnel" with
  | none => .ok false
  | some x => do
    let o ← okOr "Tailscale AllowFunnel has an invalid type" x.asObject
    o.foldlM (fun enabled entry => do
      let v ← okOr "Tailscale AllowFunnel value has an invalid type" entry.2.asBool
      return enabled || v) false

/-- Whether TCP 443 is occupied, and whether it is forwarded. -/
def tcp443 (root : List (String × Value)) : Except ServeError (Bool × Bool) :=
  match ((root.lookup "TCP").bind Value.asObject).bind fun tcp => tcp.lookup "443" with
  | none => .ok (false, false)
  | some x => do
    let o ← okOr "Tailscale TCP 443 has an invalid type" x.asObject
    let https ← match o.lookup "HTTPS" with
      | some h => okOr "Tailscale TCP 443 HTTPS has an invalid type" h.asBool
      | none => .ok false
    let forwarding ← match o.lookup "TCPForward" with
      | some f =>
        (okOr "Tailscale TCP 443 TCPForward has an invalid type" f.asStr).map fun _ => true
      | none => .ok false
    return (https || forwarding, forwarding)

def foregroundOccupied (root : List (String × Value)) : Except ServeError Bool :=
  match root.lookup "Foreground" with
  | none => .ok false
  | some foreground => do
    let sessions ← okOr "Tailscale Foreground has an invalid type" foreground.asObject
    if sessions.all fun config => config.2.asObject.isSome then return !sessions.isEmpty
    else .error (.failed "Tailscale Foreground session has an invalid type")

/-- The rule of a host, when its port is 443. -/
def webRule (host : String) (rule : Value) : Except ServeError (Option (String × String)) :=
  if ¬ ":443".toList.isSuffixOf host.toList then .ok none
  else do
    let name := trimEndMatches ":443" host
    if ¬ validDnsName name then .error (.failed "Tailscale Serve returned an invalid DNS name")
    else
      let ro ← okOr "Tailscale Web rule has an invalid type" rule.asObject
      let handlers ← okOr "Tailscale Web Handlers has an invalid type"
        ((ro.lookup "Handlers").bind Value.asObject)
      if handlers.length ≠ 1 ∨ (handlers.lookup "/").isNone then
        .error (.failed "Tailscale Web Handlers must contain only the root handler")
      else
        let root ← okOr "Tailscale Web root handler has an invalid type"
          ((handlers.lookup "/").bind Value.asObject)
        if root.length ≠ 1 ∨ (root.lookup "Proxy").isNone then
          .error (.failed "Tailscale Web root handler must contain only Proxy")
        else
          let proxy ← okOr "Tailscale Web Proxy has an invalid type"
            ((root.lookup "Proxy").bind Value.asStr)
          return some (name, proxy)

def webRules : List (String × Value) → Except ServeError (List (String × String))
  | [] => .ok []
  | (host, rule) :: web => do
    let r ← webRule host rule
    let rules ← webRules web
    return r.toList ++ rules

def parseStatus (v : Value) : Except ServeError ObservedServe := do
  let root ← okOr "Tailscale Serve status must be a JSON object" v.asObject
  checkObject root "TCP"
  checkObject root "Web"
  checkObject root "Foreground"
  let funnelEnabled ← allowFunnel root
  let tcp ← tcp443 root
  let foreground ← foregroundOccupied root
  let unruled : ObservedServe :=
    ⟨none, none, tcp.1 || foreground || funnelEnabled, funnelEnabled || tcp.2 || foreground⟩
  match (root.lookup "Web").bind Value.asObject with
  | none => return unruled
  | some web =>
    let rules ← webRules web
    if 1 < rules.length ∨ (rules ≠ [] ∧ tcp.1 = false) then
      .error (.failed "Tailscale Serve 443 configuration is mixed or incomplete")
    else
      match rules with
      | (dnsName, proxy) :: _ =>
        return ⟨some dnsName, some proxy, true, funnelEnabled || tcp.2 || foreground⟩
      | [] => return unruled

/-- The inspection of what was observed. -/
def inspectionOf (observed : ObservedServe) (receipt : Option ServeReceipt) : ServeInspection :=
  let i : ServeInspection := ⟨true, .installed, .absent, "HTTPS 443 is unused", none, none, none,
    false, previewPorts⟩
  let foreign := "HTTPS 443 contains an existing or foreign Serve rule"
  if ¬ observed.occupied then i
  else
    match observed.dnsName, observed.proxy with
    | some dns, some proxy =>
      let origin := publicOrigin dns
      let owned := !observed.funnelEnabled && receipt.any fun r =>
        r.httpsPort == 443 && r.dnsName == dns && r.proxy == proxy && r.proxy == BACKEND &&
          r.publicOrigin == origin.getD ""
      { i with
        dnsName := some dns
        proxy := some proxy
        publicOrigin := origin
        ownership := if owned then .owned else .conflict
        detail := if owned then "RemoteCodex owns HTTPS 443" else foreign }
    | _, _ => { i with ownership := .conflict, detail := foreign }

def inspectionFrom (v : Value) (receipt : Option ServeReceipt) :
    Except ServeError ServeInspection :=
  (parseStatus v).map fun observed => inspectionOf observed receipt

def dnsNameOf (value : Value) : Except String String :=
  match (((value.get "Self").bind fun v => v.get "DNSName").bind Value.asStr).or
      ((value.get "DNSName").bind Value.asStr) with
  | none => .error "Tailscale status has no DNS name"
  | some raw =>
    let name := (stripSuffix "." raw).getD raw
    if ¬ validDnsName name then .error "Tailscale status has an invalid DNS name" else .ok name

def receiptFrom (i : ServeInspection) : Except String ServeReceipt :=
  match i.dnsName, i.publicOrigin with
  | none, _ => .error "Serve status has no DNS name"
  | some _, none => .error "Serve status has no validated public origin"
  | some dnsName, some origin => .ok ⟨dnsName, BACKEND, 443, origin⟩

def originValid (o : String) : Bool :=
  match stripPrefix "https://" o with
  | none => false
  | some host => publicOrigin host == some o

def restartRequired (stored running : Option String) : Bool := stored != running

end Desktop
end RemoteCodex
