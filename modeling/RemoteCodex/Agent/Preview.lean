import RemoteCodex.Agent.Auth

namespace RemoteCodex
set_option autoImplicit true

/-- The text form of a UUID without hyphens. -/
def Uuid.simple (u : Uuid) : String :=
  String.ofList (u.bytes.flatMap fun b =>
    [Nat.digitChar (b.toNat / 16), Nat.digitChar (b.toNat % 16)])

/-- The table part of `device_principal`, after `ensure_open`. -/
def Auth.tablePrincipal (i : Auth) (client : Uuid) (now : Nat) : Except ErrorCode Principal :=
  match i.activeDevice client with
  | none => .error .deviceRevoked
  | some d => .ok ⟨client, d.device.scopes, now + fromSecs 60, d.cancel⟩

theorem Auth.devicePrincipal_eq (i : Auth) (client : Uuid) (now : Nat) :
    i.devicePrincipal client now = i.ensureOpen.bind fun _ => i.tablePrincipal client now := by
  unfold devicePrincipal
  split
  · next h => rw [h]; rfl
  · next h => rw [h]; rfl

/-- `principal`, for the token of the `Authorization` header -/
def principal (C : Crypto) (auth : Auth) (bearer : String) (now : Nat) (scope : Scope) :
    Except ErrorCode Principal := do
  let p ← auth.authorize C bearer now
  p.require auth.cancelled now scope
  return p

namespace Preview

structure PreviewInfo where
  id : Uuid
  projectId : Uuid
  port : Nat
  gatewayPort : Nat
  origin : String
  pid : Nat
  processCreated : String
  approvedBy : Uuid
  deriving DecidableEq

structure Entry where
  info : PreviewInfo
  created : Nat
  stop : CancellationToken
  deriving DecidableEq

structure LaunchGrant where
  preview : Uuid
  client : Uuid
  untilTime : Nat

structure BrowserGrant where
  preview : Uuid
  client : Uuid
  untilTime : Nat

/-- What the mutex of `PreviewManager` protects. -/
structure Inner where
  entries : AList fun _ : Uuid => Entry
  launches : AList fun _ : Digest => LaunchGrant
  browsers : AList fun _ : Digest => BrowserGrant

structure Register where
  projectId : Uuid
  port : Nat
  publicPort : Nat

/-- The checks of `register` on the ports. -/
def Register.check (body : Register) (bindPort : Nat) : Except ErrorCode Unit :=
  if body.port < 1024 ∨ body.port = bindPort ∨ (13844 ≤ body.port ∧ body.port ≤ 13851) ∨
      ¬ (8444 ≤ body.publicPort ∧ body.publicPort ≤ 8451) then .error .invalidRequest
  else .ok ()

/-- The entry that `register` makes. -/
def Register.entry (body : Register) (id : Uuid) (origin : String) (pid created : Nat)
    (stop : CancellationToken) (approvedBy : Uuid) : Entry :=
  ⟨⟨id, body.projectId, body.port, body.publicPort + 5400, origin, pid, toString created,
    approvedBy⟩, created, stop⟩

namespace Inner

def empty : Inner := ⟨∅, ∅, ∅⟩

def revokeClient (i : Inner) (id : Uuid) : Inner :=
  { i with
    launches := Table.retain (fun _ g => decide (g.client ≠ id)) i.launches
    browsers := Table.retain (fun _ g => decide (g.client ≠ id)) i.browsers }

def blockAll (i : Inner) : Inner := { i with launches := ∅, browsers := ∅ }

def shutdown (_ : Inner) : Inner := ⟨∅, ∅, ∅⟩

/-- The stop tokens of all entries. -/
def stops (i : Inner) : Finset CancellationToken :=
  (i.entries.entries.map fun e => e.2.stop).toFinset

def prune (i : Inner) (now : Nat) : Inner :=
  { i with
    launches := Table.retain (fun _ g => decide (now < g.untilTime)) i.launches
    browsers := Table.retain (fun _ g => decide (now < g.untilTime)) i.browsers }

/-- The part of `register` inside the mutex. -/
def register (i : Inner) (e : Entry) : Except ErrorCode Unit × Inner :=
  if 8 ≤ Table.size i.entries ∨
      i.entries.entries.any (fun x => x.2.info.gatewayPort == e.info.gatewayPort) then
    (.error .rateLimited, i)
  else (.ok (), { i with entries := i.entries.insert e.info.id e })

/-- The part of `remove` inside the mutex. -/
def remove (i : Inner) (id : Uuid) : Inner :=
  { i with
    entries := i.entries.erase id
    launches := Table.retain (fun _ g => decide (g.preview ≠ id)) i.launches
    browsers := Table.retain (fun _ g => decide (g.preview ≠ id)) i.browsers }

/-- The part of `launch` inside the mutex. -/
def launch (C : Crypto) (i : Inner) (id : Uuid) (p : Principal) (now : Nat) (ticket : String) :
    Except ErrorCode String × Inner :=
  let i := i.prune now
  match i.entries.lookup id with
  | none => (.error .previewNotApproved, i)
  | some e =>
    if 64 ≤ Table.size i.launches then (.error .rateLimited, i)
    else
      let g : LaunchGrant := ⟨id, p.clientId, now + fromSecs 30⟩
      (.ok (e.info.origin ++ "/_rc/bootstrap#" ++ ticket),
        { i with launches := i.launches.insert (C.key ticket) g })

/-- The first half of `consume`: the ticket is taken out, also when it is another gateway's. -/
def redeem (C : Crypto) (i : Inner) (preview : Uuid) (now : Nat) (ticket : String) :
    Except ErrorCode LaunchGrant × Inner :=
  let i := i.prune now
  let taken := { i with launches := i.launches.erase (C.key ticket) }
  match (i.launches.lookup (C.key ticket)).filter (fun g => decide (g.preview = preview)) with
  | none => (.error .unauthenticated, taken)
  | some g => (.ok g, taken)

/-- The second half of `consume`: the credential of the browser. -/
def enter (C : Crypto) (i : Inner) (g : LaunchGrant) (now : Nat) (credential : String) :
    Except ErrorCode Unit × Inner :=
  if 128 ≤ Table.size i.browsers then (.error .rateLimited, i)
  else
    let b : BrowserGrant := ⟨g.preview, g.client, now + fromSecs 600⟩
    (.ok (), { i with browsers := i.browsers.insert (C.key credential) b })

/-- The lookup of a credential. -/
def authorized (C : Crypto) (i : Inner) (preview : Uuid) (now : Nat) (credential : String) :
    Except ErrorCode Uuid × Inner :=
  let i := i.prune now
  match (i.browsers.lookup (C.key credential)).filter (fun b => decide (b.preview = preview)) with
  | none => (.error .unauthenticated, i)
  | some b => (.ok b.client, i)

end Inner

def cookieName (id : Uuid) : String := "__Host-rcpv-" ++ id.simple

/-- `str::split_once` -/
def splitOnce (c : Char) (s : String) : Option (String × String) :=
  match s.toList.span (· != c) with
  | (_, []) => none
  | (before, _ :: after) => some (String.ofList before, String.ofList after)

/-- The names and values of a `Cookie` header. -/
def cookiePairs (cookies : String) : List (String × String) :=
  (cookies.toList.splitOn ';').filterMap fun part => splitOnce '=' (trim (String.ofList part))

inductive Method where
  | get
  | post
  | other
  deriving DecidableEq

/-- What `proxy_inner` reads of a request. A header that is there but is not text is `none` in
`host` and `cookie` and `some none` in `origin`. A body is `none` when it is too long or not JSON,
else it is the text under the key `ticket`. -/
structure Request where
  method : Method
  path : String
  suffix : String
  host : Option String
  origin : Option (Option String)
  cookie : Option String
  body : Option (Option String)

/-- What a request asks of a gateway. -/
inductive Route where
  | bootstrap
  | consume (ticket : String)
  | credential (credential : String)
  deriving DecidableEq

/-- The checks of `proxy_inner` before it takes the mutex; `authority` reads the host and the port
off the origin. -/
def route (authority : String → Option String) (info : PreviewInfo) (r : Request) :
    Except ErrorCode Route :=
  match authority info.origin with
  | none => .error .internal
  | some expected =>
    if r.host ≠ some expected then .error .originRejected
    else if r.origin ≠ none ∧ r.origin ≠ some (some info.origin) then .error .originRejected
    else if r.path = "/_rc/bootstrap" ∧ r.method = .get then .ok .bootstrap
    else if r.path = "/_rc/consume" ∧ r.method = .post then
      if r.origin.join ≠ some info.origin then .error .originRejected
      else
        match r.body with
        | none => .error .invalidRequest
        | some value =>
          match value.filter (fun t => decide (t.utf8ByteSize ≤ 128)) with
          | none => .error .unauthenticated
          | some ticket => .ok (.consume ticket)
    else if "/_rc/".toList <+: r.path.toList then .error .invalidRequest
    else
      match (cookiePairs (r.cookie.getD "")).find? (fun p => p.1 == cookieName info.id) with
      | none => .error .unauthenticated
      | some p => .ok (.credential p.2)

end Preview
end RemoteCodex
