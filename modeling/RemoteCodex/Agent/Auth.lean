import RemoteCodex.Agent.Principal
import RemoteCodex.Agent.Store

namespace RemoteCodex
set_option autoImplicit true

abbrev Digest := List UInt8

/-- The hash, the text decoding and the signature scheme come from libraries. -/
structure Crypto where
  key : String → Digest
  decode : String → Option (List UInt8)
  validKey : List UInt8 → Bool
  validSignature : List UInt8 → Bool
  verify : List UInt8 → String → List UInt8 → Bool

structure PairTicket where
  scopes : List Scope
  untilTime : Nat

structure Challenge where
  client : Uuid
  message : String
  untilTime : Nat

structure Access where
  client : Uuid
  untilTime : Nat

structure WsTicket where
  principal : Principal
  channel : String
  session : Option Uuid
  untilTime : Nat

structure DeviceState where
  device : Device
  cancel : CancellationToken

/-- `Auth` with its locked tables. The cancellation tokens created so far are the names below
`nextToken`, and `cancelled` holds those that were cancelled. -/
structure Auth where
  blocked : Bool
  devices : AList fun _ : Uuid => DeviceState
  pairs : AList fun _ : Digest => PairTicket
  challenges : AList fun _ : String => Challenge
  access : AList fun _ : Digest => Access
  ws : AList fun _ : Digest => WsTicket
  windowStart : Nat
  requests : UInt32
  store : Store
  audience : String
  nextToken : Nat
  cancelled : Finset CancellationToken

/-- `str::trim` -/
def trim (s : String) : String :=
  String.ofList ((s.toList.dropWhile isWhitespace).reverse.dropWhile isWhitespace).reverse

namespace Auth

/-- A device with a token of its own, cancelled from the start for a revoked device. -/
def addDevice (i : Auth) (d : Device) : Auth :=
  { i with
    devices := i.devices.insert d.clientId ⟨d, i.nextToken⟩
    nextToken := i.nextToken + 1
    cancelled := if d.revoked then insert i.nextToken i.cancelled else i.cancelled }

def new (store : Store) (audience : String) (now : Nat) : Auth :=
  store.devices.entries.foldl (fun i e => i.addDevice e.2)
    { blocked := store.remoteBlocked, devices := ∅, pairs := ∅, challenges := ∅, access := ∅,
      ws := ∅, windowStart := now, requests := 0, store, audience, nextToken := 0,
      cancelled := ∅ }

def prune (i : Auth) (now : Nat) : Auth :=
  { i with
    pairs := Table.retain (fun _ v => decide (now < v.untilTime)) i.pairs
    challenges := Table.retain (fun _ v => decide (now < v.untilTime)) i.challenges
    access := Table.retain (fun _ v => decide (now < v.untilTime)) i.access
    ws := Table.retain (fun _ v => decide (now < v.untilTime)) i.ws }

def anonymousLimit (i : Auth) (now : Nat) : Except ErrorCode Unit × Auth :=
  let i := if fromSecs 60 ≤ now - i.windowStart then { i with windowStart := now, requests := 0 }
    else i
  let i := { i with requests := i.requests + 1 }
  if 120 < i.requests then (.error .rateLimited, i) else (.ok (), i.prune now)

def ensureOpen (i : Auth) : Except ErrorCode Unit :=
  if i.blocked then .error .forbidden else .ok ()

/-- Every device that is not revoked gets a new token, named after its old one beyond all names
in use. -/
def renewTokens (i : Auth) : Auth :=
  { i with
    devices := Table.mapValues
      (fun _ d => if d.device.revoked then d else { d with cancel := i.nextToken + d.cancel })
      i.devices
    nextToken := i.nextToken + i.nextToken }

/-- `io` tells whether the store accepts the write. -/
def resumeLocal (i : Auth) (io : Bool) : Auth :=
  if io then { i.renewTokens with store := i.store.setRemoteBlocked false, blocked := false }
  else i

def issuePairTicket (C : Crypto) (i : Auth) (scopes : List Scope) (now : Nat) (secret : String) :
    Except ErrorCode String × Auth :=
  match i.ensureOpen with
  | .error e => (.error e, i)
  | .ok () =>
    if scopes.isEmpty then (.error .invalidRequest, i)
    else
      let i := i.prune now
      if 16 ≤ Table.size i.pairs then (.error .rateLimited, i)
      else
        (.ok secret,
          { i with pairs := i.pairs.insert (C.key secret) ⟨scopes, now + fromSecs 300⟩ })

/-- The number of devices that are not revoked. -/
def activeDevices (i : Auth) : Nat :=
  (i.devices.entries.filter fun e => !e.2.device.revoked).length

def pair (C : Crypto) (i : Auth) (ticket publicKey label : String) (now : Nat) (id : Uuid)
    (io : Bool) : Except ErrorCode Device × Auth :=
  match i.ensureOpen with
  | .error e => (.error e, i)
  | .ok () =>
    if 128 < ticket.utf8ByteSize ∨ trim label = "" ∨ 160 < label.utf8ByteSize ∨
        256 < publicKey.utf8ByteSize then
      (.error .invalidRequest, i)
    else
      match C.decode publicKey with
      | none => (.error .invalidRequest, i)
      | some raw =>
        if ¬ C.validKey raw then (.error .invalidRequest, i)
        else
          match i.anonymousLimit now with
          | (.error e, i) => (.error e, i)
          | (.ok (), i) =>
            match i.pairs.lookup (C.key ticket) with
            | none => (.error .unauthenticated, i)
            | some p =>
              let i := { i with pairs := i.pairs.erase (C.key ticket) }
              if 64 ≤ i.activeDevices then (.error .rateLimited, i)
              else
                let d : Device := ⟨id, raw, trim label, p.scopes, false⟩
                if io then (.ok d, { i with store := i.store.saveDevice d }.addDevice d)
                else (.error .internal, i)

/-- `format!("RemoteCodex/v1\n{}\n{}\n{}\n{}")` -/
def challengeMessage (audience : String) (client : Uuid) (nonce : String) (expiry : Nat) :
    String :=
  "RemoteCodex/v1\n" ++ audience ++ "\n" ++ client.hyphenated ++ "\n" ++ nonce ++ "\n" ++
    toString expiry

def challenge (i : Auth) (client : Uuid) (now unixMs : Nat) (id nonce : String) :
    Except ErrorCode (String × String) × Auth :=
  match i.ensureOpen with
  | .error e => (.error e, i)
  | .ok () =>
    match i.anonymousLimit now with
    | (.error e, i) => (.error e, i)
    | (.ok (), i) =>
      if ¬ (i.devices.lookup client).any (fun d => !d.device.revoked) then
        (.error .unauthenticated, i)
      else if 128 ≤ Table.size i.challenges then (.error .rateLimited, i)
      else
        let message := challengeMessage i.audience client nonce (unixMs + 30000)
        (.ok (id, message),
          { i with challenges := i.challenges.insert id ⟨client, message, now + fromSecs 30⟩ })

/-- The device of a client, unless it is revoked. -/
def activeDevice (i : Auth) (client : Uuid) : Option DeviceState :=
  (i.devices.lookup client).filter fun d => !d.device.revoked

def validSignature (C : Crypto) (d : Device) (message sig : String) : Bool :=
  C.validKey d.publicKey &&
    match C.decode sig with
    | some bytes => C.validSignature bytes && C.verify d.publicKey message bytes
    | none => false

def verify (C : Crypto) (i : Auth) (id sig : String) (now : Nat) (secret : String) :
    Except ErrorCode String × Auth :=
  match i.ensureOpen with
  | .error e => (.error e, i)
  | .ok () =>
    if 128 < id.utf8ByteSize ∨ 256 < sig.utf8ByteSize then (.error .invalidRequest, i)
    else
      match i.anonymousLimit now with
      | (.error e, i) => (.error e, i)
      | (.ok (), i) =>
        match i.challenges.lookup id with
        | none => (.error .unauthenticated, i)
        | some challenge =>
          let i := { i with challenges := i.challenges.erase id }
          match i.activeDevice challenge.client with
          | none => (.error .unauthenticated, i)
          | some d =>
            if ¬ validSignature C d.device challenge.message sig then (.error .unauthenticated, i)
            else if 256 ≤ Table.size i.access then (.error .rateLimited, i)
            else
              let a : Access := ⟨challenge.client, now + fromSecs 600⟩
              (.ok secret, { i with access := i.access.insert (C.key secret) a })

def authorize (C : Crypto) (i : Auth) (token : String) (now : Nat) :
    Except ErrorCode Principal :=
  match i.ensureOpen with
  | .error e => .error e
  | .ok () =>
    if 128 < token.utf8ByteSize then .error .unauthenticated
    else
      match (i.access.lookup (C.key token)).filter (fun a => decide (now < a.untilTime)) with
      | none => .error .unauthenticated
      | some a =>
        match i.activeDevice a.client with
        | none => .error .deviceRevoked
        | some d => .ok ⟨a.client, d.device.scopes, a.untilTime, d.cancel⟩

def devicePrincipal (i : Auth) (client : Uuid) (now : Nat) : Except ErrorCode Principal :=
  match i.ensureOpen with
  | .error e => .error e
  | .ok () =>
    match i.activeDevice client with
    | none => .error .deviceRevoked
    | some d => .ok ⟨client, d.device.scopes, now + fromSecs 60, d.cancel⟩

def issueWs (C : Crypto) (i : Auth) (p : Principal) (channel : String) (session : Option Uuid)
    (now : Nat) (secret : String) : Except ErrorCode String × Auth :=
  if channel ∉ ["control", "terminal", "media"] then (.error .invalidRequest, i)
  else
    match p.require i.cancelled now .terminalRead with
    | .error e => (.error e, i)
    | .ok () =>
      if channel ∈ ["terminal", "media"] ∧ session = none then (.error .invalidRequest, i)
      else
        let i := i.prune now
        if 128 ≤ Table.size i.ws then (.error .rateLimited, i)
        else
          let t : WsTicket := ⟨p, channel, session, now + fromSecs 30⟩
          (.ok secret, { i with ws := i.ws.insert (C.key secret) t })

def consumeWs (C : Crypto) (i : Auth) (token channel : String) (now : Nat) :
    Except ErrorCode (Principal × Option Uuid) × Auth :=
  match i.ensureOpen with
  | .error e => (.error e, i)
  | .ok () =>
    if 128 < token.utf8ByteSize then (.error .unauthenticated, i)
    else
      let i := i.prune now
      match i.ws.lookup (C.key token) with
      | none => (.error .unauthenticated, i)
      | some t =>
        let i := { i with ws := i.ws.erase (C.key token) }
        if t.channel ≠ channel then (.error .forbidden, i)
        else
          match t.principal.require i.cancelled now .terminalRead with
          | .error e => (.error e, i)
          | .ok () => (.ok (t.principal, t.session), i)

def revoke (i : Auth) (id : Uuid) (io : Bool) : Except ErrorCode Unit × Auth :=
  match i.devices.lookup id with
  | none => (.error .invalidRequest, i)
  | some d =>
    let device := { d.device with revoked := true }
    let i :=
      { i with
        devices := i.devices.insert id ⟨device, d.cancel⟩
        cancelled := insert d.cancel i.cancelled }
    if io then
      (.ok (),
        { i with
          store := i.store.saveDevice device
          access := Table.retain (fun _ a => decide (a.client ≠ id)) i.access
          ws := Table.retain (fun _ t => decide (t.principal.clientId ≠ id)) i.ws })
    else (.error .internal, i)

/-- The tokens the devices hold. -/
def deviceTokens (i : Auth) : Finset CancellationToken :=
  (i.devices.entries.map fun e => e.2.cancel).toFinset

def blockAll (i : Auth) (io : Bool) : Auth :=
  { i with
    blocked := true
    store := if io then i.store.setRemoteBlocked true else i.store
    cancelled := i.cancelled ∪ i.deviceTokens
    access := ∅
    ws := ∅
    pairs := ∅
    challenges := ∅ }

end Auth
end RemoteCodex
