import RemoteCodex.Lib.Base64
import RemoteCodex.Lib.Fallible
import RemoteCodex.Lib.JsText
import RemoteCodex.Client.Controller

namespace RemoteCodex
set_option autoImplicit true
open Fallible
namespace Client

/-- The length of what `TextEncoder` makes of a string. A surrogate alone becomes U+FFFD. -/
def encodedLength : Js.Str → Nat
  | [] => 0
  | [u] => if u < 0x80 then 1 else if u < 0x800 then 2 else 3
  | u :: v :: rest =>
    if 0xd800 ≤ u ∧ u < 0xdc00 ∧ 0xdc00 ≤ v ∧ v < 0xe000 then 4 + encodedLength rest
    else (if u < 0x80 then 1 else if u < 0x800 then 2 else 3) + encodedLength (v :: rest)

def btoa (binary : Js.Str) : Except String Js.Str :=
  if binary.any fun u => 0xff < u then .error "InvalidCharacterError"
  else
    let digits := (Base64.encode (binary.map UInt16.toUInt8)).map fun c =>
      if c = '-' then '+' else if c = '_' then '/' else c
    .ok ((digits ++ List.replicate ((4 - digits.length % 4) % 4) '=').map Js.unit)

def MAX_PASTE_BYTES : Nat := 256 * 1024

def pasteControl (u : UInt16) : Bool :=
  (1 ≤ u && u ≤ 8) || u == 0x0b || u == 0x0c || (0x0e ≤ u && u ≤ 0x1f) || u == 0x7f

def validatePaste (text : Js.Str) : Except String Nat :=
  if text = [] ∨ 0 ∈ text then .error "INVALID_PASTE"
  else if text.any pasteControl then .error "PASTE_CONTROL_CHARACTERS"
  else
    let bytes := encodedLength text
    if MAX_PASTE_BYTES < bytes then .error "PASTE_TOO_LARGE" else .ok bytes

/-- `PasteGate`: the sessions that are closed. -/
abbrev PasteGate := List Js.Str

def CTRL_C : Js.Str := [3]

namespace PasteGate

def begin (g : PasteGate) (session text : Js.Str) : Except String PasteGate := do
  let _ ← validatePaste text
  if session ∈ g then .error "PASTE_IN_PROGRESS" else .ok (session :: g)

def finish (g : PasteGate) (session : Js.Str) : PasteGate := g.filter (· ≠ session)

def allowed (g : PasteGate) (session data : Js.Str) : Prop := session ∉ g ∨ data = CTRL_C

instance (g : PasteGate) (session data : Js.Str) : Decidable (g.allowed session data) :=
  inferInstanceAs (Decidable (_ ∨ _))

end PasteGate

inductive Payload where
  | utf8 (text : Js.Str)
  | binary (base64 : Js.Str)
  deriving DecidableEq

/-- The message of an input, whose id is that of its request too. -/
structure InputMessage where
  sessionId : Js.Str
  agentEpoch : Js.Str
  generation : Nat
  leaseEpoch : Nat
  inputId : Js.Str
  inputSeq : Nat
  payload : Payload
  deriving DecidableEq

/-- The body of a paste, with the session in its path. -/
structure PasteRequest where
  sessionId : Js.Str
  agentEpoch : Js.Str
  generation : Nat
  connectionId : Js.Str
  leaseEpoch : Nat
  inputId : Js.Str
  inputSeq : Nat
  text : Js.Str
  appendEnter : Bool
  deriving DecidableEq

def ownsLease (lease : LeaseView) (client connection : Js.Str) : Prop :=
  lease.clientId = client ∧ lease.connectionId = connection ∧ 0 < lease.remainingMs

instance (lease : LeaseView) (client connection : Js.Str) :
    Decidable (ownsLease lease client connection) := inferInstanceAs (Decidable (_ ∧ _))

inductive InputState where
  | sent
  | accepted
  deriving DecidableEq

structure InputSequencer where
  sequence : Nat
  pending : List (Js.Str × Js.Str × InputState)

/-- The replies to an input. `written`, `rejected` and the delivery failures all settle it. -/
inductive Reply where
  | accepted (inputId : Js.Str)
  | settled (inputId : Js.Str)

namespace InputSequencer

def create (q : InputSequencer) (session : SessionInfo) (clientId connection payload id : Js.Str)
    (maxBytes : Nat) : Except String (InputMessage × InputSequencer) :=
  match session.lease with
  | none => .error "LEASE_REQUIRED"
  | some lease =>
    if ¬ ownsLease lease clientId connection then .error "LEASE_REQUIRED"
    else if session.state ≠ Js.str "running" then .error "SESSION_LOST"
    else if payload = [] ∨ maxBytes < encodedLength payload then .error "INPUT_TOO_LARGE"
    else if 128 ≤ q.pending.length then .error "INPUT_BACKPRESSURE"
    else if (q.pending.lookup id).isSome ∨ 2 ^ 53 - 1 ≤ q.sequence then .error "INVALID_SEQUENCE"
    else
      .ok (⟨session.sessionId, session.agentEpoch, session.generation, lease.epoch, id,
        q.sequence + 1, .utf8 payload⟩,
        ⟨q.sequence + 1, q.pending ++ [(id, session.sessionId, .sent)]⟩)

def accepted (q : InputSequencer) (id : Js.Str) : InputSequencer :=
  { q with pending := q.pending.map fun p => if p.1 = id then (p.1, p.2.1, .accepted) else p }

def settled (q : InputSequencer) (id : Js.Str) : InputSequencer :=
  { q with pending := q.pending.filter fun p => p.1 ≠ id }

def reply (q : InputSequencer) : Reply → InputSequencer
  | .accepted id => q.accepted id
  | .settled id => q.settled id

def disconnected (q : InputSequencer) : InputSequencer := { q with pending := [] }

end InputSequencer

inductive Sent where
  | input (m : InputMessage)
  | paste (r : PasteRequest)
  deriving DecidableEq

/-- A paste that waits for its answer, and the connection on which it began. -/
structure Flight where
  request : PasteRequest
  link : Nat

/-- A page with what it knows of its inputs and pastes, and with all that it has sent. The
connections are counted: another one begins when the id changes and after a disconnect. -/
structure Keyboard where
  page : Page
  pastes : PasteGate
  inputs : InputSequencer
  sent : List Sent
  flights : Nat → Option Flight
  nextFlight : Nat
  link : Nat

abbrev Handler (α : Type) := Prog Keyboard String α

/-- The socket when something is sent. -/
structure Channel where
  isOpen : Bool
  bufferedAmount : Nat

namespace Keyboard

def start : Keyboard := ⟨.start, [], ⟨0, []⟩, [], fun _ => none, 0, 0⟩

def send (ch : Channel) (m : InputMessage) : Handler Unit := do
  let k ← get
  bailIf (k.page.c.socket = none ∨ ch.isOpen = false ∨ k.page.c.connected = false) "DISCONNECTED"
  bailIf (64 * 1024 < ch.bufferedAmount) "INPUT_BACKPRESSURE"
  modify fun k => { k with sent := k.sent ++ [.input m] }

def findSession (id : Js.Str) : Handler SessionInfo := do
  let k ← get
  match k.page.c.sessions.find? fun s => s.sessionId = id with
  | none => throw "SESSION_LOST"
  | some s => return s

def createInput (s : SessionInfo) (payload inputId : Js.Str) (maxBytes : Nat) :
    Handler InputMessage := do
  let k ← get
  let clientId := (k.page.c.host.map HostInfo.clientId).getD []
  let created ← ofExcept
    (k.inputs.create s clientId k.page.c.connectionId payload inputId maxBytes)
  set { k with inputs := created.2 }
  return created.1

/-- An input that is not sent is settled. -/
def orSettle (inputId : Js.Str) (sending : Handler Unit) : Handler Unit := do
  match ← attempt sending with
  | .ok () => return ()
  | .error e =>
    modify fun k => { k with inputs := k.inputs.settled inputId }
    throw e

def input (ch : Channel) (inputId id data : Js.Str) : Handler Unit := do
  let k ← get
  bailIf (¬ k.pastes.allowed id data) "PASTE_IN_PROGRESS"
  let s ← findSession id
  let m ← createInput s data inputId 8192
  orSettle m.inputId (send ch m)

def binaryInput (ch : Channel) (inputId id binary : Js.Str) : Handler Unit := do
  let k ← get
  bailIf (id ∈ k.pastes) "PASTE_IN_PROGRESS"
  let s ← findSession id
  let m ← createInput s (List.replicate binary.length 0x78) inputId 8192
  orSettle m.inputId do
    let base64 ← ofExcept (btoa binary)
    send ch { m with payload := .binary base64 }

/-- The request of a paste is on its way. -/
def launch (k : Keyboard) (r : PasteRequest) : Keyboard :=
  { k with
    sent := k.sent ++ [.paste r]
    flights := Function.update k.flights k.nextFlight (some ⟨r, k.link⟩)
    nextFlight := k.nextFlight + 1 }

/-- `paste` up to the answer to its request. -/
def paste (inputId id text : Js.Str) (appendEnter : Bool) : Handler Unit := do
  let _ ← ofExcept (validatePaste text)
  let s ← findSession id
  let k ← get
  let pastes ← ofExcept (k.pastes.begin id text)
  set { k with pastes }
  match ← attempt (createInput s text inputId (256 * 1024)) with
  | .error e =>
    modify fun k => { k with pastes := k.pastes.finish id }
    throw e
  | .ok m =>
    modify fun k => k.launch ⟨id, m.agentEpoch, m.generation, k.page.c.connectionId, m.leaseEpoch,
      m.inputId, m.inputSeq, text, appendEnter⟩

/-- The answer to a paste, or its failure. -/
def completed (k : Keyboard) (n : Nat) (f : Flight) : Keyboard :=
  { k with
    inputs := k.inputs.settled f.request.inputId
    pastes := k.pastes.finish f.request.sessionId
    flights := Function.update k.flights n none }

end Keyboard

/-- The event runs `stop` or `disconnected`. -/
def Page.drops (w : Page) : Event → Bool
  | .stop => true
  | .caught a => w.calls a = some ⟨true, .failed⟩
  | .closed _ s => w.c.socket = some s
  | _ => false

/-- What else happens when the page has taken a step. -/
def Keyboard.follow (k : Keyboard) (es : List Event) (page : Page) : Keyboard :=
  if es.any k.page.drops then
    { k with page, pastes := [], inputs := k.inputs.disconnected, link := k.link + 1 }
  else if page.c.connectionId = k.page.c.connectionId then { k with page }
  else { k with page, link := k.link + 1 }

/-- The calls of a user. -/
inductive Entry where
  | input (id data : Js.Str)
  | binaryInput (id binary : Js.Str)
  | paste (id text : Js.Str) (appendEnter : Bool)

def Entry.run (ch : Channel) (inputId : Js.Str) : Entry → Handler Unit
  | .input id data => Keyboard.input ch inputId id data
  | .binaryInput id binary => Keyboard.binaryInput ch inputId id binary
  | .paste id text appendEnter => Keyboard.paste inputId id text appendEnter

inductive Action where
  | page (e : Event)
  | reply (r : Reply)
  | entry (x : Entry)
  | completed (n : Nat)

/-- One turn: a step of the page, a reply to an input, a call, or the end of a paste. The ids of
inputs and the state of the socket are arbitrary. -/
inductive Turn : Keyboard → List Action → Keyboard → Prop where
  | page (k : Keyboard) (es : List Event) (page : Page) (h : Step k.page es page) :
      Turn k (es.map .page) (k.follow es page)
  | reply (k : Keyboard) (s a : Nat) (r : Reply) (hs : k.page.sockets s = some a) :
      Turn k [.reply r]
        (if k.page.listens s a then { k with inputs := k.inputs.reply r } else k)
  | entry (k : Keyboard) (x : Entry) (ch : Channel) (inputId : Js.Str) :
      Turn k [.entry x] (exec (x.run ch inputId) k).2
  | completed (k : Keyboard) (n : Nat) (f : Flight) (hf : k.flights n = some f) :
      Turn k [.completed n] (k.completed n f)

end Client
end RemoteCodex
