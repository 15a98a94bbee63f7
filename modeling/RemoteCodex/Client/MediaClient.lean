import Mathlib.Logic.Function.Basic
import RemoteCodex.Core.MediaWire

namespace RemoteCodex
set_option autoImplicit true
namespace MediaClient

structure MediaSource where
  id : Js.Str
  generation : Js.Number
  geometryVersion : Js.Str
  controlAllowed : Bool
  deriving DecidableEq

inductive MediaState where
  | idle
  | connecting
  | live
  | stalled
  | stopped
  | failed
  deriving DecidableEq

/-- Presentation times are rationals, and no time is `-Infinity`. -/
structure PresentationGate where
  lastPresented : Option Rat
  generation : Js.Number
  geometry : Js.Str
  connected : Bool
  state : MediaState

namespace PresentationGate

def new : PresentationGate := ⟨none, .finite 0, [], false, .idle⟩

def reset (generation : Js.Number) (geometry : Js.Str) : PresentationGate :=
  ⟨none, generation, geometry, false, .connecting⟩

def transport (g : PresentationGate) (connected : Bool) : PresentationGate :=
  if connected then { g with connected }
  else { g with connected, lastPresented := none, state := .stalled }

def presented (g : PresentationGate) (now : Rat) : PresentationGate :=
  if g.connected then { g with lastPresented := some now, state := .live } else g

def canControl (g : PresentationGate) (now : Rat) (generation : Js.Number) (geometry : Js.Str) :
    Bool :=
  g.connected && g.state == .live && generation.strictEq g.generation && geometry == g.geometry &&
    g.lastPresented.any fun last => 0 ≤ now - last && now - last ≤ 500

def stop (g : PresentationGate) : PresentationGate :=
  { g with connected := false, lastPresented := none, state := .stopped }

end PresentationGate

/-- What the client sends. -/
inductive Request where
  | ice (candidate : Js.Str) (mline : Nat)
  | answer (sdp : Js.Str)
  | renew (leaseEpoch : Js.Str)
  | ping
  | presented (generation : Js.Number) (geometryVersion : Js.Str)
  | acquire (generation : Js.Number) (geometryVersion : Js.Str)
  | input (leaseEpoch : Js.Str) (generation : Js.Number) (geometryVersion : Js.Str) (seq : Nat)
      (action : Js.Value)
  | release
  | refreshAuth (ticket : Js.Str)
  | stop

def Request.acquires : Request → Bool
  | .acquire .. => true
  | _ => false

/-- `/^[1-9][0-9]*$/` -/
def leaseText : Js.Str → Bool
  | [] => false
  | c :: rest => 0x31 ≤ c && c ≤ 0x39 && rest.all fun d => 0x30 ≤ d && d ≤ 0x39

/-- The new lease of a `lease` message. -/
def leaseEpoch (m : Js.Value) : Option (Option Js.Str) :=
  match m.prop (Js.str "lease_epoch") with
  | some .null => some none
  | some (.string s) => if leaseText s then some (some s) else none
  | _ => none

def textOf : Option Js.Value → Option Js.Str
  | some (.string s) => some s
  | _ => none

/-- What arrives at the client is a parsed text, or nothing for one that cannot be parsed. -/
def grants : Option Js.Value → Bool
  | none => false
  | some m =>
    decide (textOf (m.prop (Js.str "type")) = some (Js.str "lease")) &&
      (leaseEpoch m).any Option.isSome

def captureStateOf : Option Js.Value → Option CaptureState
  | some (.string s) =>
    if s = Js.str "starting" then some .starting
    else if s = Js.str "live" then some .live
    else if s = Js.str "minimized_or_stalled" then some .minimizedOrStalled
    else none
  | _ => none

def modeOf : Option Js.Value → Option MediaMode
  | some (.string s) =>
    if s = Js.str "hardware" then some .hardware
    else if s = Js.str "software_view_only_slow" then some .softwareViewOnlySlow
    else none
  | _ => none

def boolOf : Option Js.Value → Option Bool
  | some (.bool b) => some b
  | _ => none

/-- The fields of a `status` message that are kept. -/
structure Status where
  captureState : CaptureState
  awaitingFreshFrame : Bool
  controlAllowed : Bool

def statusOf (m : Js.Value) : Option Status := do
  let mode ← modeOf (m.prop (Js.str "mode"))
  let captureState ← captureStateOf (m.prop (Js.str "capture_state"))
  let _ ← Js.integerIn 1 30 (m.prop (Js.str "fps"))
  let _ ← Js.integerIn 128 12000 (m.prop (Js.str "bitrate_kbps"))
  let _ ← boolOf (m.prop (Js.str "adaptive_idle"))
  let allowed ← boolOf (m.prop (Js.str "control_allowed"))
  let awaiting ← boolOf (m.prop (Js.str "awaiting_fresh_frame"))
  if mode = .softwareViewOnlySlow ∧ allowed then none
  else some ⟨captureState, awaiting, allowed && !awaiting && captureState == .live⟩

def recoverableCodes : List Js.Str :=
  [Js.str "GUI_CONTROL_NOT_READY_OR_FORBIDDEN", Js.str "FOREGROUND_OR_NATIVE_SAFETY_DENIED"]

/-- `String(m.code)` is one of the codes; `text` is `String` of what is no string. -/
def recoverable (text : Js.Value → Option Js.Str) : Option Js.Value → Bool
  | some (.string s) => decide (s ∈ recoverableCodes)
  | some v => (text v).any fun s => decide (s ∈ recoverableCodes)
  | none => false

end MediaClient

open MediaClient

/-- `MediaClient`. A socket has the name of the attempt that opened it. -/
structure MediaClient where
  source : Option MediaSource
  lease : Option Js.Str
  captureState : Option CaptureState
  awaitingFreshFrame : Bool
  controlAllowed : Bool
  socket : Option Nat
  attempt : Nat
  seq : Nat
  gate : PresentationGate
  lastPresentedSent : Option Rat

namespace MediaClient

def new : MediaClient := ⟨none, none, none, true, false, none, 0, 0, .new, none⟩

def canControl (c : MediaClient) (now : Rat) : Bool :=
  c.source.any fun s => c.controlAllowed && c.captureState == some .live &&
    c.gate.canControl now s.generation s.geometryVersion

/-- The fields after `release`, but for what it sends. -/
def released (c : MediaClient) : MediaClient := { c with lease := none, seq := 0 }

/-- The fields after `stop`, but for what it sends. -/
def stopped (c : MediaClient) : MediaClient :=
  { c.released with
    attempt := c.attempt + 1
    socket := none
    lastPresentedSent := none
    gate := c.gate.stop
    source := none
    captureState := none
    awaitingFreshFrame := true
    controlAllowed := false }

def opened (c : MediaClient) (source : MediaSource) : MediaClient :=
  { c.stopped with
    attempt := c.attempt + 2
    source := some source
    captureState := some .starting
    gate := .reset source.generation source.geometryVersion }

def helloMatches (c : MediaClient) (m : Js.Value) : Bool :=
  match m.prop (Js.str "protocol"), m.prop (Js.str "source"), c.source with
  | some (.number p), some s, some source =>
    p.strictEq (.finite 1) &&
      decide (textOf (s.prop (Js.str "id")) = some source.id) &&
      (match s.prop (Js.str "generation") with
        | some (.number g) => g.strictEq source.generation
        | _ => false) &&
      decide (textOf (s.prop (Js.str "geometry_version")) = some source.geometryVersion)
  | _, _, _ => false

/-- What `message` leaves to do when it does not throw. -/
inductive Effect where
  | nothing
  | release
  | answer (sdp : Js.Str)

/-- `message`. The peer connection takes a signal and answers an offer, or it throws. -/
def message (text : Js.Value → Option Js.Str) (signaled : Option Js.Str) (c : MediaClient)
    (m : Js.Value) : Option (MediaClient × Effect) :=
  match textOf (m.prop (Js.str "type")) with
  | none => none
  | some kind =>
    if kind = Js.str "hello" then if c.helloMatches m then some (c, .nothing) else none
    else if kind = Js.str "offer" then signaled.map fun sdp => (c, .answer sdp)
    else if kind = Js.str "ice" then signaled.map fun _ => (c, .nothing)
    else if kind = Js.str "lease" then
      (leaseEpoch m).map fun lease => ({ c with lease, seq := 0 }, .nothing)
    else if kind = Js.str "status" then
      (statusOf m).map fun s =>
        ({ c with
            captureState := some s.captureState
            awaitingFreshFrame := s.awaitingFreshFrame
            controlAllowed := s.controlAllowed },
          if !s.controlAllowed || s.captureState == .minimizedOrStalled then .release else .nothing)
    else if kind = Js.str "error" then
      if recoverable text (m.prop (Js.str "code")) then some ({ c with lease := none }, .nothing)
      else none
    else if kind = Js.str "pong" then some (c, .nothing)
    else none

/-- The two directions of a socket. -/
structure Wire where
  up : List Request
  down : List (Option Js.Value)

/-- An acquire is on its way to the host, or a grant is on its way back. -/
def Wire.Crossing (wire : Wire) : Prop :=
  (∃ r ∈ wire.up, r.acquires = true) ∨ ∃ m ∈ wire.down, grants m = true

/-- The calls that say what the user wants; `stop` calls `release`. -/
inductive Event where
  | acquire
  | release
  | stop
  deriving DecidableEq

/-- A client with its calls of `open` that wait for their WebSocket, and its sockets. -/
structure Page where
  client : MediaClient
  opening : List Nat
  wires : Nat → Option Wire

namespace Page

def start : Page := ⟨.new, [], fun _ => none⟩

def setWire (w : Page) (a : Nat) (wire : Wire) : Page :=
  { w with wires := Function.update w.wires a (some wire) }

/-- `socket.send` -/
def post (w : Page) (r : Request) : Page :=
  match w.client.socket with
  | none => w
  | some a =>
    match w.wires a with
    | none => w
    | some wire => w.setWire a { wire with up := wire.up ++ [r] }

/-- `send`; `ready` tells that the socket is open and not full. -/
def send (w : Page) (ready : Bool) (r : Request) : Option Page :=
  if w.client.socket.isSome && ready then some (w.post r) else none

def release (w : Page) (ready : Bool) : Page :=
  let sent := if w.client.lease.isSome && ready then w.post .release else w
  { sent with client := w.client.released }

def stop (w : Page) (ready : Bool) : Page :=
  let sent := if ready then (w.release ready).post .stop else w.release ready
  { sent with client := w.client.stopped }

/-- `send` by a handler that fails when it throws. -/
def sendOrFail (w : Page) (ready : Bool) (r : Request) : Page × List Event :=
  match w.send ready r with
  | some w' => (w', [])
  | none => (w.stop ready, [.stop])

def «open» (w : Page) (ready : Bool) (source : MediaSource) : Page :=
  { w.stop ready with
    client := w.client.opened source
    opening := w.opening ++ [w.client.attempt + 2] }

/-- The answer with the WebSocket of an attempt. -/
def socketOpened (w : Page) (a : Nat) : Page :=
  if a = w.client.attempt then
    { w with
      client := { w.client with socket := some a }
      opening := w.opening.erase a }.setWire a ⟨[], []⟩
  else { w with opening := w.opening.erase a }

def acquire (w : Page) (now : Rat) (ready : Bool) : Page :=
  match w.client.source with
  | none => w
  | some s =>
    if s.controlAllowed && w.client.canControl now then
      (w.send ready (.acquire s.generation s.geometryVersion)).getD w
    else w

def action (w : Page) (now : Rat) (ready : Bool) (action : Js.Value) : Page × List Event :=
  match w.client.lease, w.client.source with
  | some lease, some s =>
    if w.client.canControl now then
      { w with client := { w.client with seq := w.client.seq + 1 } }.sendOrFail ready
        (.input lease s.generation s.geometryVersion (w.client.seq + 1) action)
    else (w.release ready, [.release])
  | _, _ => (w.release ready, [.release])

/-- `onconnectionstatechange`; `down` is one of the states `failed`, `closed`, `disconnected`. -/
def transport (w : Page) (ready connected down : Bool) : Page × List Event :=
  if down then
    ({ w with client := { w.client with gate := w.client.gate.transport connected } }.release ready,
      [.release])
  else ({ w with client := { w.client with gate := w.client.gate.transport connected } }, [])

/-- The timer that watches for frames. -/
def stale (w : Page) (now : Rat) (ready : Bool) : Page × List Event :=
  if w.client.lease.isSome && !w.client.canControl now then (w.release ready, [.release])
  else (w, [])

def heartbeat (w : Page) (ready : Bool) : Page × List Event :=
  match w.client.lease with
  | some lease => w.sendOrFail ready (.renew lease)
  | none => w.sendOrFail ready .ping

/-- The host is told of presented frames, but not of all. -/
def report (w : Page) (s : MediaSource) (now : Rat) (ready : Bool) : Page × List Event :=
  if w.client.lastPresentedSent.all fun last => 100 ≤ now - last then
    match w.send ready (.presented s.generation s.geometryVersion) with
    | some w' => ({ w' with client := { w'.client with lastPresentedSent := some now } }, [])
    | none => (w.stop ready, [.stop])
  else (w, [])

/-- The callback of a presented frame. -/
def frame (w : Page) (now : Rat) (ready : Bool) : Page × List Event :=
  match w.client.source with
  | none => (w, [])
  | some s =>
    { w with client := { w.client with gate := w.client.gate.presented now } }.report s now ready

/-- `onmessage` of the current socket. -/
def receive (text : Js.Value → Option Js.Str) (signaled : Option Js.Str) (w : Page) (ready : Bool)
    (data : Option Js.Value) : Page × List Event :=
  match data.bind (w.client.message text signaled) with
  | none => (w.stop ready, [.stop])
  | some (c, .nothing) => ({ w with client := c }, [])
  | some (c, .release) => ({ w with client := c }.release ready, [.release])
  | some (c, .answer sdp) => { w with client := c }.sendOrFail ready (.answer sdp)

/-- An acquire or a grant is on its way over the socket of the current attempt. -/
def Crossing (w : Page) : Prop :=
  ∃ wire, w.wires w.client.attempt = some wire ∧ wire.Crossing

end Page

variable (text : Js.Value → Option Js.Str)

/-- An action of the user or the page, a callback of the browser, or an action of the host, which
takes requests in order and sends a grant only in answer to an acquire. -/
inductive Step : Page → List Event → Page → Prop where
  | «open» (w : Page) (ready : Bool) (source : MediaSource) : Step w [.stop] (w.open ready source)
  | opened (w : Page) (a : Nat) (ha : a ∈ w.opening) : Step w [] (w.socketOpened a)
  | unopened (w : Page) (a : Nat) (ready : Bool) (ha : a ∈ w.opening)
      (hc : a = w.client.attempt) :
      Step w [.stop] ({ w with opening := w.opening.erase a }.stop ready)
  | abandoned (w : Page) (a : Nat) (ha : a ∈ w.opening) (hc : a ≠ w.client.attempt) :
      Step w [] { w with opening := w.opening.erase a }
  | acquire (w : Page) (now : Rat) (ready : Bool) : Step w [.acquire] (w.acquire now ready)
  | release (w : Page) (ready : Bool) : Step w [.release] (w.release ready)
  | stop (w : Page) (ready : Bool) : Step w [.stop] (w.stop ready)
  | action (w : Page) (now : Rat) (ready : Bool) (action : Js.Value) :
      Step w (w.action now ready action).2 (w.action now ready action).1
  | transport (w : Page) (ready connected down : Bool) (hs : w.client.socket.isSome) :
      Step w (w.transport ready connected down).2 (w.transport ready connected down).1
  | stale (w : Page) (now : Rat) (ready : Bool) (hs : w.client.socket.isSome) :
      Step w (w.stale now ready).2 (w.stale now ready).1
  | heartbeat (w : Page) (ready : Bool) (hs : w.client.socket.isSome) :
      Step w (w.heartbeat ready).2 (w.heartbeat ready).1
  | frame (w : Page) (now : Rat) (ready : Bool) (hs : w.client.socket.isSome) :
      Step w (w.frame now ready).2 (w.frame now ready).1
  | candidate (w : Page) (ready : Bool) (candidate : Js.Str) (mline : Nat)
      (hs : w.client.socket.isSome) :
      Step w (w.sendOrFail ready (.ice candidate mline)).2
        (w.sendOrFail ready (.ice candidate mline)).1
  | refresh (w : Page) (ready : Bool) (ticket : Js.Str) :
      Step w [] ((w.send ready (.refreshAuth ticket)).getD w)
  | failed (w : Page) (ready : Bool) (hs : w.client.socket.isSome) : Step w [.stop] (w.stop ready)
  | message (w : Page) (a : Nat) (wire : Wire) (data : Option Js.Value)
      (rest : List (Option Js.Value)) (signaled : Option Js.Str) (ready : Bool)
      (hw : w.wires a = some wire) (hd : wire.down = data :: rest) (hc : a = w.client.attempt) :
      Step w ((w.setWire a { wire with down := rest }).receive text signaled ready data).2
        ((w.setWire a { wire with down := rest }).receive text signaled ready data).1
  | ignored (w : Page) (a : Nat) (wire : Wire) (data : Option Js.Value)
      (rest : List (Option Js.Value)) (hw : w.wires a = some wire) (hd : wire.down = data :: rest)
      (hc : a ≠ w.client.attempt) : Step w [] (w.setWire a { wire with down := rest })
  | host (w : Page) (a : Nat) (wire : Wire) (request : Option Request) (rest : List Request)
      (answers : List (Option Js.Value)) (hw : w.wires a = some wire)
      (hu : wire.up = request.toList ++ rest)
      (ha : Answers Request.acquires grants request answers) :
      Step w [] (w.setWire a ⟨rest, wire.down ++ answers⟩)

end MediaClient
end RemoteCodex
