import Mathlib.Logic.Function.Basic
import RemoteCodex.Lib.Js

namespace RemoteCodex
set_option autoImplicit true
namespace Client

structure LeaseView where
  clientId : Js.Str
  connectionId : Js.Str
  epoch : Nat
  remainingMs : Nat
  deriving DecidableEq

structure SessionInfo where
  sessionId : Js.Str
  projectId : Option Js.Str
  label : Js.Str
  initialCwd : Js.Str
  profile : Js.Str
  agentEpoch : Js.Str
  generation : Nat
  state : Js.Str
  cols : Nat
  rows : Nat
  outputSeq : Js.Str
  lease : Option LeaseView
  deriving DecidableEq

def SessionInfo.dropLease (s : SessionInfo) : SessionInfo := { s with lease := none }

structure HostInfo where
  agentEpoch : Js.Str
  clientId : Js.Str
  deriving DecidableEq

/-- The messages that ask for a new session list. -/
inductive Notice where
  | sessionChanged
  | sessionsResync
  | leaseReleased
  deriving DecidableEq

/-- A message of the control channel. `grant` counts the leases that the server had granted
before the one in the message. -/
inductive Message where
  | invalid
  | hello (protocol : Nat) (agentEpoch connectionId : Js.Str)
  | lease (grant : Nat) (sessionId : Js.Str) (lease : LeaseView)
  | notice (n : Notice)
  | other
  deriving DecidableEq

/-- The fields of `Controller` that decide about connections, sessions and leases. Sockets,
timers and promises are names. -/
structure Controller where
  sessions : List SessionInfo
  host : Option HostInfo
  connectionId : Js.Str
  connected : Bool
  socket : Option Nat
  stopped : Bool
  retryTimer : Option Nat
  attempt : Nat
  reloadEpoch : Nat
  reload : Option Nat

namespace Controller

def new : Controller := ⟨[], none, [], false, none, false, none, 0, 0, none⟩

/-- The check after every `await` of `connect`: neither stopped nor superseded. -/
def current (c : Controller) (attempt : Nat) : Bool := !c.stopped && attempt == c.attempt

/-- The message is a new list request, and the rest is decided by its type. -/
def onMessage (c : Controller) : Message → Controller
  | .hello protocol agentEpoch connectionId =>
    if protocol ≠ 1 ∨ some agentEpoch ≠ c.host.map HostInfo.agentEpoch then c
    else { c with connectionId, connected := true }
  | .lease _ sessionId lease =>
    { c with sessions := c.sessions.map fun s =>
        if s.sessionId = sessionId then { s with lease := some lease } else s }
  | .invalid | .notice _ | .other => c

/-- `disconnected`, but for the timer -/
def disconnect (c : Controller) : Controller :=
  { c with
    connected := false
    connectionId := []
    sessions := c.sessions.map SessionInfo.dropLease }

def stop (c : Controller) : Controller :=
  { c with
    stopped := true
    attempt := c.attempt + 1
    reloadEpoch := c.reloadEpoch + 1
    reload := none
    socket := none
    connected := false
    connectionId := []
    sessions := c.sessions.map SessionInfo.dropLease }

/-- The callbacks of a session list: it is taken over unless the attempt is over. -/
def loaded (c : Controller) (pending epoch : Nat) (list : List SessionInfo) : Controller :=
  { c with
    sessions := if epoch = c.reloadEpoch ∧ c.stopped = false then list else c.sessions
    reload := if c.reload = some pending then none else c.reload }

def unloaded (c : Controller) (pending : Nat) : Controller :=
  { c with reload := if c.reload = some pending then none else c.reload }

end Controller

/-- Where a call of `connect` waits. -/
inductive Pc where
  | authenticate
  | host
  | sessions (reload : Nat)
  | websocket
  | failed
  | done
  deriving DecidableEq

/-- A call of `connect`; `retry` tells that the retry timer made it. -/
structure Call where
  retry : Bool
  pc : Pc
  deriving DecidableEq

/-- How far a request for the session list is. A list that the server has produced comes with the
number of leases it had granted by then. -/
inductive Progress where
  | asked
  | produced (list : List SessionInfo) (grants : Nat)
  | fulfilled
  | rejected

/-- A request for the session list; `wanted` tells that a notice waits for it. -/
structure Reload where
  epoch : Nat
  wanted : Bool
  progress : Progress

inductive Event where
  | connect (attempt : Nat)
  | stop
  | succeeded (attempt : Nat)
  | failed (attempt : Nat)
  | caught (attempt : Nat)
  | answered (attempt reload : Nat)
  | refused (attempt reload : Nat)
  | message (attempt : Nat) (m : Message)
  | closed (attempt socket : Nat)
  | erred (attempt : Nat)
  | granted (grant : Nat) (sessionId : Js.Str) (lease : LeaseView)
  | produced (reload : Nat) (list : List SessionInfo) (grants : Nat)
  | processed (m : Message)
  | applied (reload grants : Nat)

/-- A controller with its calls of `connect`, its list requests, its open sockets with the attempt
that opened them, and its timers. `grants` are the leases the server has granted. -/
structure Page where
  c : Controller
  calls : Nat → Option Call
  reloads : Nat → Option Reload
  nextReload : Nat
  sockets : Nat → Option Nat
  nextSocket : Nat
  timers : List Nat
  nextTimer : Nat
  grants : List (Js.Str × LeaseView)

namespace Page

def start : Page :=
  ⟨.new, fun _ => none, fun _ => none, 0, fun _ => none, 0, [], 0, []⟩

def setCall (w : Page) (attempt : Nat) (retry : Bool) (pc : Pc) : Page :=
  { w with calls := Function.update w.calls attempt (some ⟨retry, pc⟩) }

def setReload (w : Page) (r : Nat) (l : Reload) : Page :=
  { w with reloads := Function.update w.reloads r (some l) }

/-- `clearTimeout(this.retryTimer)` -/
def clearTimeout (w : Page) : Page :=
  { w with timers := w.timers.filter fun t => some t != w.c.retryTimer }

def connect (w : Page) (retry : Bool) : Page :=
  let attempt := w.c.attempt + 1
  { w.clearTimeout with
    c := { w.c with stopped := false, attempt, reloadEpoch := w.c.reloadEpoch + 1, reload := none }
  }.setCall attempt retry .authenticate

def stop (w : Page) : Page := { w.clearTimeout with c := w.c.stop }

def disconnected (w : Page) : Page :=
  if w.c.stopped then { w with c := w.c.disconnect }
  else
    { w with
      c := { w.c.disconnect with retryTimer := some w.nextTimer }
      timers := w.timers ++ [w.nextTimer]
      nextTimer := w.nextTimer + 1 }

/-- `refreshSessions`, with the promise it returns. -/
def refreshSessions (w : Page) : Page × Nat :=
  match w.c.reload with
  | some pending => (w, pending)
  | none =>
    ({ w with
        c := { w.c with reload := some w.nextReload }
        nextReload := w.nextReload + 1
      }.setReload w.nextReload ⟨w.c.reloadEpoch, false, .asked⟩, w.nextReload)

/-- A notice waits for the list request. -/
def want (w : Page) (r : Nat) : Page :=
  match w.reloads r with
  | none => w
  | some l => w.setReload r { l with wanted := true }

/-- `onMessage`, which asks for a list after a notice. -/
def onMessage (w : Page) (m : Message) : Page :=
  match m with
  | .notice _ => (w.refreshSessions).1.want (w.refreshSessions).2
  | _ => { w with c := w.c.onMessage m }

/-- The answer with the host. -/
def hosted (w : Page) (attempt : Nat) (retry : Bool) (host : HostInfo) : Page :=
  if w.c.current attempt then
    let w := { w with c := { w.c with host := some host } }
    (w.refreshSessions).1.setCall attempt retry (.sessions (w.refreshSessions).2)
  else w.setCall attempt retry .done

/-- The answer with the WebSocket. -/
def opened (w : Page) (attempt : Nat) (retry : Bool) : Page :=
  if w.c.current attempt then
    { w with
      c := { w.c with socket := some w.nextSocket }
      sockets := Function.update w.sockets w.nextSocket (some attempt)
      nextSocket := w.nextSocket + 1
    }.setCall attempt retry .done
  else w.setCall attempt retry .done

def dropSocket (w : Page) (socket : Nat) : Page :=
  { w with sockets := Function.update w.sockets socket none }

/-- The close of a socket, after which it has no more events. -/
def closed (w : Page) (socket : Nat) : Page :=
  if w.c.socket = some socket then (w.dropSocket socket).disconnected else w.dropSocket socket

/-- The handlers of a socket are active: it is the current one of the current attempt. -/
def listens (w : Page) (socket attempt : Nat) : Prop :=
  w.c.socket = some socket ∧ w.c.current attempt = true

instance (w : Page) (socket attempt : Nat) : Decidable (w.listens socket attempt) :=
  inferInstanceAs (Decidable (_ ∧ _))

end Page

/-- One turn of the event loop, or an action of the server. An answer to a list request runs its
callbacks together, since nothing else can run between them. -/
inductive Step : Page → List Event → Page → Prop where
  | connect (w : Page) : Step w [.connect (w.c.attempt + 1)] (w.connect false)
  | retry (w : Page) (t : Nat) (ht : t ∈ w.timers) :
      Step w [.connect (w.c.attempt + 1)] ({ w with timers := w.timers.erase t }.connect true)
  | stop (w : Page) : Step w [.stop] w.stop
  | authenticated (w : Page) (a : Nat) (retry : Bool)
      (hc : w.calls a = some ⟨retry, .authenticate⟩) :
      Step w [.succeeded a] (w.setCall a retry (if w.c.current a then .host else .done))
  | hosted (w : Page) (a : Nat) (retry : Bool) (host : HostInfo)
      (hc : w.calls a = some ⟨retry, .host⟩) : Step w [.succeeded a] (w.hosted a retry host)
  | listed (w : Page) (a : Nat) (retry : Bool) (r : Nat) (l : Reload)
      (hc : w.calls a = some ⟨retry, .sessions r⟩) (hr : w.reloads r = some l)
      (hl : l.progress = .fulfilled) :
      Step w [.succeeded a] (w.setCall a retry (if w.c.current a then .websocket else .done))
  | unlisted (w : Page) (a : Nat) (retry : Bool) (r : Nat) (l : Reload)
      (hc : w.calls a = some ⟨retry, .sessions r⟩) (hr : w.reloads r = some l)
      (hl : l.progress = .rejected) : Step w [.failed a] (w.setCall a retry .failed)
  | opened (w : Page) (a : Nat) (retry : Bool) (hc : w.calls a = some ⟨retry, .websocket⟩) :
      Step w [.succeeded a] (w.opened a retry)
  | failed (w : Page) (a : Nat) (retry : Bool) (pc : Pc) (hc : w.calls a = some ⟨retry, pc⟩)
      (hp : pc = .authenticate ∨ pc = .host ∨ pc = .websocket) :
      Step w [.failed a] (w.setCall a retry .failed)
  | caught (w : Page) (a : Nat) (retry : Bool) (hc : w.calls a = some ⟨retry, .failed⟩) :
      Step w [.caught a] ((if retry then w.disconnected else w).setCall a retry .done)
  | refresh (w : Page) : Step w [] (w.refreshSessions).1
  | answered (w : Page) (r : Nat) (l : Reload) (list : List SessionInfo) (grants : Nat)
      (hr : w.reloads r = some l) (hl : l.progress = .produced list grants) :
      Step w
        (.answered l.epoch r ::
          if l.epoch = w.c.reloadEpoch ∧ w.c.stopped = false then [.applied r grants] else [])
        ({ w with c := w.c.loaded r l.epoch list }.setReload r { l with progress := .fulfilled })
  | refused (w : Page) (r : Nat) (l : Reload) (hr : w.reloads r = some l)
      (hf : l.progress ≠ .fulfilled) (hn : l.progress ≠ .rejected) :
      Step w [.refused l.epoch r]
        ({ w with c := w.c.unloaded r }.setReload r { l with progress := .rejected })
  | message (w : Page) (s a : Nat) (m : Message) (hs : w.sockets s = some a)
      (hg : ∀ g id lease, m = .lease g id lease → w.grants[g]? = some (id, lease)) :
      Step w (.message a m :: if w.listens s a then [.processed m] else [])
        (if w.listens s a then w.onMessage m else w)
  | closed (w : Page) (s a : Nat) (hs : w.sockets s = some a) :
      Step w [.closed a s] (w.closed s)
  | erred (w : Page) (s a : Nat) (hs : w.sockets s = some a) : Step w [.erred a] w
  | grant (w : Page) (id : Js.Str) (lease : LeaseView) :
      Step w [.granted w.grants.length id lease] { w with grants := w.grants ++ [(id, lease)] }
  | produce (w : Page) (r : Nat) (l : Reload) (list : List SessionInfo)
      (hr : w.reloads r = some l) (hl : l.progress = .asked) :
      Step w [.produced r list w.grants.length]
        (w.setReload r { l with progress := .produced list w.grants.length })

end Client
end RemoteCodex
