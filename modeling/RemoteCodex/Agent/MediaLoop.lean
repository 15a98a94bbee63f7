import RemoteCodex.Core.MediaWire
import RemoteCodex.Agent.Principal

namespace RemoteCodex
set_option autoImplicit true

def fromMillis (ms : Nat) : Nat := ms * 1000000

/-- A source that was approved at the host; the capture handle is left to the platform. -/
structure Approved where
  view : SourceView
  untilTime : Nat

namespace Media

/-- The part of `MediaConfig` that the manager and the loop read. -/
structure MediaConfig where
  enabled : Bool
  allowControl : Bool
  tailnetIp : Option String
  allowedPeerIps : List String

def helperControlReady (helperControlAllowed : Bool) (captureState : CaptureState)
    (lastEncoded lastPresented now : Nat) : Bool :=
  helperControlAllowed && captureState == .live && now - lastEncoded ≤ fromMillis 500 &&
    now - lastPresented ≤ fromMillis 500

def captureAgeMs (nowMs capturedAtMs : UInt64) : Except String UInt64 :=
  if nowMs < capturedAtMs then .error "Captured frame timestamp is in the future"
  else if 60000 < nowMs - capturedAtMs then .error "Captured frame age exceeded safety bound"
  else .ok (nowMs - capturedAtMs)

/-- What the loop sends to the client. -/
inductive ServerMessage where
  | error (code : String)
  | lease (epoch : Option UInt64) (reason : Option String)
  | offer (sdp : String)
  | ice (candidate : String) (mline : UInt32)
  | status (mode : MediaMode) (captureState : CaptureState) (fps bitrateKbps : UInt32)
      (adaptiveIdle controlAllowed awaitingFreshFrame : Bool)
  | pong
  deriving DecidableEq

/-- The message gives the lease to the client. -/
def ServerMessage.grants : ServerMessage → Bool
  | .lease (some _) _ => true
  | _ => false

def acquires : MediaClientMessage → Bool
  | .acquire .. => true
  | _ => false

/-- What the loop does to the session, the client and the helper. An action comes with the number
of its message. -/
inductive Effect where
  | armed (epoch : UInt64)
  | disarm
  | frame
  | action (epoch seq : UInt64) (action : GuiAction)
  | send (m : ServerMessage)
  | helper (m : HelperIn)
  deriving DecidableEq

def Effect.sent : Effect → Option ServerMessage
  | .send m => some m
  | _ => none

/-- How the loop goes on after a turn; `failed` is an error that ends it. -/
inductive Next where
  | again
  | broke
  | failed
  deriving DecidableEq

/-- The variables of the loop. -/
structure Loop where
  principal : Principal
  source : Approved
  lastEncoded : Nat
  lastPresented : Nat
  leaseUntil : Nat
  lease : Option UInt64
  lastSeq : UInt64
  lastFrameSeq : UInt64
  inputWindow : Nat
  inputCount : Nat
  helperControlAllowed : Bool
  helperCaptureState : CaptureState
  started : Nat
  negotiated : Bool

/-- The variables before the loop. There is no instant a minute ago when the clock is younger. -/
def Loop.new (p : Principal) (source : Approved) (now : Nat) : Option Loop :=
  if fromSecs 60 ≤ now then
    some ⟨p, source, now - fromSecs 60, now - fromSecs 60, now - fromSecs 60, none, 0, 0, now, 0,
      false, .starting, now, false⟩
  else none

/-- What a turn learns from outside: two readings of the clock, the cancelled tokens, the atomics
of the session, and how the calls to others end. -/
structure Env where
  now : Nat
  later : Nat
  cancelled : Finset CancellationToken
  closed : Bool
  armed : Bool
  revision : UInt64
  sourceValid : Bool
  monotonicMillis : UInt64
  sent : Bool
  helperSent : Bool
  framed : Bool
  armEnded : Bool
  arm : Option UInt64
  acted : Bool
  refreshed : Option (Principal × Option Uuid)
  approved : Bool

/-- A turn of the loop: the variables and the flag of the manager after it, and what it did. -/
structure Turn where
  loop : Loop
  controlled : Bool
  effects : List Effect
  next : Next

namespace Turn

def of (l : Loop) (controlled : Bool) : Turn := ⟨l, controlled, [], .again⟩

/-- `send!` -/
def send (t : Turn) (ok : Bool) (m : ServerMessage) : Turn :=
  if ok then { t with effects := t.effects ++ [.send m] } else { t with next := .failed }

def helperSend (t : Turn) (ok : Bool) (m : HelperIn) : Turn :=
  if ok then { t with effects := t.effects ++ [.helper m] } else { t with next := .failed }

def bail (t : Turn) : Turn := { t with next := .failed }

/-- A call of the session, whose failure ends the loop. -/
def call (t : Turn) (ok : Bool) (effect : Effect) : Turn :=
  { t with
    effects := t.effects ++ [effect]
    next := if ok then t.next else .failed }

/-- `break`, unless the turn has failed before -/
def stop (t : Turn) : Turn := { t with next := if t.next = .failed then .failed else .broke }

/-- The lease is dropped: the session is disarmed and the flag is cleared. -/
def drop (t : Turn) : Turn :=
  { t with
    loop := { t.loop with lease := none }
    controlled := false
    effects := t.effects ++ [.disarm] }

/-- The lease is granted. -/
def grant (t : Turn) (epoch : UInt64) (now : Nat) : Turn :=
  { t with
    loop := { t.loop with
      lease := some epoch, leaseUntil := now + fromSecs 15, lastSeq := 0 }
    controlled := true
    effects := t.effects ++ [.armed epoch] }

end Turn

namespace Loop

def ready (l : Loop) (now : Nat) : Bool :=
  helperControlReady l.helperControlAllowed l.helperCaptureState l.lastEncoded l.lastPresented now

/-- The message speaks of the source as it was approved. -/
def sameGeometry (l : Loop) (generation : UInt32) (geometryVersion : String) : Bool :=
  generation == l.source.view.generation && geometryVersion == l.source.view.geometryVersion

def controlScope (l : Loop) : Scope :=
  if l.source.view.kind = "window" then .windowControl else .desktopControl

/-- The tick of the timer. -/
def tick (e : Env) (l : Loop) (controlled : Bool) : Turn :=
  if l.principal.require e.cancelled e.now .terminalRead ≠ .ok () ∨ l.source.untilTime ≤ e.now ∨
      e.closed then
    (Turn.of l controlled).stop
  else if ¬ e.sourceValid then
    ((Turn.of l controlled).send e.sent (.error "SOURCE_CHANGED_REOPEN_REQUIRED")).stop
  else if ¬ l.negotiated ∧ fromSecs 20 < e.now - l.started then
    ((Turn.of l controlled).send e.sent (.error "WEBRTC_NEGOTIATION_TIMEOUT")).stop
  else if l.lease.isSome ∧ (¬ l.ready e.now ∨ l.leaseUntil ≤ e.later ∨ ¬ e.armed ∨
      l.lease ≠ some e.revision) then
    (Turn.of l controlled).drop.send e.sent
      (.lease none (some "LOCAL_INPUT_OR_STALE_FRAME_OR_EXPIRED"))
  else Turn.of l controlled

/-- The frame whose capture is known to be new. -/
def frame (e : Env) (l : Loop) (controlled : Bool) (sequence : String) (capturedAtMs : UInt64) :
    Turn :=
  match parseU64 sequence, captureAgeMs e.monotonicMillis capturedAtMs with
  | some seq, .ok age =>
    if seq ≤ l.lastFrameSeq then (Turn.of l controlled).bail
    else
      Turn.of
        { l with
          lastFrameSeq := seq
          lastEncoded :=
            if fromMillis age.toNat ≤ e.now then e.now - fromMillis age.toNat else e.now }
        controlled
  | _, _ => (Turn.of l controlled).bail

/-- The state that the helper reports; control that it no longer allows is dropped. -/
def status (l : Loop) (controlled : Bool) (captureState : CaptureState)
    (controlAllowed awaitingFreshFrame : Bool) : Turn :=
  if controlAllowed && !awaitingFreshFrame && captureState == .live then
    Turn.of { l with helperCaptureState := captureState, helperControlAllowed := true } controlled
  else
    (Turn.of { l with helperCaptureState := captureState, helperControlAllowed := false }
      controlled).drop

/-- An output of the helper; there is none when its pipe is closed. -/
def helper (c : MediaConfig) (e : Env) (l : Loop) (controlled : Bool) : Option HelperOut → Turn
  | some (.frame sequence capturedAtMs) => l.frame e controlled sequence capturedAtMs
  | some (.offer sdp) =>
    match sanitizeSdp sdp with
    | .ok sdp => (Turn.of l controlled).send e.sent (.offer sdp)
    | .error _ => (Turn.of l controlled).bail
  | some (.ice candidate mline) =>
    if mline ≠ 0 ∨ ¬ candidateAllowed candidate c.tailnetIp then (Turn.of l controlled).bail
    else (Turn.of l controlled).send e.sent (.ice candidate mline)
  | some (.ready protocol) =>
    if protocol ≠ 1 then (Turn.of l controlled).bail else Turn.of l controlled
  | some (.status mode captureState fps bitrateKbps adaptiveIdle controlAllowed awaiting) =>
    (l.status controlled captureState controlAllowed awaiting).send e.sent
      (.status mode captureState fps bitrateKbps adaptiveIdle
        (controlAllowed && !awaiting && captureState == .live) awaiting)
  | some (.error code) => ((Turn.of l controlled).send e.sent (.error code)).stop
  | some .stopped | none => (Turn.of l controlled).stop

def presented (e : Env) (l : Loop) (controlled : Bool) (generation : UInt32)
    (geometryVersion : String) : Turn :=
  if ¬ l.sameGeometry generation geometryVersion then (Turn.of l controlled).bail
  else if e.now - l.lastEncoded ≤ fromMillis 500 then
    (Turn.of { l with lastPresented := e.later } controlled).call e.framed .frame
  else Turn.of l controlled

def acquire (c : MediaConfig) (e : Env) (l : Loop) (controlled : Bool) (generation : UInt32)
    (geometryVersion : String) : Turn :=
  if ¬ l.ready e.now ∨ ¬ c.allowControl ∨ ¬ l.source.view.controlAllowed ∨
      l.principal.require e.cancelled e.now l.controlScope ≠ .ok () ∨
      ¬ l.sameGeometry generation geometryVersion then
    (Turn.of l controlled).send e.sent (.error "GUI_CONTROL_NOT_READY_OR_FORBIDDEN")
  else if ¬ e.armEnded then (Turn.of l controlled).bail
  else
    match e.arm with
    | some n => ((Turn.of l controlled).grant n e.later).send e.sent (.lease (some n) none)
    | none => (Turn.of l controlled).drop.send e.sent (.error "FOREGROUND_OR_NATIVE_SAFETY_DENIED")

def renew (e : Env) (l : Loop) (controlled : Bool) (leaseEpoch : String) : Turn :=
  if l.ready e.now ∧ l.lease.isSome then
    match parseU64 leaseEpoch with
    | none => (Turn.of l controlled).bail
    | some n =>
      if l.lease = some n ∧ e.armed then
        Turn.of { l with leaseUntil := e.later + fromSecs 15 } controlled
      else Turn.of l controlled
  else Turn.of l controlled

/-- An action of the user, which reaches the session only through this check. -/
def input (e : Env) (l : Loop) (controlled : Bool) (leaseEpoch : String) (generation : UInt32)
    (geometryVersion seq : String) (action : GuiAction) : Turn :=
  match parseU64 seq, parseU64 leaseEpoch with
  | some n, some epoch =>
    if ¬ l.ready e.now ∨ l.lease ≠ some epoch ∨ ¬ e.armed ∨ l.leaseUntil ≤ e.later ∨
        ¬ l.sameGeometry generation geometryVersion ∨ n ≤ l.lastSeq then
      (Turn.of l controlled).drop.send e.sent (.lease none (some "STALE_INPUT_REJECTED"))
    else
      match action.validate with
      | .error _ => (Turn.of l controlled).bail
      | .ok () =>
        (Turn.of { l with lastSeq := n } controlled).call e.acted (.action epoch n action)
  | _, _ => (Turn.of l controlled).bail

def refreshAuth (e : Env) (l : Loop) (controlled : Bool) : Turn :=
  match e.refreshed with
  | none => (Turn.of l controlled).bail
  | some (next, id) =>
    if next.clientId ≠ l.principal.clientId ∨ id ≠ some l.source.view.id ∨ ¬ e.approved then
      (Turn.of l controlled).bail
    else Turn.of { l with principal := next } controlled

def message (c : MediaConfig) (e : Env) (l : Loop) (controlled : Bool) : MediaClientMessage → Turn
  | .answer sdp =>
    if l.negotiated then (Turn.of l controlled).bail
    else
      match sanitizeSdp sdp with
      | .error _ => (Turn.of l controlled).bail
      | .ok sdp =>
        (Turn.of { l with negotiated := true } controlled).helperSend e.helperSent (.answer sdp)
  | .ice candidate mline =>
    if mline ≠ 0 ∨ ¬ c.allowedPeerIps.any fun ip => candidateAllowed candidate (some ip) then
      (Turn.of l controlled).bail
    else (Turn.of l controlled).helperSend e.helperSent (.ice candidate mline)
  | .presented generation geometryVersion => l.presented e controlled generation geometryVersion
  | .acquire generation geometryVersion => l.acquire c e controlled generation geometryVersion
  | .renew leaseEpoch => l.renew e controlled leaseEpoch
  | .release => (Turn.of l controlled).drop.send e.sent (.lease none none)
  | .input leaseEpoch generation geometryVersion seq action =>
    l.input e controlled leaseEpoch generation geometryVersion seq action
  | .refreshAuth _ => l.refreshAuth e controlled
  | .ping => (Turn.of l controlled).send e.sent .pong
  | .stop => (Turn.of l controlled).stop

/-- The texts of a second are counted. -/
def count (l : Loop) (now : Nat) : Loop :=
  if fromSecs 1 ≤ now - l.inputWindow then { l with inputWindow := now, inputCount := 1 }
  else { l with inputCount := l.inputCount + 1 }

/-- A text of the client; one that is no message ends the loop. -/
def text (c : MediaConfig) (e : Env) (l : Loop) (controlled : Bool)
    (m : Option MediaClientMessage) : Turn :=
  if 500 < (l.count e.now).inputCount then (Turn.of (l.count e.now) controlled).bail
  else
    match m with
    | none => (Turn.of (l.count e.now) controlled).bail
    | some m => (l.count e.now).message c e controlled m

/-- What `select!` may take up; the client's stream ends or gives a text or a ping. -/
inductive Input where
  | tick
  | helper (m : Option HelperOut)
  | text (m : Option MediaClientMessage)
  | ping
  | closed

def turn (c : MediaConfig) (e : Env) (l : Loop) (controlled : Bool) : Input → Turn
  | .tick => l.tick e controlled
  | .helper m => l.helper c e controlled m
  | .text m => l.text c e controlled m
  | .ping => if e.sent then Turn.of l controlled else (Turn.of l controlled).bail
  | .closed => (Turn.of l controlled).stop

end Loop
end Media
end RemoteCodex
