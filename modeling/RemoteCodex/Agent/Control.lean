import Mathlib.Logic.Function.Basic
import RemoteCodex.Agent.Auth
import RemoteCodex.Agent.SessionOutput
import RemoteCodex.Agent.Delivery

namespace RemoteCodex
set_option autoImplicit true

inductive InputPayload where
  | utf8 (text : String)
  | binary (base64 : String)

/-- The bytes of an input; the base64 decoder comes from a library. -/
def InputPayload.bytes (decode : String → Option (List UInt8)) : InputPayload → Option (List UInt8)
  | .utf8 text => some text.toUTF8.toList
  | .binary base64 => decode base64

inductive ControlMessage where
  | leaseAcquire (requestId sessionId : Uuid) (takeover : Bool)
  | leaseRenew (requestId sessionId : Uuid) (leaseEpoch : Nat)
  | leaseRelease (requestId sessionId : Uuid) (leaseEpoch : Nat)
  | input (requestId sessionId agentEpoch : Uuid) (generation : UInt32) (leaseEpoch : Nat)
      (inputId : Uuid) (inputSeq : Nat) (payload : InputPayload)
  | resize (requestId sessionId agentEpoch : Uuid) (generation : UInt32) (leaseEpoch : Nat)
      (cols rows : UInt16)
  | refreshAuth (requestId : Uuid) (ticket : String)
  | ping (requestId : Uuid)

/-- The values that go through the outgoing channel. -/
inductive Reply where
  | pong (requestId : Uuid)
  | lease (requestId sessionId : Uuid) (lease : LeaseView)
  | leaseReleased (requestId sessionId : Uuid)
  | resized (requestId sessionId : Uuid)
  | accepted (requestId sessionId inputId : Uuid)
  | written (requestId sessionId inputId : Uuid)
  | deliveryFailed (requestId sessionId inputId : Uuid) (code : ErrorCode)
  | deliveryUnknown (requestId sessionId inputId : Uuid)
  deriving DecidableEq

def Reply.isAccepted : Reply → Bool
  | .accepted .. => true
  | _ => false

/-- What `dispatch` asks of a session. -/
inductive Action where
  | acquire (takeover : Bool)
  | renew (epoch : Nat)
  | release (epoch : Nat)
  | resize (epoch : Nat) (cols rows : UInt16)
  | enqueue (epoch : Nat) (id : Uuid) (seq : Nat) (data : List UInt8) (received : Nat)

/-- The request that `dispatch` works on. -/
structure Dispatch where
  requestId : Uuid
  sessionId : Uuid
  action : Action

/-- What `dispatch` tests before it calls the session, one after the other. -/
inductive DispatchCheck where
  | children
  | session
  | generation (agentEpoch : Uuid) (generation : UInt32)
  | payload (decoded : Bool)
  deriving DecidableEq

/-- Where the loop of `control` stands. -/
inductive ControlPc where
  /-- The branches of `select!` are polled from the first one. -/
  | select
  /-- There was no reply to send. -/
  | polled
  | sending (v : Reply)
  | checking (d : Dispatch) (checks : List DispatchCheck)
  | locking (d : Dispatch)
  | replying (requestId : Uuid) (v : Reply)
  | rejecting (requestId : Uuid) (code : ErrorCode)
  | closed

/-- The task that waits for the outcome of an input; `ended` once it has sent it. -/
structure Completion where
  requestId : Uuid
  sessionId : Uuid
  inputId : Uuid
  reply : Nat
  ended : Bool

/-- A session of the manager; `listed` while it is in the table. -/
structure Hosted where
  info : SessionInfo
  listed : Bool
  w : World

/-- What an observer of the connection sees: what happens in the sessions, the request with
number `n` that reaches the queue of a session under the name `reply`, the value that is handed
to the outgoing channel, and what is sent. -/
inductive ControlEvent where
  | session (id : Uuid) (e : Event)
  | taken (n : Nat) (id : Uuid) (reply : Nat)
  | offered (v : Reply)
  | sent (v : Reply)
  | rejected (n : Nat) (requestId : Uuid) (code : ErrorCode)

/-- A control connection with the sessions, the outgoing channel and the completion tasks. `n`
counts the messages taken, and `outcomes` are the results sent through the one-shot channels. -/
structure ControlWorld where
  sessions : Uuid → Option Hosted
  auth : Auth
  now : Nat
  shutdown : Bool
  p : Principal
  connection : Uuid
  out : List Reply
  children : List Completion
  window : Nat
  count : Nat
  n : Nat
  outcomes : List (Uuid × Nat × Except ErrorCode Unit)
  pc : ControlPc

/-- The values that the outgoing channel holds. -/
def OUT_CAPACITY : Nat := 128

def CHILDREN_LIMIT : Nat := 128

namespace Action

/-- The call of the session that an action is. `resize` does not touch what is modelled here. -/
def call (p : Principal) (c : Uuid) : Action → Option Call
  | .acquire takeover => some (.acquire p c takeover)
  | .renew epoch => some (.renew p c epoch)
  | .release epoch => some (.release p c epoch)
  | .resize .. => none
  | .enqueue epoch id seq data received => some (.enqueue p c epoch id seq data received)

/-- What the session tests before it takes its lock. -/
def permit (w : World) (p : Principal) : Action → Except ErrorCode Unit
  | .acquire _ =>
    match p.require w.cancelled w.now .terminalWrite with
    | .error e => .error e
    | .ok () => if w.s.running then .ok () else .error .sessionLost
  | _ => p.require w.cancelled w.now .terminalWrite

end Action

/-- The reply to the call of a session, from its result. -/
def Dispatch.reply (d : Dispatch) (p : Principal) (c : Uuid) (w : World) :
    Outcome ErrorCode Reply :=
  match d.action with
  | .acquire takeover =>
    (w.s.input.lease.acquire p.clientId c takeover w.now).1.map
      (.lease d.requestId d.sessionId)
  | .renew epoch =>
    (w.s.input.lease.renew p.clientId c epoch w.now).1.map (.lease d.requestId d.sessionId)
  | .release epoch =>
    (w.s.input.lease.release p.clientId c epoch w.now).1.map
      fun _ => .leaseReleased d.requestId d.sessionId
  | .resize .. => .ok (.resized d.requestId d.sessionId)
  | .enqueue epoch id seq data received =>
    match (w.s.enqueue p c epoch id seq data received w.now w.nextReply).1 with
    | .ok _ => .ok (.accepted d.requestId d.sessionId id)
    | .error e => .err e

/-- The task that an accepted input leaves behind. -/
def completions (reply : Nat) : Outcome ErrorCode Reply → List Completion
  | .ok (.accepted requestId sessionId inputId) => [⟨requestId, sessionId, inputId, reply, false⟩]
  | _ => []

/-- The request enters the locked section of `enqueue`. -/
def Dispatch.taken (d : Dispatch) (n reply : Nat) : List ControlEvent :=
  match d.action with
  | .enqueue .. => [.taken n d.sessionId reply]
  | _ => []

def Completion.value (c : Completion) : Option (Except ErrorCode Unit) → Reply
  | some (.ok ()) => .written c.requestId c.sessionId c.inputId
  | some (.error code) => .deliveryFailed c.requestId c.sessionId c.inputId code
  | none => .deliveryUnknown c.requestId c.sessionId c.inputId

def Event.outcome? (id : Uuid) : Event → Option (Uuid × Nat × Except ErrorCode Unit)
  | .replied reply result => some (id, reply, result)
  | _ => none

/-- The jobs of a session that can still be answered. -/
def World.jobs (w : World) : List InputJob :=
  w.delivery.waiting ++ (w.delivery.current.map Current.job).toList

/-- The session that `dispatch` has a reference to. -/
def ControlPc.holds : ControlPc → Option Uuid
  | .checking d checks => if .session ∈ checks then none else some d.sessionId
  | .locking d => some d.sessionId
  | _ => none

/-- The call that waits for the lock of a session. -/
def ControlPc.waits (p : Principal) (c : Uuid) : ControlPc → Option (Uuid × Call)
  | .locking d => (d.action.call p c).map fun call => (d.sessionId, call)
  | _ => none

namespace ControlWorld

def close (w : ControlWorld) : ControlWorld := { w with pc := .closed, children := [] }

def setSession (w : ControlWorld) (id : Uuid) (h : Hosted) : ControlWorld :=
  { w with sessions := Function.update w.sessions id (some h) }

/-- `tx.try_send(value)` -/
def trySend (w : ControlWorld) (v : Reply) : Option ControlWorld :=
  if OUT_CAPACITY ≤ w.out.length then none else some { w with out := w.out ++ [v] }

/-- The beginning of `dispatch`. -/
def dispatch (decode : String → Option (List UInt8)) (received : Nat) :
    ControlMessage → ControlPc
  | .refreshAuth r _ => .rejecting r .invalidRequest
  | .ping r => .replying r (.pong r)
  | .leaseAcquire r s takeover => .checking ⟨r, s, .acquire takeover⟩ [.session]
  | .leaseRenew r s epoch => .checking ⟨r, s, .renew epoch⟩ [.session]
  | .leaseRelease r s epoch => .checking ⟨r, s, .release epoch⟩ [.session]
  | .resize r s agentEpoch generation epoch cols rows =>
    .checking ⟨r, s, .resize epoch cols rows⟩ [.session, .generation agentEpoch generation]
  | .input r s agentEpoch generation epoch id seq payload =>
    let data := payload.bytes decode
    .checking ⟨r, s, .enqueue epoch id seq (data.getD []) received⟩
      [.children, .session, .generation agentEpoch generation, .payload data.isSome]

/-- Count a text message in a window of one second. -/
def counted (w : ControlWorld) : ControlWorld :=
  let w := if fromSecs 1 ≤ w.now - w.window then { w with window := w.now, count := 0 } else w
  { w with n := w.n + 1, count := w.count + 1 }

/-- A text message; `none` when it is not a control message. -/
def onMessage (decode : String → Option (List UInt8)) (C : Crypto) (w : ControlWorld)
    (msg : Option ControlMessage) : ControlWorld :=
  let w := w.counted
  if 2000 < w.count then w.close
  else
    match msg with
    | none => { w with pc := .select }
    | some (.refreshAuth _ ticket) =>
      match w.auth.consumeWs C ticket "control" w.now with
      | (.ok (next, none), auth) =>
        if next.clientId = w.p.clientId then { w with auth, p := next, pc := .select }
        else { w with auth }.close
      | (_, auth) => { w with auth }.close
    | some m => { w with pc := dispatch decode w.now m }

/-- The result of one test of `dispatch`. -/
def check (w : ControlWorld) (d : Dispatch) : DispatchCheck → Except ErrorCode Unit
  | .children => if CHILDREN_LIMIT ≤ w.children.length then .error .rateLimited else .ok ()
  | .session =>
    if (w.sessions d.sessionId).any Hosted.listed then .ok () else .error .sessionLost
  | .generation agentEpoch generation =>
    match w.sessions d.sessionId with
    | none => .error .sessionLost
    | some h =>
      if h.info.agentEpoch ≠ agentEpoch then .error .hostRestarted
      else if h.info.generation ≠ generation then .error .sessionGenerationMismatch
      else if ¬ h.w.s.running then .error .sessionLost
      else .ok ()
  | .payload decoded => if decoded then .ok () else .error .invalidRequest

/-- The value a request is answered with goes to the outgoing channel, or the request is
rejected. A panic ends the task. -/
def answer (w : ControlWorld) (requestId : Uuid) : Outcome ErrorCode Reply → ControlWorld
  | .ok v => { w with pc := .replying requestId v }
  | .err code => { w with pc := .rejecting requestId code }
  | .panic => w.close

/-- The locked section of the session, the completion task that it leaves behind, and the answer.
`calls` are the other calls that wait for the lock. -/
def lock (w : ControlWorld) (d : Dispatch) (h : Hosted) (call : Call) (calls : List Call) :
    ControlWorld × List ControlEvent :=
  let v := { h.w with calls }.locked call
  let result := d.reply w.p w.connection h.w
  let children := w.children ++ completions h.w.nextReply result
  ({ w.setSession d.sessionId { h with w := v.1 } with children }.answer d.requestId result,
    v.2.map (.session d.sessionId) ++ d.taken w.n h.w.nextReply)

/-- `tx.try_send(reply)` at the end of `dispatch` -/
def offer (w : ControlWorld) (requestId : Uuid) (v : Reply) : ControlWorld :=
  match w.trySend v with
  | some w => { w with pc := .select }
  | none => { w with pc := .rejecting requestId .rateLimited }

/-- A completion task sends its value, or drops it when the channel is full. -/
def complete (w : ControlWorld) (before after : List Completion) (c : Completion)
    (outcome : Option (Except ErrorCode Unit)) : ControlWorld :=
  let w := (w.trySend (c.value outcome)).getD w
  { w with children := before ++ { c with ended := true } :: after }

/-- The loop of `control`, the completion tasks, and what runs beside them. The sessions keep
their own time. -/
inductive Step (decode : String → Option (List UInt8)) (C : Crypto) :
    ControlWorld → List ControlEvent → ControlWorld → Prop where
  | create (w : ControlWorld) (info : SessionInfo) (hs : w.sessions info.sessionId = none) :
      Step decode C w [] (w.setSession info.sessionId ⟨info, true, .init⟩)
  | unlist (w : ControlWorld) (id : Uuid) (h : Hosted) (hs : w.sessions id = some h) :
      Step decode C w [] (w.setSession id { h with listed := false })
  | session (w : ControlWorld) (id : Uuid) (h : Hosted) (e : List Event) (u : World)
      (hh : w.sessions id = some h) (hs : RemoteCodex.Step h.w e u)
      (ha : h.listed = true ∨ w.pc.holds = some id → u.alive = true)
      (hc : ∀ call, w.pc.waits w.p w.connection = some (id, call) → call ∈ u.calls) :
      Step decode C w (e.map (.session id))
        { w.setSession id { h with w := u } with
          outcomes := w.outcomes ++ e.filterMap (Event.outcome? id) }
  | auth (w : ControlWorld) (auth : Auth) : Step decode C w [] { w with auth }
  | tick (w : ControlWorld) (d : Nat) : Step decode C w [] { w with now := w.now + d }
  | shutdown (w : ControlWorld) : Step decode C w [] { w with shutdown := true }
  | stop (w : ControlWorld) (hp : w.pc = .select)
      (hs : w.p.revoked ∈ w.auth.cancelled ∨ w.shutdown ∨ w.p.expires ≤ w.now) :
      Step decode C w [] w.close
  | recv (w : ControlWorld) (v : Reply) (out : List Reply) (hp : w.pc = .select)
      (hq : w.out = v :: out) : Step decode C w [] { w with out, pc := .sending v }
  | send (w : ControlWorld) (v : Reply) (hp : w.pc = .sending v) :
      Step decode C w [.sent v] { w with pc := .select }
  | sendFailed (w : ControlWorld) (v : Reply) (hp : w.pc = .sending v) :
      Step decode C w [] w.close
  | poll (w : ControlWorld) (hp : w.pc = .select) (hq : w.out = []) :
      Step decode C w [] { w with pc := .polled }
  /-- Something else was ready, an event of the manager or a message that is not text. -/
  | wake (w : ControlWorld) (hp : w.pc = .polled) : Step decode C w [] { w with pc := .select }
  | message (w : ControlWorld) (msg : Option ControlMessage) (hp : w.pc = .polled) :
      Step decode C w [] (w.onMessage decode C msg)
  /-- The stream or the events end, or what they lead to cannot be sent. -/
  | failed (w : ControlWorld) (hp : w.pc = .polled) : Step decode C w [] w.close
  | join (w : ControlWorld) (c : Completion) (before after : List Completion)
      (hp : w.pc = .polled) (hc : w.children = before ++ c :: after) (he : c.ended = true) :
      Step decode C w [] { w with children := before ++ after, pc := .select }
  | check (w : ControlWorld) (d : Dispatch) (c : DispatchCheck) (checks : List DispatchCheck)
      (hp : w.pc = .checking d (c :: checks)) (hc : w.check d c = .ok ()) :
      Step decode C w [] { w with pc := .checking d checks }
  | refuse (w : ControlWorld) (d : Dispatch) (c : DispatchCheck) (checks : List DispatchCheck)
      (code : ErrorCode) (hp : w.pc = .checking d (c :: checks))
      (hc : w.check d c = .error code) :
      Step decode C w [] { w with pc := .rejecting d.requestId code }
  | permit (w : ControlWorld) (d : Dispatch) (h : Hosted) (call : Call)
      (hp : w.pc = .checking d []) (hh : w.sessions d.sessionId = some h)
      (hc : d.action.call w.p w.connection = some call) (hl : h.w.alive = true)
      (ha : d.action.permit h.w w.p = .ok ()) :
      Step decode C w []
        { w.setSession d.sessionId { h with w := { h.w with calls := h.w.calls ++ [call] } } with
          pc := .locking d }
  | deny (w : ControlWorld) (d : Dispatch) (h : Hosted) (code : ErrorCode)
      (hp : w.pc = .checking d []) (hh : w.sessions d.sessionId = some h)
      (hc : (d.action.call w.p w.connection).isSome) (ha : d.action.permit h.w w.p = .error code) :
      Step decode C w [] { w with pc := .rejecting d.requestId code }
  | locked (w : ControlWorld) (d : Dispatch) (h : Hosted) (call : Call) (before after : List Call)
      (hp : w.pc = .locking d) (hh : w.sessions d.sessionId = some h)
      (hc : d.action.call w.p w.connection = some call)
      (hq : h.w.calls = before ++ call :: after) :
      Step decode C w (w.lock d h call (before ++ after)).2 (w.lock d h call (before ++ after)).1
  /-- `resize` returns. -/
  | resize (w : ControlWorld) (d : Dispatch) (result : Outcome ErrorCode Reply)
      (hp : w.pc = .checking d []) (hc : d.action.call w.p w.connection = none)
      (hr : ∀ v, result = .ok v → v = .resized d.requestId d.sessionId) :
      Step decode C w [] (w.answer d.requestId result)
  | offer (w : ControlWorld) (requestId : Uuid) (v : Reply) (hp : w.pc = .replying requestId v) :
      Step decode C w [.offered v] (w.offer requestId v)
  | reject (w : ControlWorld) (requestId : Uuid) (code : ErrorCode)
      (hp : w.pc = .rejecting requestId code) :
      Step decode C w [.rejected w.n requestId code] { w with pc := .select }
  | rejectFailed (w : ControlWorld) (requestId : Uuid) (code : ErrorCode)
      (hp : w.pc = .rejecting requestId code) : Step decode C w [] { w with pc := .select }
  | complete (w : ControlWorld) (c : Completion) (before after : List Completion)
      (result : Except ErrorCode Unit) (hc : w.children = before ++ c :: after)
      (he : c.ended = false) (hr : (c.sessionId, c.reply, result) ∈ w.outcomes) :
      Step decode C w [] (w.complete before after c (some result))
  /-- The job was dropped without an answer. -/
  | lost (w : ControlWorld) (c : Completion) (h : Hosted) (before after : List Completion)
      (hc : w.children = before ++ c :: after) (he : c.ended = false)
      (hr : ∀ result, (c.sessionId, c.reply, result) ∉ w.outcomes)
      (hh : w.sessions c.sessionId = some h) (hj : ∀ job ∈ h.w.jobs, job.reply ≠ c.reply) :
      Step decode C w [] (w.complete before after c none)

/-- A connection that was just made. -/
def start (auth : Auth) (p : Principal) (connection : Uuid) (now : Nat) : ControlWorld :=
  ⟨fun _ => none, auth, now, false, p, connection, [], [], now, 0, 0, [], .select⟩

end ControlWorld
end RemoteCodex
