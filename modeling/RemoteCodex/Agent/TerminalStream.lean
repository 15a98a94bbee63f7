import RemoteCodex.Lib.Trace
import RemoteCodex.Core.Ring
import RemoteCodex.Agent.Auth
import RemoteCodex.Agent.SessionOutput

namespace RemoteCodex
set_option autoImplicit true

inductive StreamMessage where
  | refreshAuth (ticket : String)
  | applied (sequence : String) (bytes : UInt32)
  | ping

/-- A subscription to the frames of a session. A slow subscriber loses the oldest frames it has
not received, and is told so. -/
structure Receiver where
  queue : List Frame
  lagged : Bool

inductive RecvError where
  | lagged
  | closed

/-- Where `terminal` stands. The local variables of the loop are not used after it. -/
inductive TerminalPc where
  | initial
  | chunks (rest : List (List UInt8))
  | top
  | fill
  | flow
  | select
  | check
  | closed
  | panicked
  deriving DecidableEq

/-- The local variables of the loop. -/
structure TerminalLoop where
  applied : UInt64
  sent : UInt64
  inflight : List (UInt64 × Nat)
  unacked : Nat
  pending : List Frame
  deadline : Nat

/-- One viewer of a session: the frames published so far, the session's ring, and the state of
`terminal`. -/
structure StreamWorld where
  history : List Frame
  ring : EventRing
  events : Receiver
  auth : Auth
  now : Nat
  shutdown : Bool
  p : Principal
  pc : TerminalPc
  l : TerminalLoop

/-- The bytes that may be sent and not yet acknowledged. -/
def WINDOW : Nat := 256 * 1024

/-- The loop that takes acknowledged frames out of `inflight`. The subtraction is checked. -/
def drain (seq : UInt64) :
    List (UInt64 × Nat) → Nat → Bool → Option (List (UInt64 × Nat) × Nat × Bool)
  | [], unacked, advanced => some ([], unacked, advanced)
  | (s, n) :: inflight, unacked, advanced =>
    if s ≤ seq then if unacked < n then none else drain seq inflight (unacked - n) true
    else some ((s, n) :: inflight, unacked, advanced)

namespace StreamWorld

def close (w : StreamWorld) : StreamWorld := { w with pc := .closed }

/-- The session publishes a frame: it is stored in the ring and sent to the subscribers. -/
def publish (w : StreamWorld) (f : Frame) : StreamWorld :=
  { w with
    history := w.history ++ [f]
    ring := w.ring.push f
    events := { w.events with queue := w.events.queue ++ [f] } }

def deadline (w : StreamWorld) : Nat := w.now + fromSecs 20

/-- The checks at the top of the loop. -/
def guard (w : StreamWorld) : StreamWorld :=
  if w.p.require w.auth.cancelled w.now .terminalRead ≠ .ok () ∨ w.shutdown then w.close
  else if 0 < w.l.unacked ∧ w.l.deadline ≤ w.now then w.close
  else { w with pc := .fill }

/-- `pending.extend(session.ring_after(sent))`, then go on at `next`. -/
def replay (w : StreamWorld) (next : TerminalPc) : StreamWorld :=
  match w.ring.after w.l.sent with
  | .ok v => { w with l := { w.l with pending := w.l.pending ++ v }, pc := next }
  | .error _ => w.close

def fill (w : StreamWorld) : StreamWorld :=
  if w.l.pending = [] then w.replay .flow else { w with pc := .flow }

/-- What is recorded when the frame in front of `pending` was sent. -/
def delivered (w : StreamWorld) (f : Frame) (rest : List Frame) : StreamWorld :=
  let l : TerminalLoop :=
    { w.l with
      pending := rest
      deadline := if w.l.unacked = 0 then w.deadline else w.l.deadline
      sent := f.sequence
      unacked := w.l.unacked + f.size
      inflight := w.l.inflight ++ [(f.sequence, f.size)] }
  { w with l, pc := .top }

/-- `none` is anything but a text message with the JSON of a `StreamMessage`. -/
def onMessage (C : Crypto) (id : Uuid) (w : StreamWorld) : Option StreamMessage → StreamWorld
  | none => w.close
  | some (.refreshAuth ticket) =>
    match w.auth.consumeWs C ticket "terminal" w.now with
    | (.ok (next, some resource), auth) =>
      if next.clientId = w.p.clientId ∧ resource = id then { w with auth, p := next, pc := .check }
      else { w with auth, pc := .closed }
    | (_, auth) => { w with auth, pc := .closed }
  | some (.applied sequence _) =>
    match parseU64 sequence with
    | none => w.close
    | some seq =>
      if seq < w.l.applied ∨ w.l.sent < seq then w.close
      else
        match drain seq w.l.inflight w.l.unacked false with
        | none => { w with l := { w.l with applied := seq }, pc := .panicked }
        | some (inflight, unacked, advanced) =>
          let deadline := if advanced then w.deadline else w.l.deadline
          { w with l := { w.l with applied := seq, inflight, unacked, deadline }, pc := .check }
  | some .ping => { w with pc := .check }

def onEvent (w : StreamWorld) : Except RecvError Frame → StreamWorld
  | .ok f =>
    if w.l.sent < f.sequence then
      if f.sequence = w.l.sent + 1 then
        { w with l := { w.l with pending := w.l.pending ++ [f] }, pc := .check }
      else w.replay .check
    else { w with pc := .check }
  | .error .lagged => w.replay .check
  | .error .closed => w.close

/-- The check at the end of the loop. -/
def check (w : StreamWorld) : StreamWorld :=
  if 1024 * 1024 < (w.l.pending.map Frame.size).sum then w.close else { w with pc := .top }

end StreamWorld

/-- What `recv` returns, when it returns. A closed channel is reported after its last frame. -/
inductive Receiver.Recv : Receiver → Except RecvError Frame → Receiver → Prop where
  | frame (f : Frame) (queue : List Frame) : Recv ⟨f :: queue, false⟩ (.ok f) ⟨queue, false⟩
  | lagged (queue : List Frame) : Recv ⟨queue, true⟩ (.error .lagged) ⟨queue, false⟩
  | closed : Recv ⟨[], false⟩ (.error .closed) ⟨[], false⟩

/-- What the snapshot of a connection consists of. -/
structure StreamStart where
  id : Uuid
  info : SnapshotMeta
  snapshot : List UInt8
  /-- `serde_json::to_vec`, from a library -/
  json : SnapshotMeta → List UInt8

namespace StreamStart

def frame (t : StreamStart) (kind : UInt8) (payload : List UInt8) : Frame :=
  ⟨kind, t.id, t.info.generation, t.info.sequence, payload⟩

def metaFrame (t : StreamStart) : Frame := t.frame Frame.SNAPSHOT_META (t.json t.info)

def chunkFrame (t : StreamStart) (chunk : List UInt8) : Frame := t.frame Frame.SNAPSHOT_CHUNK chunk

def endFrame (t : StreamStart) : Frame := t.frame Frame.SNAPSHOT_END []

def chunks (t : StreamStart) : List (List UInt8) := t.snapshot.toChunks MAX_PAYLOAD

/-- The frames of a whole snapshot. -/
def frames (t : StreamStart) : List Frame :=
  t.metaFrame :: (t.chunks.map t.chunkFrame ++ [t.endFrame])

/-- The variables of the loop when it is entered. -/
def loop (t : StreamStart) (deadline : Nat) : TerminalLoop :=
  ⟨t.info.sequence, t.info.sequence, [], 0, [], deadline⟩

end StreamStart

namespace StreamWorld

/-- The frame that `terminal` is about to send. -/
def sending (t : StreamStart) (w : StreamWorld) : Option Frame :=
  match w.pc with
  | .initial => some t.metaFrame
  | .chunks (chunk :: _) => some (t.chunkFrame chunk)
  | .chunks [] => some t.endFrame
  | .flow => if w.l.unacked < WINDOW then w.l.pending.head? else none
  | _ => none

/-- The steps of `terminal`, with the frames it sends, and of what runs beside it. The branches
of `select!` are polled in order but not at one time, so that each one has only its own
condition. -/
inductive Step (C : Crypto) (t : StreamStart) : StreamWorld → List Frame → StreamWorld → Prop where
  | publish (w : StreamWorld) (f : Frame) (hn : f.number = w.history.length + 1) :
      Step C t w [] (w.publish f)
  | lag (w : StreamWorld) (lost kept : List Frame) (hq : w.events.queue = lost ++ kept) :
      Step C t w [] { w with events := ⟨kept, true⟩ }
  | auth (w : StreamWorld) (auth : Auth) : Step C t w [] { w with auth }
  | tick (w : StreamWorld) (d : Nat) : Step C t w [] { w with now := w.now + d }
  | shutdown (w : StreamWorld) : Step C t w [] { w with shutdown := true }
  | sendMeta (w : StreamWorld) (hp : w.pc = .initial) (he : t.metaFrame.Encodes) :
      Step C t w [t.metaFrame] { w with pc := .chunks t.chunks }
  | sendChunk (w : StreamWorld) (chunk : List UInt8) (rest : List (List UInt8))
      (hp : w.pc = .chunks (chunk :: rest))
      (hr : w.p.require w.auth.cancelled w.now .terminalRead = .ok ())
      (he : (t.chunkFrame chunk).Encodes) :
      Step C t w [t.chunkFrame chunk] { w with pc := .chunks rest }
  | refuseChunk (w : StreamWorld) (chunk : List UInt8) (rest : List (List UInt8))
      (hp : w.pc = .chunks (chunk :: rest))
      (hr : w.p.require w.auth.cancelled w.now .terminalRead ≠ .ok ()) : Step C t w [] w.close
  | sendEnd (w : StreamWorld) (hp : w.pc = .chunks []) (he : t.endFrame.Encodes) :
      Step C t w [t.endFrame] { w with pc := .top, l := t.loop w.deadline }
  /-- The frame cannot be encoded, or the socket fails or takes too long. -/
  | sendFailed (w : StreamWorld) (f : Frame) (hf : w.sending t = some f) : Step C t w [] w.close
  | guard (w : StreamWorld) (hp : w.pc = .top) : Step C t w [] w.guard
  | fill (w : StreamWorld) (hp : w.pc = .fill) : Step C t w [] w.fill
  | send (w : StreamWorld) (f : Frame) (rest : List Frame) (hp : w.pc = .flow)
      (hw : w.l.unacked < WINDOW) (hq : w.l.pending = f :: rest)
      (hs : f.sequence = w.l.sent + 1) (he : f.Encodes) : Step C t w [f] (w.delivered f rest)
  | gap (w : StreamWorld) (f : Frame) (rest : List Frame) (hp : w.pc = .flow)
      (hw : w.l.unacked < WINDOW) (hq : w.l.pending = f :: rest)
      (hs : f.sequence ≠ w.l.sent + 1) : Step C t w [] w.close
  | wait (w : StreamWorld) (hp : w.pc = .flow)
      (hw : w.l.pending = [] ∨ WINDOW ≤ w.l.unacked) : Step C t w [] { w with pc := .select }
  | stop (w : StreamWorld) (hp : w.pc = .select)
      (hs : w.p.revoked ∈ w.auth.cancelled ∨ w.shutdown ∨ w.p.expires ≤ w.now ∨
        0 < w.l.unacked ∧ w.l.deadline ≤ w.now) : Step C t w [] w.close
  | message (w : StreamWorld) (m : Option StreamMessage) (hp : w.pc = .select) :
      Step C t w [] (w.onMessage C t.id m)
  | event (w : StreamWorld) (r : Except RecvError Frame) (events : Receiver)
      (hp : w.pc = .select) (hw : w.l.unacked < WINDOW) (hr : w.events.Recv r events) :
      Step C t w [] ({ w with events }.onEvent r)
  | check (w : StreamWorld) (hp : w.pc = .check) : Step C t w [] w.check

/-- A viewer that has just subscribed to a session with a history. -/
def subscribed (t : StreamStart) (ringBytes : Nat) (history : List Frame) (auth : Auth)
    (p : Principal) (now : Nat) : StreamWorld :=
  ⟨history, (EventRing.new ringBytes).pushAll history, ⟨[], false⟩, auth, now, false, p, .initial,
    t.loop now⟩

end StreamWorld
end RemoteCodex
