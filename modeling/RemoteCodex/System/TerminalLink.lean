import RemoteCodex.Agent.StreamSafety
import RemoteCodex.Client.Viewer
import RemoteCodex.System.SnapshotJson

namespace RemoteCodex
set_option autoImplicit true
open Client

/-- The session, the `terminal` of one connection, and the client at its other end. `wire` and
`acks` are the messages under way, the oldest first. -/
structure LinkWorld (Term : Type) where
  session : OutputWorld Term
  server : StreamWorld
  wire : List (List UInt8)
  viewer : Viewer
  acks : List StreamMessage

/-- Whose frames the client of a session takes. -/
def SessionInfo.stream (m : SessionInfo) : Stream :=
  ⟨Js.str m.sessionId.hyphenated, .finite m.generation.toNat, Js.str m.agentEpoch.hyphenated⟩

namespace StreamWorld

def publishAll (w : StreamWorld) (fs : List Frame) : StreamWorld := fs.foldl publish w

end StreamWorld

namespace LinkWorld

variable {Term : Type}

/-- The connection is made and the client has heard nothing yet. -/
def start (t : StreamStart) (session : OutputWorld Term) (ringBytes : Nat) (history : List Frame)
    (auth : Auth) (p : Principal) (now : Nat) : LinkWorld Term :=
  ⟨session, .subscribed t ringBytes history auth p now, [], .new session.m.stream, []⟩

/-- The steps of the session, of the agent, of the client and of the network. An acknowledgement
is delivered when the loop takes its next message; the other messages the agent receives, and all
that it does itself, leave `applied` alone. The session numbers fewer than 2^64 frames. -/
inductive Step (E : Engine Term) (C : Crypto) (rt : Runtime) (t : StreamStart) :
    LinkWorld Term → List Frame → LinkWorld Term → Prop where
  | session (w : LinkWorld Term) (e : List OutputEvent) (session : OutputWorld Term)
      (hs : OutputWorld.Step E w.session e session)
      (hn : w.server.history.length + (published e).length < 2 ^ 64) :
      Step E C rt t w [] { w with session, server := w.server.publishAll (published e) }
  | agent (w : LinkWorld Term) (frames : List Frame) (parts : List (List UInt8))
      (server : StreamWorld) (hs : StreamWorld.Step C t w.server frames server)
      (hh : server.history = w.server.history) (ha : server.l.applied = w.server.l.applied)
      (hp : List.Forall₂ (fun f bytes => f.encode = .ok bytes) frames parts) :
      Step E C rt t w frames { w with server, wire := w.wire ++ parts }
  | acknowledge (w : LinkWorld Term) (m : StreamMessage) (acks : List StreamMessage)
      (hq : w.acks = m :: acks) (hp : w.server.pc = .select) :
      Step E C rt t w [] { w with server := w.server.onMessage C t.id (some m), acks }
  | receive (w : LinkWorld Term) (bytes : List UInt8) (wire : List (List UInt8))
      (hq : w.wire = bytes :: wire) (ho : w.viewer.isOpen = true) :
      Step E C rt t w [] { w with viewer := w.viewer.onMessage bytes, wire }
  | turn (w : LinkWorld Term) (bytes : List UInt8) (queue : List (List UInt8))
      (hq : w.viewer.queue = bytes :: queue) :
      Step E C rt t w []
        { w with
          viewer := ({ w.viewer with queue }.turn rt bytes).1
          acks := w.acks ++ ({ w.viewer with queue }.turn rt bytes).2 }
  | disconnect (w : LinkWorld Term) :
      Step E C rt t w [] { w with viewer := { w.viewer with isOpen := false } }

end LinkWorld
end RemoteCodex
