import RemoteCodex.Agent.TerminalStream
import RemoteCodex.Client.FrameCodec
import RemoteCodex.Client.GuardLanguage

namespace RemoteCodex
set_option autoImplicit true
namespace Client

/-- The bytes that may wait to be rendered. -/
def RENDER_BUDGET : Nat := 5 * 1024 * 1024

/-- The variables of `TerminalView.connect` after the socket was opened: the messages that wait
in `queue`, what `RenderBudget` counts, and whether the socket is open. `failed` tells that an
exception reached the handler at the end of the queue. -/
structure Viewer where
  guard : StreamGuard
  queue : List (List UInt8)
  budget : Nat
  isOpen : Bool
  failed : Bool

namespace Viewer

def new (s : Stream) : Viewer := ⟨s.guard, [], 0, true, false⟩

/-- `controller.fail(error); socket.close()` -/
def fail (v : Viewer) : Viewer := { v with isOpen := false, failed := true }

/-- `socket.onmessage` -/
def onMessage (v : Viewer) (bytes : List UInt8) : Viewer :=
  if RENDER_BUDGET < v.budget + bytes.length then { v with isOpen := false }
  else { v with budget := v.budget + bytes.length, queue := v.queue ++ [bytes] }

/-- `{ type: 'applied', sequence: guard.sequence.toString(), bytes: frame.payload.length + 40 }` -/
def applied (guard : StreamGuard) (frame : TerminalFrame) : StreamMessage :=
  .applied (toString guard.sequence) (UInt32.ofNat (frame.payload.length + 40))

/-- The frames of one message: what is sent back, and whether the guard took all of them. -/
def render (rt : Runtime) (v : Viewer) :
    List TerminalFrame → Viewer × List StreamMessage × Bool
  | [] => (v, [], true)
  | frame :: frames =>
    match v.guard.accept rt frame with
    | (guard, .error _) => ({ v with guard }, [], false)
    | (guard, .ok ()) =>
      let acks := if guard.phase = .live ∧ v.isOpen then [applied guard frame] else []
      let (v, rest, ok) := { v with guard }.render rt frames
      (v, acks ++ rest, ok)

/-- One turn of the queue. -/
def turn (rt : Runtime) (v : Viewer) (bytes : List UInt8) : Viewer × List StreamMessage :=
  match decodeFrames bytes with
  | .error _ => (v.fail, [])
  | .ok frames =>
    let (v, acks, ok) := v.render rt frames
    if ok ∧ bytes.length ≤ v.budget then ({ v with budget := v.budget - bytes.length }, acks)
    else (v.fail, acks)

/-- What a message of one frame does that the guard takes. -/
theorem turn_single {rt : Runtime} {v : Viewer} {bytes : List UInt8} {f : Frame}
    {guard : StreamGuard} (he : f.encode = .ok bytes) (hb : bytes.length ≤ v.budget)
    (ha : v.guard.accept rt f.toClient = (guard, .ok ())) :
    v.turn rt bytes =
      ({ v with guard, budget := v.budget - bytes.length },
        if guard.phase = .live ∧ v.isOpen then [applied guard f.toClient] else []) := by
  rw [turn, decodeFrames_single he]
  simp only [render, ha, List.append_nil, true_and]
  rw [if_pos hb]

end Viewer
end Client
end RemoteCodex
