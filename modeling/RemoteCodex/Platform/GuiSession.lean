import Mathlib.Logic.Function.Basic
import RemoteCodex.Core.MediaWire

namespace RemoteCodex
set_option autoImplicit true
namespace GuiSession

/-- The atomics that the threads share. -/
structure Safety where
  closed : Bool
  armed : Bool
  revision : UInt64

/-- The first half of `revoke`. -/
def Safety.lower (s : Safety) : Safety := { s with armed := false }

/-- The second half of `revoke`, which wraps. -/
def Safety.advance (s : Safety) : Safety := { s with revision := s.revision + 1 }

/-- A command in the queue. The reply of an `arm` goes to the call that sent it. -/
inductive Command where
  | frame
  | arm (call : Nat) (expected : UInt64)
  | action (epoch : UInt64) (action : GuiAction)
  | disarm
  | stop

/-- Where a call of a method is; every atomic operation is a step of its own. -/
inductive Call where
  | loading
  | armedLoad (epoch : UInt64) (action : GuiAction)
  | revisionLoad (epoch : UInt64) (action : GuiAction)
  | lowering (c : Command)
  | advancing (c : Command)
  | posting (c : Command)
  | sending (c : Command)
  | waking (c : Command)
  | unwoken
  | unwokenLowered
  | waiting
  | returned (epoch : UInt64)
  | done

/-- The receiver of the reply exists until the call ends. -/
def Call.listens : Call → Bool
  | .returned _ | .done => false
  | _ => true

/-- What the worker goes on with after a revocation of its own. -/
inductive After where
  | reply (call left : Nat)
  | recv (left : Nat)
  | closedLoad
  | leave
  | closing

/-- Where the worker is; `left` counts the commands it may still take before it waits again. -/
inductive Pc where
  | getMessage
  | armedLoad (timer wake : Bool)
  | timerLoad
  | recv (left : Nat)
  | armLoad (call : Nat) (expected : UInt64) (left : Nat)
  | armSwap (call : Nat) (expected : UInt64) (left : Nat)
  | armStore (call : Nat) (next : UInt64) (left : Nat)
  | armReload (call : Nat) (next : UInt64) (left : Nat)
  | armClear (call left : Nat)
  | armReply (call : Nat) (result : Option UInt64) (left : Nat)
  | actionArmed (epoch : UInt64) (left : Nat)
  | actionRevision (epoch : UInt64) (left : Nat)
  | applying (epoch : UInt64) (checked : Bool) (left : Nat)
  | checkArmed (epoch : UInt64) (left : Nat)
  | checkRevision (epoch : UInt64) (left : Nat)
  | checkClosed (epoch : UInt64) (left : Nat)
  | stopping
  | lowering (next : After)
  | advancing (next : After)
  | closedLoad
  | closing
  | done

def After.pc : After → Pc
  | .reply call left => .armReply call none left
  | .recv left => .recv left
  | .closedLoad => .closedLoad
  | .leave => .lowering .closing
  | .closing => .closing

inductive Event where
  | loaded (call : Nat) (expected : UInt64)
  | swapped (call : Nat) (epoch : UInt64)
  | answered (call : Nat) (epoch : UInt64)
  | returned (call : Nat) (epoch : UInt64)
  | revoked
  | accepted (epoch : UInt64)
  deriving DecidableEq

/-- A session: the atomics, the queue, the calls with the replies sent to them, the hooks that are
in the middle of a revocation, and the worker. -/
structure World where
  safety : Safety
  queue : List Command
  calls : Nat → Option Call
  replies : Nat → Option (Option UInt64)
  hooks : Nat
  worker : Pc

namespace World

def start : World := ⟨⟨false, false, 0⟩, [], fun _ => none, fun _ => none, 0, .getMessage⟩

def setCall (w : World) (c : Nat) (k : Call) : World :=
  { w with calls := Function.update w.calls c (some k) }

def goto (w : World) (pc : Pc) : World := { w with worker := pc }

/-- The worker still owns the receiver of the queue. -/
def connected (w : World) : Bool :=
  match w.worker with
  | .lowering .closing | .advancing .closing | .closing | .done => false
  | _ => true

def lower (w : World) : World := { w with safety := w.safety.lower }

def advance (w : World) : World := { w with safety := w.safety.advance }

def close (w : World) : World := { w with safety := { w.safety with closed := true } }

/-- A command that is taken from the queue. -/
def handle (w : World) (left : Nat) : Command → World
  | .frame | .disarm => w.goto (.recv left)
  | .arm call expected => w.goto (.armLoad call expected left)
  | .action epoch _ => w.goto (.actionArmed epoch left)
  | .stop => w.goto .stopping

/-- `compare_exchange` of the revision, after `checked_add`. -/
def swap (w : World) (call : Nat) (expected : UInt64) (left : Nat) : World × List Event :=
  if expected.toNat = u64Max then (w.goto (.lowering (.reply call left)), [])
  else if w.safety.revision = expected then
    ({ w with safety := { w.safety with revision := expected + 1 } }.goto
      (.armStore call (expected + 1) left), [.swapped call (expected + 1)])
  else (w.goto (.lowering (.reply call left)), [])

/-- `reply.send`, which fails when the call has ended. -/
def reply (w : World) (call : Nat) (result : Option UInt64) (left : Nat) : World × List Event :=
  if (w.calls call).any Call.listens then
    ({ w with replies := Function.update w.replies call (some result) }.goto (.recv left),
      (result.map (Event.answered call)).toList)
  else (w.goto (.lowering (.recv left)), [])

end World

/-- An atomic operation of a call, of a hook or of the worker. The backend and the desktop may
fail at any time. -/
inductive Step : World → List Event → World → Prop where
  | frame (w : World) (c : Nat) (hc : w.calls c = none) : Step w [] (w.setCall c (.posting .frame))
  | arm (w : World) (c : Nat) (hc : w.calls c = none) : Step w [] (w.setCall c .loading)
  | loaded (w : World) (c : Nat) (hc : w.calls c = some .loading) :
      Step w [.loaded c w.safety.revision]
        (w.setCall c (.posting (.arm c w.safety.revision)))
  | action (w : World) (c d : Nat) (epoch : UInt64) (action : GuiAction) (hc : w.calls c = none)
      (hd : w.calls d = some (.returned epoch)) : Step w [] (w.setCall c (.armedLoad epoch action))
  | armedLoad (w : World) (c : Nat) (epoch : UInt64) (action : GuiAction)
      (hc : w.calls c = some (.armedLoad epoch action)) :
      Step w [] (w.setCall c (if w.safety.armed then .revisionLoad epoch action else .done))
  | revisionLoad (w : World) (c : Nat) (epoch : UInt64) (action : GuiAction)
      (hc : w.calls c = some (.revisionLoad epoch action)) :
      Step w [] (w.setCall c
        (if epoch = w.safety.revision then .posting (.action epoch action) else .done))
  | disarm (w : World) (c : Nat) (hc : w.calls c = none) :
      Step w [] (w.setCall c (.lowering .disarm))
  | drop (w : World) (c : Nat) (hc : w.calls c = none) : Step w [] (w.setCall c (.lowering .stop))
  | lowered (w : World) (c : Nat) (cmd : Command) (hc : w.calls c = some (.lowering cmd)) :
      Step w [] (w.lower.setCall c (.advancing cmd))
  | advanced (w : World) (c : Nat) (cmd : Command) (hc : w.calls c = some (.advancing cmd)) :
      Step w [.revoked]
        (w.advance.setCall c (match cmd with | .stop => .sending cmd | _ => .posting cmd))
  | posting (w : World) (c : Nat) (cmd : Command) (hc : w.calls c = some (.posting cmd)) :
      Step w [] (w.setCall c (if w.safety.closed then .done else .sending cmd))
  | sent (w : World) (c : Nat) (cmd : Command) (hc : w.calls c = some (.sending cmd))
      (hq : w.queue.length < 64) (hw : w.connected = true) :
      Step w [] ({ w with queue := w.queue ++ [cmd] }.setCall c (.waking cmd))
  | unsent (w : World) (c : Nat) (cmd : Command) (hc : w.calls c = some (.sending cmd))
      (hq : 64 ≤ w.queue.length ∨ w.connected = false) : Step w [] (w.setCall c .done)
  | woken (w : World) (c : Nat) (cmd : Command) (hc : w.calls c = some (.waking cmd)) :
      Step w [] (w.setCall c (match cmd with | .arm _ _ => .waiting | _ => .done))
  | unwoken (w : World) (c : Nat) (cmd : Command) (hc : w.calls c = some (.waking cmd)) :
      Step w [] (w.setCall c (match cmd with | .stop => .done | _ => .unwoken))
  | unwokenLowered (w : World) (c : Nat) (hc : w.calls c = some .unwoken) :
      Step w [] (w.lower.setCall c .unwokenLowered)
  | unwokenAdvanced (w : World) (c : Nat) (hc : w.calls c = some .unwokenLowered) :
      Step w [.revoked] (w.advance.setCall c .done)
  | returned (w : World) (c : Nat) (epoch : UInt64) (hc : w.calls c = some .waiting)
      (hr : w.replies c = some (some epoch)) :
      Step w [.returned c epoch] (w.setCall c (.returned epoch))
  | refused (w : World) (c : Nat) (hc : w.calls c = some .waiting) (hr : w.replies c = some none) :
      Step w [] (w.setCall c .done)
  | timedOut (w : World) (c : Nat) (hc : w.calls c = some .waiting) :
      Step w [] (w.setCall c .done)
  | hook (w : World) : Step w [] { w.lower with hooks := w.hooks + 1 }
  | hooked (w : World) (hh : 0 < w.hooks) :
      Step w [.revoked] { w.advance with hooks := w.hooks - 1 }
  | message (w : World) (timer wake : Bool) (hp : w.worker = .getMessage) :
      Step w [] (w.goto (.armedLoad timer wake))
  | quit (w : World) (hp : w.worker = .getMessage) : Step w [] (w.goto (.lowering .leave))
  | disarmed (w : World) (timer wake : Bool) (hp : w.worker = .armedLoad timer wake) :
      Step w [] (w.goto (if timer then .timerLoad else if wake then .recv 64 else .closedLoad))
  | desktopGone (w : World) (hp : w.worker = .timerLoad) : Step w [] (w.goto (.lowering .leave))
  | timerLoad (w : World) (live : Bool) (hp : w.worker = .timerLoad) :
      Step w [] (w.goto (if w.safety.armed && !live then .lowering .closedLoad else .closedLoad))
  | recv (w : World) (left : Nat) (cmd : Command) (rest : List Command)
      (hp : w.worker = .recv (left + 1)) (hq : w.queue = cmd :: rest) :
      Step w [] ({ w with queue := rest }.handle left cmd)
  | empty (w : World) (left : Nat) (hp : w.worker = .recv left) (hq : left = 0 ∨ w.queue = []) :
      Step w [] (w.goto .closedLoad)
  | disconnected (w : World) (left : Nat) (hp : w.worker = .recv (left + 1)) (hq : w.queue = []) :
      Step w [] (w.close.goto .closedLoad)
  | stopping (w : World) (hp : w.worker = .stopping) : Step w [] (w.close.goto .closedLoad)
  | armLoad (w : World) (call : Nat) (expected : UInt64) (left : Nat)
      (hp : w.worker = .armLoad call expected left) :
      Step w [] (w.goto (if w.safety.revision = expected then .armSwap call expected left
        else .lowering (.reply call left)))
  | armUnable (w : World) (call : Nat) (expected : UInt64) (left : Nat)
      (hp : w.worker = .armSwap call expected left) :
      Step w [] (w.goto (.lowering (.reply call left)))
  | armSwap (w : World) (call : Nat) (expected : UInt64) (left : Nat)
      (hp : w.worker = .armSwap call expected left) :
      Step w (w.swap call expected left).2 (w.swap call expected left).1
  | armStore (w : World) (call : Nat) (next : UInt64) (left : Nat)
      (hp : w.worker = .armStore call next left) :
      Step w [] ({ w with safety := { w.safety with armed := true } }.goto
        (.armReload call next left))
  | armReload (w : World) (call : Nat) (next : UInt64) (left : Nat)
      (hp : w.worker = .armReload call next left) :
      Step w [] (w.goto (if w.safety.revision = next then .armReply call (some next) left
        else .armClear call left))
  | armClear (w : World) (call left : Nat) (hp : w.worker = .armClear call left) :
      Step w [] (w.lower.goto (.lowering (.reply call left)))
  | armReply (w : World) (call : Nat) (result : Option UInt64) (left : Nat)
      (hp : w.worker = .armReply call result left) :
      Step w (w.reply call result left).2 (w.reply call result left).1
  | actionArmed (w : World) (epoch : UInt64) (left : Nat)
      (hp : w.worker = .actionArmed epoch left) :
      Step w [] (w.goto (if w.safety.armed then .actionRevision epoch left else .recv left))
  | actionStale (w : World) (epoch : UInt64) (left : Nat)
      (hp : w.worker = .actionRevision epoch left) (hr : w.safety.revision ≠ epoch) :
      Step w [] (w.goto (.recv left))
  | actionAccepted (w : World) (epoch : UInt64) (left : Nat)
      (hp : w.worker = .actionRevision epoch left) (hr : w.safety.revision = epoch) :
      Step w [.accepted epoch] (w.goto (.applying epoch false left))
  | check (w : World) (epoch : UInt64) (checked : Bool) (left : Nat)
      (hp : w.worker = .applying epoch checked left) : Step w [] (w.goto (.checkArmed epoch left))
  | applied (w : World) (epoch : UInt64) (left : Nat) (hp : w.worker = .applying epoch true left) :
      Step w [] (w.goto (.recv left))
  | failed (w : World) (epoch : UInt64) (checked : Bool) (left : Nat)
      (hp : w.worker = .applying epoch checked left) :
      Step w [] (w.goto (.lowering (.recv left)))
  | checkArmed (w : World) (epoch : UInt64) (left : Nat) (hp : w.worker = .checkArmed epoch left) :
      Step w [] (w.goto (if w.safety.armed then .checkRevision epoch left
        else .lowering (.recv left)))
  | checkStale (w : World) (epoch : UInt64) (left : Nat)
      (hp : w.worker = .checkRevision epoch left) (hr : w.safety.revision ≠ epoch) :
      Step w [] (w.goto (.lowering (.recv left)))
  | checkAccepted (w : World) (epoch : UInt64) (left : Nat)
      (hp : w.worker = .checkRevision epoch left) (hr : w.safety.revision = epoch) :
      Step w [.accepted epoch] (w.goto (.checkClosed epoch left))
  | checkClosed (w : World) (epoch : UInt64) (left : Nat)
      (hp : w.worker = .checkClosed epoch left) :
      Step w [] (w.goto (if w.safety.closed then .lowering (.recv left)
        else .applying epoch true left))
  | lowering (w : World) (next : After) (hp : w.worker = .lowering next) :
      Step w [] (w.lower.goto (.advancing next))
  | advancing (w : World) (next : After) (hp : w.worker = .advancing next) :
      Step w [.revoked] (w.advance.goto next.pc)
  | closedLoad (w : World) (hp : w.worker = .closedLoad) :
      Step w [] (w.goto (if w.safety.closed then .lowering .leave else .getMessage))
  | closing (w : World) (hp : w.worker = .closing) : Step w [] (w.close.goto .done)

end GuiSession
end RemoteCodex
