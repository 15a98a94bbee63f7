import Mathlib.Data.Finset.Insert
import RemoteCodex.Lib.Table
import RemoteCodex.Agent.MediaLoop

namespace RemoteCodex
set_option autoImplicit true
namespace Media

structure Active where
  id : Uuid
  client : Uuid
  cancel : CancellationToken

/-- `MediaManager` with what its mutex protects. `issued` holds the identifiers given to sources so
far, and `cancelled` the tokens that were cancelled. -/
structure MediaManager where
  sources : AList fun _ : Uuid => Approved
  active : Option Active
  guiControlled : Bool
  issued : List Uuid
  cancelled : Finset CancellationToken
  nextToken : CancellationToken

/-- A source that the platform found under the kind and the handle of an approval. -/
structure Found where
  label : String
  kind : String
  rect : Rect

namespace MediaManager

def new : MediaManager := ⟨∅, none, false, [], ∅, 0⟩

def viewOf (id : Uuid) (found : Found) (control : Bool) : SourceView :=
  ⟨id, 1, "1", found.label, found.kind, control, found.rect⟩

def approve (c : MediaConfig) (m : MediaManager) (now later : Nat) (id : Uuid)
    (found : Option Found) (control : Bool) : MediaManager × Except String SourceView :=
  if ¬ c.enabled then (m, .error "Media is disabled in host configuration")
  else if control ∧ ¬ c.allowControl then (m, .error "GUI control disabled in configuration")
  else
    match found with
    | none => (m, .error "Local source no longer exists")
    | some found =>
      let sources := Table.retain (fun _ s => decide (now < s.untilTime)) m.sources
      if 16 ≤ Table.size sources then ({ m with sources }, .error "At most 16 approved sources")
      else
        ({ m with
            sources := sources.insert id
              ⟨viewOf id found control, later + fromSecs (8 * 3600)⟩
            issued := m.issued ++ [id] },
          .ok (viewOf id found control))

def viewScope (s : SourceView) : Scope := if s.kind = "window" then .windowView else .desktopView

def get (c : MediaConfig) (m : MediaManager) (cancelled : Finset CancellationToken) (now : Nat)
    (id : Uuid) (p : Principal) : Except ErrorCode Approved :=
  if ¬ c.enabled then .error .mediaUnavailable
  else
    match (m.sources.lookup id).filter fun s => decide (now < s.untilTime) with
    | none => .error .forbidden
    | some source =>
      match p.require cancelled now (viewScope source.view) with
      | .error e => .error e
      | .ok () => .ok source

/-- The second critical section of `begin`. -/
def register (m : MediaManager) (client stream : Uuid) :
    Except ErrorCode (MediaManager × CancellationToken) :=
  if m.active.isSome then .error .leaseBusy
  else
    .ok ({ m with
        active := some ⟨stream, client, m.nextToken⟩
        nextToken := m.nextToken + 1 }, m.nextToken)

def finish (m : MediaManager) (id : Uuid) : MediaManager :=
  if m.active.any fun a => a.id == id then { m with active := none } else m

def cancel (m : MediaManager) (a : Active) : MediaManager :=
  { m with cancelled := insert a.cancel m.cancelled }

def cancelAll (m : MediaManager) : MediaManager :=
  match m.active with
  | none => m
  | some a => m.cancel a

def revokeClient (m : MediaManager) (id : Uuid) : MediaManager :=
  match m.active with
  | none => m
  | some a => if a.client = id then m.cancel a else m

def clearSources (m : MediaManager) : MediaManager := { m with sources := ∅ }.cancelAll

end MediaManager

/-- Where a connection is; `run` is done with the loop when it is `leaving`, and with its cleanup
when it is `left`. -/
inductive Task where
  | upgraded (source : Approved) (p : Principal)
  | found (source : Approved) (p : Principal)
  | starting (stream : Uuid) (cancel : CancellationToken) (source : Approved) (p : Principal)
  | looping (stream : Uuid) (cancel : CancellationToken) (l : Loop)
  | leaving (stream : Uuid) (cancel : CancellationToken) (source : Approved)
  | left (stream : Uuid) (cancel : CancellationToken) (source : Approved)
  | done

/-- The stream that a connection has registered, with its token and its source. -/
def Task.stream : Task → Option (Uuid × CancellationToken × Approved)
  | .starting stream cancel source _ | .leaving stream cancel source
  | .left stream cancel source => some (stream, cancel, source)
  | .looping stream cancel l => some (stream, cancel, l.source)
  | .upgraded .. | .found .. | .done => none

inductive Event where
  | approved (id : Uuid)
  | cleared
  | found (task : Nat) (id : Uuid)
  | registered (task : Nat) (id : Uuid)
  | turned (task : Nat) (env : Env) (input : Loop.Input) (effects : List Effect)

/-- A manager with the connections of its clients. -/
structure World where
  m : MediaManager
  tasks : Nat → Option Task

namespace World

def start : World := ⟨.new, fun _ => none⟩

def setTask (w : World) (t : Nat) (k : Task) : World :=
  { w with tasks := Function.update w.tasks t (some k) }

/-- A connection after a turn: it goes on, or it leaves the loop. -/
def after (w : World) (t : Nat) (stream : Uuid) (cancel : CancellationToken) (r : Turn) : World :=
  { w with m := { w.m with guiControlled := r.controlled } }.setTask t
    (if r.next = Next.again then .looping stream cancel r.loop
    else .leaving stream cancel r.loop.source)

end World

/-- A critical section of the manager, a turn of a loop, or another step of a connection. The
identifiers of approved sources are new. -/
inductive Step (c : MediaConfig) : World → List Event → World → Prop where
  | approve (w : World) (now later : Nat) (id : Uuid) (found : Option Found) (control : Bool)
      (m : MediaManager) (view : SourceView) (hid : id ∉ w.m.issued)
      (hm : w.m.approve c now later id found control = (m, .ok view)) :
      Step c w [.approved id] { w with m }
  | refuse (w : World) (now later : Nat) (id : Uuid) (found : Option Found) (control : Bool)
      (m : MediaManager) (text : String)
      (hm : w.m.approve c now later id found control = (m, .error text)) : Step c w [] { w with m }
  | upgrade (w : World) (t : Nat) (cancelled : Finset CancellationToken) (now : Nat) (id : Uuid)
      (p : Principal) (source : Approved) (ht : w.tasks t = none)
      (hg : w.m.get c cancelled now id p = .ok source) :
      Step c w [] (w.setTask t (.upgraded source p))
  | find (w : World) (t : Nat) (cancelled : Finset CancellationToken) (now : Nat)
      (p : Principal) (source again : Approved) (ht : w.tasks t = some (.upgraded source p))
      (hg : w.m.get c cancelled now source.view.id p = .ok again) :
      Step c w [.found t source.view.id] (w.setTask t (.found source p))
  | miss (w : World) (t : Nat) (p : Principal) (source : Approved)
      (ht : w.tasks t = some (.upgraded source p)) : Step c w [] (w.setTask t .done)
  | register (w : World) (t : Nat) (p : Principal) (source : Approved) (stream : Uuid)
      (m : MediaManager) (cancel : CancellationToken) (ht : w.tasks t = some (.found source p))
      (hm : w.m.register p.clientId stream = .ok (m, cancel)) :
      Step c w [.registered t source.view.id]
        ({ w with m }.setTask t (.starting stream cancel source p))
  | busy (w : World) (t : Nat) (p : Principal) (source : Approved)
      (ht : w.tasks t = some (.found source p)) (hb : w.m.active.isSome) :
      Step c w [] (w.setTask t .done)
  | unstarted (w : World) (t : Nat) (p : Principal) (source : Approved) (stream : Uuid)
      (cancel : CancellationToken) (ht : w.tasks t = some (.starting stream cancel source p)) :
      Step c w [] (w.setTask t (.left stream cancel source))
  | started (w : World) (t : Nat) (p : Principal) (source : Approved) (stream : Uuid)
      (cancel : CancellationToken) (now : Nat) (l : Loop)
      (ht : w.tasks t = some (.starting stream cancel source p))
      (hl : Loop.new p source now = some l) : Step c w [] (w.setTask t (.looping stream cancel l))
  | cancelled (w : World) (t : Nat) (stream : Uuid) (cancel : CancellationToken) (l : Loop)
      (ht : w.tasks t = some (.looping stream cancel l)) :
      Step c w [] (w.setTask t (.leaving stream cancel l.source))
  | turn (w : World) (t : Nat) (stream : Uuid) (cancel : CancellationToken) (l : Loop) (e : Env)
      (i : Loop.Input) (ht : w.tasks t = some (.looping stream cancel l))
      (hc : cancel ∉ w.m.cancelled) (hp : l.principal.revoked ∉ e.cancelled) :
      Step c w [.turned t e i (l.turn c e w.m.guiControlled i).effects]
        (w.after t stream cancel (l.turn c e w.m.guiControlled i))
  | leave (w : World) (t : Nat) (stream : Uuid) (cancel : CancellationToken) (source : Approved)
      (ht : w.tasks t = some (.leaving stream cancel source)) :
      Step c w [] ({ w with m := { w.m with guiControlled := false } }.setTask t
        (.left stream cancel source))
  | finish (w : World) (t : Nat) (stream : Uuid) (cancel : CancellationToken) (source : Approved)
      (ht : w.tasks t = some (.left stream cancel source)) :
      Step c w [] ({ w with m := w.m.finish stream }.setTask t .done)
  | cancelAll (w : World) : Step c w [] { w with m := w.m.cancelAll }
  | revokeClient (w : World) (id : Uuid) : Step c w [] { w with m := w.m.revokeClient id }
  | clearSources (w : World) : Step c w [.cleared] { w with m := w.m.clearSources }

end Media
end RemoteCodex
