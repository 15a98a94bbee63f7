import RemoteCodex.Lib.History
import RemoteCodex.Lib.Trace
import RemoteCodex.Agent.AuthRuns
import RemoteCodex.Agent.Preview

namespace RemoteCodex
set_option autoImplicit true
open Trace History
namespace Preview

/-- The requests of the management interface that a principal is checked for. -/
inductive Action where
  | register (body : Register)
  | remove (id : Uuid)
  | launch (id : Uuid)

def Action.scope : Action → Scope
  | .register _ | .remove _ => .adminSettings
  | .launch _ => .previewRead

/-- A request that `proxy_inner` serves at a gateway for the holder of a credential. -/
structure Visit where
  gateway : Entry
  suffix : String
  credential : String

/-- How far a request has come. -/
inductive Task where
  | idle
  | done
  | allowed (a : Action) (p : Principal)
  | reserving (e : Entry)
  | redeeming (gateway : Entry) (ticket : String)
  | presenting (v : Visit)
  | found (v : Visit) (client : Uuid)
  | opened (v : Visit) (client : Uuid)
  | taken (v : Visit) (client : Uuid) (p : Principal)
  | granted (v : Visit) (client : Uuid)
  | identified (v : Visit) (client : Uuid)

/-- How far `consume` has come since it took the mutex. -/
inductive Stage where
  | locked
  | opened
  | taken (p : Principal)

/-- A call of `consume` that holds the mutex and has taken the ticket out. -/
structure Consuming where
  gateway : Entry
  ticket : String
  grant : LaunchGrant
  redeemed : Nat
  stage : Stage

inductive Event where
  | launched (now : Nat) (ticket : String) (preview : Uuid) (p : Principal)
  | admitted (redeemed now : Nat) (ticket : String) (gateway client : Uuid) (credential : String)
  | removed (preview : Uuid)
  | clientRevoked (client : Uuid)
  | allBlocked
  | lookedUp (task now : Nat) (gateway client : Uuid) (credential : String)
  | flagRead (task : Nat) (blocked : Bool)
  | tableRead (task : Nat) (client : Uuid) (active : Bool)
  | forwarded (task : Nat) (gateway : Uuid) (credential suffix : String)

/-- The agent with its previews. `consuming` holds the mutex of `previews`; the stop tokens made
so far are the names below `nextStop`. -/
structure World where
  auth : Auth
  now : Nat
  previews : Inner
  consuming : Option Consuming
  gateways : List Entry
  stopped : Finset CancellationToken
  nextStop : Nat
  tasks : Nat → Task

def World.start (auth : Auth) (now : Nat) : World :=
  ⟨auth, now, .empty, none, [], ∅, 0, fun _ => .idle⟩

def World.setTask (w : World) (n : Nat) (t : Task) : World :=
  { w with tasks := Function.update w.tasks n t }

/-- What a request does next after a call that may fail. -/
def Task.next (r : Except ErrorCode α) (f : α → Task) : Task :=
  match r with
  | .error _ => .done
  | .ok a => f a

def Route.task (g : Entry) (r : Request) : Route → Task
  | .bootstrap => .done
  | .consume ticket => .redeeming g ticket
  | .credential value => .presenting ⟨g, r.suffix, value⟩

/-- The events of a call that may fail. -/
def onOk (r : Except ErrorCode α) (es : α → List Event) : List Event :=
  match r with
  | .error _ => []
  | .ok a => es a

/-- One atomic action: a section under the mutex of the previews, a section under the mutex of
`Auth`, or a read or a write of a flag. Requests are dropped wherever they wait. -/
inductive Step (C : Crypto) (authority : String → Option String) (bindPort : Nat) :
    World → List Event → World → Prop where
  | tick (w : World) (d : Nat) : Step C authority bindPort w [] { w with now := w.now + d }
  | auth (w : World) (op : Auth.Op) :
      Step C authority bindPort w [] { w with auth := (op.run C w.auth w.now).2 }
  | flag (w : World) (blocked : Bool) :
      Step C authority bindPort w [] { w with auth := { w.auth with blocked } }
  | allow (w : World) (n : Nat) (a : Action) (bearer : String) (hi : w.tasks n = .idle) :
      Step C authority bindPort w []
        (w.setTask n (.next (principal C w.auth bearer w.now a.scope) (.allowed a)))
  | register (w : World) (n : Nat) (body : Register) (p : Principal) (id : Uuid)
      (origin : String) (pid created : Nat) (e : Entry) (r : Except ErrorCode Unit) (i : Inner)
      (ht : w.tasks n = .allowed (.register body) p) (hb : body.check bindPort = .ok ())
      (hm : w.consuming = none) (he : e = body.entry id origin pid created w.nextStop p.clientId)
      (hr : w.previews.register e = (r, i)) :
      Step C authority bindPort w []
        ({ w with previews := i, nextStop := w.nextStop + 1 }.setTask n
          (.next r fun _ => .reserving e))
  | reserved (w : World) (n : Nat) (e : Entry) (ht : w.tasks n = .reserving e) :
      Step C authority bindPort w []
        ({ w with gateways := w.gateways ++ [e] }.setTask n .done)
  | unreserved (w : World) (n : Nat) (e : Entry) (ht : w.tasks n = .reserving e)
      (hm : w.consuming = none) :
      Step C authority bindPort w []
        ({ w with previews :=
            { w.previews with entries := w.previews.entries.erase e.info.id } }.setTask n .done)
  | remove (w : World) (n : Nat) (id : Uuid) (p : Principal)
      (ht : w.tasks n = .allowed (.remove id) p) (hm : w.consuming = none) :
      Step C authority bindPort w [.removed id]
        ({ w with
            previews := w.previews.remove id
            stopped := match w.previews.entries.lookup id with
              | some e => insert e.stop w.stopped
              | none => w.stopped
          }.setTask n .done)
  | launch (w : World) (n : Nat) (id : Uuid) (p : Principal) (ticket : String)
      (r : Except ErrorCode String) (i : Inner)
      (ht : w.tasks n = .allowed (.launch id) p) (hm : w.consuming = none)
      (hr : w.previews.launch C id p w.now ticket = (r, i)) :
      Step C authority bindPort w (onOk r fun _ => [.launched w.now ticket id p])
        ({ w with previews := i }.setTask n .done)
  | revokeClient (w : World) (id : Uuid) (hm : w.consuming = none) :
      Step C authority bindPort w [.clientRevoked id]
        { w with previews := w.previews.revokeClient id }
  | blockAll (w : World) (hm : w.consuming = none) :
      Step C authority bindPort w [.allBlocked] { w with previews := w.previews.blockAll }
  | shutdown (w : World) (hm : w.consuming = none) :
      Step C authority bindPort w []
        { w with previews := w.previews.shutdown, stopped := w.stopped ∪ w.previews.stops }
  | receive (w : World) (n : Nat) (g : Entry) (r : Request) (hi : w.tasks n = .idle)
      (hg : g ∈ w.gateways) (hs : g.stop ∉ w.stopped) :
      Step C authority bindPort w []
        (w.setTask n (.next (route authority g.info r) (Route.task g r)))
  | redeem (w : World) (n : Nat) (g : Entry) (ticket : String) (r : Except ErrorCode LaunchGrant)
      (i : Inner)
      (ht : w.tasks n = .redeeming g ticket) (hm : w.consuming = none)
      (hr : w.previews.redeem C g.info.id w.now ticket = (r, i)) :
      Step C authority bindPort w []
        ({ w with
            previews := i
            consuming := r.toOption.map fun grant => ⟨g, ticket, grant, w.now, .locked⟩
          }.setTask n .done)
  | consumeOpen (w : World) (c : Consuming) (hc : w.consuming = some c) (hs : c.stage = .locked) :
      Step C authority bindPort w []
        { w with consuming := w.auth.ensureOpen.toOption.map fun _ => { c with stage := .opened } }
  | consumeTable (w : World) (c : Consuming) (hc : w.consuming = some c)
      (hs : c.stage = .opened) :
      Step C authority bindPort w []
        { w with consuming := (w.auth.tablePrincipal c.grant.client w.now).toOption.map fun p =>
            { c with stage := .taken p } }
  | consumeRefused (w : World) (c : Consuming) (p : Principal) (e : ErrorCode)
      (hc : w.consuming = some c) (hs : c.stage = .taken p)
      (hr : p.require w.auth.cancelled w.now .previewRead = .error e) :
      Step C authority bindPort w [] { w with consuming := none }
  | consumeEnd (w : World) (c : Consuming) (p : Principal) (credential : String)
      (r : Except ErrorCode Unit) (i : Inner)
      (hc : w.consuming = some c) (hs : c.stage = .taken p)
      (hp : p.require w.auth.cancelled w.now .previewRead = .ok ())
      (hr : w.previews.enter C c.grant w.now credential = (r, i)) :
      Step C authority bindPort w
        (onOk r fun _ =>
          [.admitted c.redeemed w.now c.ticket c.gateway.info.id c.grant.client credential])
        { w with previews := i, consuming := none }
  | lookup (w : World) (n : Nat) (v : Visit) (r : Except ErrorCode Uuid) (i : Inner)
      (ht : w.tasks n = .presenting v) (hm : w.consuming = none)
      (hr : w.previews.authorized C v.gateway.info.id w.now v.credential = (r, i)) :
      Step C authority bindPort w
        (onOk r fun client => [.lookedUp n w.now v.gateway.info.id client v.credential])
        ({ w with previews := i }.setTask n (.next r (.found v)))
  | ensureOpen (w : World) (n : Nat) (v : Visit) (client : Uuid)
      (ht : w.tasks n = .found v client) :
      Step C authority bindPort w [.flagRead n w.auth.blocked]
        (w.setTask n (.next w.auth.ensureOpen fun _ => .opened v client))
  | table (w : World) (n : Nat) (v : Visit) (client : Uuid) (ht : w.tasks n = .opened v client) :
      Step C authority bindPort w
        [.tableRead n client ((w.auth.devices.lookup client).any fun d => !d.device.revoked)]
        (w.setTask n (.next (w.auth.tablePrincipal client w.now) (.taken v client)))
  | require (w : World) (n : Nat) (v : Visit) (client : Uuid) (p : Principal)
      (ht : w.tasks n = .taken v client p) :
      Step C authority bindPort w []
        (w.setTask n (.next (p.require w.auth.cancelled w.now .previewRead) fun _ =>
          .granted v client))
  | identified (w : World) (n : Nat) (v : Visit) (client : Uuid)
      (ht : w.tasks n = .granted v client) :
      Step C authority bindPort w [] (w.setTask n (.identified v client))
  | changed (w : World) (n : Nat) (v : Visit) (client : Uuid) (identity : Nat × Nat)
      (ht : w.tasks n = .granted v client)
      (hd : identity ≠ (v.gateway.info.pid, v.gateway.created)) :
      Step C authority bindPort w []
        ({ w with stopped := insert v.gateway.stop w.stopped }.setTask n .done)
  | forward (w : World) (n : Nat) (v : Visit) (client : Uuid)
      (ht : w.tasks n = .identified v client) :
      Step C authority bindPort w
        [.forwarded n v.gateway.info.id v.credential v.suffix] (w.setTask n .done)
  | drop (w : World) (n : Nat) : Step C authority bindPort w [] (w.setTask n .done)

end Preview
end RemoteCodex
