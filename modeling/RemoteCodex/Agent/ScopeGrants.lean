import RemoteCodex.Agent.PreviewAccess
import RemoteCodex.Agent.MediaLoop
import RemoteCodex.Agent.ScopeCases

namespace RemoteCodex
set_option autoImplicit true
open Trace

def Scope.owner : List Scope :=
  [.terminalRead, .terminalWrite, .terminalCreate, .terminalClose, .previewRead, .adminDevices,
    .adminSettings]

/-! Who asks the service for what. -/

namespace Grants

/-- The commands of the owner's pipe that reach the service. -/
inductive LocalCommand where
  | pairOwner
  | pairReader
  | pairGui
  | blockRemote
  | resumeRemote
  deriving DecidableEq

/-- The scopes of a ticket of `PairGui` -/
def guiScopes (config : Media.MediaConfig) : List Scope :=
  let scopes := Scope.owner ++ [.windowView, .desktopView]
  if config.allowControl then scopes ++ [.windowControl, .desktopControl] else scopes

/-- What a command calls, with the secret that is drawn and whether the store takes a write. -/
def LocalCommand.op (config : Media.MediaConfig) (secret : String) (io : Bool) :
    LocalCommand → Except String Auth.Op
  | .pairOwner => .ok (.issuePairTicket Scope.owner secret)
  | .pairGui =>
    if ¬ config.enabled then .error "Media not configured"
    else .ok (.issuePairTicket (guiScopes config) secret)
  | .pairReader => .ok (.issuePairTicket [.terminalRead] secret)
  | .blockRemote => .ok (.blockAll io)
  | .resumeRemote => .ok (.resumeLocal io)

/-- What a command that is not refused calls. -/
inductive Commanded (config : Media.MediaConfig) (secret : String) (io : Bool) :
    LocalCommand → Auth.Op → Prop where
  | owner : Commanded config secret io .pairOwner (.issuePairTicket Scope.owner secret)
  | reader : Commanded config secret io .pairReader (.issuePairTicket [.terminalRead] secret)
  | gui (h : config.enabled = true) :
      Commanded config secret io .pairGui (.issuePairTicket (guiScopes config) secret)
  | block : Commanded config secret io .blockRemote (.blockAll io)
  | resume : Commanded config secret io .resumeRemote (.resumeLocal io)

theorem commanded {command : LocalCommand} {op : Auth.Op}
    (h : command.op config secret io = .ok op) : Commanded config secret io command op := by
  cases command with
  | pairGui =>
    rw [LocalCommand.op] at h
    split at h
    · cases h
    · next henabled =>
      cases h
      exact .gui (not_not.1 henabled)
  | pairOwner =>
    cases h
    exact .owner
  | pairReader =>
    cases h
    exact .reader
  | blockRemote =>
    cases h
    exact .block
  | resumeRemote =>
    cases h
    exact .resume

/-- The requests whose header is checked before the service is called again: `ws_ticket`,
`revoke_device`, `pair_ticket` and `block_remote`. -/
inductive Request where
  | wsTicket (channel : String) (session : Option Uuid)
  | revokeDevice (id : Uuid)
  | pairTicket (scopes : List Scope)
  | blockRemote
  deriving DecidableEq

namespace Request

def scope : Request → Scope
  | .wsTicket _ _ => .terminalRead
  | .revokeDevice _ | .pairTicket _ => .adminDevices
  | .blockRemote => .adminSettings

/-- The checks of a request. -/
def check (C : Crypto) (auth : Auth) (now : Nat) (bearer : String) (r : Request) :
    Except ErrorCode Principal := do
  let p ← principal C auth bearer now r.scope
  match r with
  | .pairTicket scopes =>
    if scopes.any fun v => v ∉ p.scopes then throw .forbidden
    return p
  | _ => return p

def op (p : Principal) (secret : String) (io : Bool) : Request → Auth.Op
  | .wsTicket channel session => .issueWs p channel session secret
  | .revokeDevice id => .revoke id io
  | .pairTicket scopes => .issuePairTicket scopes secret
  | .blockRemote => .blockAll io

end Request

/-- The operations that need no principal: pairing, signing in, and what connections and gateways
ask for themselves. -/
def Unguarded : Auth.Op → Prop
  | .pair _ _ _ _ _ | .challenge _ _ _ _ | .verify _ _ _ | .authorize _ | .consumeWs _ _
  | .devicePrincipal _ => True
  | .issuePairTicket _ _ | .resumeLocal _ | .issueWs _ _ _ _ | .revoke _ _ | .blockAll _ => False

inductive Caller where
  | owner (config : Media.MediaConfig) (command : LocalCommand)
  | remote (p : Principal) (r : Request)
  | anyone

structure Event where
  caller : Caller
  op : Auth.Op
  reply : Auth.Reply

/-- The agent in one process after another: the service, the configuration, the clock, the requests
that passed their checks, and all principals that were ever returned. -/
structure World where
  auth : Auth
  config : Media.MediaConfig
  now : Nat
  asked : List (Principal × Request)
  handed : List Principal

namespace World

def start (store : Store) (audience : String) (config : Media.MediaConfig) (now : Nat) : World :=
  ⟨.new store audience now, config, now, [], []⟩

def call (C : Crypto) (w : World) (op : Auth.Op) : World :=
  let q := op.run C w.auth w.now
  { w with auth := q.2, handed := w.handed ++ q.1.principals }

end World

/-- A request that passed its checks comes to the service later, or never: then a check that only
this request makes has refused it, or the agent has ended. -/
inductive Step (C : Crypto) : World → List Event → World → Prop where
  | tick (w : World) (d : Nat) : Step C w [] { w with now := w.now + d }
  | command (w : World) (secret : String) (io : Bool) (command : LocalCommand) (op : Auth.Op)
      (h : command.op w.config secret io = .ok op) :
      Step C w [⟨.owner w.config command, op, (op.run C w.auth w.now).1⟩] (w.call C op)
  | check (w : World) (bearer : String) (r : Request) (p : Principal)
      (h : r.check C w.auth w.now bearer = .ok p) :
      Step C w [] { w with asked := w.asked ++ [(p, r)], handed := w.handed ++ [p] }
  | serve (w : World) (secret : String) (io : Bool) (before after : List (Principal × Request))
      (p : Principal) (r : Request) (h : w.asked = before ++ (p, r) :: after) :
      Step C w [⟨.remote p r, r.op p secret io, ((r.op p secret io).run C w.auth w.now).1⟩]
        ({ w with asked := before ++ after }.call C (r.op p secret io))
  | anyone (w : World) (op : Auth.Op) (h : Unguarded op) (hn : op.NewId w.auth) :
      Step C w [⟨.anyone, op, (op.run C w.auth w.now).1⟩] (w.call C op)
  | restart (w : World) (audience : String) (config : Media.MediaConfig) :
      Step C w [] ⟨.new w.auth.store audience w.now, config, w.now, [], w.handed⟩

/-- The list of scopes that the owner gave at the host. -/
def Event.given : Event → Option (List Scope)
  | ⟨.owner _ _, .issuePairTicket scopes _, .secret (.ok _)⟩ => some scopes
  | _ => none

/-- The lists of scopes that no device gave: those the store had, and those of the owner. -/
def roots (store : Store) (es : List Event) : List (List Scope) :=
  (store.devices.entries.map fun e => e.2.scopes) ++ es.filterMap Event.given

/-- The scopes are one of the lists, or part of one that lets its holder pair devices. -/
def Derived (rs : List (List Scope)) (s : List Scope) : Prop :=
  s ∈ rs ∨ ∃ r ∈ rs, .adminDevices ∈ r ∧ s ⊆ r

theorem Derived.part (h : Derived rs s) (ha : .adminDevices ∈ s) (hs : t ⊆ s) : Derived rs t := by
  rcases h with hm | ⟨r, hr, hadmin, hsub⟩
  · exact .inr ⟨s, hm, ha, hs⟩
  · exact .inr ⟨r, hr, hadmin, fun _ hx => hsub (hs hx)⟩

theorem Derived.mono (h : Derived rs s) (hr : rs ⊆ rs') : Derived rs' s := by
  rcases h with hs | ⟨r, hm, hrest⟩
  · exact .inl (hr hs)
  · exact .inr ⟨r, hr hm, hrest⟩

theorem roots_append (store : Store) (es fs : List Event) :
    roots store es ⊆ roots store (es ++ fs) := by
  intro s hs
  rw [roots, List.filterMap_append, ← List.append_assoc]
  exact List.mem_append_left _ hs

theorem roots_given (store : Store) (es : List Event) {e : Event} (h : e.given = some s) :
    s ∈ roots store (es ++ [e]) := by
  refine List.mem_append_right _ (List.mem_filterMap.2 ⟨e, ?_, h⟩)
  exact List.mem_append_right _ (.head _)

theorem principal_authorized (h : principal C auth bearer now scope = .ok p) :
    auth.authorize C bearer now = .ok p := by
  unfold principal at h
  cases ha : auth.authorize C bearer now with
  | error e => rw [ha] at h; cases h
  | ok q =>
    rw [ha] at h
    cases hr : q.require auth.cancelled now scope with
    | error e => simp only [bind, Except.bind, hr] at h; cases h
    | ok u =>
      simp only [bind, Except.bind, hr, pure, Except.pure, Except.ok.injEq] at h
      rw [h]

/-- A request's checks: its principal has the scope it needs, and all that it asks for. -/
theorem Request.check_spec {r : Request} (h : r.check C auth now bearer = .ok p) :
    auth.Bears p ∧ r.scope ∈ p.scopes ∧ ∀ scopes, r = .pairTicket scopes → scopes ⊆ p.scopes := by
  unfold check at h
  cases hp : principal C auth bearer now r.scope with
  | error e => rw [hp] at h; cases h
  | ok q =>
    rw [hp] at h
    have hbears := Auth.authorize_bears (principal_authorized hp)
    have hscope := Preview.principal_scope hp
    cases r with
    | pairTicket scopes =>
      simp only [bind, Except.bind] at h
      split at h
      · cases h
      · next hnone =>
        cases h
        refine ⟨hbears, hscope, ?_⟩
        intro scopes' he v hv
        cases he
        by_contra hnot
        exact hnone (List.any_eq_true.2 ⟨v, hv, decide_eq_true hnot⟩)
    | wsTicket channel session | revokeDevice id | blockRemote =>
      cases h
      exact ⟨hbears, hscope, fun _ he => by cases he⟩

/-- The scopes that are anywhere in the agent. -/
def World.Holds (w : World) (s : List Scope) : Prop :=
  (∃ k d, w.auth.devices.lookup k = some d ∧ d.device.scopes = s) ∨
    (∃ k d, w.auth.store.devices.lookup k = some d ∧ d.scopes = s) ∨
    (∃ k t, w.auth.pairs.lookup k = some t ∧ t.scopes = s) ∨
    (∃ k t, w.auth.ws.lookup k = some t ∧ t.principal.scopes = s) ∨
    ∃ p ∈ w.handed, p.scopes = s

/-- A principal whose request passed was returned before, has the request's scope, and asks for no
more than it has. -/
structure Checked (w : World) : Prop where
  handed : ∀ q ∈ w.asked, q.1 ∈ w.handed
  scope : ∀ q ∈ w.asked, q.2.scope ∈ q.1.scopes
  part : ∀ q ∈ w.asked, ∀ scopes, q.2 = .pairTicket scopes → scopes ⊆ q.1.scopes

structure Traced (store : Store) (es : List Event) (w : World) : Prop where
  keyed : w.auth.Keyed
  scopes : w.auth.Scoped (Derived (roots store es))
  handed : ∀ p ∈ w.handed, Derived (roots store es) p.scopes
  checked : Checked w

theorem Checked.call (h : Checked w) (C : Crypto) (op : Auth.Op) : Checked (w.call C op) where
  handed := fun q hq => List.mem_append_left _ (h.handed q hq)
  scope := h.scope
  part := h.part

theorem Checked.served (h : Checked w) (hw : w.asked = before ++ q :: after) :
    Checked { w with asked := before ++ after } := by
  have hsub : ∀ x ∈ before ++ after, x ∈ w.asked := by
    intro x hx
    rw [hw]
    rcases List.mem_append.1 hx with hx | hx
    · exact List.mem_append_left _ hx
    · exact List.mem_append_right _ (.tail _ hx)
  exact ⟨fun x hx => h.handed x (hsub x hx), fun x hx => h.scope x (hsub x hx),
    fun x hx => h.part x (hsub x hx)⟩

theorem Traced.mono (h : Traced store es w) (fs : List Event) : Traced store (es ++ fs) w where
  keyed := h.keyed
  scopes := h.scopes.imp fun _ hs => hs.mono (roots_append store es fs)
  handed := fun p hp => (h.handed p hp).mono (roots_append store es fs)
  checked := h.checked

/-- A call whose own scopes are derived. -/
theorem Traced.call (h : Traced store es w) (C : Crypto) (op : Auth.Op) (hn : op.NewId w.auth)
    (hb : ∀ s, Auth.Brings op (op.run C w.auth w.now).1 s → Derived (roots store es) s) :
    Traced store es (w.call C op) where
  keyed := h.keyed.call C w.now op hn
  scopes := h.scopes.call h.keyed C w.now op hb
  handed := by
    intro p hp
    rcases List.mem_append.1 hp with hp | hp
    · exact h.handed p hp
    · rcases op.bearers C w.auth w.now hp with ⟨d, hd, hs⟩ | ⟨k, t, ht, rfl⟩
      · exact hs ▸ h.scopes.devices _ d hd
      · exact h.scopes.ws k t ht
  checked := h.checked.call C op

/-- What the owner gives is a root. -/
theorem Commanded.roots (h : Commanded config secret io command op)
    (hb : Auth.Brings op reply s) (store : Store) (es : List Event) :
    s ∈ roots store (es ++ [⟨.owner config command, op, reply⟩]) := by
  cases hb with
  | pairTicket => exact roots_given store es rfl
  | wsTicket => cases h

theorem Commanded.newId (h : Commanded config secret io command op) (i : Auth) : op.NewId i := by
  cases h <;> exact trivial

theorem Traced.step (h : Traced store es w) (hs : Step C w fs w') :
    Traced store (es ++ fs) w' := by
  cases hs with
  | tick d =>
    have hold := h.mono []
    exact ⟨hold.keyed, hold.scopes, hold.handed, h.checked.handed, h.checked.scope, h.checked.part⟩
  | command secret io command op hop =>
    have hcommanded := commanded hop
    apply (h.mono _).call C _ (hcommanded.newId _)
    exact fun s hb => .inl (hcommanded.roots hb store es)
  | check bearer r p hcheck =>
    obtain ⟨⟨d, hd, hscopes⟩, hscope, hpart⟩ := Request.check_spec hcheck
    have hold := h.mono []
    refine ⟨hold.keyed, hold.scopes, ?_, ?_, ?_, ?_⟩
    · intro q hq
      rcases List.mem_append.1 hq with hq | hq
      · exact hold.handed q hq
      · rw [List.mem_singleton.1 hq, ← hscopes]
        exact hold.scopes.devices _ d hd
    · intro q hq
      rcases List.mem_append.1 hq with hq | hq
      · exact List.mem_append_left _ (h.checked.handed q hq)
      · rw [List.mem_singleton.1 hq]
        exact List.mem_append_right _ (.head _)
    · intro q hq
      rcases List.mem_append.1 hq with hq | hq
      · exact h.checked.scope q hq
      · rw [List.mem_singleton.1 hq]
        exact hscope
    · intro q hq
      rcases List.mem_append.1 hq with hq | hq
      · exact h.checked.part q hq
      · rw [List.mem_singleton.1 hq]
        exact hpart
  | serve secret io before after p r hw =>
    have hq : (p, r) ∈ w.asked := by
      rw [hw]
      exact List.mem_append_right _ (.head _)
    let e : Event := ⟨.remote p r, r.op p secret io, ((r.op p secret io).run C w.auth w.now).1⟩
    have hold := h.mono [e]
    have hserved : Traced store _ { w with asked := before ++ after } :=
      ⟨hold.keyed, hold.scopes, hold.handed, h.checked.served hw⟩
    have hp := hold.handed p (h.checked.handed _ hq)
    have hscope := h.checked.scope _ hq
    have hpart := h.checked.part _ hq
    refine hserved.call C _ ?_ ?_
    · cases r <;> exact trivial
    · intro s hb
      rcases hb.inv with ⟨secret', hop⟩ | ⟨q, channel', session', secret', hop, rfl⟩
      · cases r with
        | pairTicket scopes =>
          cases hop
          exact hp.part hscope (hpart _ rfl)
        | wsTicket channel session | revokeDevice id | blockRemote => cases hop
      · cases r with
        | wsTicket channel session =>
          cases hop
          exact hp
        | pairTicket scopes | revokeDevice id | blockRemote => cases hop
  | anyone op hu hn =>
    refine (h.mono _).call C op hn ?_
    intro s hb
    rcases hb.inv with ⟨secret, rfl⟩ | ⟨p, channel, session, secret, rfl, -⟩
    · cases hu
    · cases hu
  | restart audience config =>
    have hold := h.mono []
    refine ⟨.new h.keyed.store audience w.now, ?_, hold.handed, ?_⟩
    · exact .new h.keyed.store hold.scopes.stored audience w.now
    · refine ⟨?_, ?_, ?_⟩
      · exact fun q hq => absurd hq List.not_mem_nil
      · exact fun q hq => absurd hq List.not_mem_nil
      · exact fun q hq => absurd hq List.not_mem_nil

/-- Who may have an operation done. -/
inductive Entitled : Caller → Auth.Op → Prop where
  | owner (h : Commanded config secret io command op) : Entitled (.owner config command) op
  | wsTicket (h : .terminalRead ∈ p.scopes) :
      Entitled (.remote p (.wsTicket channel session)) (.issueWs p channel session secret)
  | revokeDevice {id : Uuid} (h : .adminDevices ∈ p.scopes) :
      Entitled (.remote p (.revokeDevice id)) (.revoke id io)
  | pairTicket (h : .adminDevices ∈ p.scopes) (hs : scopes ⊆ p.scopes) :
      Entitled (.remote p (.pairTicket scopes)) (.issuePairTicket scopes secret)
  | blockRemote (h : .adminSettings ∈ p.scopes) : Entitled (.remote p .blockRemote) (.blockAll io)
  | anyone (h : Unguarded op) : Entitled .anyone op

theorem Checked.entitled (h : Checked w) (hq : (p, r) ∈ w.asked) (secret : String) (io : Bool) :
    Entitled (.remote p r) (r.op p secret io) := by
  have hscope := h.scope _ hq
  cases r with
  | wsTicket channel session => exact .wsTicket hscope
  | revokeDevice id => exact .revokeDevice hscope
  | pairTicket scopes => exact .pairTicket hscope (h.part _ hq scopes rfl)
  | blockRemote => exact .blockRemote hscope

theorem Checked.events (h : Checked w) (hs : Step C w es w') :
    ∀ e ∈ es, Entitled e.caller e.op := by
  intro e he
  cases hs with
  | tick | check | restart => cases he
  | command secret io command op hop =>
    rw [List.mem_singleton.1 he]
    exact .owner (commanded hop)
  | serve secret io before after p r hw =>
    rw [List.mem_singleton.1 he]
    apply h.entitled
    rw [hw]
    exact List.mem_append_right _ (.head _)
  | anyone op hu hn =>
    rw [List.mem_singleton.1 he]
    exact .anyone hu

theorem Traced.start {store : Store} (hk : store.Keyed) (audience : String)
    (config : Media.MediaConfig) (now : Nat) :
    Traced store [] (.start store audience config now) := by
  refine ⟨.new hk audience now, .new hk ?_ audience now, ?_, ?_, ?_, ?_⟩
  · intro k d hd
    refine .inl (List.mem_append_left _ (List.mem_map.2 ⟨⟨k, d⟩, ?_, rfl⟩))
    exact List.of_mem_dlookup hd
  · exact fun p hp => absurd hp List.not_mem_nil
  · exact fun q hq => absurd hq List.not_mem_nil
  · exact fun q hq => absurd hq List.not_mem_nil
  · exact fun q hq => absurd hq List.not_mem_nil

theorem Traced.run {store : Store} {audience : String} (hk : store.Keyed)
    (h : Run (Step C) (.start store audience config now) es w) :
    Traced store es w ∧ ∀ e ∈ es, Entitled e.caller e.op := by
  refine h.invariant (I := fun es w => Traced store es w ∧ ∀ e ∈ es, Entitled e.caller e.op)
    ⟨.start hk audience config now, fun e he => absurd he List.not_mem_nil⟩ ?_
  rintro es w fs w' ⟨ht, he⟩ hs
  refine ⟨ht.step hs, ?_⟩
  intro e hm
  rcases List.mem_append.1 hm with hm | hm
  · exact he e hm
  · exact ht.checked.events hs e hm

theorem Traced.holds (h : Traced store es w) (hs : w.Holds s) : Derived (roots store es) s := by
  rcases hs with ⟨k, d, hd, rfl⟩ | ⟨k, d, hd, rfl⟩ | ⟨k, t, ht, rfl⟩ | ⟨k, t, ht, rfl⟩ |
    ⟨p, hp, rfl⟩
  · exact h.scopes.devices k d hd
  · exact h.scopes.stored k d hd
  · exact h.scopes.pairs k t ht
  · exact h.scopes.ws k t ht
  · exact h.handed p hp

/-- The scopes of the screen. -/
def viewScopes : List Scope := [.windowView, .desktopView]

def controlScopes : List Scope := [.windowControl, .desktopControl]

theorem guiScopes_control (hv : v ∈ guiScopes config) (hc : v ∈ controlScopes) :
    config.allowControl = true := by
  unfold guiScopes at hv
  split at hv
  · next hallow => exact hallow
  · have hnone : ∀ v ∈ controlScopes, v ∉ Scope.owner ++ [.windowView, .desktopView] := by decide
    exact absurd hv (hnone v hc)

/-- Only one command gives scopes of the screen. -/
theorem Commanded.gui_only (h : Commanded config secret io command (.issuePairTicket s secret'))
    (hv : v ∈ s) (hgui : v ∈ viewScopes ++ controlScopes) :
    command = .pairGui ∧ config.enabled = true ∧
      (v ∈ controlScopes → config.allowControl = true) := by
  have howner : ∀ v ∈ viewScopes ++ controlScopes, v ∉ Scope.owner := by decide
  have hreader : ∀ v ∈ viewScopes ++ controlScopes, v ∉ [Scope.terminalRead] := by decide
  cases h with
  | owner => exact absurd hv (howner v hgui)
  | reader => exact absurd hv (hreader v hgui)
  | gui henabled => exact ⟨rfl, henabled, guiScopes_control hv⟩

/-- A scope of the screen was in the store, or the owner gave it while the configuration let it. -/
inductive Approved (store : Store) (es : List Event) (v : Scope) : Prop where
  | stored (k : Uuid) (d : Device) (hd : store.devices.lookup k = some d) (hv : v ∈ d.scopes)
  | given (config : Media.MediaConfig) (op : Auth.Op) (reply : Auth.Reply)
      (he : ⟨.owner config .pairGui, op, reply⟩ ∈ es) (henabled : config.enabled = true)
      (hcontrol : v ∈ controlScopes → config.allowControl = true)

theorem given_inv {e : Event} (h : e.given = some s) :
    ∃ config command secret reply,
      e = ⟨.owner config command, .issuePairTicket s secret, reply⟩ := by
  unfold Event.given at h
  split at h
  · cases h
    exact ⟨_, _, _, _, rfl⟩
  · cases h

theorem roots_approved (he : ∀ e ∈ es, Entitled e.caller e.op) (hs : s ∈ roots store es)
    (hv : v ∈ s) (hgui : v ∈ viewScopes ++ controlScopes) : Approved store es v := by
  rcases List.mem_append.1 hs with hs | hs
  · obtain ⟨⟨k, d⟩, hm, rfl⟩ := List.mem_map.1 hs
    exact .stored k d (List.mem_dlookup store.devices.nodupKeys hm) hv
  · obtain ⟨e, hm, hgiven⟩ := List.mem_filterMap.1 hs
    obtain ⟨config, command, secret, reply, rfl⟩ := given_inv hgiven
    cases he _ hm with
    | owner hcommanded =>
      obtain ⟨rfl, henabled, hcontrol⟩ := hcommanded.gui_only hv hgui
      exact .given config _ reply hm henabled hcontrol

/-- In every run, with restarts, writes that fail and requests that are served long after their
checks, nothing is done for who is not entitled to it, no device, ticket or principal has scopes
beyond one list that the owner gave or the store had (a list that lets its holder pair devices,
unless it is that list), and the scopes of the screen need an approval of their own. -/
theorem scope_provenance {store : Store} {audience : String} (hk : store.Keyed)
    (h : Run (Step C) (.start store audience config now) es w) :
    (∀ e ∈ es, Entitled e.caller e.op) ∧
      ∀ s, w.Holds s → Derived (roots store es) s ∧
        ∀ v ∈ s, v ∈ viewScopes ++ controlScopes → Approved store es v := by
  obtain ⟨htraced, hentitled⟩ := Traced.run hk h
  refine ⟨hentitled, ?_⟩
  intro s hs
  have hderived := htraced.holds hs
  refine ⟨hderived, ?_⟩
  intro v hv hgui
  rcases hderived with hroot | ⟨r, hroot, -, hsub⟩
  · exact roots_approved hentitled hroot hv hgui
  · exact roots_approved hentitled hroot (hsub hv) hgui

/-- A configuration without the screen. -/
def noScreen : Media.MediaConfig := ⟨false, false, none, []⟩

/-- One device may see the terminal, and the owner asks for a ticket for another. -/
theorem scope_provenance_reader :
    let w := World.start Auth.homeStore "host" noScreen 0
    let op : Auth.Op := .issuePairTicket [.terminalRead] "ticket"
    let e : Event := ⟨.owner noScreen .pairReader, op, (op.run Auth.plainCrypto w.auth w.now).1⟩
    ∀ s, (w.call Auth.plainCrypto op).Holds s → Derived (roots Auth.homeStore [e]) s ∧
      ∀ v ∈ s, v ∈ viewScopes ++ controlScopes → Approved Auth.homeStore [e] v := by
  have hrun : Run (Step Auth.plainCrypto) (.start Auth.homeStore "host" noScreen 0) _ _ :=
    Run.single (.command _ "ticket" true .pairReader _ rfl)
  exact (scope_provenance Auth.homeStore_keyed hrun).2

/-- The table, the store and the principals agree on the scopes of a device. -/
structure Agreed (w : World) : Prop where
  keyed : w.auth.Keyed
  registered : w.auth.Registered
  handed : ∀ p ∈ w.handed, w.auth.Bears p
  asked : ∀ q ∈ w.asked, q.1 ∈ w.handed
  ws : ∀ k t, w.auth.ws.lookup k = some t → t.principal ∈ w.handed

/-- No device leaves the table or changes its scopes. -/
def Keeps (i i' : Auth) : Prop :=
  ∀ k d, i.devices.lookup k = some d →
    ∃ d', i'.devices.lookup k = some d' ∧ d'.device.scopes = d.device.scopes

theorem Keeps.bears (h : Keeps i i') (hp : i.Bears p) : i'.Bears p := by
  obtain ⟨d, hd, hs⟩ := hp
  obtain ⟨d', hd', hs'⟩ := h _ d hd
  exact ⟨d', hd', hs'.trans hs⟩

theorem call_keeps (C : Crypto) (w : World) (op : Auth.Op) (hn : op.NewId w.auth) :
    Keeps w.auth (w.call C op).auth :=
  fun _ _ hd => (op.change_new C w.now hn).keeps hd

theorem Agreed.call (h : Agreed w) (C : Crypto) (op : Auth.Op) (hn : op.NewId w.auth)
    (hws : ∀ p channel session secret, op = .issueWs p channel session secret → p ∈ w.handed) :
    Agreed (w.call C op) where
  keyed := h.keyed.call C w.now op hn
  registered := h.registered.call h.keyed C w.now op
  handed := by
    intro p hp
    apply (call_keeps C w op hn).bears
    rcases List.mem_append.1 hp with hp | hp
    · exact h.handed p hp
    · rcases op.bearers C w.auth w.now hp with hbears | ⟨k, t, ht, rfl⟩
      · exact hbears
      · exact h.handed _ (h.ws k t ht)
  asked := fun q hq => List.mem_append_left _ (h.asked q hq)
  ws := by
    intro k t ht
    apply List.mem_append_left
    rcases op.tickets C w.auth w.now ht with ⟨k', hold⟩ | ⟨channel, session, secret, hop⟩
    · exact h.ws k' t hold
    · exact hws _ channel session secret hop

theorem restart_keeps (h : Agreed w) (audience : String) :
    Keeps w.auth (Auth.new w.auth.store audience w.now) := by
  intro k d hd
  obtain ⟨d', hd', hs⟩ := h.registered k d hd
  obtain ⟨cancel, hnew⟩ := Auth.new_lookup h.keyed.store hd' audience w.now
  exact ⟨_, hnew, hs⟩

theorem Agreed.step (h : Agreed w) (hs : Step C w es w') :
    Agreed w' ∧ Keeps w.auth w'.auth := by
  cases hs with
  | tick d => exact ⟨⟨h.keyed, h.registered, h.handed, h.asked, h.ws⟩, fun _ d hd => ⟨d, hd, rfl⟩⟩
  | command secret io command op hop =>
    have hn := (commanded hop).newId w.auth
    refine ⟨h.call C op hn ?_, call_keeps C w op hn⟩
    rintro p channel session secret' rfl
    cases commanded hop
  | check bearer r p hcheck =>
    refine ⟨⟨h.keyed, h.registered, ?_, ?_, ?_⟩, fun _ d hd => ⟨d, hd, rfl⟩⟩
    · intro q hq
      rcases List.mem_append.1 hq with hq | hq
      · exact h.handed q hq
      · rw [List.mem_singleton.1 hq]
        exact (Request.check_spec hcheck).1
    · intro q hq
      rcases List.mem_append.1 hq with hq | hq
      · exact List.mem_append_left _ (h.asked q hq)
      · rw [List.mem_singleton.1 hq]
        exact List.mem_append_right _ (.head _)
    · exact fun k t ht => List.mem_append_left _ (h.ws k t ht)
  | serve secret io before after p r hw =>
    have hn : (r.op p secret io).NewId w.auth := by
      cases r <;> exact trivial
    have hsub : ∀ q ∈ before ++ after, q ∈ w.asked := by
      intro q hq
      rw [hw]
      rcases List.mem_append.1 hq with hq | hq
      · exact List.mem_append_left _ hq
      · exact List.mem_append_right _ (.tail _ hq)
    have hserved : Agreed { w with asked := before ++ after } :=
      ⟨h.keyed, h.registered, h.handed, fun q hq => h.asked q (hsub q hq), h.ws⟩
    refine ⟨hserved.call C _ hn ?_, call_keeps C w _ hn⟩
    intro q channel session secret' hop
    have hp : p ∈ w.handed := by
      apply h.asked (p, r)
      rw [hw]
      exact List.mem_append_right _ (.head _)
    cases r with
    | wsTicket channel session =>
      cases hop
      exact hp
    | revokeDevice id | pairTicket scopes | blockRemote => cases hop
  | anyone op hu hn =>
    refine ⟨h.call C op hn ?_, call_keeps C w op hn⟩
    rintro p channel session secret rfl
    cases hu
  | restart audience config =>
    have hkeeps := restart_keeps h audience
    obtain ⟨-, -, hw, hstore⟩ := Auth.new_tables w.auth.store audience w.now
    refine ⟨⟨.new h.keyed.store audience w.now, .new h.keyed.store audience w.now, ?_, ?_, ?_⟩,
      hkeeps⟩
    · exact fun p hp => hkeeps.bears (h.handed p hp)
    · exact fun q hq => absurd hq List.not_mem_nil
    · intro k t ht
      rw [hw, AList.lookup_empty] at ht
      cases ht

theorem Agreed.start {store : Store} (hk : store.Keyed) (audience : String)
    (config : Media.MediaConfig) (now : Nat) : Agreed (.start store audience config now) := by
  refine ⟨.new hk audience now, .new hk audience now, ?_, ?_, ?_⟩
  · exact fun p hp => absurd hp List.not_mem_nil
  · exact fun q hq => absurd hq List.not_mem_nil
  · intro k t ht
    rw [World.start, (Auth.new_tables store audience now).2.2.1, AList.lookup_empty] at ht
    cases ht

theorem Agreed.run (h : Run (Step C) w es w') (ha : Agreed w) :
    Agreed w' ∧ Keeps w.auth w'.auth := by
  refine h.preserves (P := fun v => Agreed v ∧ Keeps w.auth v.auth)
    ⟨ha, fun _ d hd => ⟨d, hd, rfl⟩⟩ ?_
  rintro v fs v' ⟨hv, hkeeps⟩ hs
  obtain ⟨hv', hkeeps'⟩ := hv.step hs
  refine ⟨hv', ?_⟩
  intro k d hd
  obtain ⟨d', hd', hscopes⟩ := hkeeps k d hd
  obtain ⟨d'', hd'', hscopes'⟩ := hkeeps' k d' hd'
  exact ⟨d'', hd'', hscopes'.trans hscopes⟩

/-- A device keeps its scopes for good, in memory and in the store, in whatever order pairing,
revoking, blocking and restarts come and whichever writes fail; and every principal of it that was
or will be returned has exactly these. -/
theorem device_scopes_fixed {store : Store} {audience : String} {id : Uuid} (hk : store.Keyed)
    (h : Run (Step C) (.start store audience config now) es w)
    (hd : w.auth.devices.lookup id = some d) (h' : Run (Step C) w es' w') :
    (∃ d', w'.auth.devices.lookup id = some d' ∧ d'.device.scopes = d.device.scopes) ∧
      (∃ d', w'.auth.store.devices.lookup id = some d' ∧ d'.scopes = d.device.scopes) ∧
      ∀ p ∈ w'.handed, p.clientId = id → p.scopes = d.device.scopes := by
  obtain ⟨hagreed, -⟩ := Agreed.run h (.start hk audience config now)
  obtain ⟨hagreed', hkeeps⟩ := Agreed.run h' hagreed
  obtain ⟨d', hd', hscopes⟩ := hkeeps id d hd
  obtain ⟨e, he, hstored⟩ := hagreed'.registered id d' hd'
  refine ⟨⟨d', hd', hscopes⟩, ⟨e, he, hstored.trans hscopes⟩, ?_⟩
  rintro p hp rfl
  obtain ⟨d'', hd'', hbears⟩ := hagreed'.handed p hp
  rw [hd'] at hd''
  cases hd''
  exact hbears.symm.trans hscopes

/-- The device is used, and the agent is restarted. -/
theorem device_scopes_fixed_restarted :
    let p : Principal := ⟨.fill 1, [.terminalRead], fromSecs 60, 0⟩
    ∃ w es, Run (Step Auth.plainCrypto) (.start Auth.homeStore "host" noScreen 0) es w ∧
      w.handed = [p] ∧ p.scopes = [.terminalRead] ∧
      ∃ d, w.auth.devices.lookup (.fill 1) = some d ∧ d.device.scopes = [.terminalRead] := by
  intro p
  let w := (World.start Auth.homeStore "host" noScreen 0).call Auth.plainCrypto
    (.devicePrincipal (.fill 1))
  have hused : Run (Step Auth.plainCrypto) (.start Auth.homeStore "host" noScreen 0) _ w :=
    Run.single (.anyone _ (.devicePrincipal (.fill 1)) trivial trivial)
  have hrest : Run (Step Auth.plainCrypto) w _ _ := Run.single (.restart w "host" noScreen)
  have hd : w.auth.devices.lookup (.fill 1) =
      some ⟨⟨.fill 1, [4], "home", [.terminalRead], false⟩, 0⟩ := rfl
  obtain ⟨hdevice, -, hhanded⟩ := device_scopes_fixed Auth.homeStore_keyed hused hd hrest
  exact ⟨_, _, hused.trans hrest, rfl, hhanded p (.head _) rfl, hdevice⟩

end Grants
end RemoteCodex
