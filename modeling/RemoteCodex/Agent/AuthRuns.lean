import RemoteCodex.Lib.Trace
import RemoteCodex.Agent.AuthCases

namespace RemoteCodex
set_option autoImplicit true
namespace Auth

/-- The operations with their arguments, the random values they draw and whether the store
accepts their write. -/
inductive Op where
  | issuePairTicket (scopes : List Scope) (secret : String)
  | pair (ticket publicKey label : String) (id : Uuid) (io : Bool)
  | challenge (client : Uuid) (unixMs : Nat) (id nonce : String)
  | verify (id sig secret : String)
  | authorize (token : String)
  | resumeLocal (io : Bool)
  | issueWs (p : Principal) (channel : String) (session : Option Uuid) (secret : String)
  | consumeWs (token channel : String)
  | devicePrincipal (client : Uuid)
  | revoke (id : Uuid) (io : Bool)
  | blockAll (io : Bool)

inductive Reply where
  | unit (r : Except ErrorCode Unit)
  | secret (r : Except ErrorCode String)
  | device (r : Except ErrorCode Device)
  | challenge (r : Except ErrorCode (String × String))
  | principal (r : Except ErrorCode Principal)
  | consumed (r : Except ErrorCode (Principal × Option Uuid))

def Reply.principals : Reply → List Principal
  | .principal (.ok p) | .consumed (.ok (p, _)) => [p]
  | _ => []

def Op.run (C : Crypto) (i : Auth) (now : Nat) : Op → Reply × Auth
  | .issuePairTicket scopes secret =>
    let q := Auth.issuePairTicket C i scopes now secret
    (.secret q.1, q.2)
  | .pair ticket publicKey label id io =>
    let q := Auth.pair C i ticket publicKey label now id io
    (.device q.1, q.2)
  | .challenge client unixMs id nonce =>
    let q := i.challenge client now unixMs id nonce
    (.challenge q.1, q.2)
  | .verify id sig secret =>
    let q := Auth.verify C i id sig now secret
    (.secret q.1, q.2)
  | .authorize token => (.principal (Auth.authorize C i token now), i)
  | .resumeLocal io => (.unit (.ok ()), i.resumeLocal io)
  | .issueWs p channel session secret =>
    let q := Auth.issueWs C i p channel session now secret
    (.secret q.1, q.2)
  | .consumeWs token channel =>
    let q := Auth.consumeWs C i token channel now
    (.consumed q.1, q.2)
  | .devicePrincipal client => (.principal (i.devicePrincipal client now), i)
  | .revoke id io =>
    let q := i.revoke id io
    (.unit q.1, q.2)
  | .blockAll io => (.unit (.ok ()), i.blockAll io)

structure Event where
  op : Op
  reply : Reply

/-- The authentication service with the clock and every principal returned so far. -/
structure World where
  auth : Auth
  now : Nat
  handed : List Principal

def World.init (store : Store) (audience : String) (start : Nat) : World :=
  ⟨.new store audience start, start, []⟩

/-- A new device gets an id of its own, and a ticket is asked for with a principal that was
obtained before. -/
def Op.Admissible (w : World) : Op → Prop
  | .pair _ _ _ id _ => w.auth.devices.lookup id = none
  | .issueWs p _ _ _ => p ∈ w.handed
  | _ => True

def World.call (C : Crypto) (w : World) (op : Op) : World :=
  let q := op.run C w.auth w.now
  ⟨q.2, w.now, w.handed ++ q.1.principals⟩

inductive Step (C : Crypto) : World → List Event → World → Prop where
  | tick (w : World) (d : Nat) : Step C w [] { w with now := w.now + d }
  | call (w : World) (op : Op) (ha : op.Admissible w) :
      Step C w [⟨op, (op.run C w.auth w.now).1⟩] (w.call C op)

/-- An operation that leaves the devices and the tokens alone and adds no ticket. -/
structure Quiet (i i' : Auth) : Prop where
  devices : i'.devices = i.devices
  nextToken : i'.nextToken = i.nextToken
  cancelled : i'.cancelled = i.cancelled
  ws : ∀ k t, i'.ws.lookup k = some t → ∃ k', i.ws.lookup k' = some t

theorem Quiet.refl (i : Auth) : Quiet i i := ⟨rfl, rfl, rfl, fun k _ h => ⟨k, h⟩⟩

theorem Quiet.trans (h : Quiet i j) (h' : Quiet j k) : Quiet i k where
  devices := h'.devices.trans h.devices
  nextToken := h'.nextToken.trans h.nextToken
  cancelled := h'.cancelled.trans h.cancelled
  ws := by
    intro key t ht
    obtain ⟨key', ht'⟩ := h'.ws key t ht
    exact h.ws key' t ht'

theorem Quiet.activeDevice (h : Quiet i j) (client : Uuid) :
    j.activeDevice client = i.activeDevice client := by
  simp only [Auth.activeDevice, h.devices]

theorem prune_quiet (i : Auth) (now : Nat) : Quiet i (i.prune now) where
  devices := rfl
  nextToken := rfl
  cancelled := rfl
  ws := by
    intro k t ht
    exact ⟨k, (Table.lookup_of_retain ht).1⟩

/-- Changes of the other fields only. -/
theorem Quiet.fields (h : Quiet i j) (hd : k.devices = j.devices)
    (hn : k.nextToken = j.nextToken) (hc : k.cancelled = j.cancelled) (hw : k.ws = j.ws) :
    Quiet i k :=
  h.trans ⟨hd, hn, hc, fun key _ ht => ⟨key, hw ▸ ht⟩⟩

theorem anonymousLimit_quiet (i : Auth) (now : Nat) : Quiet i (i.anonymousLimit now).2 := by
  obtain ⟨start, requests, he | he⟩ := i.anonymousLimit_cases now
  · rw [he]
    exact (Quiet.refl i).fields rfl rfl rfl rfl
  · rw [he]
    exact (prune_quiet i now).fields rfl rfl rfl rfl

theorem Counted.quiet (h : Counted i now j) : Quiet i j :=
  h.of (.refl i) (anonymousLimit_quiet i now)

theorem Pruned.quiet (h : Pruned i now j) : Quiet i j := h.of (.refl i) (prune_quiet i now)

theorem issuePairTicket_quiet (C : Crypto) (i : Auth) (scopes : List Scope) (now : Nat)
    (secret : String) : Quiet i (issuePairTicket C i scopes now secret).2 := by
  rcases issuePairTicket_cases C i scopes now secret with ⟨e, j, he, hj⟩ | ⟨-, he⟩
  · rw [he]
    exact hj.quiet
  · rw [he]
    exact (prune_quiet i now).fields rfl rfl rfl rfl

theorem challenge_quiet (i : Auth) (client : Uuid) (now unixMs : Nat) (id nonce : String) :
    Quiet i (i.challenge client now unixMs id nonce).2 := by
  rcases i.challenge_cases client now unixMs id nonce with
    ⟨e, j, he, hj⟩ | ⟨j, d, message, rfl, -, -, he⟩
  · rw [he]
    exact hj.quiet
  · rw [he]
    exact (anonymousLimit_quiet i now).fields rfl rfl rfl rfl

theorem verify_quiet (C : Crypto) (i : Auth) (id sig : String) (now : Nat) (secret : String) :
    Quiet i (verify C i id sig now secret).2 := by
  have hq := anonymousLimit_quiet i now
  rcases verify_cases C i id sig now secret with
    ⟨e, j, he, hj⟩ | ⟨j, c, rfl, -, ⟨e, he⟩ | ⟨d, -, -, he⟩⟩
  · rw [he]
    exact hj.quiet
  · rw [he]
    exact hq.fields rfl rfl rfl rfl
  · rw [he]
    exact hq.fields rfl rfl rfl rfl

/-- Pairing fails without touching the devices, or adds one device that is not revoked. -/
theorem pair_spec (C : Crypto) (i : Auth) (ticket publicKey label : String) (now : Nat)
    (id : Uuid) (io : Bool) :
    Quiet i (pair C i ticket publicKey label now id io).2 ∨
      ∃ j d, Quiet i j ∧ d.clientId = id ∧ d.revoked = false ∧
        (pair C i ticket publicKey label now id io).2 = j.addDevice d := by
  have hq := anonymousLimit_quiet i now
  rcases pair_cases C i ticket publicKey label now id io with
    ⟨e, j, he, hj⟩ | ⟨j, p, rfl, -, ⟨e, he⟩ | ⟨raw, -, he⟩⟩
  · rw [he]
    exact .inl hj.quiet
  · rw [he]
    exact .inl (hq.fields rfl rfl rfl rfl)
  · let j := (i.anonymousLimit now).2
    let d : Device := ⟨id, raw, trim label, p.scopes, false⟩
    let k : Auth :=
      { j with pairs := j.pairs.erase (C.key ticket), store := j.store.saveDevice d }
    have hk : Quiet i k := hq.fields rfl rfl rfl rfl
    rw [he]
    exact .inr ⟨k, d, hk, rfl, rfl, rfl⟩

/-- A device holds the principal's token. -/
def Attached (i : Auth) (p : Principal) : Prop :=
  ∃ d, i.devices.lookup p.clientId = some d ∧ d.cancel = p.revoked

theorem activeDevice_eq_some (h : activeDevice i client = some d) :
    i.devices.lookup client = some d ∧ d.device.revoked = false := by
  simp only [activeDevice, Option.filter_eq_some_iff, Bool.not_eq_true'] at h
  exact h

theorem authorize_attached (h : authorize C i token now = .ok p) : i.Attached p := by
  unfold authorize at h
  split at h
  · cases h
  · split at h
    · cases h
    · split at h
      · cases h
      · split at h
        · cases h
        · next a _ d hd =>
          cases h
          exact ⟨d, (activeDevice_eq_some hd).1, rfl⟩

theorem devicePrincipal_attached (h : devicePrincipal i client now = .ok p) : i.Attached p := by
  unfold devicePrincipal at h
  split at h
  · cases h
  · split at h
    · cases h
    · next d hd =>
      cases h
      exact ⟨d, (activeDevice_eq_some hd).1, rfl⟩

/-- A ticket that is added is the principal's. -/
theorem issueWs_spec (C : Crypto) (i : Auth) (p : Principal) (channel : String)
    (session : Option Uuid) (now : Nat) (secret : String) :
    let i' := (issueWs C i p channel session now secret).2
    i'.devices = i.devices ∧ i'.nextToken = i.nextToken ∧ i'.cancelled = i.cancelled ∧
      ∀ k t, i'.ws.lookup k = some t → t.principal = p ∨ ∃ k', i.ws.lookup k' = some t := by
  rcases issueWs_cases C i p channel session now secret with ⟨e, j, he, hj⟩ | ⟨-, he⟩
  · rw [he]
    have hq := hj.quiet
    exact ⟨hq.devices, hq.nextToken, hq.cancelled, fun k t ht => .inr (hq.ws k t ht)⟩
  · rw [he]
    refine ⟨rfl, rfl, rfl, ?_⟩
    intro k t ht
    rw [Table.lookup_insert] at ht
    split at ht
    · cases ht
      exact .inl rfl
    · exact .inr ((prune_quiet i now).ws k t ht)

theorem consumeWs_spec (C : Crypto) (i : Auth) (token channel : String) (now : Nat) :
    Quiet i (consumeWs C i token channel now).2 ∧
      ∀ p s, (consumeWs C i token channel now).1 = .ok (p, s) →
        (∃ k t, i.ws.lookup k = some t ∧ t.principal = p) ∧
          p.require i.cancelled now .terminalRead = .ok () := by
  have hq := prune_quiet i now
  have herase : Quiet i { i.prune now with ws := (i.prune now).ws.erase (C.key token) } := by
    refine hq.trans ⟨rfl, rfl, rfl, ?_⟩
    intro k t' ht'
    rw [Table.lookup_erase] at ht'
    split at ht'
    · cases ht'
    · exact ⟨k, ht'⟩
  rcases consumeWs_cases C i token channel now with
    ⟨e, j, he, hj⟩ | ⟨t, ht, ⟨e, he⟩ | ⟨hch, hr, he⟩⟩
  · rw [he]
    exact ⟨hj.quiet, fun p s hp => by cases hp⟩
  · rw [he]
    exact ⟨herase, fun p s hp => by cases hp⟩
  · rw [he]
    refine ⟨herase, ?_⟩
    intro p s hp
    cases hp
    obtain ⟨k, hk⟩ := hq.ws _ t ht
    exact ⟨⟨k, t, hk, rfl⟩, hr⟩

/-- What an operation does to the devices and their tokens. -/
inductive Change (i i' : Auth) : Op → Prop where
  | same (hd : i'.devices = i.devices) (hn : i'.nextToken = i.nextToken)
      (hc : i'.cancelled = i.cancelled) : Change i i' op
  | added (d : Device) (hl : i.devices.lookup d.clientId = none) (hr : d.revoked = false)
      (hd : i'.devices = i.devices.insert d.clientId ⟨d, i.nextToken⟩)
      (hn : i'.nextToken = i.nextToken + 1) (hc : i'.cancelled = i.cancelled) : Change i i' op
  | renewed (hd : i'.devices = i.renewTokens.devices)
      (hn : i'.nextToken = i.nextToken + i.nextToken) (hc : i'.cancelled = i.cancelled) :
      Change i i' (.resumeLocal true)
  | revoked (id : Uuid) (io : Bool) (d : DeviceState) (hl : i.devices.lookup id = some d)
      (hd : i'.devices = i.devices.insert id ⟨{ d.device with revoked := true }, d.cancel⟩)
      (hn : i'.nextToken = i.nextToken) (hc : i'.cancelled = insert d.cancel i.cancelled) :
      Change i i' (.revoke id io)
  | blocked (hd : i'.devices = i.devices) (hn : i'.nextToken = i.nextToken)
      (hc : i'.cancelled = i.cancelled ∪ i.deviceTokens) : Change i i' (.blockAll io)

theorem Quiet.change (h : Quiet i i') : Change i i' op := .same h.devices h.nextToken h.cancelled

theorem Op.change (C : Crypto) (w : World) (op : Op) (ha : op.Admissible w) :
    Change w.auth (op.run C w.auth w.now).2 op := by
  cases op with
  | issuePairTicket scopes secret => exact (issuePairTicket_quiet ..).change
  | pair ticket publicKey label id io =>
    rcases pair_spec C w.auth ticket publicKey label w.now id io with h | ⟨j, d, hq, hid, hr, h⟩
    · exact h.change
    · have hl : w.auth.devices.lookup d.clientId = none := hid ▸ ha
      refine .added d hl hr ?_ ?_ ?_
      · simp only [run, h, addDevice, hq.devices, hq.nextToken]
      · simp only [run, h, addDevice, hq.nextToken]
      · simp only [run, h, addDevice, hr, Bool.false_eq_true, ↓reduceIte, hq.cancelled]
  | challenge client unixMs id nonce => exact (challenge_quiet ..).change
  | verify id sig secret => exact (verify_quiet ..).change
  | authorize token => exact (Quiet.refl _).change
  | resumeLocal io =>
    cases io with
    | true => exact .renewed rfl rfl rfl
    | false => exact (Quiet.refl _).change
  | issueWs p channel session secret =>
    obtain ⟨hd, hn, hc, _⟩ := issueWs_spec C w.auth p channel session w.now secret
    exact .same hd hn hc
  | consumeWs token channel => exact (consumeWs_spec ..).1.change
  | devicePrincipal client => exact (Quiet.refl _).change
  | revoke id io =>
    simp only [run, Auth.revoke]
    split
    · exact (Quiet.refl _).change
    · next d hd =>
      split
      · exact .revoked id io d hd rfl rfl rfl
      · exact .revoked id io d hd rfl rfl rfl
  | blockAll io => exact .blocked rfl rfl rfl

/-- A ticket in the table was there before or was issued by this operation. -/
theorem Op.tickets (C : Crypto) (i : Auth) (now : Nat) (op : Op)
    (ht : (op.run C i now).2.ws.lookup k = some t) :
    (∃ k', i.ws.lookup k' = some t) ∨
      ∃ channel session secret, op = .issueWs t.principal channel session secret := by
  cases op with
  | issuePairTicket scopes secret => exact .inl ((issuePairTicket_quiet ..).ws k t ht)
  | pair ticket publicKey label id io =>
    rcases pair_spec C i ticket publicKey label now id io with h | ⟨j, d, hq, _, _, h⟩
    · exact .inl (h.ws k t ht)
    · simp only [run, h] at ht
      exact .inl (hq.ws k t ht)
  | challenge client unixMs id nonce => exact .inl ((challenge_quiet ..).ws k t ht)
  | verify id sig secret => exact .inl ((verify_quiet ..).ws k t ht)
  | authorize token | devicePrincipal client => exact .inl ⟨k, ht⟩
  | resumeLocal io => cases io <;> exact .inl ⟨k, ht⟩
  | issueWs p channel session secret =>
    obtain ⟨_, _, _, hws⟩ := issueWs_spec C i p channel session now secret
    rcases hws k t ht with h | h
    · exact .inr ⟨channel, session, secret, by rw [h]⟩
    · exact .inl h
  | consumeWs token channel => exact .inl ((consumeWs_spec ..).1.ws k t ht)
  | revoke id io =>
    simp only [run, Auth.revoke] at ht
    split at ht
    · exact .inl ⟨k, ht⟩
    · split at ht
      · exact .inl ⟨k, (Table.lookup_of_retain ht).1⟩
      · exact .inl ⟨k, ht⟩
  | blockAll io =>
    simp only [run, Auth.blockAll, AList.lookup_empty, reduceCtorEq] at ht

theorem Reply.mem_principal (h : p ∈ (Reply.principal r).principals) : r = .ok p := by
  cases r with
  | error e => cases h
  | ok q =>
    rw [principals, List.mem_singleton] at h
    rw [h]

theorem Reply.mem_consumed (h : p ∈ (Reply.consumed r).principals) : ∃ s, r = .ok (p, s) := by
  cases r with
  | error e => cases h
  | ok q =>
    rw [principals, List.mem_singleton] at h
    exact ⟨q.2, by rw [h]⟩

/-- A returned principal is attached to its device or comes from a ticket. -/
theorem Op.principals (C : Crypto) (i : Auth) (now : Nat) (op : Op)
    (hp : p ∈ (op.run C i now).1.principals) :
    (op.run C i now).2.Attached p ∨ ∃ k t, i.ws.lookup k = some t ∧ t.principal = p := by
  cases op with
  | authorize token => exact .inl (authorize_attached (Reply.mem_principal hp))
  | devicePrincipal client => exact .inl (devicePrincipal_attached (Reply.mem_principal hp))
  | consumeWs token channel =>
    obtain ⟨s, hs⟩ := Reply.mem_consumed hp
    exact .inr ((consumeWs_spec ..).2 p s hs).1
  | issuePairTicket | pair | challenge | verify | resumeLocal | issueWs | revoke | blockAll =>
    cases hp

theorem mem_deviceTokens {i : Auth} {id : Uuid} {d : DeviceState}
    (h : i.devices.lookup id = some d) : d.cancel ∈ deviceTokens i := by
  have hm : (⟨id, d⟩ : Sigma fun _ : Uuid => DeviceState) ∈ i.devices.entries :=
    List.of_mem_dlookup h
  exact List.mem_toFinset.2 (List.mem_map_of_mem hm)

end Auth
end RemoteCodex
