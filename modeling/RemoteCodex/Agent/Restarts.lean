import RemoteCodex.Agent.Revocation
import RemoteCodex.Agent.Credentials

namespace RemoteCodex
set_option autoImplicit true
open Trace

/-- A device is stored under its own id. -/
def Store.Keyed (s : Store) : Prop := ∀ k d, s.devices.lookup k = some d → d.clientId = k

theorem Store.saveDevice_lookup (s : Store) (d : Device) (id : Uuid) :
    (s.saveDevice d).devices.lookup id =
      if id = d.clientId then
        some (match s.devices.lookup d.clientId with
          | some stored => { stored with scopes := d.scopes, revoked := d.revoked }
          | none => d)
      else s.devices.lookup id :=
  Table.lookup_insert ..

theorem Store.Keyed.saveDevice {s : Store} (h : s.Keyed) (d : Device) : (s.saveDevice d).Keyed := by
  intro k d' hd
  rw [saveDevice_lookup] at hd
  split at hd
  · next hk =>
    cases hd
    split
    · next stored hs => rw [hk]; exact h _ stored hs
    · exact hk.symm
  · exact h k d' hd

namespace Auth

/-- Devices are kept under their own ids, in memory and in the store. -/
structure Keyed (i : Auth) : Prop where
  devices : ∀ k d, i.devices.lookup k = some d → d.device.clientId = k
  store : i.store.Keyed

/-- The client is revoked, in memory and in the store. -/
structure Barred (i : Auth) (id : Uuid) : Prop where
  device : ∃ d, i.devices.lookup id = some d ∧ d.device.revoked = true
  stored : ∃ d, i.store.devices.lookup id = some d ∧ d.revoked = true

/-- Whatever is saved in the store is what the device table then holds. -/
inductive Saved (i i' : Auth) : Prop where
  | none (h : i'.store.devices = i.store.devices) : Saved i i'
  | device (d : DeviceState) (h : i'.store.devices = (i.store.saveDevice d.device).devices)
      (hd : i'.devices.lookup d.device.clientId = some d) : Saved i i'

theorem anonymousLimit_store (i : Auth) (now : Nat) : (i.anonymousLimit now).2.store = i.store := by
  obtain ⟨start, requests, he | he⟩ := i.anonymousLimit_cases now
  · rw [he]
  · rw [he]
    rfl

theorem Counted.saved (h : Counted i now j) : Saved i j :=
  h.of (.none rfl) (.none (congrArg _ (anonymousLimit_store i now)))

theorem Pruned.saved (h : Pruned i now j) : Saved i j := h.of (.none rfl) (.none rfl)

theorem pair_saved (C : Crypto) (i : Auth) (ticket publicKey label : String) (now : Nat)
    (id : Uuid) (io : Bool) : Saved i (pair C i ticket publicKey label now id io).2 := by
  have hs := anonymousLimit_store i now
  rcases pair_cases C i ticket publicKey label now id io with
    ⟨e, j, he, hj⟩ | ⟨j, p, rfl, -, ⟨e, he⟩ | ⟨raw, -, he⟩⟩
  · rw [he]
    exact hj.saved
  · rw [he]
    exact .none (congrArg _ hs)
  · rw [he]
    let d : DeviceState :=
      ⟨⟨id, raw, trim label, p.scopes, false⟩, (i.anonymousLimit now).2.nextToken⟩
    exact .device d (congrArg (fun s : Store => (s.saveDevice d.device).devices) hs)
      (AList.lookup_insert _)

theorem challenge_saved (i : Auth) (client : Uuid) (now unixMs : Nat) (id nonce : String) :
    Saved i (i.challenge client now unixMs id nonce).2 := by
  rcases i.challenge_cases client now unixMs id nonce with
    ⟨e, j, he, hj⟩ | ⟨j, d, message, rfl, -, -, he⟩
  · rw [he]
    exact hj.saved
  · rw [he]
    exact .none (congrArg _ (anonymousLimit_store i now))

theorem verify_saved (C : Crypto) (i : Auth) (id sig : String) (now : Nat) (secret : String) :
    Saved i (verify C i id sig now secret).2 := by
  have hs := anonymousLimit_store i now
  rcases verify_cases C i id sig now secret with
    ⟨e, j, he, hj⟩ | ⟨j, c, rfl, -, ⟨e, he⟩ | ⟨d, -, -, he⟩⟩
  · rw [he]
    exact hj.saved
  · rw [he]
    exact .none (congrArg _ hs)
  · rw [he]
    exact .none (congrArg _ hs)

theorem Op.saved (C : Crypto) (now : Nat) (op : Op) (hk : Keyed i) :
    Saved i (op.run C i now).2 := by
  cases op with
  | issuePairTicket scopes secret =>
    simp only [run]
    rcases issuePairTicket_cases C i scopes now secret with ⟨e, j, he, hj⟩ | ⟨-, he⟩
    · rw [he]
      exact hj.saved
    · rw [he]
      exact .none rfl
  | pair ticket publicKey label id io => exact pair_saved C i ticket publicKey label now id io
  | challenge client unixMs id nonce => exact challenge_saved i client now unixMs id nonce
  | verify id sig secret => exact verify_saved C i id sig now secret
  | authorize token | devicePrincipal client => exact .none rfl
  | resumeLocal io => cases io <;> exact .none rfl
  | issueWs p channel session secret =>
    simp only [run]
    rcases issueWs_cases C i p channel session now secret with ⟨e, j, he, hj⟩ | ⟨-, he⟩
    · rw [he]
      exact hj.saved
    · rw [he]
      exact .none rfl
  | consumeWs token channel =>
    simp only [run]
    rcases consumeWs_cases C i token channel now with
      ⟨e, j, he, hj⟩ | ⟨t, -, ⟨e, he⟩ | ⟨-, -, he⟩⟩
    · rw [he]
      exact hj.saved
    · rw [he]
      exact .none rfl
    · rw [he]
      exact .none rfl
  | revoke id io =>
    simp only [run, Auth.revoke]
    split
    · exact .none rfl
    · next d hd =>
      split
      · refine .device ⟨{ d.device with revoked := true }, d.cancel⟩ rfl ?_
        have hid : d.device.clientId = id := hk.devices id d hd
        simp only [Table.lookup_insert, if_pos hid]
      · exact .none rfl
  | blockAll io => cases io <;> exact .none rfl

/-- A new device gets an id that no device has. -/
def Op.NewId (i : Auth) : Op → Prop
  | .pair _ _ _ id _ => i.devices.lookup id = none
  | _ => True

/-- What an operation does to the devices does not depend on whose principals it uses. -/
theorem Op.change_new (C : Crypto) (now : Nat) (op : Op) (ha : op.NewId i) :
    Change i (op.run C i now).2 op := by
  cases op with
  | issueWs p channel session secret =>
    exact Op.change C ⟨i, now, [p]⟩ (.issueWs p channel session secret) (.head _)
  | pair ticket publicKey label id io =>
    exact Op.change C ⟨i, now, []⟩ (.pair ticket publicKey label id io) ha
  | issuePairTicket | challenge | verify | authorize | resumeLocal | consumeWs | devicePrincipal
  | revoke | blockAll => exact Op.change C ⟨i, now, []⟩ _ trivial

theorem Keyed.call (h : Keyed i) (C : Crypto) (now : Nat) (op : Op) (ha : op.NewId i) :
    Keyed (op.run C i now).2 where
  devices := by
    intro k d hd
    have hc := op.change_new C now ha
    generalize (op.run C i now).2 = i' at hc hd
    cases hc with
    | same he | blocked he => exact h.devices k d (he ▸ hd)
    | added d' hl hr he =>
      rw [he, Table.lookup_insert] at hd
      split at hd
      · next hk => cases hd; exact hk.symm
      · exact h.devices k d hd
    | renewed he =>
      rw [he] at hd
      obtain ⟨d₀, hd₀, hdev, _⟩ := renewTokens_lookup hd
      rw [hdev]
      exact h.devices k d₀ hd₀
    | revoked id io d₀ hl he =>
      rw [he, Table.lookup_insert] at hd
      split at hd
      · next hk => cases hd; rw [hk]; exact h.devices id d₀ hl
      · exact h.devices k d hd
  store := by
    intro k d hd
    cases op.saved C now h with
    | none he => exact h.store k d (he ▸ hd)
    | device d' he hd' => exact h.store.saveDevice d'.device k d (he ▸ hd)

/-- No operation lifts a revocation. -/
theorem Barred.call {id : Uuid} (h : Barred i id) (hk : Keyed i) (C : Crypto) (now : Nat) (op : Op)
    (ha : op.NewId i) : Barred (op.run C i now).2 id := by
  obtain ⟨d, hd, hr⟩ := h.device
  have hdev : ∃ d, (op.run C i now).2.devices.lookup id = some d ∧ d.device.revoked = true := by
    have hc := op.change_new C now ha
    generalize (op.run C i now).2 = i' at hc
    cases hc with
    | same he | blocked he => exact ⟨d, he ▸ hd, hr⟩
    | added d' hl _ he =>
      refine ⟨d, ?_, hr⟩
      rw [he, Table.lookup_insert, if_neg, hd]
      intro heq
      rw [heq, hl] at hd
      cases hd
    | renewed he =>
      rw [he]
      simp only [renewTokens, Table.lookup_mapValues, hd, Option.map_some, hr, ↓reduceIte,
        Option.some.injEq]
      exact ⟨d, rfl, hr⟩
    | revoked id' io d' hl he =>
      rw [he, Table.lookup_insert]
      split
      · exact ⟨_, rfl, rfl⟩
      · exact ⟨d, hd, hr⟩
  refine ⟨hdev, ?_⟩
  cases op.saved C now hk with
  | none he => exact he ▸ h.stored
  | device d' he hd' =>
    rw [he, Store.saveDevice_lookup]
    split
    · next heq =>
      obtain ⟨d'', hd'', hr''⟩ := hdev
      rw [heq, hd'] at hd''
      cases hd''
      refine ⟨_, rfl, ?_⟩
      split
      · exact hr''
      · exact hr''
    · exact h.stored

theorem Barred.inactive {id : Uuid} (h : Barred i id) : i.activeDevice id = none := by
  obtain ⟨d, hd, hr⟩ := h.device
  simp only [activeDevice, hd, Option.filter_some, hr, Bool.not_true, Bool.false_eq_true,
    ↓reduceIte]

/-- A successful revocation bars the client. -/
theorem revoke_barred {id : Uuid} (hk : Keyed i) (h : (i.revoke id io).1 = .ok ()) :
    Barred (i.revoke id io).2 id := by
  unfold revoke at h ⊢
  split at h
  · cases h
  · next d hd =>
    split at h
    · next hio =>
      simp only [if_pos hio]
      refine ⟨⟨_, AList.lookup_insert _, rfl⟩, ?_⟩
      rw [Store.saveDevice_lookup, if_pos (hk.devices id d hd).symm]
      refine ⟨_, rfl, ?_⟩
      split <;> rfl
    · cases h

/-- A restart fills the device table from the store. -/
theorem addDevices_other (ds : List (Sigma fun _ : Uuid => Device)) (i : Auth) (id : Uuid)
    (h : ∀ e ∈ ds, e.2.clientId ≠ id) :
    (ds.foldl (fun i e => i.addDevice e.2) i).devices.lookup id = i.devices.lookup id := by
  induction ds generalizing i with
  | nil => rfl
  | cons d ds ih =>
    rw [List.foldl_cons, ih _ fun e he => h e (.tail _ he)]
    simp only [addDevice, Table.lookup_insert, if_neg (h d (.head _)).symm]

theorem new_lookup {store : Store} {id : Uuid} {d : Device} (hk : store.Keyed)
    (h : store.devices.lookup id = some d)
    (audience : String) (now : Nat) :
    ∃ cancel, (Auth.new store audience now).devices.lookup id = some ⟨d, cancel⟩ := by
  have hkeys : ∀ e ∈ store.devices.entries, e.2.clientId = e.1 :=
    fun e he => hk e.1 e.2 (List.mem_dlookup store.devices.nodupKeys he)
  have hfold (ds : List (Sigma fun _ : Uuid => Device)) (i : Auth) (hn : ds.NodupKeys)
      (hks : ∀ e ∈ ds, e.2.clientId = e.1) (hm : ⟨id, d⟩ ∈ ds) :
      ∃ cancel, (ds.foldl (fun i e => i.addDevice e.2) i).devices.lookup id =
        some ⟨d, cancel⟩ := by
    induction ds generalizing i with
    | nil => cases hm
    | cons e ds ih =>
      rw [List.nodupKeys_cons] at hn
      rw [List.foldl_cons]
      rcases List.mem_cons.1 hm with he | hm
      · rw [addDevices_other]
        · subst he
          refine ⟨i.nextToken, ?_⟩
          have hid : d.clientId = id := hks ⟨id, d⟩ (.head _)
          simp only [addDevice, Table.lookup_insert, if_pos hid.symm]
        · intro x hx heq
          apply hn.1
          rw [← he]
          simp only
          rw [← heq, hks x (.tail _ hx)]
          exact List.mem_keys_of_mem hx
      · exact ih _ hn.2 (fun x hx => hks x (.tail _ hx)) hm
  exact hfold _ _ store.devices.nodupKeys hkeys (List.of_mem_dlookup h)

theorem addDevices_tables (ds : List (Sigma fun _ : Uuid => Device)) (i : Auth) :
    let i' := ds.foldl (fun i e => i.addDevice e.2) i
    i'.pairs = i.pairs ∧ i'.challenges = i.challenges ∧ i'.ws = i.ws ∧ i'.store = i.store := by
  induction ds generalizing i with
  | nil => exact ⟨rfl, rfl, rfl, rfl⟩
  | cons d ds ih => exact ih (i.addDevice d.2)

theorem new_tables (store : Store) (audience : String) (now : Nat) :
    let i := Auth.new store audience now
    i.pairs = ∅ ∧ i.challenges = ∅ ∧ i.ws = ∅ ∧ i.store = store :=
  addDevices_tables _ _

theorem new_store (store : Store) (audience : String) (now : Nat) :
    (Auth.new store audience now).store = store :=
  (new_tables store audience now).2.2.2

theorem new_fewer (i : Auth) (store : Store) (audience : String) (now : Nat) :
    Fewer i (Auth.new store audience now) := by
  obtain ⟨hp, hc, hw, _⟩ := new_tables store audience now
  constructor
  · intro k v hv
    rw [hp, AList.lookup_empty] at hv
    cases hv
  · intro k v hv
    rw [hc, AList.lookup_empty] at hv
    cases hv
  · intro k v hv
    rw [hw, AList.lookup_empty] at hv
    cases hv

theorem Keyed.new {store : Store} (h : store.Keyed) (audience : String) (now : Nat) :
    Keyed (Auth.new store audience now) where
  devices := by
    have hfold (ds : List (Sigma fun _ : Uuid => Device)) (i : Auth)
        (hi : ∀ k d, i.devices.lookup k = some d → d.device.clientId = k) (k : Uuid)
        (d : DeviceState)
        (hd : (ds.foldl (fun i e => i.addDevice e.2) i).devices.lookup k = some d) :
        d.device.clientId = k := by
      induction ds generalizing i with
      | nil => exact hi k d hd
      | cons e ds ih =>
        refine ih (i.addDevice e.2) ?_ hd
        intro k d hd
        simp only [addDevice, Table.lookup_insert] at hd
        split at hd
        · next hk => cases hd; exact hk.symm
        · exact hi k d hd
    apply hfold
    intro k d hd
    rw [AList.lookup_empty] at hd
    cases hd
  store := by rw [new_store]; exact h

/-- A restart keeps every revocation. -/
theorem Barred.reload {id : Uuid} (h : Barred i id) (hk : i.store.Keyed) (audience : String)
    (now : Nat) : Barred (Auth.new i.store audience now) id := by
  obtain ⟨d, hd, hr⟩ := h.stored
  obtain ⟨cancel, hl⟩ := new_lookup hk hd audience now
  refine ⟨⟨_, hl, hr⟩, ?_⟩
  rw [new_store]
  exact h.stored

theorem challenge_active {id : String} (h : (challenge i client now unixMs id nonce).1 = .ok r) :
    ∃ d, i.activeDevice client = some d := by
  rcases i.challenge_cases client now unixMs id nonce with
    ⟨e, j, he, -⟩ | ⟨j, d, message, rfl, hd, -, -⟩
  · rw [he] at h
    cases h
  · rw [(anonymousLimit_quiet i now).activeDevice] at hd
    exact ⟨d, hd⟩

theorem verify_active {id : String} (h : (verify C i id sig now secret).1 = .ok token) :
    ∃ c d, i.challenges.lookup id = some c ∧ i.activeDevice c.client = some d := by
  rcases verify_cases C i id sig now secret with
    ⟨e, j, he, -⟩ | ⟨j, c, rfl, hc, ⟨e, he⟩ | ⟨d, hd, -, -⟩⟩
  · rw [he] at h
    cases h
  · rw [he] at h
    cases h
  · rw [(anonymousLimit_quiet i now).activeDevice] at hd
    exact ⟨c, d, (anonymousLimit_fewer i now).challenges _ _ hc, hd⟩

theorem authorize_active (h : authorize C i token now = .ok p) :
    ∃ d, i.activeDevice p.clientId = some d := by
  unfold authorize at h
  split at h
  · cases h
  · split at h
    · cases h
    · split at h
      · cases h
      · split at h
        · cases h
        · next d hd => cases h; exact ⟨d, hd⟩

theorem devicePrincipal_active (h : devicePrincipal i client now = .ok p) :
    ∃ d, i.activeDevice client = some d := by
  unfold devicePrincipal at h
  split at h
  · cases h
  · split at h
    · cases h
    · next d hd => exact ⟨d, hd⟩

/-- The operation succeeds for the client; a challenge is answered for the client it was issued
to. -/
inductive Call.Serves (es : List Call) (id : Uuid) : Call → Prop where
  | challenge : Serves es id ⟨t, .challenge id unixMs name nonce, .challenge (.ok m)⟩
  | verify (h : ⟨t', .challenge id unixMs name nonce, .challenge (.ok (name, message))⟩ ∈ es) :
      Serves es id ⟨t, .verify name sig secret, .secret (.ok token)⟩
  | authorize (h : p.clientId = id) : Serves es id ⟨t, .authorize token, .principal (.ok p)⟩
  | devicePrincipal : Serves es id ⟨t, .devicePrincipal id, .principal (.ok p)⟩

/-- The service in one process after another, and the clock. -/
structure Host where
  auth : Auth
  now : Nat

def Host.start (store : Store) (audience : String) (now : Nat) : Host :=
  ⟨.new store audience now, now⟩

inductive HostStep (C : Crypto) : Host → List Call → Host → Prop where
  | tick (h : Host) (d : Nat) : HostStep C h [] { h with now := h.now + d }
  | call (h : Host) (op : Op) (ha : op.NewId h.auth) :
      HostStep C h [⟨h.now, op, (op.run C h.auth h.now).1⟩] ⟨(op.run C h.auth h.now).2, h.now⟩
  | reload (h : Host) (audience : String) :
      HostStep C h [] ⟨.new h.auth.store audience h.now, h.now⟩

/-- No secret is drawn twice. -/
def Fresh (es : List Call) : Prop := (es.flatMap Call.issued).Nodup

theorem HostStep.turn (hkey : Function.Injective C.key) (hs : HostStep C h es h') :
    Ledger.Turn (h.auth.Holds C) (h'.auth.Holds C) (es.flatMap Call.issued)
      (es.flatMap Call.spent) := by
  cases hs with
  | tick d => exact .unspent fun c hc => .inl hc
  | call op ha =>
    rw [List.flatMap_singleton, List.flatMap_singleton]
    exact (op.move C h.auth h.now).turn hkey
  | reload audience =>
    exact .unspent fun c hc => .inl ((new_fewer h.auth _ _ _).holds hc)

/-- What holds of the tables in every process. -/
structure Sound (C : Crypto) (es : List Call) (h : Host) : Prop where
  keyed : Keyed h.auth
  origin : Origin C es h.auth

theorem Sound.step (h : Sound C es w) (hs : HostStep C w fs w') : Sound C (es ++ fs) w' := by
  cases hs with
  | tick d =>
    rw [List.append_nil]
    exact ⟨h.keyed, h.origin⟩
  | call op ha => exact ⟨h.keyed.call C w.now op ha, h.origin.move (op.move C w.auth w.now)⟩
  | reload audience =>
    exact ⟨.new h.keyed.store audience w.now, h.origin.fewer (new_fewer ..)⟩

theorem start_empty (C : Crypto) (store : Store) (audience : String) (start : Nat)
    (c : Credential) : ¬ (Host.start store audience start).auth.Holds C c := by
  obtain ⟨hp, hc, hw, _⟩ := new_tables store audience start
  cases c with
  | pairTicket ticket =>
    rintro ⟨p, hl⟩
    rw [Host.start, hp, AList.lookup_empty] at hl
    cases hl
  | challenge id =>
    rintro ⟨c, hl⟩
    rw [Host.start, hc, AList.lookup_empty] at hl
    cases hl
  | wsTicket token =>
    rintro ⟨t, hl⟩
    rw [Host.start, hw, AList.lookup_empty] at hl
    cases hl

theorem Sound.start {store : Store} (hk : store.Keyed) (C : Crypto) (audience : String)
    (start : Nat) : Sound C [] (.start store audience start) where
  keyed := .new hk audience start
  origin := by
    obtain ⟨_, hc, hw, _⟩ := new_tables store audience start
    constructor
    · intro k t hl
      rw [Host.start, hw, AList.lookup_empty] at hl
      cases hl
    · intro k c hl
      rw [Host.start, hc, AList.lookup_empty] at hl
      cases hl

/-- A barred client is served by no operation. -/
theorem Barred.serves {id : Uuid} (hb : Barred w.auth id) (h : Sound C es w)
    (hs : HostStep C w [e] w') (hf : Fresh all) (he : ∀ x ∈ es, x ∈ all) : ¬ e.Serves all id := by
  intro hserves
  have hnone (d : DeviceState) : ¬ w.auth.activeDevice id = some d := by
    rw [hb.inactive]
    intro hd
    cases hd
  cases hs with
  | call op ha =>
    generalize hr : (op.run C w.auth w.now).1 = r at hserves
    cases hserves with
    | challenge =>
      injection hr with hr
      obtain ⟨d, hd⟩ := challenge_active hr
      exact hnone d hd
    | verify hissued =>
      injection hr with hr
      obtain ⟨c, d, hc, hd⟩ := verify_active hr
      obtain ⟨now, unixMs, nonce, message, hm⟩ := h.origin.challenges _ c hc
      have hsame := Ledger.issued_by_one hf (he _ hm) hissued (.head _) (.head _)
      injection hsame with _ hop
      injection hop with hclient
      exact hnone d (hclient ▸ hd)
    | authorize hid =>
      injection hr with hr
      obtain ⟨d, hd⟩ := authorize_active hr
      exact hnone d (hid ▸ hd)
    | devicePrincipal =>
      injection hr with hr
      obtain ⟨d, hd⟩ := devicePrincipal_active hr
      exact hnone d hd

theorem Barred.step {id : Uuid} (hb : Barred w.auth id) (hk : Keyed w.auth)
    (hs : HostStep C w es w') : Barred w'.auth id := by
  cases hs with
  | tick d => exact hb
  | call op ha => exact hb.call hk C w.now op ha
  | reload audience => exact hb.reload hk.store audience w.now

theorem Sound.run (h : Sound C es w) (hr : Run (HostStep C) w fs w') : Sound C (es ++ fs) w' := by
  induction hr with
  | nil => rw [List.append_nil]; exact h
  | snoc _ hs ih => rw [← List.append_assoc]; exact ih.step hs

theorem Barred.run {id : Uuid} (hb : Barred w.auth id) (h : Sound C es w)
    (hr : Run (HostStep C) w fs w') : Barred w'.auth id := by
  induction hr with
  | nil => exact hb
  | snoc hr hs ih => exact ih.step (h.run hr).keyed hs

theorem HostStep.single (hs : HostStep C w es w') (hx : x ∈ es) : es = [x] := by
  cases hs with
  | tick | reload => cases hx
  | call op ha => rw [List.mem_singleton.1 hx]

/-- One-time credentials succeed once, are taken out by whoever finds them, and keep to their
channel, client, session and time; a revoked client is served no more, in this process and the
next ones. -/
theorem one_time_credentials {store : Store} {audience : String}
    (hkey : Function.Injective C.key) (hstore : store.Keyed)
    (hrun : Run (HostStep C) (.start store audience start) es h) (hfresh : Fresh es) :
    (es.flatMap Call.spent).Nodup ∧
      (∀ op : Op,
        (∀ c j, op.attempt C h.auth h.now = some (c, j) → j.Holds C c →
          ¬ (op.run C h.auth h.now).2.Holds C c) ∧
        ∀ c ∈ Call.spent ⟨h.now, op, (op.run C h.auth h.now).1⟩,
          ∃ j, op.attempt C h.auth h.now = some (c, j) ∧ j.Holds C c) ∧
      (∀ token channel p session, (consumeWs C h.auth token channel h.now).1 = .ok (p, session) →
        ∃ t, ⟨t, .issueWs p channel session token, .secret (.ok token)⟩ ∈ es ∧
          h.now < t + fromSecs 30) ∧
      ∀ id io fs h', (h.auth.revoke id io).1 = .ok () →
        Run (HostStep C) ⟨(h.auth.revoke id io).2, h.now⟩ fs h' →
        Fresh (es ++ ⟨h.now, .revoke id io, .unit (.ok ())⟩ :: fs) →
        ∀ f ∈ fs, ¬ f.Serves (es ++ ⟨h.now, .revoke id io, .unit (.ok ())⟩ :: fs) id := by
  have hsound : Sound C es h := (Sound.start hstore C audience start).run hrun
  refine ⟨?_, ?_, ?_, ?_⟩
  · exact (Ledger.run hrun (start_empty C store audience start) (HostStep.turn hkey)
      hfresh).spent_once
  · intro op
    have hm := op.move C h.auth h.now
    exact ⟨fun c j ha hh => hm.removes ha hh, fun c hc => hm.spends hc⟩
  · intro token channel p session hok
    obtain ⟨t, ht, hlt, hch, hp, hse⟩ := consumeWs_ticket hok
    obtain ⟨issue, token', hm, hk, hu⟩ := hsound.origin.ws _ t ht
    have htoken : token = token' := hkey hk
    rw [hch, hp, hse, ← htoken] at hm
    exact ⟨issue, hm, hu ▸ hlt⟩
  · intro id io fs h' hok hlater hall f hf
    let call : Call := ⟨h.now, .revoke id io, .unit (.ok ())⟩
    have hs : HostStep C h [call] ⟨(h.auth.revoke id io).2, h.now⟩ := by
      have hs' : HostStep C h _ _ := .call h (.revoke id io) trivial
      simp only [Op.run, hok] at hs'
      exact hs'
    have hbarred : Barred (h.auth.revoke id io).2 id := revoke_barred hsound.keyed hok
    obtain ⟨before, u, e, v, after, hfs, hfe, hb, hu, _⟩ := hlater.split hf
    have he : e = [f] := hu.single hfe
    subst he
    have hcall := hsound.step hs
    refine (hbarred.run hcall hb).serves (hcall.run hb) hu hall ?_
    intro x hx
    rw [hfs]
    simp only [List.mem_append, List.mem_cons, List.not_mem_nil, or_false] at hx ⊢
    rcases hx with (hx | hx) | hx
    · exact .inl hx
    · exact .inr (.inl hx)
    · exact .inr (.inr (.inl (.inl hx)))

theorem homeStore_keyed : homeStore.Keyed := by
  intro k d hd
  have hone := Table.lookup_insert (∅ : AList fun _ : Uuid => Device) (.fill 1) k
    ⟨.fill 1, [4], "home", [.terminalRead], false⟩
  rw [show homeStore.devices.lookup k = _ from hone] at hd
  split at hd
  · next hk => cases hd; exact hk.symm
  · cases hd

/-- A principal of the device in `homeStore`. -/
def homePrincipal : Principal := ⟨.fill 1, [.terminalRead], 60000000000, 0⟩

/-- A ticket is issued and consumed. -/
def homeCalls : List Call :=
  [⟨0, .issueWs homePrincipal "control" none "t", .secret (.ok "t")⟩,
    ⟨0, .consumeWs "t" "control", .consumed (.ok (homePrincipal, none))⟩]

/-- After the ticket is consumed the client is revoked, and after a restart it is refused. -/
theorem one_time_credentials_restarted :
    (homeCalls.flatMap Call.spent).Nodup ∧
      ¬ Call.Serves (homeCalls ++ [⟨0, .revoke (.fill 1) true, .unit (.ok ())⟩,
          ⟨0, .devicePrincipal (.fill 1), .principal (.error .deviceRevoked)⟩]) (.fill 1)
        ⟨0, .devicePrincipal (.fill 1), .principal (.error .deviceRevoked)⟩ := by
  have hissued : Run (HostStep textCrypto) (.start homeStore "host" 0) _ _ :=
    Run.single (.call _ (.issueWs homePrincipal "control" none "t") trivial)
  have hconsumed : Run (HostStep textCrypto) (.start homeStore "host" 0) homeCalls _ :=
    hissued.snoc (.call _ (.consumeWs "t" "control") trivial)
  have hfresh : Fresh homeCalls := List.nodup_singleton (Credential.wsTicket "t")
  obtain ⟨honce, _, _, hafter⟩ := one_time_credentials textCrypto_injective homeStore_keyed
    hconsumed hfresh
  refine ⟨honce, ?_⟩
  have hlater (h : Host) : Run (HostStep textCrypto) h _ _ :=
    (Run.single (.reload h "host")).snoc (.call _ (.devicePrincipal (.fill 1)) trivial)
  exact hafter (.fill 1) true _ _ rfl (hlater _)
    (List.nodup_singleton (Credential.wsTicket "t")) _ (.head _)

end Auth
end RemoteCodex
