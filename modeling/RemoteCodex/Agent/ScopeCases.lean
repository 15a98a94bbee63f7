import RemoteCodex.Agent.Restarts

namespace RemoteCodex
set_option autoImplicit true
namespace Auth

/-- All the lists of scopes that the service holds satisfy a predicate. -/
structure Scoped (P : List Scope → Prop) (i : Auth) : Prop where
  devices : ∀ k d, i.devices.lookup k = some d → P d.device.scopes
  stored : ∀ k d, i.store.devices.lookup k = some d → P d.scopes
  pairs : ∀ k t, i.pairs.lookup k = some t → P t.scopes
  ws : ∀ k t, i.ws.lookup k = some t → P t.principal.scopes

theorem Scoped.imp (h : Scoped P i) (hpq : ∀ s, P s → Q s) : Scoped Q i where
  devices := fun k d hd => hpq _ (h.devices k d hd)
  stored := fun k d hd => hpq _ (h.stored k d hd)
  pairs := fun k t ht => hpq _ (h.pairs k t ht)
  ws := fun k t ht => hpq _ (h.ws k t ht)

/-- The lists of scopes that a call brings in. -/
inductive Brings : Op → Reply → List Scope → Prop where
  | pairTicket : Brings (.issuePairTicket scopes secret) (.secret (.ok ticket)) scopes
  | wsTicket : Brings (.issueWs p channel session secret) r p.scopes

theorem Brings.inv (h : Brings op r s) : (∃ secret, op = .issuePairTicket s secret) ∨
    ∃ p channel session secret, op = .issueWs p channel session secret ∧ s = p.scopes := by
  cases h with
  | pairTicket => exact .inl ⟨_, rfl⟩
  | wsTicket => exact .inr ⟨_, _, _, _, rfl, rfl⟩

/-- The store has every device with its scopes. -/
def Registered (i : Auth) : Prop :=
  ∀ k d, i.devices.lookup k = some d →
    ∃ d', i.store.devices.lookup k = some d' ∧ d'.scopes = d.device.scopes

/-- The device came with a ticket, and the store took it. -/
structure Joined (i i' : Auth) (k : Uuid) (d : DeviceState) : Prop where
  ticket : ∃ key t, i.pairs.lookup key = some t ∧ t.scopes = d.device.scopes
  id : d.device.clientId = k
  stored : i'.store.devices = (i.store.saveDevice d.device).devices

theorem pair_joined {id : Uuid} {i : Auth}
    (hd : (pair C i ticket publicKey label now id io).2.devices.lookup k = some d) :
    i.devices.lookup k = some d ∨ Joined i (pair C i ticket publicKey label now id io).2 k d := by
  have hq := anonymousLimit_quiet i now
  rcases pair_cases C i ticket publicKey label now id io with
    ⟨e, j, he, hj⟩ | ⟨j, p, rfl, hp, ⟨e, he⟩ | ⟨raw, -, he⟩⟩
  · rw [he] at hd
    exact .inl (hj.quiet.devices ▸ hd)
  · rw [he] at hd
    exact .inl (hq.devices ▸ hd)
  · rw [he] at hd ⊢
    simp only [addDevice, hq.devices, Table.lookup_insert] at hd
    split at hd
    · next hk =>
      cases hd
      have hpairs := (anonymousLimit_fewer i now).pairs _ p hp
      refine .inr ⟨⟨_, p, hpairs, rfl⟩, hk.symm, ?_⟩
      simp only [addDevice, anonymousLimit_store]
    · exact .inl hd

theorem revoke_devices {id : Uuid} {i : Auth} (hd : (i.revoke id io).2.devices.lookup k = some d) :
    i.devices.lookup k = some d ∨ k = id ∧ ∃ d₀, i.devices.lookup k = some d₀ ∧
      d.device = { d₀.device with revoked := true } := by
  unfold revoke at hd
  split at hd
  · exact .inl hd
  · next d₀ hd₀ =>
    have hinsert : (i.devices.insert id ⟨{ d₀.device with revoked := true }, d₀.cancel⟩).lookup k =
        some d := by
      cases io with
      | false => exact hd
      | true => exact hd
    rw [Table.lookup_insert] at hinsert
    split at hinsert
    · next hk =>
      cases hinsert
      exact .inr ⟨hk, d₀, hk ▸ hd₀, rfl⟩
    · exact .inl hinsert

/-- A device was there before with the same scopes, or it came with a ticket. -/
theorem Op.device_cases (C : Crypto) (now : Nat) (op : Op)
    (hd : (op.run C i now).2.devices.lookup k = some d) :
    (∃ d₀, i.devices.lookup k = some d₀ ∧ d₀.device.scopes = d.device.scopes) ∨
      Joined i (op.run C i now).2 k d := by
  have hsame {j : Auth} (h : j.devices = i.devices) (hd : j.devices.lookup k = some d) :
      (∃ d₀, i.devices.lookup k = some d₀ ∧ d₀.device.scopes = d.device.scopes) ∨
        Joined i j k d := .inl ⟨d, h ▸ hd, rfl⟩
  cases op with
  | issuePairTicket scopes secret => exact hsame (issuePairTicket_quiet ..).devices hd
  | pair ticket publicKey label id io =>
    rcases pair_joined hd with hold | hnew
    · exact .inl ⟨d, hold, rfl⟩
    · exact .inr hnew
  | challenge client unixMs id nonce => exact hsame (challenge_quiet ..).devices hd
  | verify id sig secret => exact hsame (verify_quiet ..).devices hd
  | authorize token | devicePrincipal client => exact hsame rfl hd
  | resumeLocal io =>
    cases io with
    | false => exact hsame rfl hd
    | true =>
      obtain ⟨d₀, hd₀, hdev, -⟩ := renewTokens_lookup hd
      exact .inl ⟨d₀, hd₀, by rw [hdev]⟩
  | issueWs p channel session secret => exact hsame (issueWs_spec ..).1 hd
  | consumeWs token channel => exact hsame (consumeWs_spec ..).1.devices hd
  | revoke id io =>
    rcases revoke_devices hd with hold | ⟨rfl, d₀, hd₀, hdev⟩
    · exact .inl ⟨d, hold, rfl⟩
    · exact .inl ⟨d₀, hd₀, by rw [hdev]⟩
  | blockAll io => exact hsame rfl hd

/-- What is saved has the scopes that the device has in memory. -/
theorem Saved.scopes (h : Saved i i') (hd : i'.store.devices.lookup k = some d) :
    i.store.devices.lookup k = some d ∨
      ∃ d', i'.devices.lookup k = some d' ∧ d'.device.scopes = d.scopes := by
  cases h with
  | none he => exact .inl (he ▸ hd)
  | device d' he hd' =>
    rw [he, Store.saveDevice_lookup] at hd
    split at hd
    · next hk =>
      refine .inr ⟨d', hk ▸ hd', ?_⟩
      cases hd
      split <;> rfl
    · exact .inl hd

theorem Registered.call (h : Registered i) (hk : Keyed i) (C : Crypto) (now : Nat) (op : Op) :
    Registered (op.run C i now).2 := by
  intro k d hd
  rcases op.device_cases C now hd with ⟨d₀, hd₀, hscopes⟩ | hnew
  · obtain ⟨e, he, hsame⟩ := h k d₀ hd₀
    cases op.saved C now hk with
    | none hs => exact ⟨e, hs ▸ he, hsame.trans hscopes⟩
    | device d' hs hd' =>
      rw [hs, Store.saveDevice_lookup]
      split
      · next hkey =>
        rw [hkey, hd'] at hd
        cases hd
        refine ⟨_, rfl, ?_⟩
        split <;> rfl
      · exact ⟨e, he, hsame.trans hscopes⟩
  · rw [hnew.stored, Store.saveDevice_lookup, if_pos hnew.id.symm]
    refine ⟨_, rfl, ?_⟩
    split <;> rfl

theorem Move.pairs (h : Move C i now op r i') (ht : i'.pairs.lookup k = some t) :
    i.pairs.lookup k = some t ∨ ∃ scopes secret, op = .issuePairTicket scopes secret := by
  cases h with
  | plain hf | issuedChallenge _ _ _ _ _ hf | issuedWs _ _ _ _ hf => exact .inl (hf.pairs k t ht)
  | found _ _ _ _ _ hf => exact .inl (hf.pairs k t ht)
  | issuedPair scopes ticket p hf => exact .inr ⟨scopes, ticket, rfl⟩

/-- A ticket for pairing was there before, or it was issued. -/
theorem Op.pair_cases (C : Crypto) (i : Auth) (now : Nat) (op : Op)
    (ht : (op.run C i now).2.pairs.lookup k = some t) :
    i.pairs.lookup k = some t ∨ Brings op (op.run C i now).1 t.scopes := by
  rcases (op.move C i now).pairs ht with hold | ⟨scopes, secret, rfl⟩
  · exact .inl hold
  · simp only [run] at ht ⊢
    rcases issuePairTicket_cases C i scopes now secret with ⟨e, j, he, hj⟩ | ⟨-, he⟩
    · rw [he] at ht
      exact .inl (hj.fewer.pairs k t ht)
    · rw [he] at ht ⊢
      simp only [Table.lookup_insert] at ht
      split at ht
      · cases ht
        exact .inr .pairTicket
      · exact .inl ((prune_fewer i now).pairs k t ht)

theorem Scoped.call (h : Scoped P i) (hk : Keyed i) (C : Crypto) (now : Nat) (op : Op)
    (hb : ∀ s, Brings op (op.run C i now).1 s → P s) : Scoped P (op.run C i now).2 := by
  have hdevices : ∀ k d, (op.run C i now).2.devices.lookup k = some d → P d.device.scopes := by
    intro k d hd
    rcases op.device_cases C now hd with ⟨d₀, hd₀, hscopes⟩ | hnew
    · exact hscopes ▸ h.devices k d₀ hd₀
    · obtain ⟨key, t, ht, hscopes⟩ := hnew.ticket
      exact hscopes ▸ h.pairs key t ht
  refine ⟨hdevices, ?_, ?_, ?_⟩
  · intro k d hd
    rcases (op.saved C now hk).scopes hd with hold | ⟨d', hd', hscopes⟩
    · exact h.stored k d hold
    · exact hscopes ▸ hdevices k d' hd'
  · intro k t ht
    rcases op.pair_cases C i now ht with hold | hnew
    · exact h.pairs k t hold
    · exact hb _ hnew
  · intro k t ht
    rcases op.tickets C i now ht with ⟨k', hold⟩ | ⟨channel, session, secret, rfl⟩
    · exact h.ws k' t hold
    · exact hb _ .wsTicket

/-- The principal has the scopes of its device. -/
def Bears (i : Auth) (p : Principal) : Prop :=
  ∃ d, i.devices.lookup p.clientId = some d ∧ d.device.scopes = p.scopes

theorem authorize_bears (h : authorize C i token now = .ok p) : i.Bears p := by
  unfold authorize at h
  split at h
  · cases h
  · split at h
    · cases h
    · split at h
      · cases h
      · split at h
        · cases h
        · next a _ d hd =>
          cases h
          exact ⟨d, (activeDevice_eq_some hd).1, rfl⟩

theorem devicePrincipal_bears (h : devicePrincipal i client now = .ok p) : i.Bears p := by
  unfold devicePrincipal at h
  split at h
  · cases h
  · split at h
    · cases h
    · next d hd =>
      cases h
      exact ⟨d, (activeDevice_eq_some hd).1, rfl⟩

/-- A returned principal has its device's scopes or comes from a ticket. -/
theorem Op.bearers (C : Crypto) (i : Auth) (now : Nat) (op : Op)
    (hp : p ∈ (op.run C i now).1.principals) :
    i.Bears p ∨ ∃ k t, i.ws.lookup k = some t ∧ t.principal = p := by
  cases op with
  | authorize token => exact .inl (authorize_bears (Reply.mem_principal hp))
  | devicePrincipal client => exact .inl (devicePrincipal_bears (Reply.mem_principal hp))
  | consumeWs token channel =>
    obtain ⟨s, hs⟩ := Reply.mem_consumed hp
    exact .inr ((consumeWs_spec ..).2 p s hs).1
  | issuePairTicket | pair | challenge | verify | resumeLocal | issueWs | revoke | blockAll =>
    cases hp

/-- Devices stay in the table and keep their scopes. -/
theorem Change.keeps (hc : Change i i' op) (hd : i.devices.lookup k = some d) :
    ∃ d', i'.devices.lookup k = some d' ∧ d'.device.scopes = d.device.scopes := by
  cases hc with
  | same he | blocked he => exact ⟨d, he ▸ hd, rfl⟩
  | added d' hl hr he =>
    refine ⟨d, ?_, rfl⟩
    rw [he, Table.lookup_insert, if_neg, hd]
    intro hk
    rw [hk, hl] at hd
    cases hd
  | renewed he =>
    rw [he]
    simp only [renewTokens, Table.lookup_mapValues, hd, Option.map_some]
    refine ⟨_, rfl, ?_⟩
    split <;> rfl
  | revoked id io d' hl he =>
    rw [he, Table.lookup_insert]
    split
    · next hk =>
      rw [hk, hl] at hd
      cases hd
      exact ⟨_, rfl, rfl⟩
    · exact ⟨d, hd, rfl⟩

/-- The devices after a start are those of the store. -/
theorem new_devices {store : Store} {audience : String} (hk : store.Keyed)
    (hd : (Auth.new store audience now).devices.lookup k = some d) :
    store.devices.lookup k = some d.device := by
  have hfold (ds : List (Sigma fun _ : Uuid => Device)) (i : Auth)
      (hd : (ds.foldl (fun i e => i.addDevice e.2) i).devices.lookup k = some d) :
      i.devices.lookup k = some d ∨ ∃ e ∈ ds, e.2 = d.device ∧ k = e.2.clientId := by
    induction ds generalizing i with
    | nil => exact .inl hd
    | cons e ds ih =>
      rcases ih _ hd with hold | ⟨e', he', hnew⟩
      · simp only [addDevice, Table.lookup_insert] at hold
        split at hold
        · next hkey =>
          cases hold
          exact .inr ⟨e, .head _, rfl, hkey⟩
        · exact .inl hold
      · exact .inr ⟨e', .tail _ he', hnew⟩
  rcases hfold _ _ hd with hnone | ⟨e, he, hdev, hkey⟩
  · rw [AList.lookup_empty] at hnone
    cases hnone
  · have hlookup := List.mem_dlookup store.devices.nodupKeys he
    rw [← hdev, hkey, hk _ _ hlookup]
    exact hlookup

theorem Scoped.new {store : Store} (hk : store.Keyed)
    (h : ∀ k d, store.devices.lookup k = some d → P d.scopes) (audience : String) (now : Nat) :
    Scoped P (Auth.new store audience now) := by
  obtain ⟨hp, -, hw, hs⟩ := new_tables store audience now
  refine ⟨fun k d hd => h k _ (new_devices hk hd), ?_, ?_, ?_⟩
  · rw [hs]
    exact h
  · intro k t ht
    rw [hp, AList.lookup_empty] at ht
    cases ht
  · intro k t ht
    rw [hw, AList.lookup_empty] at ht
    cases ht

theorem Registered.new {store : Store} (hk : store.Keyed) (audience : String) (now : Nat) :
    Registered (Auth.new store audience now) := by
  intro k d hd
  have hstored := new_devices hk hd
  rw [← new_store store audience now] at hstored
  exact ⟨d.device, hstored, rfl⟩

end Auth

end RemoteCodex
