import RemoteCodex.Agent.Auth

namespace RemoteCodex
set_option autoImplicit true
namespace Auth

/-- What an anonymous call has done when it fails early: nothing, or it was counted. -/
inductive Counted (i : Auth) (now : Nat) : Auth → Prop where
  | early : Counted i now i
  | counted : Counted i now (i.anonymousLimit now).2

/-- What a call that prunes has done when it fails early. -/
inductive Pruned (i : Auth) (now : Nat) : Auth → Prop where
  | early : Pruned i now i
  | pruned : Pruned i now (i.prune now)

theorem Counted.of {P : Auth → Prop} (h : Counted i now j) (hi : P i)
    (hl : P (i.anonymousLimit now).2) : P j := by
  cases h with
  | early => exact hi
  | counted => exact hl

theorem Pruned.of {P : Auth → Prop} (h : Pruned i now j) (hi : P i) (hp : P (i.prune now)) :
    P j := by
  cases h with
  | early => exact hi
  | pruned => exact hp

theorem counted_of {i j : Auth} {r : Except ErrorCode Unit} (h : i.anonymousLimit now = (r, j)) :
    j = (i.anonymousLimit now).2 := by
  rw [h]

theorem activeDevice_of_any {i : Auth}
    (h : (i.devices.lookup client).any (fun d => !d.device.revoked) = true) :
    ∃ d, i.activeDevice client = some d := by
  unfold activeDevice
  cases hl : i.devices.lookup client with
  | none =>
    rw [hl] at h
    cases h
  | some d =>
    rw [hl, Option.any_some] at h
    exact ⟨d, Option.filter_eq_some_iff.2 ⟨rfl, h⟩⟩

/-- The call is counted, and then it is refused or the tables are pruned. -/
theorem anonymousLimit_cases (i : Auth) (now : Nat) :
    ∃ start requests, let j : Auth := { i with windowStart := start, requests }
      i.anonymousLimit now = (.error .rateLimited, j) ∨
        i.anonymousLimit now = (.ok (), j.prune now) := by
  unfold anonymousLimit
  simp only
  split
  · split
    · exact ⟨_, _, .inl rfl⟩
    · exact ⟨_, _, .inr rfl⟩
  · split
    · exact ⟨_, _, .inl rfl⟩
    · exact ⟨_, _, .inr rfl⟩

/-- A ticket for pairing is refused, or it is entered where there is room. -/
theorem issuePairTicket_cases (C : Crypto) (i : Auth) (scopes : List Scope) (now : Nat)
    (secret : String) :
    (∃ e j, issuePairTicket C i scopes now secret = (.error e, j) ∧ Pruned i now j) ∨
      Table.size (i.prune now).pairs < 16 ∧
        issuePairTicket C i scopes now secret = (.ok secret, { i.prune now with
          pairs := (i.prune now).pairs.insert (C.key secret) ⟨scopes, now + fromSecs 300⟩ }) := by
  unfold issuePairTicket
  split
  · exact .inl ⟨_, i, rfl, .early⟩
  · split
    · exact .inl ⟨_, i, rfl, .early⟩
    · simp only
      split
      · exact .inl ⟨_, _, rfl, .pruned⟩
      · next hroom => exact .inr ⟨Nat.not_le.1 hroom, rfl⟩

/-- A pairing fails early, or its ticket is taken out and it fails or adds a device. -/
theorem pair_cases (C : Crypto) (i : Auth) (ticket publicKey label : String) (now : Nat)
    (id : Uuid) (io : Bool) :
    (∃ e j, pair C i ticket publicKey label now id io = (.error e, j) ∧ Counted i now j) ∨
      ∃ j p, j = (i.anonymousLimit now).2 ∧ j.pairs.lookup (C.key ticket) = some p ∧
        let k := { j with pairs := j.pairs.erase (C.key ticket) }
        (∃ e, pair C i ticket publicKey label now id io = (.error e, k)) ∨
          ∃ raw, let d : Device := ⟨id, raw, trim label, p.scopes, false⟩
            j.activeDevices < 64 ∧ pair C i ticket publicKey label now id io =
              (.ok d, { k with store := k.store.saveDevice d }.addDevice d) := by
  unfold pair
  split
  · exact .inl ⟨_, i, rfl, .early⟩
  split
  · exact .inl ⟨_, i, rfl, .early⟩
  split
  · exact .inl ⟨_, i, rfl, .early⟩
  next raw _ =>
  split
  · exact .inl ⟨_, i, rfl, .early⟩
  split
  · next e j hj =>
    rw [counted_of hj]
    exact .inl ⟨_, _, rfl, .counted⟩
  next j hj =>
  rw [counted_of hj]
  split
  · exact .inl ⟨_, _, rfl, .counted⟩
  next p hp =>
  refine .inr ⟨_, p, rfl, hp, ?_⟩
  simp only
  split
  · exact .inl ⟨_, rfl⟩
  next hroom =>
  split
  · exact .inr ⟨raw, Nat.not_le.1 hroom, rfl⟩
  · exact .inl ⟨_, rfl⟩

/-- A challenge is refused, or it is entered for an active device where there is room. -/
theorem challenge_cases (i : Auth) (client : Uuid) (now unixMs : Nat) (id nonce : String) :
    (∃ e j, i.challenge client now unixMs id nonce = (.error e, j) ∧ Counted i now j) ∨
      ∃ j d message, j = (i.anonymousLimit now).2 ∧ j.activeDevice client = some d ∧
        Table.size j.challenges < 128 ∧ i.challenge client now unixMs id nonce =
          (.ok (id, message), { j with
            challenges := j.challenges.insert id ⟨client, message, now + fromSecs 30⟩ }) := by
  unfold challenge
  split
  · exact .inl ⟨_, i, rfl, .early⟩
  split
  · next e j hj =>
    rw [counted_of hj]
    exact .inl ⟨_, _, rfl, .counted⟩
  next j hj =>
  rw [counted_of hj]
  split
  · exact .inl ⟨_, _, rfl, .counted⟩
  next hany =>
  obtain ⟨d, hd⟩ := activeDevice_of_any (not_not.1 hany)
  split
  · exact .inl ⟨_, _, rfl, .counted⟩
  next hroom => exact .inr ⟨_, d, _, rfl, hd, Nat.not_le.1 hroom, rfl⟩

/-- A verification fails early, or its challenge is taken out and it fails or gives access. -/
theorem verify_cases (C : Crypto) (i : Auth) (id sig : String) (now : Nat) (secret : String) :
    (∃ e j, verify C i id sig now secret = (.error e, j) ∧ Counted i now j) ∨
      ∃ j c, j = (i.anonymousLimit now).2 ∧ j.challenges.lookup id = some c ∧
        let k := { j with challenges := j.challenges.erase id }
        (∃ e, verify C i id sig now secret = (.error e, k)) ∨
          ∃ d, j.activeDevice c.client = some d ∧ Table.size j.access < 256 ∧
            verify C i id sig now secret = (.ok secret, { k with
              access := k.access.insert (C.key secret) ⟨c.client, now + fromSecs 600⟩ }) := by
  unfold verify
  split
  · exact .inl ⟨_, i, rfl, .early⟩
  split
  · exact .inl ⟨_, i, rfl, .early⟩
  split
  · next e j hj =>
    rw [counted_of hj]
    exact .inl ⟨_, _, rfl, .counted⟩
  next j hj =>
  rw [counted_of hj]
  split
  · exact .inl ⟨_, _, rfl, .counted⟩
  next c hc =>
  refine .inr ⟨_, c, rfl, hc, ?_⟩
  simp only
  split
  · exact .inl ⟨_, rfl⟩
  next d hd =>
  split
  · exact .inl ⟨_, rfl⟩
  split
  · exact .inl ⟨_, rfl⟩
  next hroom => exact .inr ⟨d, hd, Nat.not_le.1 hroom, rfl⟩

/-- A ticket is refused, or it is entered for the principal where there is room. -/
theorem issueWs_cases (C : Crypto) (i : Auth) (p : Principal) (channel : String)
    (session : Option Uuid) (now : Nat) (secret : String) :
    (∃ e j, issueWs C i p channel session now secret = (.error e, j) ∧ Pruned i now j) ∨
      Table.size (i.prune now).ws < 128 ∧
        issueWs C i p channel session now secret = (.ok secret, { i.prune now with
          ws := (i.prune now).ws.insert (C.key secret)
            ⟨p, channel, session, now + fromSecs 30⟩ }) := by
  unfold issueWs
  split
  · exact .inl ⟨_, i, rfl, .early⟩
  split
  · exact .inl ⟨_, i, rfl, .early⟩
  split
  · exact .inl ⟨_, i, rfl, .early⟩
  simp only
  split
  · exact .inl ⟨_, _, rfl, .pruned⟩
  next hroom => exact .inr ⟨Nat.not_le.1 hroom, rfl⟩

/-- A ticket is not there, or it is taken out, and it is good or not. -/
theorem consumeWs_cases (C : Crypto) (i : Auth) (token channel : String) (now : Nat) :
    (∃ e j, consumeWs C i token channel now = (.error e, j) ∧ Pruned i now j) ∨
      ∃ t, (i.prune now).ws.lookup (C.key token) = some t ∧
        let k := { i.prune now with ws := (i.prune now).ws.erase (C.key token) }
        (∃ e, consumeWs C i token channel now = (.error e, k)) ∨
          t.channel = channel ∧ t.principal.require i.cancelled now .terminalRead = .ok () ∧
            consumeWs C i token channel now = (.ok (t.principal, t.session), k) := by
  unfold consumeWs
  split
  · exact .inl ⟨_, i, rfl, .early⟩
  split
  · exact .inl ⟨_, i, rfl, .early⟩
  simp only
  split
  · exact .inl ⟨_, _, rfl, .pruned⟩
  next t ht =>
  refine .inr ⟨t, ht, ?_⟩
  split
  · exact .inl ⟨_, rfl⟩
  next hch =>
  split
  · exact .inl ⟨_, rfl⟩
  next hr => exact .inr ⟨not_not.1 hch, hr, rfl⟩

end Auth
end RemoteCodex
