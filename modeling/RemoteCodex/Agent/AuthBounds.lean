import RemoteCodex.Agent.AuthRuns

namespace RemoteCodex
set_option autoImplicit true
open Trace
namespace Auth

/-- No table is larger than its quota. -/
structure Bounded (i : Auth) : Prop where
  pairs : Table.size i.pairs ≤ 16
  challenges : Table.size i.challenges ≤ 128
  access : Table.size i.access ≤ 256
  ws : Table.size i.ws ≤ 128
  devices : i.activeDevices ≤ 64

/-- No table has grown. -/
structure Smaller (i i' : Auth) : Prop where
  pairs : Table.size i'.pairs ≤ Table.size i.pairs
  challenges : Table.size i'.challenges ≤ Table.size i.challenges
  access : Table.size i'.access ≤ Table.size i.access
  ws : Table.size i'.ws ≤ Table.size i.ws
  devices : i'.activeDevices ≤ i.activeDevices

theorem Smaller.bounded (hs : Smaller i i') (h : Bounded i) : Bounded i' where
  pairs := hs.pairs.trans h.pairs
  challenges := hs.challenges.trans h.challenges
  access := hs.access.trans h.access
  ws := hs.ws.trans h.ws
  devices := hs.devices.trans h.devices

theorem prune_smaller (i : Auth) (now : Nat) : Smaller i (i.prune now) where
  pairs := Table.size_retain_le ..
  challenges := Table.size_retain_le ..
  access := Table.size_retain_le ..
  ws := Table.size_retain_le ..
  devices := le_rfl

theorem anonymousLimit_smaller (i : Auth) (now : Nat) : Smaller i (i.anonymousLimit now).2 := by
  have hp := prune_smaller i now
  obtain ⟨start, requests, he | he⟩ := i.anonymousLimit_cases now
  · rw [he]
    exact ⟨le_rfl, le_rfl, le_rfl, le_rfl, le_rfl⟩
  · rw [he]
    exact ⟨hp.pairs, hp.challenges, hp.access, hp.ws, hp.devices⟩

/-- A device that comes in is counted once, and not at all if it is revoked. -/
theorem activeDevices_insert_le (i : Auth) (id : Uuid) (d : DeviceState) :
    { i with devices := i.devices.insert id d }.activeDevices ≤
      i.activeDevices + if d.device.revoked then 0 else 1 := by
  have hrest : (((i.devices.entries.kerase id).filter fun e => !e.2.device.revoked).length) ≤
      i.activeDevices := ((List.kerase_sublist ..).filter _).length_le
  simp only [activeDevices, AList.entries_insert, List.filter_cons]
  cases d.device.revoked with
  | true => exact hrest
  | false => exact Nat.succ_le_succ hrest

theorem activeDevices_renew (i : Auth) : i.renewTokens.activeDevices = i.activeDevices := by
  simp only [activeDevices, renewTokens, Table.mapValues, List.filter_map, List.length_map]
  congr 2
  funext e
  cases hr : e.2.device.revoked with
  | true => simp only [Function.comp, hr, if_true]
  | false => simp only [Function.comp, hr, Bool.false_eq_true, if_false]

/-- An entry that comes in after the check against its quota. -/
theorem room {κ ν : Type} [DecidableEq κ] {t : AList fun _ : κ => ν} {quota : Nat}
    (h : Table.size t < quota) (k : κ) (v : ν) : Table.size (t.insert k v) ≤ quota :=
  (Table.size_insert_le t k v).trans h

theorem Counted.bounded (hc : Counted i now j) (h : Bounded i) : Bounded j :=
  hc.of h ((anonymousLimit_smaller i now).bounded h)

theorem Pruned.bounded (hp : Pruned i now j) (h : Bounded i) : Bounded j :=
  hp.of h ((prune_smaller i now).bounded h)

theorem issuePairTicket_bounded (C : Crypto) (scopes : List Scope) (now : Nat) (secret : String)
    (h : Bounded i) : Bounded (issuePairTicket C i scopes now secret).2 := by
  rcases issuePairTicket_cases C i scopes now secret with ⟨e, j, he, hj⟩ | ⟨hroom, he⟩
  · rw [he]
    exact hj.bounded h
  · rw [he]
    exact { (prune_smaller i now).bounded h with pairs := room hroom _ _ }

theorem pair_bounded (C : Crypto) (ticket publicKey label : String) (now : Nat) (id : Uuid)
    (io : Bool) (h : Bounded i) : Bounded (pair C i ticket publicKey label now id io).2 := by
  have hl := (anonymousLimit_smaller i now).bounded h
  have ht : Bounded { (i.anonymousLimit now).2 with
      pairs := (i.anonymousLimit now).2.pairs.erase (C.key ticket) } :=
    { hl with pairs := (Table.size_erase_le ..).trans hl.pairs }
  rcases pair_cases C i ticket publicKey label now id io with
    ⟨e, j, he, hj⟩ | ⟨j, p, rfl, -, ⟨e, he⟩ | ⟨raw, hroom, he⟩⟩
  · rw [he]
    exact hj.bounded h
  · rw [he]
    exact ht
  · rw [he]
    have hle := activeDevices_insert_le (i.anonymousLimit now).2 id
      ⟨⟨id, raw, trim label, p.scopes, false⟩, (i.anonymousLimit now).2.nextToken⟩
    exact { ht with devices := hle.trans hroom }

theorem challenge_bounded (client : Uuid) (now unixMs : Nat) (id nonce : String)
    (h : Bounded i) : Bounded (i.challenge client now unixMs id nonce).2 := by
  rcases i.challenge_cases client now unixMs id nonce with
    ⟨e, j, he, hj⟩ | ⟨j, d, message, rfl, -, hroom, he⟩
  · rw [he]
    exact hj.bounded h
  · rw [he]
    exact { (anonymousLimit_smaller i now).bounded h with challenges := room hroom _ _ }

theorem verify_bounded (C : Crypto) (id sig : String) (now : Nat) (secret : String)
    (h : Bounded i) : Bounded (verify C i id sig now secret).2 := by
  have hl := (anonymousLimit_smaller i now).bounded h
  have ht : Bounded { (i.anonymousLimit now).2 with
      challenges := (i.anonymousLimit now).2.challenges.erase id } :=
    { hl with challenges := (Table.size_erase_le ..).trans hl.challenges }
  rcases verify_cases C i id sig now secret with
    ⟨e, j, he, hj⟩ | ⟨j, c, rfl, -, ⟨e, he⟩ | ⟨d, -, hroom, he⟩⟩
  · rw [he]
    exact hj.bounded h
  · rw [he]
    exact ht
  · rw [he]
    exact { ht with access := room hroom _ _ }

theorem issueWs_bounded (C : Crypto) (p : Principal) (channel : String) (session : Option Uuid)
    (now : Nat) (secret : String) (h : Bounded i) :
    Bounded (issueWs C i p channel session now secret).2 := by
  rcases issueWs_cases C i p channel session now secret with ⟨e, j, he, hj⟩ | ⟨hroom, he⟩
  · rw [he]
    exact hj.bounded h
  · rw [he]
    exact { (prune_smaller i now).bounded h with ws := room hroom _ _ }

theorem consumeWs_bounded (C : Crypto) (token channel : String) (now : Nat) (h : Bounded i) :
    Bounded (consumeWs C i token channel now).2 := by
  have hp := (prune_smaller i now).bounded h
  have ht : Bounded { i.prune now with ws := (i.prune now).ws.erase (C.key token) } :=
    { hp with ws := (Table.size_erase_le ..).trans hp.ws }
  rcases consumeWs_cases C i token channel now with
    ⟨e, j, he, hj⟩ | ⟨t, -, ⟨e, he⟩ | ⟨-, -, he⟩⟩
  · rw [he]
    exact hj.bounded h
  · rw [he]
    exact ht
  · rw [he]
    exact ht

theorem revoke_bounded (id : Uuid) (io : Bool) (h : Bounded i) : Bounded (i.revoke id io).2 := by
  unfold revoke
  split
  · exact h
  · next d hd =>
    have hdev := (activeDevices_insert_le i id ⟨{ d.device with revoked := true }, d.cancel⟩).trans
      h.devices
    simp only
    split
    · exact ⟨h.pairs, h.challenges, (Table.size_retain_le ..).trans h.access,
        (Table.size_retain_le ..).trans h.ws, hdev⟩
    · exact ⟨h.pairs, h.challenges, h.access, h.ws, hdev⟩

theorem Op.bounded (C : Crypto) (now : Nat) (op : Op) (h : Bounded i) :
    Bounded (op.run C i now).2 := by
  cases op with
  | issuePairTicket scopes secret => exact issuePairTicket_bounded C scopes now secret h
  | pair ticket publicKey label id io => exact pair_bounded C ticket publicKey label now id io h
  | challenge client unixMs id nonce => exact challenge_bounded client now unixMs id nonce h
  | verify id sig secret => exact verify_bounded C id sig now secret h
  | authorize token | devicePrincipal client => exact h
  | resumeLocal io =>
    cases io with
    | false => exact h
    | true => exact { h with devices := (activeDevices_renew i).trans_le h.devices }
  | issueWs p channel session secret => exact issueWs_bounded C p channel session now secret h
  | consumeWs token channel => exact consumeWs_bounded C token channel now h
  | revoke id io => exact revoke_bounded id io h
  | blockAll io =>
    exact ⟨Nat.zero_le _, Nat.zero_le _, Nat.zero_le _, Nat.zero_le _, h.devices⟩

/-- The calls of one process, each at a time that is not before the last; any call may be made. -/
inductive Serves (C : Crypto) : Auth × Nat → List Event → Auth × Nat → Prop where
  | call (i : Auth) (last now : Nat) (op : Op) (ht : last ≤ now) :
      Serves C (i, last) [⟨op, (op.run C i now).1⟩] ((op.run C i now).2, now)

theorem bounded_new (blocked : Bool) (audience : String) (now : Nat) :
    Bounded (new ⟨∅, blocked⟩ audience now) :=
  ⟨Nat.zero_le _, Nat.zero_le _, Nat.zero_le _, Nat.zero_le _, Nat.zero_le _⟩

/-- From the empty state on no table grows beyond its quota, whatever the store does. -/
theorem tables_bounded {C : Crypto} {blocked : Bool} {audience : String} {start : Nat} {i : Auth}
    (hr : Run (Serves C) (new ⟨∅, blocked⟩ audience start, start) es (i, now)) : Bounded i := by
  apply hr.preserves (P := fun s => Bounded s.1) (bounded_new blocked audience start)
  rintro _ _ _ h ⟨i, last, now, op, ht⟩
  exact op.bounded C now h

theorem tables_bounded_ticket : ∃ (C : Crypto) (i : Auth) (es : List Event),
    Run (Serves C) (new ⟨∅, false⟩ "host" 0, 0) es (i, 5) ∧ Table.size i.pairs = 1 ∧
      Bounded i := by
  let C : Crypto := ⟨fun _ => [], fun _ => none, fun _ => false, fun _ => false, fun _ _ _ => false⟩
  have hr := Run.single (Serves.call (C := C) (new ⟨∅, false⟩ "host" 0) 0 5
    (.issuePairTicket [.terminalRead] "ticket") (Nat.zero_le 5))
  exact ⟨C, _, _, hr, rfl, tables_bounded hr⟩

end Auth
end RemoteCodex
