import RemoteCodex.Lib.Ledger
import RemoteCodex.Agent.AuthRuns

namespace RemoteCodex
set_option autoImplicit true
open Trace
namespace Auth

/-- The credentials that are good for one use, by the text that is presented. -/
inductive Credential where
  | pairTicket (ticket : String)
  | challenge (id : String)
  | wsTicket (token : String)
  deriving DecidableEq

/-- The credential is in its table. -/
def Holds (C : Crypto) (i : Auth) : Credential → Prop
  | .pairTicket ticket => ∃ p, i.pairs.lookup (C.key ticket) = some p
  | .challenge id => ∃ c, i.challenges.lookup id = some c
  | .wsTicket token => ∃ t, i.ws.lookup (C.key token) = some t

/-- The credential an operation presents and the tables it looks it up in, when the checks before
the lookup let it come that far. -/
def Op.attempt (C : Crypto) (i : Auth) (now : Nat) : Op → Option (Credential × Auth)
  | .pair ticket publicKey label _ _ =>
    if i.blocked then none
    else if 128 < ticket.utf8ByteSize ∨ trim label = "" ∨ 160 < label.utf8ByteSize ∨
        256 < publicKey.utf8ByteSize then none
    else if ¬ (C.decode publicKey).any C.validKey then none
    else
      match i.anonymousLimit now with
      | (.error _, _) => none
      | (.ok (), j) => some (.pairTicket ticket, j)
  | .verify id sig _ =>
    if i.blocked then none
    else if 128 < id.utf8ByteSize ∨ 256 < sig.utf8ByteSize then none
    else
      match i.anonymousLimit now with
      | (.error _, _) => none
      | (.ok (), j) => some (.challenge id, j)
  | .consumeWs token _ =>
    if i.blocked then none
    else if 128 < token.utf8ByteSize then none
    else some (.wsTicket token, i.prune now)
  | _ => none

/-- An operation with its time and its reply. -/
structure Call where
  now : Nat
  op : Op
  reply : Reply

def Call.issued : Call → List Credential
  | ⟨_, .issuePairTicket _ _, .secret (.ok ticket)⟩ => [.pairTicket ticket]
  | ⟨_, .challenge _ _ _ _, .challenge (.ok (id, _))⟩ => [.challenge id]
  | ⟨_, .issueWs _ _ _ _, .secret (.ok token)⟩ => [.wsTicket token]
  | _ => []

/-- The credential an operation succeeded with. -/
def Call.spent : Call → List Credential
  | ⟨_, .pair ticket _ _ _ _, .device (.ok _)⟩ => [.pairTicket ticket]
  | ⟨_, .verify id _ _, .secret (.ok _)⟩ => [.challenge id]
  | ⟨_, .consumeWs token _, .consumed (.ok _)⟩ => [.wsTicket token]
  | _ => []

/-- The tables of one-time credentials only lose entries. -/
structure Fewer (i i' : Auth) : Prop where
  pairs : ∀ k v, i'.pairs.lookup k = some v → i.pairs.lookup k = some v
  challenges : ∀ k v, i'.challenges.lookup k = some v → i.challenges.lookup k = some v
  ws : ∀ k v, i'.ws.lookup k = some v → i.ws.lookup k = some v

theorem Fewer.refl (i : Auth) : Fewer i i := ⟨fun _ _ h => h, fun _ _ h => h, fun _ _ h => h⟩

theorem Fewer.trans (h : Fewer i j) (h' : Fewer j k) : Fewer i k where
  pairs := fun a v hv => h.pairs a v (h'.pairs a v hv)
  challenges := fun a v hv => h.challenges a v (h'.challenges a v hv)
  ws := fun a v hv => h.ws a v (h'.ws a v hv)

/-- Changes of the other fields only. -/
theorem Fewer.fields (h : Fewer i j) (hp : k.pairs = j.pairs) (hc : k.challenges = j.challenges)
    (hw : k.ws = j.ws) : Fewer i k where
  pairs := hp ▸ h.pairs
  challenges := hc ▸ h.challenges
  ws := hw ▸ h.ws

theorem Fewer.holds (h : Fewer i i') (hc : i'.Holds C c) : i.Holds C c := by
  cases c with
  | pairTicket ticket => exact hc.imp fun p hp => h.pairs _ p hp
  | challenge id => exact hc.imp fun p hp => h.challenges _ p hp
  | wsTicket token => exact hc.imp fun p hp => h.ws _ p hp

theorem prune_fewer (i : Auth) (now : Nat) : Fewer i (i.prune now) where
  pairs := fun _ _ h => (Table.lookup_of_retain h).1
  challenges := fun _ _ h => (Table.lookup_of_retain h).1
  ws := fun _ _ h => (Table.lookup_of_retain h).1

theorem anonymousLimit_fewer (i : Auth) (now : Nat) : Fewer i (i.anonymousLimit now).2 := by
  obtain ⟨start, requests, he | he⟩ := i.anonymousLimit_cases now
  · rw [he]
    exact (Fewer.refl i).fields rfl rfl rfl
  · rw [he]
    exact (prune_fewer i now).fields rfl rfl rfl

theorem Counted.fewer (h : Counted i now j) : Fewer i j :=
  h.of (.refl i) (anonymousLimit_fewer i now)

theorem Pruned.fewer (h : Pruned i now j) : Fewer i j := h.of (.refl i) (prune_fewer i now)

theorem erase_subset {κ ν : Type} [DecidableEq κ] {t : AList fun _ : κ => ν} {k k' : κ} {v : ν}
    (h : (t.erase k).lookup k' = some v) : t.lookup k' = some v := by
  rw [Table.lookup_erase] at h
  split at h
  · cases h
  · exact h

theorem erase_absent {κ ν : Type} [DecidableEq κ] (t : AList fun _ : κ => ν) (k : κ) :
    ¬ ∃ v, (t.erase k).lookup k = some v := by
  rintro ⟨v, hv⟩
  rw [Table.lookup_erase, if_pos rfl] at hv
  cases hv

/-- What an operation does to the one-time credentials. -/
inductive Move (C : Crypto) (i : Auth) (now : Nat) : Op → Reply → Auth → Prop where
  | plain (hf : Fewer i i') (hi : Call.issued ⟨now, op, r⟩ = [])
      (hs : Call.spent ⟨now, op, r⟩ = [])
      (ha : ∀ c j, op.attempt C i now = some (c, j) → ¬ j.Holds C c) : Move C i now op r i'
  | issuedPair (scopes : List Scope) (ticket : String) (p : PairTicket) (hf : Fewer i j) :
      Move C i now (.issuePairTicket scopes ticket) (.secret (.ok ticket))
        { j with pairs := j.pairs.insert (C.key ticket) p }
  | issuedChallenge (client : Uuid) (unixMs : Nat) (id nonce message : String) (hf : Fewer i j) :
      Move C i now (.challenge client unixMs id nonce) (.challenge (.ok (id, message)))
        { j with challenges := j.challenges.insert id ⟨client, message, now + fromSecs 30⟩ }
  | issuedWs (p : Principal) (channel : String) (session : Option Uuid) (token : String)
      (hf : Fewer i j) :
      Move C i now (.issueWs p channel session token) (.secret (.ok token))
        { j with ws := j.ws.insert (C.key token) ⟨p, channel, session, now + fromSecs 30⟩ }
  | found (c : Credential) (j : Auth) (ha : op.attempt C i now = some (c, j)) (hj : Fewer i j)
      (hh : j.Holds C c) (hf : Fewer i i') (hg : ¬ i'.Holds C c)
      (hi : Call.issued ⟨now, op, r⟩ = [])
      (hs : Call.spent ⟨now, op, r⟩ = [] ∨ Call.spent ⟨now, op, r⟩ = [c]) : Move C i now op r i'

/-- An operation that does not come as far as a lookup. -/
theorem Move.early (hf : Fewer i i') (hi : Call.issued ⟨now, op, r⟩ = [])
    (hs : Call.spent ⟨now, op, r⟩ = []) (ha : op.attempt C i now = none) :
    Move C i now op r i' := by
  refine .plain hf hi hs ?_
  intro c j h
  rw [ha] at h
  cases h

/-- A lookup that finds nothing. -/
theorem Move.missed (ha : op.attempt C i now = some (c, j)) (hm : ¬ j.Holds C c) (hf : Fewer i j)
    (hi : Call.issued ⟨now, op, r⟩ = []) (hs : Call.spent ⟨now, op, r⟩ = []) :
    Move C i now op r j := by
  refine .plain hf hi hs ?_
  intro c' j' h
  rw [ha] at h
  cases h
  exact hm

theorem issuePairTicket_move (C : Crypto) (i : Auth) (scopes : List Scope) (now : Nat)
    (secret : String) :
    Move C i now (.issuePairTicket scopes secret)
      (.secret (issuePairTicket C i scopes now secret).1)
      (issuePairTicket C i scopes now secret).2 := by
  rcases issuePairTicket_cases C i scopes now secret with ⟨e, j, he, hj⟩ | ⟨-, he⟩
  · rw [he]
    exact .early hj.fewer rfl rfl rfl
  · rw [he]
    exact .issuedPair scopes secret _ (prune_fewer i now)

theorem challenge_move (C : Crypto) (i : Auth) (client : Uuid) (now unixMs : Nat)
    (id nonce : String) :
    Move C i now (.challenge client unixMs id nonce)
      (.challenge (i.challenge client now unixMs id nonce).1)
      (i.challenge client now unixMs id nonce).2 := by
  rcases i.challenge_cases client now unixMs id nonce with
    ⟨e, j, he, hj⟩ | ⟨j, d, message, rfl, -, -, he⟩
  · rw [he]
    exact .early hj.fewer rfl rfl rfl
  · rw [he]
    exact .issuedChallenge client unixMs id nonce message (anonymousLimit_fewer i now)

theorem issueWs_move (C : Crypto) (i : Auth) (p : Principal) (channel : String)
    (session : Option Uuid) (now : Nat) (secret : String) :
    Move C i now (.issueWs p channel session secret)
      (.secret (issueWs C i p channel session now secret).1)
      (issueWs C i p channel session now secret).2 := by
  rcases issueWs_cases C i p channel session now secret with ⟨e, j, he, hj⟩ | ⟨-, he⟩
  · rw [he]
    exact .early hj.fewer rfl rfl rfl
  · rw [he]
    exact .issuedWs p channel session secret (prune_fewer i now)

theorem open_of_not_blocked {i : Auth} (h : ¬ i.blocked = true) : i.ensureOpen = .ok () := if_neg h

theorem pair_move (C : Crypto) (i : Auth) (ticket publicKey label : String) (now : Nat) (id : Uuid)
    (io : Bool) :
    Move C i now (.pair ticket publicKey label id io)
      (.device (pair C i ticket publicKey label now id io).1)
      (pair C i ticket publicKey label now id io).2 := by
  have hf := anonymousLimit_fewer i now
  by_cases hb : i.blocked = true
  · simp only [pair, ensureOpen, hb, ↓reduceIte]
    exact .early (.refl i) rfl rfl (if_pos hb)
  by_cases hsize : 128 < ticket.utf8ByteSize ∨ trim label = "" ∨ 160 < label.utf8ByteSize ∨
      256 < publicKey.utf8ByteSize
  · simp only [pair, open_of_not_blocked hb, if_pos hsize]
    exact .early (.refl i) rfl rfl (by simp only [Op.attempt, if_neg hb, if_pos hsize])
  cases hd : C.decode publicKey with
  | none =>
    simp only [pair, open_of_not_blocked hb, if_neg hsize, hd]
    refine .early (.refl i) rfl rfl ?_
    simp only [Op.attempt, if_neg hb, if_neg hsize, hd, Option.any_none, Bool.false_eq_true,
      not_false_eq_true, ↓reduceIte]
  | some raw =>
    by_cases hv : C.validKey raw = true
    · have hat : (Op.pair ticket publicKey label id io).attempt C i now =
          match i.anonymousLimit now with
          | (.error _, _) => none
          | (.ok (), j) => some (.pairTicket ticket, j) := by
        simp only [Op.attempt, if_neg hb, if_neg hsize, hd, Option.any_some, hv,
          not_true_eq_false, ↓reduceIte]
      simp only [pair, open_of_not_blocked hb, if_neg hsize, hd, hv, not_true_eq_false,
        ↓reduceIte]
      cases hl : i.anonymousLimit now with
      | mk r j =>
        rw [hl] at hf hat
        cases r with
        | error e => exact .early hf rfl rfl hat
        | ok u =>
          simp only
          cases hp : j.pairs.lookup (C.key ticket) with
          | none =>
            refine .missed hat ?_ hf rfl rfl
            rintro ⟨p, hp'⟩
            rw [hp] at hp'
            cases hp'
          | some p =>
            simp only
            -- from here on the ticket is out of the table, whatever the reply
            have htaken (k : Auth) (hk : k.pairs = j.pairs.erase (C.key ticket)) :
                ¬ k.Holds C (.pairTicket ticket) := by
              simp only [Holds, hk]
              exact erase_absent j.pairs _
            have hfewer (k : Auth) (hk : k.pairs = j.pairs.erase (C.key ticket))
                (hc : k.challenges = j.challenges) (hw : k.ws = j.ws) : Fewer i k := by
              refine hf.trans ⟨?_, hc ▸ fun _ _ h => h, hw ▸ fun _ _ h => h⟩
              rw [hk]
              exact fun _ _ h => erase_subset h
            split
            · exact .found _ j hat hf ⟨p, hp⟩ (hfewer _ rfl rfl rfl) (htaken _ rfl) rfl (.inl rfl)
            · split
              · exact .found _ j hat hf ⟨p, hp⟩ (hfewer _ rfl rfl rfl) (htaken _ rfl) rfl
                  (.inr rfl)
              · exact .found _ j hat hf ⟨p, hp⟩ (hfewer _ rfl rfl rfl) (htaken _ rfl) rfl
                  (.inl rfl)
    · simp only [pair, open_of_not_blocked hb, if_neg hsize, hd, if_pos hv]
      refine .early (.refl i) rfl rfl ?_
      simp only [Op.attempt, if_neg hb, if_neg hsize, hd, Option.any_some, if_pos hv]

theorem verify_move (C : Crypto) (i : Auth) (id sig : String) (now : Nat) (secret : String) :
    Move C i now (.verify id sig secret) (.secret (verify C i id sig now secret).1)
      (verify C i id sig now secret).2 := by
  have hf := anonymousLimit_fewer i now
  by_cases hb : i.blocked = true
  · simp only [verify, ensureOpen, hb, ↓reduceIte]
    exact .early (.refl i) rfl rfl (if_pos hb)
  by_cases hsize : 128 < id.utf8ByteSize ∨ 256 < sig.utf8ByteSize
  · simp only [verify, open_of_not_blocked hb, if_pos hsize]
    exact .early (.refl i) rfl rfl (by simp only [Op.attempt, if_neg hb, if_pos hsize])
  have hat : (Op.verify id sig secret).attempt C i now =
      match i.anonymousLimit now with
      | (.error _, _) => none
      | (.ok (), j) => some (.challenge id, j) := by
    simp only [Op.attempt, if_neg hb, if_neg hsize]
  simp only [verify, open_of_not_blocked hb, if_neg hsize]
  cases hl : i.anonymousLimit now with
  | mk r j =>
    rw [hl] at hf hat
    cases r with
    | error e => exact .early hf rfl rfl hat
    | ok u =>
      simp only
      cases hc : j.challenges.lookup id with
      | none =>
        refine .missed hat ?_ hf rfl rfl
        rintro ⟨c, hc'⟩
        rw [hc] at hc'
        cases hc'
      | some challenge =>
        have htaken (k : Auth) (hk : k.challenges = j.challenges.erase id) :
            ¬ k.Holds C (.challenge id) := by
          simp only [Holds, hk]
          exact erase_absent j.challenges _
        have hfewer (k : Auth) (hk : k.challenges = j.challenges.erase id)
            (hp : k.pairs = j.pairs) (hw : k.ws = j.ws) : Fewer i k := by
          refine hf.trans ⟨hp ▸ fun _ _ h => h, ?_, hw ▸ fun _ _ h => h⟩
          rw [hk]
          exact fun _ _ h => erase_subset h
        have hfail (e : ErrorCode) (k : Auth) (hk : k.challenges = j.challenges.erase id)
            (hp : k.pairs = j.pairs) (hw : k.ws = j.ws) :
            Move C i now (.verify id sig secret) (.secret (.error e)) k :=
          .found _ j hat hf ⟨challenge, hc⟩ (hfewer k hk hp hw) (htaken k hk) rfl (.inl rfl)
        simp only
        split
        · exact hfail _ _ rfl rfl rfl
        · split
          · exact hfail _ _ rfl rfl rfl
          · split
            · exact hfail _ _ rfl rfl rfl
            · exact .found _ j hat hf ⟨challenge, hc⟩ (hfewer _ rfl rfl rfl) (htaken _ rfl) rfl
                (.inr rfl)

theorem consumeWs_move (C : Crypto) (i : Auth) (token channel : String) (now : Nat) :
    Move C i now (.consumeWs token channel) (.consumed (consumeWs C i token channel now).1)
      (consumeWs C i token channel now).2 := by
  have hf := prune_fewer i now
  by_cases hb : i.blocked = true
  · simp only [consumeWs, ensureOpen, hb, ↓reduceIte]
    exact .early (.refl i) rfl rfl (if_pos hb)
  by_cases hsize : 128 < token.utf8ByteSize
  · simp only [consumeWs, open_of_not_blocked hb, if_pos hsize]
    exact .early (.refl i) rfl rfl (by simp only [Op.attempt, if_neg hb, if_pos hsize])
  have hat : (Op.consumeWs token channel).attempt C i now =
      some (.wsTicket token, i.prune now) := by
    simp only [Op.attempt, if_neg hb, if_neg hsize]
  simp only [consumeWs, open_of_not_blocked hb, if_neg hsize]
  cases ht : (i.prune now).ws.lookup (C.key token) with
  | none =>
    refine .missed hat ?_ hf rfl rfl
    rintro ⟨t, ht'⟩
    rw [ht] at ht'
    cases ht'
  | some t =>
    have htaken : ¬ { i.prune now with ws := (i.prune now).ws.erase (C.key token) }.Holds C
        (.wsTicket token) := erase_absent _ _
    have hfewer : Fewer i { i.prune now with ws := (i.prune now).ws.erase (C.key token) } :=
      hf.trans ⟨fun _ _ h => h, fun _ _ h => h, fun _ _ h => erase_subset h⟩
    simp only
    split
    · exact .found _ _ hat hf ⟨t, ht⟩ hfewer htaken rfl (.inl rfl)
    · split
      · exact .found _ _ hat hf ⟨t, ht⟩ hfewer htaken rfl (.inl rfl)
      · exact .found _ _ hat hf ⟨t, ht⟩ hfewer htaken rfl (.inr rfl)

theorem Op.move (C : Crypto) (i : Auth) (now : Nat) (op : Op) :
    Move C i now op (op.run C i now).1 (op.run C i now).2 := by
  cases op with
  | issuePairTicket scopes secret => exact issuePairTicket_move C i scopes now secret
  | pair ticket publicKey label id io => exact pair_move C i ticket publicKey label now id io
  | challenge client unixMs id nonce => exact challenge_move C i client now unixMs id nonce
  | verify id sig secret => exact verify_move C i id sig now secret
  | authorize token => exact .early (.refl i) rfl rfl rfl
  | resumeLocal io => cases io <;> exact .early ((Fewer.refl i).fields rfl rfl rfl) rfl rfl rfl
  | issueWs p channel session secret => exact issueWs_move C i p channel session now secret
  | consumeWs token channel => exact consumeWs_move C i token channel now
  | devicePrincipal client => exact .early (.refl i) rfl rfl rfl
  | revoke id io =>
    simp only [run, Auth.revoke]
    split
    · exact .early (.refl i) rfl rfl rfl
    · split
      · refine .early ⟨fun _ _ h => h, fun _ _ h => h, ?_⟩ rfl rfl rfl
        exact fun k t ht => (Table.lookup_of_retain ht).1
      · exact .early ((Fewer.refl i).fields rfl rfl rfl) rfl rfl rfl
  | blockAll io =>
    refine .early ⟨?_, ?_, ?_⟩ rfl rfl rfl <;>
    · intro k v hv
      simp only [run, Auth.blockAll, AList.lookup_empty, reduceCtorEq] at hv

/-- An issued credential is the only one that comes into a table, and a spent one leaves it. -/
theorem Move.turn (hkey : Function.Injective C.key) (h : Move C i now op r i') :
    Ledger.Turn (i.Holds C) (i'.Holds C) (Call.issued ⟨now, op, r⟩)
      (Call.spent ⟨now, op, r⟩) := by
  cases h with
  | plain hf hi hs ha =>
    rw [hi, hs]
    exact .unspent fun c hc => .inl (hf.holds hc)
  | issuedPair scopes ticket p hf =>
    apply Ledger.Turn.unspent
    intro c hc
    cases c with
    | pairTicket ticket' =>
      obtain ⟨v, hv⟩ := hc
      rw [Table.lookup_insert] at hv
      split at hv
      · next heq => rw [hkey heq]; exact .inr (.head _)
      · exact .inl ⟨v, hf.pairs _ v hv⟩
    | challenge id => exact .inl (hc.imp fun v hv => hf.challenges _ v hv)
    | wsTicket token => exact .inl (hc.imp fun v hv => hf.ws _ v hv)
  | issuedChallenge client unixMs id nonce message hf =>
    apply Ledger.Turn.unspent
    intro c hc
    cases c with
    | pairTicket ticket => exact .inl (hc.imp fun v hv => hf.pairs _ v hv)
    | challenge id' =>
      obtain ⟨v, hv⟩ := hc
      rw [Table.lookup_insert] at hv
      split at hv
      · next heq => rw [heq]; exact .inr (.head _)
      · exact .inl ⟨v, hf.challenges _ v hv⟩
    | wsTicket token => exact .inl (hc.imp fun v hv => hf.ws _ v hv)
  | issuedWs p channel session token hf =>
    apply Ledger.Turn.unspent
    intro c hc
    cases c with
    | pairTicket ticket => exact .inl (hc.imp fun v hv => hf.pairs _ v hv)
    | challenge id => exact .inl (hc.imp fun v hv => hf.challenges _ v hv)
    | wsTicket token' =>
      obtain ⟨v, hv⟩ := hc
      rw [Table.lookup_insert] at hv
      split at hv
      · next heq => rw [hkey heq]; exact .inr (.head _)
      · exact .inl ⟨v, hf.ws _ v hv⟩
  | found c j ha hj hh hf hg hi hs =>
    rw [hi]
    rcases hs with hs | hs
    · rw [hs]
      exact .unspent fun c hc => .inl (hf.holds hc)
    · rw [hs]
      refine ⟨fun c hc => .inl (hf.holds hc), ?_, List.nodup_singleton c⟩
      intro c' hc
      rw [List.mem_singleton.1 hc]
      exact ⟨hj.holds hh, hg⟩

/-- A credential that is looked up and found is taken out. -/
theorem Move.removes (h : Move C i now op r i') (ha : op.attempt C i now = some (c, j))
    (hh : j.Holds C c) : ¬ i'.Holds C c := by
  cases h with
  | plain hf hi hs hmiss => exact absurd hh (hmiss c j ha)
  | issuedPair | issuedChallenge | issuedWs => cases ha
  | found c' j' ha' hj hh' hf hg =>
    rw [ha'] at ha
    cases ha
    exact hg

/-- Only a credential that was looked up and found is spent. -/
theorem Move.spends (h : Move C i now op r i') (hc : c ∈ Call.spent ⟨now, op, r⟩) :
    ∃ j, op.attempt C i now = some (c, j) ∧ j.Holds C c := by
  cases h with
  | plain hf hi hs =>
    rw [hs] at hc
    cases hc
  | issuedPair | issuedChallenge | issuedWs => cases hc
  | found c' j ha hj hh hf hg hi hs =>
    rcases hs with hs | hs
    · rw [hs] at hc
      cases hc
    · rw [hs, List.mem_singleton] at hc
      subst hc
      exact ⟨j, ha, hh⟩

/-- Where the entries of the tables come from. -/
structure Origin (C : Crypto) (es : List Call) (i : Auth) : Prop where
  ws : ∀ k t, i.ws.lookup k = some t → ∃ now token,
    ⟨now, .issueWs t.principal t.channel t.session token, .secret (.ok token)⟩ ∈ es ∧
      k = C.key token ∧ t.untilTime = now + fromSecs 30
  challenges : ∀ k c, i.challenges.lookup k = some c → ∃ now unixMs nonce message,
    ⟨now, .challenge c.client unixMs k nonce, .challenge (.ok (k, message))⟩ ∈ es

theorem Origin.fewer (h : Origin C es i) (hf : Fewer i i') : Origin C (es ++ fs) i' where
  ws := by
    intro k t ht
    obtain ⟨now, token, hm, hk, hu⟩ := h.ws k t (hf.ws k t ht)
    exact ⟨now, token, List.mem_append_left _ hm, hk, hu⟩
  challenges := by
    intro k c hc
    obtain ⟨now, unixMs, nonce, message, hm⟩ := h.challenges k c (hf.challenges k c hc)
    exact ⟨now, unixMs, nonce, message, List.mem_append_left _ hm⟩

theorem Origin.move (h : Origin C es i) (hm : Move C i now op r i') :
    Origin C (es ++ [⟨now, op, r⟩]) i' := by
  cases hm with
  | plain hf => exact h.fewer hf
  | found c j ha hj hh hf => exact h.fewer hf
  | issuedPair scopes ticket p hf => exact ⟨(h.fewer hf).ws, (h.fewer hf).challenges⟩
  | issuedChallenge client unixMs id nonce message hf =>
    refine ⟨(h.fewer hf).ws, ?_⟩
    intro k c hc
    rw [Table.lookup_insert] at hc
    split at hc
    · next heq =>
      cases hc
      subst heq
      exact ⟨now, unixMs, nonce, message, List.mem_append_right _ (.head _)⟩
    · exact (h.fewer hf).challenges k c hc
  | issuedWs p channel session token hf =>
    refine ⟨?_, (h.fewer hf).challenges⟩
    intro k t ht
    rw [Table.lookup_insert] at ht
    split at ht
    · next heq =>
      cases ht
      exact ⟨now, token, List.mem_append_right _ (.head _), heq, rfl⟩
    · exact (h.fewer hf).ws k t ht

/-- A ticket is consumed before its expiry, at its channel, for its principal and session. -/
theorem consumeWs_ticket (h : (consumeWs C i token channel now).1 = .ok (p, session)) :
    ∃ t, i.ws.lookup (C.key token) = some t ∧ now < t.untilTime ∧ t.channel = channel ∧
      t.principal = p ∧ t.session = session := by
  rcases consumeWs_cases C i token channel now with
    ⟨e, j, he, hj⟩ | ⟨t, ht, ⟨e, he⟩ | ⟨hch, -, he⟩⟩
  · rw [he] at h
    cases h
  · rw [he] at h
    cases h
  · rw [he] at h
    cases h
    obtain ⟨hl, hlt⟩ := Table.lookup_of_retain ht
    exact ⟨t, hl, of_decide_eq_true hlt, hch, rfl, rfl⟩

end Auth
end RemoteCodex
