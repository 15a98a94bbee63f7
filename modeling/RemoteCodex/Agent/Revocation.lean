import RemoteCodex.Agent.AuthRuns

namespace RemoteCodex
set_option autoImplicit true
open Trace
namespace Auth

/-- Resuming gives every active device a new token and leaves the old one uncancelled, so it is
harmless only when no principal that was returned so far can still be used. -/
def Op.Careful (w : World) : Op → Prop
  | .resumeLocal true => ∀ p ∈ w.handed, p.Dead w.auth.cancelled w.now
  | _ => True

/-- A step whose operation, if it resumes, is careful. -/
def CarefulStep (C : Crypto) (w : World) (es : List Event) (w' : World) : Prop :=
  Step C w es w' ∧ ∀ e ∈ es, e.op.Careful w

/-- Tickets are issued to principals that were returned before. -/
def Ticketed (w : World) : Prop :=
  ∀ k t, w.auth.ws.lookup k = some t → t.principal ∈ w.handed

theorem Ticketed.step (h : Ticketed w) (hs : Step C w es w') : Ticketed w' := by
  cases hs with
  | tick d => exact h
  | call op ha =>
    intro k t ht
    apply List.mem_append_left
    rcases Op.tickets C w.auth w.now op ht with ⟨k', hk⟩ | ⟨channel, session, secret, ho⟩
    · exact h k' t hk
    · rw [ho] at ha
      exact ha

theorem Change.cancelled_subset (h : Change i i' op) : i.cancelled ⊆ i'.cancelled := by
  cases h with
  | same _ _ hc | added _ _ _ _ _ hc | renewed _ _ hc => rw [hc]
  | revoked id io d hl hd hn hc => rw [hc]; exact Finset.subset_insert _ _
  | blocked _ _ hc => rw [hc]; exact Finset.subset_union_left

/-- A principal that is dead stays dead. -/
theorem Dead.step {p : Principal} (h : p.Dead w.auth.cancelled w.now) (hs : Step C w es w') :
    p.Dead w'.auth.cancelled w'.now := by
  cases hs with
  | tick d => exact h.mono (Finset.Subset.refl _) (Nat.le_add_right ..)
  | call op ha => exact h.mono (Op.change C w op ha).cancelled_subset (Nat.le_refl _)

/-- Whatever still works is held by a token of the device table. -/
def Tethered (w : World) : Prop :=
  ∀ p ∈ w.handed, p.Dead w.auth.cancelled w.now ∨ w.auth.Attached p

/-- Only resuming detaches a principal. -/
theorem Attached.change {p : Principal} (h : i.Attached p) (hc : Change i i' op)
    (hr : op ≠ .resumeLocal true) : i'.Attached p := by
  obtain ⟨d, hd, hp⟩ := h
  cases hc with
  | same he | blocked he => exact ⟨d, he ▸ hd, hp⟩
  | renewed => exact absurd rfl hr
  | added d' hl _ he =>
    refine ⟨d, ?_, hp⟩
    have hne : p.clientId ≠ d'.clientId := by
      intro heq
      rw [heq, hl] at hd
      cases hd
    rw [he, Table.lookup_insert, if_neg hne, hd]
  | revoked id io d' hl he =>
    by_cases heq : p.clientId = id
    · rw [heq, hl] at hd
      cases hd
      have hi := Table.lookup_insert i.devices id p.clientId
        ⟨{ d.device with revoked := true }, d.cancel⟩
      rw [if_pos heq, ← he] at hi
      exact ⟨_, hi, hp⟩
    · exact ⟨d, by rw [he, Table.lookup_insert, if_neg heq, hd], hp⟩

theorem Tethered.step (h : Tethered w) (ht : Ticketed w) (hs : CarefulStep C w es w') :
    Tethered w' := by
  obtain ⟨hs, hcare⟩ := hs
  have hold : ∀ p ∈ w.handed, p.Dead w'.auth.cancelled w'.now ∨ w'.auth.Attached p := by
    intro p hp
    rcases h p hp with hd | ha
    · exact .inl (Dead.step hd hs)
    · cases hs with
      | tick d => exact .inr ha
      | call op hadm =>
        by_cases hr : op = .resumeLocal true
        · subst hr
          have hd := hcare _ (List.mem_singleton_self _) p hp
          exact .inl (Dead.step hd (.call w _ hadm))
        · exact .inr (ha.change (Op.change C w op hadm) hr)
  intro p hp
  cases hs with
  | tick d => exact hold p hp
  | call op hadm =>
    rcases List.mem_append.1 hp with hp | hp
    · exact hold p hp
    · rcases Op.principals C w.auth w.now op hp with ha | ⟨k, t, hk, hpt⟩
      · exact .inr ha
      · exact hold p (hpt ▸ ht k t hk)

theorem Ticketed.init (store : Store) (audience : String) (start : Nat) :
    Ticketed (.init store audience start) := by
  have hws (ds : List (Sigma fun _ : Uuid => Device)) (i : Auth) :
      (ds.foldl (fun i e => i.addDevice e.2) i).ws = i.ws := by
    induction ds generalizing i with
    | nil => rfl
    | cons d ds ih => exact ih (i.addDevice d.2)
  intro k t ht
  simp only [World.init, Auth.new, hws, AList.lookup_empty, reduceCtorEq] at ht

/-- Both invariants over a careful run. -/
theorem Tethered.run {store : Store} {audience : String}
    (h : Run (CarefulStep C) (.init store audience start) es w) : Tethered w ∧ Ticketed w := by
  refine h.preserves (P := fun w => Tethered w ∧ Ticketed w) ?_ ?_
  · refine ⟨?_, .init store audience start⟩
    intro p hp
    cases hp
  · intro t e u ht hs
    exact ⟨ht.1.step ht.2 hs, ht.2.step hs.1⟩

/-- The operations that end the use of a principal: revoking its client, and blocking all. -/
def Ends (p : Principal) (e : Event) : Prop :=
  (∃ io, e.op = .revoke p.clientId io) ∧ e.reply = .unit (.ok ()) ∨ ∃ io, e.op = .blockAll io

theorem Attached.ends {w : World} {p : Principal} {op : Op} (h : w.auth.Attached p)
    (he : Ends p ⟨op, (op.run C w.auth w.now).1⟩) :
    p.revoked ∈ (op.run C w.auth w.now).2.cancelled := by
  obtain ⟨d, hd, hp⟩ := h
  rw [← hp]
  rcases he with ⟨⟨io, ho⟩, hok⟩ | ⟨io, ho⟩
  · simp only at ho
    subst ho
    simp only [Op.run, Auth.revoke, hd]
    split <;> exact Finset.mem_insert_self _ _
  · simp only at ho
    subst ho
    exact Finset.mem_union_right _ (mem_deviceTokens hd)

/-- A dead principal is never returned by consuming a ticket. -/
theorem Dead.consumed {p : Principal} (h : p.Dead w.auth.cancelled w.now) (hs : Step C w es w') :
    ∀ e ∈ es, ∀ session, e.reply ≠ .consumed (.ok (p, session)) := by
  cases hs with
  | tick d => intro e he; cases he
  | call op ha =>
    intro e he session hr
    rw [List.mem_singleton.1 he] at hr
    simp only at hr
    cases op with
    | consumeWs token channel =>
      injection hr with hr
      have hreq := ((consumeWs_spec C w.auth token channel w.now).2 p session hr).2
      exact (p.dead_iff _ _).1 h _ hreq
    | _ => cases hr

/-- Revocation is final: in every run that resumes only when nothing handed out is alive, a
successful `revoke` of a client, or `block_all`, ends every principal returned before, and no
ticket obtained with one can be consumed. -/
theorem revocation_final {store : Store} {audience : String}
    (hrun : Run (CarefulStep C) (.init store audience start) es w)
    (hend : Step C w [e] w') (hlater : Run (Step C) w' fs w'') {p : Principal}
    (hp : p ∈ w.handed) (he : Ends p e) :
    (∀ s, p.require w''.auth.cancelled w''.now s ≠ .ok ()) ∧
      ∀ f ∈ fs, ∀ session, f.reply ≠ .consumed (.ok (p, session)) := by
  have hdead : p.Dead w'.auth.cancelled w'.now := by
    rcases (Tethered.run hrun).1 p hp with hd | ha
    · exact Dead.step hd hend
    · cases hend with
      | call op hadm => exact .inl (ha.ends he)
  refine ⟨(p.dead_iff _ _).1 ?_, ?_⟩
  · exact hlater.preserves (P := fun w => p.Dead w.auth.cancelled w.now) hdead Dead.step
  · exact hlater.forall_events (P := fun w => p.Dead w.auth.cancelled w.now) hdead Dead.step
      Dead.consumed

/-- A store with one device that may read terminals. -/
def homeStore : Store :=
  ⟨.singleton (.fill 1) ⟨.fill 1, [4], "home", [.terminalRead], false⟩, false⟩

def plainCrypto : Crypto where
  key := fun s => s.toList.map fun c => c.toNat.toUInt8
  decode := fun s => some (s.toList.map fun c => c.toNat.toUInt8)
  validKey := fun _ => true
  validSignature := fun _ => true
  verify := fun _ _ _ => false

/-- A hash that keeps the text. -/
def textCrypto : Crypto := { plainCrypto with key := fun s => s.toByteArray.data.toList }

theorem textCrypto_injective : Function.Injective textCrypto.key := by
  intro s s' h
  rw [← String.toByteArray_inj]
  exact ByteArray.ext (Array.toList_inj.1 h)

/-- The device is used, blocked, resumed, used again and revoked. -/
theorem revocation_final_resumed :
    ∃ w : World, w.handed = [⟨.fill 1, [.terminalRead], 60000000000, 0⟩,
        ⟨.fill 1, [.terminalRead], 60000000000, 1⟩] ∧
      ∀ s, Principal.require ⟨.fill 1, [.terminalRead], 60000000000, 1⟩ w.auth.cancelled w.now s ≠
        .ok () := by
  have hfirst : Run (CarefulStep plainCrypto) (.init homeStore "host" 0) _ _ :=
    Run.single ⟨.call _ (.devicePrincipal (.fill 1)) trivial, by simp [Op.Careful]⟩
  have hblocked := hfirst.snoc
    ⟨.call _ (.blockAll true) trivial, by simp [Op.Careful]⟩
  have hdead : Op.Careful ((World.call plainCrypto (.init homeStore "host" 0)
      (.devicePrincipal (.fill 1))).call plainCrypto (.blockAll true)) (.resumeLocal true) := by
    intro p hp
    left
    rw [List.mem_singleton.1 hp]
    decide
  have hresumed := hblocked.snoc ⟨.call _ (.resumeLocal true) trivial, by
    intro e he
    rw [List.mem_singleton.1 he]
    exact hdead⟩
  have hagain := hresumed.snoc
    ⟨.call _ (.devicePrincipal (.fill 1)) trivial, by simp [Op.Careful]⟩
  exact ⟨_, rfl, (revocation_final hagain (.call _ (.revoke (.fill 1) true) trivial) .nil
    (.tail _ (.head _)) (.inl ⟨⟨true, rfl⟩, rfl⟩)).1⟩

/-- Resuming while nothing is blocked detaches the principal a device is using. -/
theorem revocation_not_final :
    ¬ ∀ (C : Crypto) (store : Store) (audience : String) (start : Nat) (es : List Event)
      (w : World) (e : Event) (w' : World) (fs : List Event) (w'' : World) (p : Principal),
      Run (Step C) (.init store audience start) es w → Step C w [e] w' →
      Run (Step C) w' fs w'' → p ∈ w.handed → Ends p e →
      ∀ s, p.require w''.auth.cancelled w''.now s ≠ .ok () := by
  intro h
  have hused : Run (Step plainCrypto) (.init homeStore "host" 0) _ _ :=
    Run.single (.call _ (.devicePrincipal (.fill 1)) trivial)
  have hresumed := hused.snoc (.call _ (.resumeLocal true) trivial)
  exact h _ _ _ _ _ _ _ _ _ _ ⟨.fill 1, [.terminalRead], 60000000000, 0⟩ hresumed
    (.call _ (.revoke (.fill 1) true) trivial) .nil (.head _)
    (.inl ⟨⟨true, rfl⟩, rfl⟩) .terminalRead (by decide)

/-- Tokens in use were created before, and a revoked device has its token cancelled. -/
structure Tokens (i : Auth) : Prop where
  device : ∀ id d, i.devices.lookup id = some d → d.cancel < i.nextToken
  revoked : ∀ id d, i.devices.lookup id = some d → d.device.revoked = true →
    d.cancel ∈ i.cancelled

theorem Tokens.congr (h : Tokens i) (hd : i'.devices = i.devices)
    (hn : i'.nextToken = i.nextToken) (hc : i.cancelled ⊆ i'.cancelled) : Tokens i' where
  device := by rw [hd, hn]; exact h.device
  revoked := by
    rw [hd]
    intro id d hl hr
    exact hc (h.revoked id d hl hr)

theorem Tokens.addDevice (h : Tokens i) (d : Device) : Tokens (i.addDevice d) := by
  constructor
  · intro id d' hl
    simp only [Auth.addDevice, Table.lookup_insert] at hl ⊢
    split at hl
    · cases hl
      exact Nat.lt_succ_self _
    · exact Nat.lt_succ_of_lt (h.device id d' hl)
  · intro id d' hl hr
    simp only [Auth.addDevice, Table.lookup_insert] at hl ⊢
    split at hl
    · cases hl
      simp only at hr
      rw [if_pos hr]
      exact Finset.mem_insert_self _ _
    · have hold := h.revoked id d' hl hr
      split
      · exact Finset.mem_insert_of_mem hold
      · exact hold

theorem Tokens.new (store : Store) (audience : String) (start : Nat) :
    Tokens (Auth.new store audience start) := by
  have hfold (ds : List (Sigma fun _ : Uuid => Device)) (i : Auth) (h : Tokens i) :
      Tokens (ds.foldl (fun i e => i.addDevice e.2) i) := by
    induction ds generalizing i with
    | nil => exact h
    | cons d ds ih => exact ih (i.addDevice d.2) (h.addDevice d.2)
  apply hfold
  constructor
  · intro id d hl
    simp only [AList.lookup_empty, reduceCtorEq] at hl
  · intro id d hl
    simp only [AList.lookup_empty, reduceCtorEq] at hl

/-- A device after all tokens were renewed is revoked and unchanged, or holds a new token. -/
theorem renewTokens_lookup {i : Auth} {id : Uuid} {d' : DeviceState}
    (h : i.renewTokens.devices.lookup id = some d') :
    ∃ d, i.devices.lookup id = some d ∧ d'.device = d.device ∧
      (d.device.revoked = true ∧ d'.cancel = d.cancel ∨
        d.device.revoked = false ∧ d'.cancel = i.nextToken + d.cancel) := by
  simp only [renewTokens, Table.lookup_mapValues, Option.map_eq_some_iff] at h
  obtain ⟨d, hd, he⟩ := h
  refine ⟨d, hd, ?_⟩
  cases hr : d.device.revoked with
  | true =>
    simp only [hr, ↓reduceIte] at he
    subst he
    exact ⟨rfl, .inl ⟨rfl, rfl⟩⟩
  | false =>
    simp only [hr, Bool.false_eq_true, ↓reduceIte] at he
    subst he
    exact ⟨rfl, .inr ⟨rfl, rfl⟩⟩

theorem Tokens.change (h : Tokens i) (hc : Change i i' op) : Tokens i' := by
  cases hc with
  | same hd hn hc => exact h.congr hd hn (hc ▸ Finset.Subset.refl _)
  | blocked hd hn hc => exact h.congr hd hn (hc ▸ Finset.subset_union_left)
  | added d hl hr hd hn hc =>
    refine (h.addDevice d).congr hd hn ?_
    simp only [Auth.addDevice, hr, Bool.false_eq_true, ↓reduceIte, hc]
    exact Finset.Subset.refl _
  | renewed hd hn hc =>
    constructor
    · intro id d' hl
      rw [hd] at hl
      obtain ⟨d, hold, _, ⟨_, he⟩ | ⟨_, he⟩⟩ := renewTokens_lookup hl
      · rw [hn, he]
        exact Nat.lt_of_lt_of_le (h.device id d hold) (Nat.le_add_right ..)
      · rw [hn, he]
        exact Nat.add_lt_add_left (h.device id d hold) _
    · intro id d' hl hr
      rw [hd] at hl
      obtain ⟨d, hold, hdev, ⟨hrev, he⟩ | ⟨hrev, he⟩⟩ := renewTokens_lookup hl
      · rw [hc, he]
        exact h.revoked id d hold hrev
      · rw [hdev, hrev] at hr
        cases hr
  | revoked id io d hl hd hn hc =>
    constructor
    · intro id' d' hl'
      rw [hd, Table.lookup_insert] at hl'
      rw [hn]
      split at hl'
      · cases hl'
        exact h.device id d hl
      · exact h.device id' d' hl'
    · intro id' d' hl' hr
      rw [hd, Table.lookup_insert] at hl'
      rw [hc]
      split at hl'
      · cases hl'
        exact Finset.mem_insert_self _ _
      · exact Finset.mem_insert_of_mem (h.revoked id' d' hl' hr)

/-- Tokens are only ever added, and devices stay in the table. -/
theorem Change.grows (h : Change i i' op) :
    i.nextToken ≤ i'.nextToken ∧
      ∀ id d, i.devices.lookup id = some d → ∃ d', i'.devices.lookup id = some d' := by
  cases h with
  | same hd hn hc | blocked hd hn hc =>
    rw [hd, hn]
    exact ⟨Nat.le_refl _, fun id d hl => ⟨d, hl⟩⟩
  | added d hl hr hd hn hc =>
    refine ⟨by omega, ?_⟩
    intro id d' hl'
    rw [hd, Table.lookup_insert]
    split
    · exact ⟨_, rfl⟩
    · exact ⟨d', hl'⟩
  | renewed hd hn hc =>
    refine ⟨by omega, ?_⟩
    intro id d hl
    rw [hd]
    simp only [renewTokens, Table.lookup_mapValues, hl, Option.map_some]
    exact ⟨_, rfl⟩
  | revoked id io d hl hd hn hc =>
    refine ⟨Nat.le_of_eq hn.symm, ?_⟩
    intro id' d' hl'
    rw [hd, Table.lookup_insert]
    split
    · exact ⟨_, rfl⟩
    · exact ⟨d', hl'⟩

/-- The principals returned so far name existing tokens and existing devices. -/
structure Named (w : World) : Prop where
  tokens : Tokens w.auth
  handed : ∀ p ∈ w.handed, p.revoked < w.auth.nextToken ∧
    ∃ d, w.auth.devices.lookup p.clientId = some d

theorem Named.step (h : Named w) (ht : Ticketed w) (hs : Step C w es w') : Named w' := by
  cases hs with
  | tick d => exact ⟨h.tokens, h.handed⟩
  | call op ha =>
    have hc := Op.change C w op ha
    have htok := h.tokens.change hc
    have hold : ∀ p ∈ w.handed, p.revoked < (w.call C op).auth.nextToken ∧
        ∃ d, (w.call C op).auth.devices.lookup p.clientId = some d := by
      intro p hp
      obtain ⟨hlt, d, hd⟩ := h.handed p hp
      exact ⟨Nat.lt_of_lt_of_le hlt hc.grows.1, hc.grows.2 _ d hd⟩
    refine ⟨htok, ?_⟩
    intro p hp
    rcases List.mem_append.1 hp with hp | hp
    · exact hold p hp
    · rcases Op.principals C w.auth w.now op hp with ⟨d, hd, hdp⟩ | ⟨k, t, hk, hpt⟩
      · exact ⟨hdp ▸ htok.device _ d hd, d, hd⟩
      · exact hold p (hpt ▸ ht k t hk)

theorem Named.run {store : Store} {audience : String}
    (h : Run (Step C) (.init store audience start) es w) : Named w ∧ Ticketed w := by
  refine h.preserves (P := fun w => Named w ∧ Ticketed w) ?_ ?_
  · refine ⟨⟨.new store audience start, ?_⟩, .init store audience start⟩
    intro p hp
    cases hp
  · intro t e u ht hs
    exact ⟨ht.1.step ht.2 hs, ht.2.step hs⟩

/-- Care is needed: after any resume that leaves a returned principal alive, revoking its client
succeeds and does not reach it. -/
theorem careless_resume {store : Store} {audience : String}
    (h : Run (Step C) (.init store audience start) es w)
    (hp : p ∈ w.handed) (hlive : ¬ p.Dead w.auth.cancelled w.now) :
    ∃ w', Run (Step C) w [⟨.resumeLocal true, .unit (.ok ())⟩,
        ⟨.revoke p.clientId true, .unit (.ok ())⟩] w' ∧
      ¬ p.Dead w'.auth.cancelled w'.now := by
  obtain ⟨⟨htok, hhanded⟩, _⟩ := Named.run h
  obtain ⟨hlt, d, hd⟩ := hhanded p hp
  let w₁ := w.call C (.resumeLocal true)
  have hmid : Step C w [⟨.resumeLocal true, .unit (.ok ())⟩] w₁ := .call w _ trivial
  obtain ⟨d', hd'⟩ := (Op.change C w (.resumeLocal true) trivial).grows.2 _ d hd
  have hreply : (Op.run C w₁.auth w₁.now (.revoke p.clientId true)).1 = .unit (.ok ()) := by
    simp only [Op.run, Auth.revoke]
    rw [show w₁.auth.devices.lookup p.clientId = some d' from hd']
    rfl
  have hlast : Step C w₁ [⟨.revoke p.clientId true, .unit (.ok ())⟩]
      (w₁.call C (.revoke p.clientId true)) := by
    have hs : Step C w₁ _ _ := .call w₁ (.revoke p.clientId true) trivial
    rwa [hreply] at hs
  refine ⟨_, (Run.single hmid).snoc hlast, ?_⟩
  have hcancelled : (w₁.call C (.revoke p.clientId true)).auth.cancelled =
      insert d'.cancel w.auth.cancelled := by
    simp only [World.call, Op.run, Auth.revoke]
    rw [show w₁.auth.devices.lookup p.clientId = some d' from hd']
    rfl
  have hfresh : p.revoked ≠ d'.cancel := by
    obtain ⟨d₀, hd₀, _, ⟨hr, he⟩ | ⟨hr, he⟩⟩ := renewTokens_lookup hd'
    · intro heq
      have hc := htok.revoked _ d₀ hd₀ hr
      rw [← he, ← heq] at hc
      exact hlive (.inl hc)
    · rw [he]
      exact Nat.ne_of_lt (Nat.lt_of_lt_of_le hlt (Nat.le_add_right ..))
  intro hdead
  rw [hcancelled] at hdead
  rcases hdead with hc | hrest
  · rcases Finset.mem_insert.1 hc with heq | hc
    · exact hfresh heq
    · exact hlive (.inl hc)
  · exact hlive (.inr hrest)

end Auth
end RemoteCodex
