import RemoteCodex.Agent.Media

namespace RemoteCodex
set_option autoImplicit true
namespace Media

/-- The effect neither arms the session, nor acts on it, nor grants the lease. -/
def Effect.Harmless : Effect → Prop
  | .armed _ | .action .. => False
  | .send m => m.grants = false
  | .disarm | .frame | .helper _ => True

/-- A turn that gives nothing: the lease and the flag are as before, or both are dropped. -/
structure Tame (l : Loop) (b : Bool) (t : Turn) : Prop where
  source : t.loop.source = l.source
  kept : (t.loop.lease = l.lease ∧ t.loop.lastSeq = l.lastSeq ∧ t.controlled = b) ∨
    (t.loop.lease = none ∧ t.controlled = false)
  effects : ∀ x ∈ t.effects, x.Harmless

namespace Tame

theorem of (hs : l'.source = l.source) (hl : l'.lease = l.lease) (hq : l'.lastSeq = l.lastSeq) :
    Tame l b (.of l' b) :=
  ⟨hs, .inl ⟨hl, hq, rfl⟩, fun _ hx => (List.not_mem_nil hx).elim⟩

theorem refl (l : Loop) (b : Bool) : Tame l b (.of l b) := of rfl rfl rfl

theorem bail (h : Tame l b t) : Tame l b t.bail := { h with }

theorem stop (h : Tame l b t) : Tame l b t.stop := { h with }

/-- One more effect that gives nothing. -/
theorem and (h : Tame l b t) (hx : x.Harmless) :
    Tame l b { t with effects := t.effects ++ [x], next := n } where
  source := h.source
  kept := h.kept
  effects := by
    intro y hy
    rcases List.mem_append.1 hy with hy | hy
    · exact h.effects y hy
    · rw [List.mem_singleton.1 hy]
      exact hx

theorem send (h : Tame l b t) (hm : m.grants = false) (ok : Bool) : Tame l b (t.send ok m) := by
  cases ok with
  | true => exact h.and hm
  | false => exact h.bail

theorem helperSend (h : Tame l b t) (m : HelperIn) (ok : Bool) : Tame l b (t.helperSend ok m) := by
  cases ok with
  | true => exact h.and (x := .helper m) trivial
  | false => exact h.bail

theorem drop (h : Tame l b t) : Tame l b t.drop :=
  have hd := h.and (x := .disarm) (n := t.next) trivial
  ⟨hd.source, .inr ⟨rfl, rfl⟩, hd.effects⟩

/-- The counters of a loop do not matter. -/
theorem recount (h : Tame l' b t) (hs : l'.source = l.source) (hl : l'.lease = l.lease)
    (hq : l'.lastSeq = l.lastSeq) : Tame l b t where
  source := h.source.trans hs
  kept := by
    rcases h.kept with ⟨hl', hq', hb⟩ | hnone
    · exact .inl ⟨hl'.trans hl, hq'.trans hq, hb⟩
    · exact .inr hnone
  effects := h.effects

end Tame

/-- The checks that an action of the client passes. -/
structure Permitted (e : Env) (l : Loop) (leaseEpoch : String) (generation : UInt32)
    (geometryVersion seq : String) (epoch n : UInt64) : Prop where
  epochText : parseU64 leaseEpoch = some epoch
  seqText : parseU64 seq = some n
  held : l.lease = some epoch
  unexpired : e.later < l.leaseUntil
  armed : e.armed = true
  allowed : l.helperControlAllowed = true
  live : l.helperCaptureState = .live
  encoded : e.now - l.lastEncoded ≤ fromMillis 500
  presented : e.now - l.lastPresented ≤ fromMillis 500
  sameGeneration : generation = l.source.view.generation
  sameGeometry : geometryVersion = l.source.view.geometryVersion
  increasing : l.lastSeq < n

/-- What a turn can do. -/
inductive Turns (e : Env) (l : Loop) (b : Bool) (i : Loop.Input) (t : Turn) : Prop where
  | tame (h : Tame l b t)
  | grant (generation : UInt32) (geometryVersion : String) (l' : Loop) (epoch : UInt64)
      (hi : i = .text (some (.acquire generation geometryVersion))) (hs : l'.source = l.source)
      (he : e.arm = some epoch)
      (ht : t = ((Turn.of l' b).grant epoch e.later).send e.sent (.lease (some epoch) none))
  | act (leaseEpoch : String) (generation : UInt32) (geometryVersion seq : String)
      (action : GuiAction) (epoch n : UInt64) (l' : Loop)
      (hi : i = .text (some (.input leaseEpoch generation geometryVersion seq action)))
      (hs : l'.source = l.source) (hl : l'.lease = l.lease)
      (hp : Permitted e l leaseEpoch generation geometryVersion seq epoch n)
      (ht : t = (Turn.of { l' with lastSeq := n } b).call e.acted (.action epoch n action))

namespace Loop

theorem tick_tame (e : Env) (l : Loop) (b : Bool) : Tame l b (l.tick e b) := by
  unfold tick
  split
  · exact (Tame.refl l b).stop
  split
  · exact ((Tame.refl l b).send rfl e.sent).stop
  split
  · exact ((Tame.refl l b).send rfl e.sent).stop
  split
  · exact (Tame.refl l b).drop.send rfl e.sent
  · exact .refl l b

theorem frame_tame (e : Env) (l : Loop) (b : Bool) (sequence : String) (capturedAtMs : UInt64) :
    Tame l b (l.frame e b sequence capturedAtMs) := by
  unfold frame
  split
  · split
    · exact (Tame.refl l b).bail
    · exact .of rfl rfl rfl
  · exact (Tame.refl l b).bail

theorem status_tame (l : Loop) (b : Bool) (captureState : CaptureState)
    (controlAllowed awaiting : Bool) :
    Tame l b (l.status b captureState controlAllowed awaiting) := by
  unfold status
  split
  · exact .of rfl rfl rfl
  · have hset : Tame l b (.of { l with
        helperCaptureState := captureState, helperControlAllowed := false } b) := .of rfl rfl rfl
    exact hset.drop

theorem helper_tame (c : MediaConfig) (e : Env) (l : Loop) (b : Bool) (m : Option HelperOut) :
    Tame l b (l.helper c e b m) := by
  cases m with
  | none => exact (Tame.refl l b).stop
  | some m =>
    cases m with
    | frame sequence capturedAtMs => exact frame_tame e l b sequence capturedAtMs
    | offer sdp =>
      simp only [helper]
      split
      · exact (Tame.refl l b).send rfl e.sent
      · exact (Tame.refl l b).bail
    | ice candidate mline =>
      simp only [helper]
      split
      · exact (Tame.refl l b).bail
      · exact (Tame.refl l b).send rfl e.sent
    | ready protocol =>
      simp only [helper]
      split
      · exact (Tame.refl l b).bail
      · exact .refl l b
    | status mode captureState fps bitrateKbps adaptiveIdle controlAllowed awaiting =>
      exact (status_tame l b captureState controlAllowed awaiting).send rfl e.sent
    | error code => exact ((Tame.refl l b).send rfl e.sent).stop
    | stopped => exact (Tame.refl l b).stop

theorem presented_tame (e : Env) (l : Loop) (b : Bool) (generation : UInt32)
    (geometryVersion : String) : Tame l b (l.presented e b generation geometryVersion) := by
  unfold presented
  split
  · exact (Tame.refl l b).bail
  split
  · have hset : Tame l b (.of { l with lastPresented := e.later } b) := .of rfl rfl rfl
    exact hset.and (x := .frame) trivial
  · exact .refl l b

theorem renew_tame (e : Env) (l : Loop) (b : Bool) (leaseEpoch : String) :
    Tame l b (l.renew e b leaseEpoch) := by
  unfold renew
  split
  · split
    · exact (Tame.refl l b).bail
    · split
      · exact .of rfl rfl rfl
      · exact .refl l b
  · exact .refl l b

theorem refreshAuth_tame (e : Env) (l : Loop) (b : Bool) : Tame l b (l.refreshAuth e b) := by
  unfold refreshAuth
  split
  · exact (Tame.refl l b).bail
  · split
    · exact (Tame.refl l b).bail
    · exact .of rfl rfl rfl

theorem acquire_turns (c : MediaConfig) (e : Env) (l : Loop) (b : Bool) (generation : UInt32)
    (geometryVersion : String) :
    Turns e l b (.text (some (.acquire generation geometryVersion)))
      (l.acquire c e b generation geometryVersion) := by
  unfold acquire
  split
  · exact .tame ((Tame.refl l b).send rfl e.sent)
  split
  · exact .tame (Tame.refl l b).bail
  split
  · next n hn => exact .grant generation geometryVersion l n rfl rfl hn rfl
  · exact .tame ((Tame.refl l b).drop.send rfl e.sent)

/-- The check of an action, read back. -/
theorem permitted_of_not {e : Env} {l : Loop} (hseq : parseU64 seq = some n)
    (hepoch : parseU64 leaseEpoch = some epoch)
    (h : ¬ (¬ l.ready e.now ∨ l.lease ≠ some epoch ∨ ¬ e.armed ∨ l.leaseUntil ≤ e.later ∨
      ¬ l.sameGeometry generation geometryVersion ∨ n ≤ l.lastSeq)) :
    Permitted e l leaseEpoch generation geometryVersion seq epoch n := by
  simp only [not_or, Decidable.not_not, ne_eq, UInt64.not_le, Nat.not_le] at h
  obtain ⟨hready, hheld, harmed, huntil, hgeometry, hlast⟩ := h
  simp only [ready, helperControlReady, Bool.and_eq_true, beq_iff_eq, decide_eq_true_eq] at hready
  simp only [sameGeometry, Bool.and_eq_true, beq_iff_eq] at hgeometry
  exact ⟨hepoch, hseq, hheld, huntil, harmed, hready.1.1.1, hready.1.1.2, hready.1.2, hready.2,
    hgeometry.1, hgeometry.2, hlast⟩

theorem input_turns (e : Env) (l : Loop) (b : Bool) (leaseEpoch : String) (generation : UInt32)
    (geometryVersion seq : String) (action : GuiAction) :
    Turns e l b (.text (some (.input leaseEpoch generation geometryVersion seq action)))
      (l.input e b leaseEpoch generation geometryVersion seq action) := by
  unfold input
  split
  · next n epoch hseq hepoch =>
    split
    · exact .tame ((Tame.refl l b).drop.send rfl e.sent)
    · next hcheck =>
      split
      · exact .tame (Tame.refl l b).bail
      · exact .act leaseEpoch generation geometryVersion seq action epoch n l rfl rfl rfl
          (permitted_of_not hseq hepoch hcheck) rfl
  · exact .tame (Tame.refl l b).bail

theorem message_turns (c : MediaConfig) (e : Env) (l : Loop) (b : Bool) (m : MediaClientMessage) :
    Turns e l b (.text (some m)) (l.message c e b m) := by
  cases m with
  | answer sdp =>
    apply Turns.tame
    simp only [message]
    split
    · exact (Tame.refl l b).bail
    · split
      · exact (Tame.refl l b).bail
      · next sdp _ =>
        have hset : Tame l b (.of { l with negotiated := true } b) := .of rfl rfl rfl
        exact hset.helperSend (.answer sdp) e.helperSent
  | ice candidate mline =>
    apply Turns.tame
    simp only [message]
    split
    · exact (Tame.refl l b).bail
    · exact (Tame.refl l b).helperSend (.ice candidate mline) e.helperSent
  | presented generation geometryVersion =>
    exact .tame (presented_tame e l b generation geometryVersion)
  | acquire generation geometryVersion => exact acquire_turns c e l b generation geometryVersion
  | renew leaseEpoch => exact .tame (renew_tame e l b leaseEpoch)
  | release => exact .tame ((Tame.refl l b).drop.send rfl e.sent)
  | input leaseEpoch generation geometryVersion seq action =>
    exact input_turns e l b leaseEpoch generation geometryVersion seq action
  | refreshAuth ticket => exact .tame (refreshAuth_tame e l b)
  | ping => exact .tame ((Tame.refl l b).send rfl e.sent)
  | stop => exact .tame (Tame.refl l b).stop

theorem count_cases (l : Loop) (now : Nat) :
    ∃ inputWindow inputCount, l.count now = { l with inputWindow, inputCount } := by
  unfold count
  split
  · exact ⟨_, _, rfl⟩
  · exact ⟨_, _, rfl⟩

end Loop

/-- A turn gives nothing, or it grants the lease, or it passes one action on. -/
theorem turn_turns (c : MediaConfig) (e : Env) (l : Loop) (b : Bool) (i : Loop.Input) :
    Turns e l b i (l.turn c e b i) := by
  cases i with
  | tick => exact .tame (Loop.tick_tame e l b)
  | helper m => exact .tame (Loop.helper_tame c e l b m)
  | ping =>
    apply Turns.tame
    simp only [Loop.turn]
    split
    · exact .refl l b
    · exact (Tame.refl l b).bail
  | closed => exact .tame (Tame.refl l b).stop
  | text m =>
    obtain ⟨inputWindow, inputCount, hcount⟩ := l.count_cases e.now
    simp only [Loop.turn, Loop.text, hcount]
    generalize hl : ({ l with inputWindow, inputCount } : Loop) = l'
    have hcounted : Tame l b (.of l' b) := by
      rw [← hl]
      exact .of rfl rfl rfl
    split
    · exact .tame hcounted.bail
    · cases m with
      | none => exact .tame hcounted.bail
      | some m =>
        cases l'.message_turns c e b m with
        | tame h => exact .tame (h.recount (by rw [← hl]) (by rw [← hl]) (by rw [← hl]))
        | grant generation geometryVersion k epoch hi hs he ht =>
          exact .grant generation geometryVersion k epoch hi (by rw [hs, ← hl]) he ht
        | act leaseEpoch generation geometryVersion seq action epoch n k hi hs hk hp ht =>
          refine .act leaseEpoch generation geometryVersion seq action epoch n k hi
            (by rw [hs, ← hl]) (by rw [hk, ← hl]) ?_ ht
          subst hl
          exact { hp with }

@[simp] theorem send_loop (t : Turn) (ok : Bool) (m : ServerMessage) :
    (t.send ok m).loop = t.loop := by
  cases ok <;> rfl

@[simp] theorem send_controlled (t : Turn) (ok : Bool) (m : ServerMessage) :
    (t.send ok m).controlled = t.controlled := by
  cases ok <;> rfl

theorem send_effects (t : Turn) (ok : Bool) (m : ServerMessage) :
    (t.send ok m).effects = t.effects ++ if ok then [.send m] else [] := by
  cases ok with
  | true => rfl
  | false => exact (List.append_nil _).symm

/-- The effects of a granting turn. -/
theorem grant_effects {e : Env} {l : Loop}
    (hx : x ∈ (((Turn.of l b).grant epoch e.later).send e.sent
      (.lease (some epoch) none)).effects) :
    x = .armed epoch ∨ x = .send (.lease (some epoch) none) := by
  rw [send_effects] at hx
  rcases List.mem_append.1 hx with hx | hx
  · exact .inl (List.mem_singleton.1 hx)
  · split at hx
    · exact .inr (List.mem_singleton.1 hx)
    · cases hx

/-- The request of the client that a turn takes up. -/
def Loop.Input.request : Loop.Input → Option MediaClientMessage
  | .text m => m
  | _ => none

namespace Turns

theorem source (h : Turns e l b i t) : t.loop.source = l.source := by
  cases h with
  | tame h => exact h.source
  | grant generation geometryVersion l' epoch hi hs he ht =>
    rw [ht, send_loop]
    exact hs
  | act leaseEpoch generation geometryVersion seq action epoch n l' hi hs hl hp ht =>
    rw [ht]
    exact hs

/-- The flag says whether there is a lease. -/
theorem flag (h : Turns e l b i t) (hb : b = l.lease.isSome) :
    t.controlled = t.loop.lease.isSome := by
  cases h with
  | tame h =>
    rcases h.kept with ⟨hl, -, hc⟩ | ⟨hl, hc⟩
    · rw [hc, hl, hb]
    · rw [hc, hl]
      rfl
  | grant generation geometryVersion l' epoch hi hs he ht =>
    rw [ht, send_loop, send_controlled]
    rfl
  | act leaseEpoch generation geometryVersion seq action epoch n l' hi hs hl hp ht =>
    rw [ht]
    exact hb.trans (congrArg Option.isSome hl.symm)

/-- An action that is passed on was permitted. -/
theorem action (h : Turns e l b i t) (hx : .action epoch n a ∈ t.effects) :
    ∃ leaseEpoch generation geometryVersion seq,
      i = .text (some (.input leaseEpoch generation geometryVersion seq a)) ∧
        Permitted e l leaseEpoch generation geometryVersion seq epoch n := by
  cases h with
  | tame h => exact (h.effects _ hx).elim
  | grant generation geometryVersion l' epoch hi hs he ht =>
    rw [ht] at hx
    rcases grant_effects hx with hx | hx <;> cases hx
  | act leaseEpoch generation geometryVersion seq action epoch n l' hi hs hl hp ht =>
    rw [ht] at hx
    cases List.mem_singleton.1 hx
    exact ⟨leaseEpoch, generation, geometryVersion, seq, hi, hp⟩

/-- A lease after a turn was there before, or the turn has armed the session for it. -/
theorem lease (h : Turns e l b i t) (hl : t.loop.lease = some epoch) :
    .armed epoch ∈ t.effects ∨ (l.lease = some epoch ∧ l.lastSeq ≤ t.loop.lastSeq ∧
      ∀ n a, .action epoch n a ∈ t.effects → n ≤ t.loop.lastSeq) := by
  cases h with
  | tame h =>
    rcases h.kept with ⟨hkept, hseq, -⟩ | ⟨hnone, -⟩
    · refine .inr ⟨hkept.symm.trans hl, ?_, fun n a hx => (h.effects _ hx).elim⟩
      rw [hseq]
      exact UInt64.le_refl _
    · rw [hnone] at hl
      cases hl
  | grant generation geometryVersion l' epoch hi hs he ht =>
    rw [ht, send_loop] at hl
    cases hl
    rw [ht, send_effects]
    exact .inl (List.mem_append_left _ (List.mem_singleton_self _))
  | act leaseEpoch generation geometryVersion seq action epoch' n l' hi hs hk hp ht =>
    rw [ht] at hl ⊢
    refine .inr ⟨hk.symm.trans hl, UInt64.le_of_lt hp.increasing, ?_⟩
    intro m a hx
    cases List.mem_singleton.1 hx
    exact UInt64.le_refl n

/-- A turn that arms the session passes no action on. -/
theorem armed (h : Turns e l b i t) (hx : .armed epoch ∈ t.effects) :
    e.arm = some epoch ∧ ∀ n a, .action epoch n a ∉ t.effects := by
  cases h with
  | tame h => exact (h.effects _ hx).elim
  | grant generation geometryVersion l' epoch' hi hs he ht =>
    rw [ht] at hx ⊢
    rcases grant_effects hx with hx | hx
    · cases hx
      refine ⟨he, fun n a hy => ?_⟩
      rcases grant_effects hy with hy | hy <;> cases hy
    · cases hx
  | act leaseEpoch generation geometryVersion seq action epoch' n l' hi hs hk hp ht =>
    rw [ht] at hx
    cases List.mem_singleton.1 hx

/-- The loop grants the lease at most once in a turn, and only to a client that asks for it. -/
theorem answers (h : Turns e l b i t) :
    Answers acquires ServerMessage.grants i.request (t.effects.filterMap Effect.sent) := by
  have hnone {xs : List Effect} (hq : ∀ x ∈ xs, x.Harmless) :
      (xs.filterMap Effect.sent).filter ServerMessage.grants = [] := by
    rw [List.filter_eq_nil_iff]
    intro msg hm
    obtain ⟨x, hx, hsent⟩ := List.mem_filterMap.1 hm
    cases x with
    | send other =>
      obtain rfl := Option.some.inj hsent
      have hharm : other.grants = false := hq (.send other) hx
      rw [hharm]
      exact Bool.false_ne_true
    | armed | disarm | frame | action | helper => cases hsent
  unfold Answers
  cases h with
  | tame h =>
    rw [hnone h.effects]
    exact Nat.zero_le _
  | grant generation geometryVersion l' epoch hi hs he ht =>
    cases hi
    rw [ht, send_effects]
    cases e.sent with
    | true => exact Nat.le_refl 1
    | false => exact Nat.zero_le _
  | act leaseEpoch generation geometryVersion seq action epoch n l' hi hs hk hp ht =>
    rw [ht]
    exact Nat.zero_le _

end Turns
end Media
end RemoteCodex
