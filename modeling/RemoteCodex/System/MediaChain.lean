import RemoteCodex.Helper.FreshProofs
import RemoteCodex.Agent.MediaControl

namespace RemoteCodex
set_option autoImplicit true
open Trace

/-! From a capture at the host to an action on it: the helper with its channel and its pipe, and the
loop of the agent. -/

namespace MediaChain

/-- What the helper sends beside its proofs and its status. -/
def Signal : HelperOut → Prop
  | .frame _ _ | .status _ _ _ _ _ _ _ => False
  | .ready _ | .offer _ | .ice _ _ | .error _ | .stopped => True

inductive Phase where
  | starting
  | looping (l : Media.Loop) (controlled : Bool)
  | over

/-- The helper, what waits in its channel, what is in the pipe, and the agent's loop. `now` is the
agent's clock. -/
structure World where
  helper : Helper.State
  channel : List HelperOut
  pipe : List HelperOut
  phase : Phase
  now : Nat

inductive Event where
  | helper (e : Helper.Event)
  | turned (e : Media.Env) (i : Media.Loop.Input) (effects : List Media.Effect)

/-- What the probe sends into the channel. -/
def probed : Helper.Event → Option HelperOut
  | .encoded _ out => out
  | _ => none

/-- What the loop of the helper writes to the pipe itself. -/
def reported : Helper.Event → Option HelperOut
  | .status out => some out
  | _ => none

/-- An output that the loop takes up comes from the pipe. -/
def Takes (pipe rest : List HelperOut) : Media.Loop.Input → Prop
  | .helper (some m) => pipe = m :: rest
  | .helper none | .tick | .text _ | .ping | .closed => rest = pipe

/-- The agent's clock is ahead of the counter of milliseconds by no more than `skew`. -/
def Clocked (skew : Int) (e : Media.Env) : Prop :=
  (e.now : Int) ≤ (fromMillis e.monotonicMillis.toNat : Nat) + skew

def World.start (s : Helper.Setup) (now : Nat) : World := ⟨.start s, [], [], .starting, now⟩

/-- The phase after a turn. -/
def after (t : Media.Turn) : Phase :=
  if t.next = .again then .looping t.loop t.controlled else .over

inductive Step (s : Helper.Setup) (c : Media.MediaConfig) (skew : Int) :
    World → List Event → World → Prop where
  | helper (w : World) (es : List Helper.Event) (h : Helper.State)
      (hs : Helper.Step s w.helper es h) :
      Step s c skew w (es.map .helper)
        { w with
          helper := h
          channel := w.channel ++ es.filterMap probed
          pipe := w.pipe ++ es.filterMap reported }
  | signal (w : World) (m : HelperOut) (hm : Signal m) :
      Step s c skew w [] { w with channel := w.channel ++ [m] }
  | report (w : World) (m : HelperOut) (hm : Signal m) :
      Step s c skew w [] { w with pipe := w.pipe ++ [m] }
  | write (w : World) (m : HelperOut) (rest : List HelperOut) (hm : w.channel = m :: rest) :
      Step s c skew w [] { w with channel := rest, pipe := w.pipe ++ [m] }
  | tick (w : World) (d : Nat) : Step s c skew w [] { w with now := w.now + d }
  | begin (w : World) (p : Principal) (source : Approved) (l : Media.Loop)
      (hp : w.phase = .starting) (hl : Media.Loop.new p source w.now = some l) :
      Step s c skew w [] { w with phase := .looping l false }
  | turn (w : World) (l : Media.Loop) (controlled : Bool) (e : Media.Env) (i : Media.Loop.Input)
      (rest : List HelperOut) (hp : w.phase = .looping l controlled) (hn : w.now ≤ e.now)
      (hl : e.now ≤ e.later) (hc : Clocked skew e) (hi : Takes w.pipe rest i) :
      Step s c skew w [.turned e i (l.turn c e controlled i).effects]
        { w with pipe := rest, phase := after (l.turn c e controlled i), now := e.later }
  | cancel (w : World) : Step s c skew w [] { w with phase := .over }

/-- A frame was captured at that count of milliseconds. -/
def Captured (es : List Event) (ms : UInt64) : Prop :=
  ∃ f : Helper.CapturedFrame, .helper (.captured f) ∈ es ∧ f.capturedAtMs = ms

/-- A time of the agent is no later than a capture, as the agent's clock may tell it. -/
def Fresh (skew : Int) (es : List Event) (t : Nat) : Prop :=
  ∃ ms, Captured es ms ∧ (t : Int) ≤ (fromMillis ms.toNat : Nat) + skew

/-- At a time the client had reported a frame that it showed, and the last capture was fresh. -/
def Shown (skew : Int) (es : List Event) (t : Nat) : Prop :=
  ∃ e generation geometryVersion effects,
    .turned e (.text (some (.presented generation geometryVersion))) effects ∈ es ∧
      t = e.later ∧ ∃ at', Fresh skew es at' ∧ e.now ≤ at' + fromMillis 500

theorem Captured.append (h : Captured es ms) : Captured (es ++ fs) ms := by
  obtain ⟨f, hf, hms⟩ := h
  exact ⟨f, List.mem_append_left _ hf, hms⟩

theorem Fresh.append (h : Fresh skew es t) : Fresh skew (es ++ fs) t := by
  obtain ⟨ms, hms, ht⟩ := h
  exact ⟨ms, hms.append, ht⟩

theorem Shown.append (h : Shown skew es t) : Shown skew (es ++ fs) t := by
  obtain ⟨e, generation, geometryVersion, effects, he, ht, at', hfresh, hle⟩ := h
  exact ⟨e, generation, geometryVersion, effects, List.mem_append_left _ he, ht, at', hfresh.append,
    hle⟩

/-! What a turn does to the marks of the loop. -/

/-- The marks are what they were, or the output or the message that sets one was taken up. -/
structure Marked (e : Media.Env) (l : Media.Loop) (i : Media.Loop.Input) (l' : Media.Loop) :
    Prop where
  encoded : l'.lastEncoded = l.lastEncoded ∨ ∃ sequence ms age,
    i = .helper (some (.frame sequence ms)) ∧ Media.captureAgeMs e.monotonicMillis ms = .ok age ∧
      l'.lastEncoded = if fromMillis age.toNat ≤ e.now
        then e.now - fromMillis age.toNat else e.now
  presented : l'.lastPresented = l.lastPresented ∨ ∃ generation geometryVersion,
    i = .text (some (.presented generation geometryVersion)) ∧
      e.now - l.lastEncoded ≤ fromMillis 500 ∧ l'.lastPresented = e.later
  allowed : l'.helperControlAllowed = l.helperControlAllowed ∨
    ∃ mode state fps bitrateKbps adaptiveIdle allowed awaiting,
      i = .helper (some (.status mode state fps bitrateKbps adaptiveIdle allowed awaiting)) ∧
        (l'.helperControlAllowed = true → allowed = true)

/-- The marks are the same. -/
structure Same (l l' : Media.Loop) : Prop where
  encoded : l'.lastEncoded = l.lastEncoded
  presented : l'.lastPresented = l.lastPresented
  allowed : l'.helperControlAllowed = l.helperControlAllowed

theorem Same.refl (l : Media.Loop) : Same l l := ⟨rfl, rfl, rfl⟩

theorem Same.marked (h : Same l l') : Marked e l i l' :=
  ⟨.inl h.encoded, .inl h.presented, .inl h.allowed⟩

theorem Marked.of_same (h : Marked e l i l') (hs : Same k l) : Marked e k i l' := by
  obtain ⟨hencoded, hpresented, hallowed⟩ := hs
  constructor
  · rw [← hencoded]
    exact h.encoded
  · rw [← hencoded, ← hpresented]
    exact h.presented
  · rw [← hallowed]
    exact h.allowed

theorem Same.send {t : Media.Turn} (h : Same l t.loop) (ok : Bool) (m : Media.ServerMessage) :
    Same l (t.send ok m).loop := by
  rw [Media.send_loop]
  exact h

theorem Same.helperSend {t : Media.Turn} (h : Same l t.loop) (ok : Bool) (m : HelperIn) :
    Same l (t.helperSend ok m).loop := by
  cases ok with
  | true => exact h
  | false => exact h

theorem drop_same (l : Media.Loop) (b : Bool) : Same l (Media.Turn.of l b).drop.loop :=
  ⟨rfl, rfl, rfl⟩

theorem grant_same (l : Media.Loop) (b : Bool) (n : UInt64) (now : Nat) :
    Same l ((Media.Turn.of l b).grant n now).loop :=
  ⟨rfl, rfl, rfl⟩

section Turns
variable (c : Media.MediaConfig) (e : Media.Env) (l : Media.Loop) (b : Bool)

theorem tick_same : Same l (l.tick e b).loop := by
  unfold Media.Loop.tick
  split
  · exact .refl l
  split
  · exact Same.send (t := .of l b) (.refl l) e.sent _
  split
  · exact Same.send (t := .of l b) (.refl l) e.sent _
  split
  · exact (drop_same l b).send e.sent _
  · exact .refl l

theorem encoded_marked (sequence : String) (seq : UInt64)
    (hage : Media.captureAgeMs e.monotonicMillis ms = .ok age)
    (hn : n = if fromMillis age.toNat ≤ e.now then e.now - fromMillis age.toNat else e.now) :
    Marked e l (.helper (some (.frame sequence ms)))
      (Media.Turn.of { l with lastFrameSeq := seq, lastEncoded := n } b).loop :=
  ⟨.inr ⟨sequence, ms, age, rfl, hage, hn⟩, .inl rfl, .inl rfl⟩

theorem frame_marked (sequence : String) (ms : UInt64) :
    Marked e l (.helper (some (.frame sequence ms))) (l.frame e b sequence ms).loop := by
  unfold Media.Loop.frame
  split
  · next seq age _ hage =>
    split
    · exact (Same.refl l).marked
    · exact encoded_marked e l b sequence seq hage rfl
  · exact (Same.refl l).marked

theorem status_marked (mode : MediaMode) (state : CaptureState) (fps bitrateKbps : UInt32)
    (adaptiveIdle allowed awaiting : Bool) :
    Marked e l (.helper (some (.status mode state fps bitrateKbps adaptiveIdle allowed awaiting)))
      (l.status b state allowed awaiting).loop := by
  unfold Media.Loop.status
  split
  · next hall =>
    refine ⟨.inl rfl, .inl rfl, .inr ⟨_, _, _, _, _, _, _, rfl, fun _ => ?_⟩⟩
    rw [Bool.and_eq_true, Bool.and_eq_true] at hall
    exact hall.1.1
  · exact ⟨.inl rfl, .inl rfl, .inr ⟨_, _, _, _, _, _, _, rfl, fun h => by cases h⟩⟩

theorem helper_marked (m : Option HelperOut) : Marked e l (.helper m) (l.helper c e b m).loop := by
  cases m with
  | none => exact (Same.refl l).marked
  | some m =>
    cases m with
    | frame sequence ms => exact frame_marked e l b sequence ms
    | offer sdp =>
      simp only [Media.Loop.helper]
      split
      · exact (Same.send (t := .of l b) (.refl l) e.sent _).marked
      · exact (Same.refl l).marked
    | ice candidate mline =>
      simp only [Media.Loop.helper]
      split
      · exact (Same.refl l).marked
      · exact (Same.send (t := .of l b) (.refl l) e.sent _).marked
    | ready protocol =>
      simp only [Media.Loop.helper]
      split
      · exact (Same.refl l).marked
      · exact (Same.refl l).marked
    | status mode state fps bitrateKbps adaptiveIdle allowed awaiting =>
      simp only [Media.Loop.helper, Media.send_loop]
      exact status_marked e l b mode state fps bitrateKbps adaptiveIdle allowed awaiting
    | error code => exact (Same.send (t := .of l b) (.refl l) e.sent _).marked
    | stopped => exact (Same.refl l).marked

theorem presented_marked (generation : UInt32) (geometryVersion : String) :
    Marked e l (.text (some (.presented generation geometryVersion)))
      (l.presented e b generation geometryVersion).loop := by
  unfold Media.Loop.presented
  split
  · exact (Same.refl l).marked
  split
  · next hfresh => exact ⟨.inl rfl, .inr ⟨generation, geometryVersion, rfl, hfresh, rfl⟩, .inl rfl⟩
  · exact (Same.refl l).marked

theorem acquire_same (generation : UInt32) (geometryVersion : String) :
    Same l (l.acquire c e b generation geometryVersion).loop := by
  unfold Media.Loop.acquire
  split
  · exact Same.send (t := .of l b) (.refl l) e.sent _
  split
  · exact .refl l
  split
  · next n _ => exact (grant_same l b n e.later).send e.sent _
  · exact (drop_same l b).send e.sent _

theorem renew_same (leaseEpoch : String) : Same l (l.renew e b leaseEpoch).loop := by
  unfold Media.Loop.renew
  split
  · split
    · exact .refl l
    · split
      · exact ⟨rfl, rfl, rfl⟩
      · exact .refl l
  · exact .refl l

theorem input_same (leaseEpoch : String) (generation : UInt32) (geometryVersion seq : String)
    (action : GuiAction) :
    Same l (l.input e b leaseEpoch generation geometryVersion seq action).loop := by
  unfold Media.Loop.input
  split
  · split
    · exact (drop_same l b).send e.sent _
    · split
      · exact .refl l
      · exact ⟨rfl, rfl, rfl⟩
  · exact .refl l

theorem refreshAuth_same : Same l (l.refreshAuth e b).loop := by
  unfold Media.Loop.refreshAuth
  split
  · exact .refl l
  · split
    · exact .refl l
    · exact ⟨rfl, rfl, rfl⟩

theorem message_marked (m : MediaClientMessage) :
    Marked e l (.text (some m)) (l.message c e b m).loop := by
  cases m with
  | answer sdp =>
    simp only [Media.Loop.message]
    split
    · exact (Same.refl l).marked
    · split
      · exact (Same.refl l).marked
      · next sdp _ =>
        have hset : Same l (Media.Turn.of { l with negotiated := true } b).loop := ⟨rfl, rfl, rfl⟩
        exact (hset.helperSend e.helperSent _).marked
  | ice candidate mline =>
    simp only [Media.Loop.message]
    split
    · exact (Same.refl l).marked
    · exact (Same.helperSend (t := .of l b) (.refl l) e.helperSent _).marked
  | presented generation geometryVersion => exact presented_marked e l b generation geometryVersion
  | acquire generation geometryVersion =>
    exact (acquire_same c e l b generation geometryVersion).marked
  | renew leaseEpoch => exact (renew_same e l b leaseEpoch).marked
  | release => exact ((drop_same l b).send e.sent _).marked
  | input leaseEpoch generation geometryVersion seq action =>
    exact (input_same e l b leaseEpoch generation geometryVersion seq action).marked
  | refreshAuth ticket => exact (refreshAuth_same e l b).marked
  | ping => exact (Same.send (t := .of l b) (.refl l) e.sent _).marked
  | stop => exact (Same.refl l).marked

theorem turn_marked (i : Media.Loop.Input) : Marked e l i (l.turn c e b i).loop := by
  cases i with
  | tick => exact (tick_same e l b).marked
  | helper m => exact helper_marked c e l b m
  | ping =>
    simp only [Media.Loop.turn]
    split
    · exact (Same.refl l).marked
    · exact (Same.refl l).marked
  | closed => exact (Same.refl l).marked
  | text m =>
    obtain ⟨inputWindow, inputCount, hcount⟩ := l.count_cases e.now
    have hcounted : Same l (l.count e.now) := by
      rw [hcount]
      exact ⟨rfl, rfl, rfl⟩
    simp only [Media.Loop.turn, Media.Loop.text]
    split
    · exact hcounted.marked
    · cases m with
      | none => exact hcounted.marked
      | some m => exact (message_marked c e (l.count e.now) b m).of_same hcounted

end Turns

/-! The outputs of the helper, and what the loop makes of them. -/

def Event.ofHelper : Event → Option Helper.Event
  | .helper e => some e
  | .turned _ _ _ => none

theorem ofHelper_map (es : List Helper.Event) :
    (es.map Event.helper).filterMap Event.ofHelper = es := by
  rw [List.filterMap_map]
  exact List.filterMap_some

/-- A frame was captured, and control is allowed where the encoder allows it. -/
structure Genuine (s : Helper.Setup) (es : List Event) (m : HelperOut) : Prop where
  frame : ∀ sequence ms, m = .frame sequence ms → Captured es ms
  status : ∀ mode state fps bitrateKbps adaptiveIdle allowed awaiting,
    m = .status mode state fps bitrateKbps adaptiveIdle allowed awaiting → allowed = true →
      s.choice.controlAllowed = true

theorem Genuine.append (h : Genuine s es m) : Genuine s (es ++ fs) m :=
  ⟨fun sequence ms hm => (h.frame sequence ms hm).append, h.status⟩

theorem Signal.genuine (h : Signal m) : Genuine s es m := by
  cases m with
  | frame | status => cases h
  | ready | offer | ice | error | stopped =>
    constructor
    · intro _ _ hm
      cases hm
    · intro _ _ _ _ _ _ _ hm
      cases hm

theorem probed_genuine (hr : Run (Helper.Step s) (.start s) (es.filterMap Event.ofHelper) h)
    (hm : .helper e ∈ es) (hp : probed e = some m) : Genuine s es m := by
  obtain ⟨hpumped, hproved⟩ := Helper.Proved.run hr
  have hof {x : Helper.Event} : x ∈ es.filterMap Event.ofHelper ↔ .helper x ∈ es := by
    rw [List.mem_filterMap]
    constructor
    · rintro ⟨y, hy, hyx⟩
      cases y with
      | helper z =>
        cases hyx
        exact hy
      | turned => cases hyx
    · exact fun hx => ⟨_, hx, rfl⟩
  cases e with
  | encoded p out =>
    simp only [probed] at hp
    subst hp
    obtain ⟨f, hf, -, rfl⟩ := hproved.encoded p m (hof.2 hm)
    have hcaptured := hof.1 (hpumped.captured f (hproved.enqueued f hf))
    constructor
    · intro sequence ms hframe
      cases hframe
      exact ⟨f.captured, hcaptured, rfl⟩
    · intro _ _ _ _ _ _ _ hstatus
      cases hstatus
  | captured | pushing | enqueued | status => cases hp

theorem reported_genuine (hs : Helper.Step s h fs h') (hm : m ∈ fs.filterMap reported) :
    Genuine s es m := by
  obtain ⟨x, hx, hrep⟩ := List.mem_filterMap.1 hm
  cases hs with
  | status nowTick hw =>
    rw [List.mem_singleton.1 hx] at hrep
    cases hrep
    constructor
    · intro _ _ hframe
      cases hframe
    · intro _ _ _ _ _ allowed _ hstatus hallowed
      cases hstatus
      rw [Bool.and_eq_true] at hallowed
      exact hallowed.1
  | enqueue f hw =>
    split at hx
    · rw [List.mem_singleton.1 hx] at hrep
      cases hrep
    · cases hx
  | capture | push | encode =>
    rw [List.mem_singleton.1 hx] at hrep
    cases hrep
  | pause | retarget | empty | pushed | failed => cases hx

/-- What the loop's marks stand for. Until they are set they lie a minute back. -/
structure Timed (s : Helper.Setup) (skew : Int) (es : List Event) (now : Nat) (l : Media.Loop) :
    Prop where
  began : fromSecs 60 ≤ now
  encoded : l.lastEncoded + fromSecs 60 ≤ now ∨ Fresh skew es l.lastEncoded
  presented : l.lastPresented + fromSecs 60 ≤ now ∨ Shown skew es l.lastPresented
  allowed : l.helperControlAllowed = true → s.choice.controlAllowed = true

theorem Timed.later (h : Timed s skew es now l) (hn : now ≤ now') :
    Timed s skew (es ++ fs) now' l where
  began := h.began.trans hn
  encoded := h.encoded.imp (fun hl => hl.trans hn) Fresh.append
  presented := h.presented.imp (fun hl => hl.trans hn) Shown.append
  allowed := h.allowed

/-- A mark that is half a second old was set. -/
theorem Timed.fresh (h : Timed s skew es now l) (hn : now ≤ now')
    (hle : now' - l.lastEncoded ≤ fromMillis 500) : Fresh skew es l.lastEncoded := by
  rcases h.encoded with hold | hfresh
  · unfold fromSecs at hold
    unfold fromMillis at hle
    omega
  · exact hfresh

theorem Timed.shown (h : Timed s skew es now l) (hn : now ≤ now')
    (hle : now' - l.lastPresented ≤ fromMillis 500) : Shown skew es l.lastPresented := by
  rcases h.presented with hold | hshown
  · unfold fromSecs at hold
    unfold fromMillis at hle
    omega
  · exact hshown

theorem sub_age {n captured tick : Nat} (hle : captured ≤ tick) (hmax : tick - captured ≤ 60000)
    (hn : fromSecs 60 ≤ n) (hc : (n : Int) ≤ (fromMillis tick : Nat) + skew) :
    fromMillis (tick - captured) ≤ n ∧
      ((n - fromMillis (tick - captured) : Nat) : Int) ≤ (fromMillis captured : Nat) + skew := by
  unfold fromSecs at hn
  unfold fromMillis at hc ⊢
  omega

/-- The agent's clock less the age of a frame is the time of its capture. -/
theorem age_fresh {e : Media.Env} (hc : Clocked skew e)
    (hage : Media.captureAgeMs e.monotonicMillis ms = .ok age) (hn : fromSecs 60 ≤ e.now) :
    ((if fromMillis age.toNat ≤ e.now then e.now - fromMillis age.toNat else e.now : Nat) : Int) ≤
      (fromMillis ms.toNat : Nat) + skew := by
  unfold Media.captureAgeMs at hage
  split at hage
  · cases hage
  next hle =>
  split at hage
  · cases hage
  next hmax =>
  cases hage
  have hle' : ms ≤ e.monotonicMillis := UInt64.not_lt.1 hle
  have hbound := UInt64.le_iff_toNat_le.1 (UInt64.not_lt.1 hmax)
  rw [UInt64.toNat_sub_of_le _ _ hle'] at hbound ⊢
  obtain ⟨hpast, hcaptured⟩ := sub_age (UInt64.le_iff_toNat_le.1 hle') hbound hn hc
  rw [if_pos hpast]
  exact hcaptured

theorem Timed.turn (h : Timed s skew es now l) (hm : Marked e l i l') (hn : now ≤ e.now)
    (hl : e.now ≤ e.later) (hc : Clocked skew e)
    (hg : ∀ m, i = .helper (some m) → Genuine s es m) (effects : List Media.Effect) :
    Timed s skew (es ++ [.turned e i effects]) e.later l' := by
  have hlater : Timed s skew (es ++ [.turned e i effects]) e.later l := h.later (hn.trans hl)
  refine ⟨hlater.began, ?_, ?_, ?_⟩
  · rcases hm.encoded with hsame | ⟨sequence, ms, age, hi, hage, hset⟩
    · rw [hsame]
      exact hlater.encoded
    · rw [hset]
      have hcaptured := (hg _ hi).frame sequence ms rfl
      exact .inr ⟨ms, hcaptured.append, age_fresh hc hage (h.began.trans hn)⟩
  · rcases hm.presented with hsame | ⟨generation, geometryVersion, rfl, hle, hset⟩
    · rw [hsame]
      exact hlater.presented
    · rw [hset]
      refine .inr ⟨e, generation, geometryVersion, effects, ?_, rfl, l.lastEncoded,
        (h.fresh hn hle).append, Nat.sub_le_iff_le_add'.1 hle⟩
      exact List.mem_append_right _ (.head _)
  · intro hallowed
    rcases hm.allowed with hsame | ⟨mode, state, fps, bitrateKbps, adaptiveIdle, allowed, awaiting,
      hi, himp⟩
    · exact h.allowed (hsame ▸ hallowed)
    · exact (hg _ hi).status _ _ _ _ _ _ _ rfl (himp hallowed)

structure Sound (s : Helper.Setup) (skew : Int) (es : List Event) (w : World) : Prop where
  helper : Run (Helper.Step s) (.start s) (es.filterMap Event.ofHelper) w.helper
  channel : ∀ m ∈ w.channel, Genuine s es m
  pipe : ∀ m ∈ w.pipe, Genuine s es m
  looping : ∀ l controlled, w.phase = .looping l controlled → Timed s skew es w.now l

/-- A step that leaves the helper and the queues alone. -/
theorem Sound.quiet (h : Sound s skew es w) (phase : Phase) (now : Nat)
    (hl : ∀ l controlled, phase = .looping l controlled → Timed s skew es now l) :
    Sound s skew (es ++ []) { w with phase, now } := by
  rw [List.append_nil]
  exact ⟨h.helper, h.channel, h.pipe, hl⟩

theorem Sound.step (h : Sound s skew es w) (hs : Step s c skew w fs w') :
    Sound s skew (es ++ fs) w' := by
  cases hs with
  | helper gs k hstep =>
    have hrun : Run (Helper.Step s) (.start s)
        ((es ++ gs.map Event.helper).filterMap Event.ofHelper) k := by
      rw [List.filterMap_append, ofHelper_map]
      exact h.helper.snoc hstep
    refine ⟨hrun, ?_, ?_, fun l controlled hl => (h.looping l controlled hl).later (Nat.le_refl _)⟩
    · intro m hm
      rcases List.mem_append.1 hm with hm | hm
      · exact (h.channel m hm).append
      · obtain ⟨x, hx, hprobed⟩ := List.mem_filterMap.1 hm
        exact probed_genuine hrun (List.mem_append_right _ (List.mem_map_of_mem hx)) hprobed
    · intro m hm
      rcases List.mem_append.1 hm with hm | hm
      · exact (h.pipe m hm).append
      · exact reported_genuine hstep hm
  | signal m hm =>
    rw [List.append_nil]
    refine ⟨h.helper, ?_, h.pipe, h.looping⟩
    intro m' hm'
    rcases List.mem_append.1 hm' with hm' | hm'
    · exact h.channel m' hm'
    · rw [List.mem_singleton.1 hm']
      exact hm.genuine
  | report m hm =>
    rw [List.append_nil]
    refine ⟨h.helper, h.channel, ?_, h.looping⟩
    intro m' hm'
    rcases List.mem_append.1 hm' with hm' | hm'
    · exact h.pipe m' hm'
    · rw [List.mem_singleton.1 hm']
      exact hm.genuine
  | write m rest hm =>
    rw [List.append_nil]
    have hchannel := h.channel
    rw [hm] at hchannel
    refine ⟨h.helper, fun m' hm' => hchannel m' (.tail _ hm'), ?_, h.looping⟩
    intro m' hm'
    rcases List.mem_append.1 hm' with hm' | hm'
    · exact h.pipe m' hm'
    · rw [List.mem_singleton.1 hm']
      exact hchannel m (.head _)
  | tick d =>
    apply h.quiet
    intro l controlled hl
    have hlater : Timed s skew (es ++ []) (w.now + d) l :=
      (h.looping l controlled hl).later (Nat.le_add_right w.now d)
    rwa [List.append_nil] at hlater
  | begin p source l hp hl =>
    apply h.quiet
    intro l' controlled hphase
    cases hphase
    unfold Media.Loop.new at hl
    split at hl
    · next hlate =>
      cases hl
      refine ⟨hlate, .inl ?_, .inl ?_, fun hfalse => by cases hfalse⟩
      · exact Nat.le_of_eq (Nat.sub_add_cancel hlate)
      · exact Nat.le_of_eq (Nat.sub_add_cancel hlate)
    · cases hl
  | turn l controlled e i rest hp hn hl hc hi =>
    have hrest : ∀ m ∈ rest, m ∈ w.pipe := by
      intro m hm
      cases i with
      | helper m' =>
        cases m' with
        | none => exact hi ▸ hm
        | some m' =>
          rw [show w.pipe = m' :: rest from hi]
          exact .tail _ hm
      | tick | text | ping | closed => exact hi ▸ hm
    have htaken : ∀ m, i = .helper (some m) → Genuine s es m := by
      rintro m rfl
      apply h.pipe
      rw [show w.pipe = m :: rest from hi]
      exact .head _
    refine ⟨?_, fun m hm => (h.channel m hm).append, fun m hm => (h.pipe m (hrest m hm)).append, ?_⟩
    · rw [List.filterMap_append]
      exact (List.append_nil _).symm ▸ h.helper
    · intro l' controlled' hphase
      have hturned := (h.looping l controlled hp).turn (turn_marked c e l controlled i) hn hl hc
        htaken (l.turn c e controlled i).effects
      simp only [after] at hphase
      split at hphase
      · cases hphase
        exact hturned
      · cases hphase
  | cancel =>
    apply h.quiet
    intro l controlled hphase
    cases hphase

theorem Sound.run (hr : Run (Step s c skew) (.start s now) es w) : Sound s skew es w := by
  apply hr.invariant (I := fun es w => Sound s skew es w)
  · refine ⟨.nil, fun m hm => ?_, fun m hm => ?_, fun l controlled hl => ?_⟩
    · cases hm
    · cases hm
    · cases hl
  · intro es w fs w' h hs
    exact h.step hs

/-- What touches the session. -/
def Touches : Media.Effect → Prop
  | .armed _ | .action _ _ _ => True
  | .disarm | .frame | .send _ | .helper _ => False

theorem acquire_ready {l : Media.Loop} (hnot : l.ready e.now ≠ true) (hr : Touches x) :
    x ∉ (l.acquire c e b generation geometryVersion).effects := by
  unfold Media.Loop.acquire
  rw [if_pos (.inl hnot), Media.send_effects]
  intro hx
  rcases List.mem_append.1 hx with hx | hx
  · cases hx
  · split at hx
    · rw [List.mem_singleton.1 hx] at hr
      exact hr
    · cases hx

theorem permitted_ready
    (h : Media.Permitted e l leaseEpoch generation geometryVersion seq epoch n) :
    l.ready e.now = true := by
  rw [Media.Loop.ready, Media.helperControlReady, h.allowed, h.live, decide_eq_true h.encoded,
    decide_eq_true h.presented]
  rfl

/-- The session is armed and acted on only while the loop is ready. -/
theorem touches_ready (c : Media.MediaConfig) {e : Media.Env} {l : Media.Loop} {b : Bool}
    {i : Media.Loop.Input} {x : Media.Effect} (hx : x ∈ (l.turn c e b i).effects)
    (ht : Touches x) : l.ready e.now = true := by
  cases Media.turn_turns c e l b i with
  | tame h =>
    have hharmless := h.effects x hx
    cases x with
    | armed | action => exact hharmless.elim
    | disarm | frame | send | helper => exact ht.elim
  | act leaseEpoch generation geometryVersion seq action epoch n l' hi hs hl hp hturn =>
    exact permitted_ready hp
  | grant generation geometryVersion l' epoch hi hs he hturn =>
    by_contra hnot
    subst hi
    obtain ⟨inputWindow, inputCount, hcount⟩ := l.count_cases e.now
    simp only [Media.Loop.turn, Media.Loop.text] at hx
    split at hx
    · cases hx
    · refine acquire_ready (l := l.count e.now) ?_ ht hx
      rw [hcount]
      exact hnot

/-- The agent arms the session or passes an action on only if the encoder allows control, the helper
had made a new capture no more than half a second ago (as the agent's clock may tell it), and the
client had reported no more than half a second ago that it showed a frame, when a capture was as
new. -/
theorem action_needs_capture (hr : Run (Step s c skew) (.start s now) es w)
    (hs : Step s c skew w fs w') (he : .turned e i effects ∈ fs) (hx : x ∈ effects)
    (ht : Touches x) :
    s.choice = .hardware ∧
      (∃ f : Helper.CapturedFrame, .helper (.captured f) ∈ es ∧
        (e.now : Int) ≤ (fromMillis (f.capturedAtMs.toNat + 500) : Nat) + skew) ∧
      ∃ e' generation geometryVersion effects',
        .turned e' (.text (some (.presented generation geometryVersion))) effects' ∈ es ∧
          e.now ≤ e'.later + fromMillis 500 ∧
          ∃ f : Helper.CapturedFrame, .helper (.captured f) ∈ es ∧
            (e'.now : Int) ≤ (fromMillis (f.capturedAtMs.toNat + 500) : Nat) + skew := by
  have hsound := Sound.run hr
  cases hs with
  | turn l controlled e' i' rest hp hn hl hc hi =>
    cases List.mem_singleton.1 he
    have hready := touches_ready c hx ht
    simp only [Media.Loop.ready, Media.helperControlReady, Bool.and_eq_true,
      decide_eq_true_eq] at hready
    obtain ⟨⟨⟨hallowed, -⟩, hencoded⟩, hpresented⟩ := hready
    have htimed := hsound.looping l controlled hp
    obtain ⟨ms, ⟨f, hf, rfl⟩, hcaptured⟩ := htimed.fresh hn hencoded
    obtain ⟨e', generation, geometryVersion, effects', he', hlater, at', ⟨ms, ⟨f', hf', rfl⟩,
      hcaptured'⟩, hle'⟩ := htimed.shown hn hpresented
    refine ⟨?_, ⟨f, hf, ?_⟩, e', generation, geometryVersion, effects', he', ?_, f', hf', ?_⟩
    · have hallows := htimed.allowed hallowed
      cases hchoice : s.choice with
      | hardware => rfl
      | softwareViewOnlySlow =>
        rw [hchoice] at hallows
        cases hallows
    · unfold fromMillis at hencoded hcaptured ⊢
      omega
    · rw [← hlater]
      exact Nat.sub_le_iff_le_add'.1 hpresented
    · unfold fromMillis at hle' hcaptured' ⊢
      omega
  | helper gs k hstep =>
    obtain ⟨y, -, hy⟩ := List.mem_map.1 he
    cases hy
  | signal | report | write | tick | begin | cancel => cases he

def aSource : Approved :=
  ⟨Media.MediaManager.viewOf (.fill 2) ⟨"a", "window", ⟨0, 0, 1, 1⟩⟩ true, fromSecs (8 * 3600)⟩

/-- A frame is captured and shown, and the client acquires the lease. -/
theorem action_needs_capture_armed : ∃ es w fs w' effects,
    Run (Step Helper.aSetup Media.aConfig 0) (.start Helper.aSetup (fromSecs 100)) es w ∧
      Step Helper.aSetup Media.aConfig 0 w fs w' ∧
      .turned Media.anEnv (.text (some (.acquire 1 "1"))) effects ∈ fs ∧ .armed 1 ∈ effects ∧
      ∃ f : Helper.CapturedFrame, .helper (.captured f) ∈ es ∧
        (Media.anEnv.now : Int) ≤ (fromMillis (f.capturedAtMs.toNat + 500) : Nat) + 0 := by
  have hclock : Clocked 0 Media.anEnv := by
    unfold Clocked
    decide
  have hpushed : Run (Step Helper.aSetup Media.aConfig 0) (.start Helper.aSetup (fromSecs 100))
      _ _ := (((Run.single (.helper _ _ _ (.capture _ 99900 _ _ rfl))).snoc
    (.helper _ _ _ (.push _ 0 _ _ rfl (by decide) rfl))).snoc
    (.helper _ _ _ (.enqueue _ _ rfl))).snoc (.helper _ _ _ (.pushed _ _ rfl))
  have hpiped := ((hpushed.snoc (.helper _ _ _ (.status _ 99950 rfl))).snoc
    (.helper _ _ _ (.encode _ (some 0) true))).snoc (.write _ _ _ rfl)
  have hbegun := hpiped.snoc (.begin _ Media.aPrincipal aSource _ rfl rfl)
  have hlive := (hbegun.snoc (.turn _ _ _ Media.anEnv (.helper (some _)) _ rfl (by decide)
    (by decide) hclock rfl)).snoc (.turn _ _ _ Media.anEnv (.helper (some _)) _ rfl (by decide)
    (by decide) hclock rfl)
  have hshown := hlive.snoc (.turn _ _ _ Media.anEnv (.text (some (.presented 1 "1"))) _ rfl
    (by decide) (by decide) hclock rfl)
  refine ⟨_, _, _, _, _, hshown, .turn _ _ _ Media.anEnv (.text (some (.acquire 1 "1"))) _ rfl
    (by decide) (by decide) hclock rfl, .head _, .head _, ?_⟩
  exact (action_needs_capture hshown (.turn _ _ _ Media.anEnv (.text (some (.acquire 1 "1"))) _ rfl
    (by decide) (by decide) hclock rfl) (.head _) (.head _) trivial).2.1

end MediaChain
end RemoteCodex
