import RemoteCodex.Lib.Trace
import RemoteCodex.Helper.Native

namespace RemoteCodex
set_option autoImplicit true
open Trace
namespace Helper

theorem frameInterval_pos (h : fps ≤ 30) : 0 < (frameInterval fps).toNat := by
  have hmax : (max fps 1).toUInt64.toNat ≤ 30 ∧ 0 < (max fps 1).toUInt64.toNat := by
    rw [UInt32.toNat_toUInt64]
    show (if fps ≤ 1 then (1 : UInt32) else fps).toNat ≤ 30 ∧
      0 < (if fps ≤ 1 then (1 : UInt32) else fps).toNat
    split
    · decide
    · next hgt =>
      have hle : fps.toNat ≤ 30 := UInt32.le_iff_toNat_le.1 h
      have hlt : 1 < fps.toNat := Nat.lt_of_not_le fun hn => hgt (UInt32.le_iff_toNat_le.2 hn)
      omega
  unfold frameInterval
  rw [UInt64.toNat_div]
  exact Nat.div_pos (Nat.le_trans hmax.1 (by decide)) hmax.2

theorem target_fps (p : AdaptivePolicy) (nowMs : UInt64) (h : p.requestedFps ≤ 30) :
    (p.target nowMs).fps ≤ 30 := by
  unfold AdaptivePolicy.target
  split
  · exact h
  · show (if p.requestedFps ≤ 3 then p.requestedFps else 3) ≤ 30
    split
    · exact h
    · decide

theorem profile_fps {choice : EncoderChoice} {requested profile : VideoProfile}
    (h : choice.profile requested source scaled = .ok profile) : profile.fps ≤ 30 := by
  cases choice with
  | hardware => exact (VideoProfile.fit_fps h).2.2
  | softwareViewOnlySlow => exact (VideoProfile.fit_fps h).2.2

def Event.pushedPts : Event → Option UInt64
  | .pushing f => some f.ptsNs
  | _ => none

def Event.encodedPts : Event → Option UInt64
  | .encoded ptsNs _ => ptsNs
  | _ => none

/-- The sequence number of a reported frame, as the agent reads it. -/
def Event.reported : Event → Option UInt64
  | .encoded _ (some (.frame sequence _)) => parseU64 sequence
  | _ => none

/-- The timestamps pushed, in the order of the pushes. -/
def pushes (es : List Event) : List UInt64 := es.filterMap Event.pushedPts

/-- The timestamps of the buffers that the encoder put out. -/
def outputs (es : List Event) : List UInt64 := es.filterMap Event.encodedPts

def reported (es : List Event) : List UInt64 := es.filterMap Event.reported

/-- What is pushed was captured, and every push has a later timestamp. The clock of the pushes does
not wrap before the clock of the platform does. -/
structure Pumped (s : Setup) (es : List Event) (h : State) : Prop where
  clock : ∃ total : Nat, h.pump.nextPtsNs = UInt64.ofNat total ∧
    s.began.toNat + total ≤ h.nextPush ∧ ∀ f, .pushing f ∈ es → f.ptsNs.toNat < total
  requested : h.policy.requestedFps = s.profile.fps
  fps : h.target.fps ≤ 30
  latest : ∀ c, h.pump.latest = some c → .captured c ∈ es
  captured : ∀ f, .pushing f ∈ es → .captured f.captured ∈ es
  ordered : (pushes es).Pairwise (· < ·)
  unique : ∀ f g, .pushing f ∈ es → .pushing g ∈ es → f.ptsNs = g.ptsNs → f = g

theorem mem_of_ne {e x : Event} (hx : x ∈ es ++ [e]) (hne : x ≠ e) : x ∈ es :=
  (List.mem_append.1 hx).resolve_right fun hx => hne (List.mem_singleton.1 hx)

theorem mem_pushing {es : List Event} {f g : PushedFrame} (h : .pushing g ∈ es ++ [.pushing f]) :
    .pushing g ∈ es ∨ g = f := by
  rcases List.mem_append.1 h with h | h
  · exact .inl h
  · cases List.mem_singleton.1 h
    exact .inr rfl

theorem mem_enqueued {es : List Event} {f g : PushedFrame}
    (h : .enqueued g ∈ es ++ [.enqueued f]) : .enqueued g ∈ es ∨ g = f := by
  rcases List.mem_append.1 h with h | h
  · exact .inl h
  · cases List.mem_singleton.1 h
    exact .inr rfl

theorem pushLatest_eq {p q : SourcePump} (h : p.pushLatest fps = some (q, f)) :
    p.latest = some f.captured ∧ f.ptsNs = p.nextPtsNs ∧
      q = { p with nextPtsNs := p.nextPtsNs + frameInterval fps } := by
  unfold SourcePump.pushLatest at h
  obtain ⟨c, hc, hq⟩ := Option.map_eq_some_iff.1 h
  cases hq
  exact ⟨hc, rfl, rfl⟩

theorem newSample_eq {p q : SourcePump} (h : p.newSample now = (q, some c)) :
    q.latest = some c ∧ q.nextPtsNs = p.nextPtsNs := by
  unfold SourcePump.newSample at h
  split at h
  · cases h
  · cases h
    exact ⟨rfl, rfl⟩

namespace Pumped

/-- A step that pushes nothing. -/
theorem keep (h : Pumped s es a) (hq : ∀ f, .pushing f ∉ fs)
    (hn : b.pump.nextPtsNs = a.pump.nextPtsNs) (hd : a.nextPush ≤ b.nextPush)
    (hr : b.policy.requestedFps = a.policy.requestedFps) (ht : b.target.fps ≤ 30)
    (hl : ∀ c, b.pump.latest = some c → a.pump.latest = some c ∨ .captured c ∈ fs) :
    Pumped s (es ++ fs) b := by
  have hpush {f : PushedFrame} (hf : .pushing f ∈ es ++ fs) : .pushing f ∈ es :=
    (List.mem_append.1 hf).resolve_right (hq f)
  constructor
  · obtain ⟨total, htotal, hle, hlt⟩ := h.clock
    exact ⟨total, hn.trans htotal, Nat.le_trans hle hd, fun f hf => hlt f (hpush hf)⟩
  · exact hr.trans h.requested
  · exact ht
  · intro c hc
    rcases hl c hc with hold | hnew
    · exact List.mem_append_left _ (h.latest c hold)
    · exact List.mem_append_right _ hnew
  · exact fun f hf => List.mem_append_left _ (h.captured f (hpush hf))
  · have hnil : fs.filterMap Event.pushedPts = [] := by
      apply List.filterMap_eq_nil_iff.2
      intro x hx
      cases x with
      | pushing f => exact absurd hx (hq f)
      | captured | enqueued | encoded | status => rfl
    unfold pushes
    rw [List.filterMap_append, hnil, List.append_nil]
    exact h.ordered
  · exact fun f g hf hg => h.unique f g (hpush hf) (hpush hg)

/-- The push has the next timestamp: its number has not wrapped, for the platform's clock has
passed it. -/
theorem push {a : State} {p : Phase} {now : UInt64} (h : Pumped s es a)
    (hd : a.nextPush ≤ now.toNat) (hp : a.pump.pushLatest a.target.fps = some (pump, f)) :
    (∀ g, .pushing g ∈ es → g.ptsNs < f.ptsNs) ∧
    Pumped s (es ++ [.pushing f])
      { a with
        pump
        phase := p
        nextPush := now.toNat + (frameInterval a.target.fps).toNat } := by
  obtain ⟨hlatest, hpts, rfl⟩ := pushLatest_eq hp
  obtain ⟨total, htotal, hle, hlt⟩ := h.clock
  have hnow : now.toNat < 2 ^ 64 := now.toNat_lt
  have hf : f.ptsNs.toNat = total := by
    rw [hpts, htotal, UInt64.toNat_ofNat_of_lt' (by show total < 2 ^ 64; omega)]
  have hlater {g : PushedFrame} (hg : .pushing g ∈ es) : g.ptsNs < f.ptsNs := by
    rw [UInt64.lt_iff_toNat_lt, hf]
    exact hlt g hg
  refine ⟨fun g hg => hlater hg, ?_, h.requested, h.fps, ?_, ?_, ?_, ?_⟩
  · have hpos := frameInterval_pos h.fps
    refine ⟨total + (frameInterval a.target.fps).toNat, ?_, ?_, ?_⟩
    · show a.pump.nextPtsNs + frameInterval a.target.fps = _
      rw [htotal, UInt64.ofNat_add, UInt64.ofNat_toNat]
    · show s.began.toNat + (total + _) ≤ now.toNat + _
      omega
    · intro g hg
      rcases mem_pushing hg with hg | rfl
      · have hlt' := hlt g hg
        omega
      · omega
  · exact fun c hc => List.mem_append_left _ (h.latest c hc)
  · intro g hg
    apply List.mem_append_left
    rcases mem_pushing hg with hg | rfl
    · exact h.captured g hg
    · exact h.latest _ hlatest
  · unfold pushes
    rw [List.filterMap_append]
    apply List.pairwise_append.2
    refine ⟨h.ordered, List.pairwise_singleton .., ?_⟩
    intro p hp q hq
    obtain ⟨x, hx, hxp⟩ := List.mem_filterMap.1 hp
    cases List.mem_singleton.1 hq
    cases x with
    | pushing g =>
      cases hxp
      exact hlater hx
    | captured | enqueued | encoded | status => cases hxp
  · intro g g' hg hg' he
    rcases mem_pushing hg with hold | rfl
    · rcases mem_pushing hg' with hold' | rfl
      · exact h.unique g g' hold hold' he
      · have hlt := hlater hold
        rw [he] at hlt
        exact absurd hlt (UInt64.lt_irrefl _)
    · rcases mem_pushing hg' with hold' | rfl
      · have hlt := hlater hold'
        rw [he] at hlt
        exact absurd hlt (UInt64.lt_irrefl _)
      · rfl

theorem step (h : Pumped s es a) (hs : Step s a fs b) : Pumped s (es ++ fs) b := by
  cases hs with
  | capture now pump f hp =>
    obtain ⟨hlatest, hnext⟩ := newSample_eq hp
    apply h.keep (b := { a with pump }) _ hnext (Nat.le_refl _) rfl h.fps
    · intro c hc
      cases hlatest.symm.trans hc
      exact .inr (List.mem_singleton_self _)
    · intro g hg
      cases List.mem_singleton.1 hg
  | pause => exact h.keep (fun _ => List.not_mem_nil) rfl (Nat.le_refl _) rfl h.fps fun _ => .inl
  | retarget nowMs hw =>
    apply h.keep (b := { a with target := a.policy.target nowMs }) (fun _ => List.not_mem_nil) rfl
      (Nat.le_refl _) rfl _ fun _ => .inl
    apply target_fps
    rw [h.requested]
    exact profile_fps s.fits
  | empty now hw hd hp =>
    have hle := Nat.le_trans hd (Nat.le_add_right _ (frameInterval a.target.fps).toNat)
    exact h.keep (fun _ => List.not_mem_nil) rfl hle rfl h.fps fun _ => .inl
  | push now pump f hw hd hp => exact (h.push hd hp).2
  | enqueue f hw =>
    have hq (g : PushedFrame) :
        .pushing g ∉ (if a.lastEnqueuedSerial < f.serial then [Event.enqueued f] else []) := by
      split
      · intro hg
        cases List.mem_singleton.1 hg
      · exact List.not_mem_nil
    unfold State.enqueue
    by_cases hf : a.lastEnqueuedSerial < f.serial
    · rw [if_pos hf] at hq ⊢
      rw [if_pos hf]
      exact h.keep hq rfl (Nat.le_refl _) rfl h.fps fun _ => .inl
    · rw [if_neg hf] at hq ⊢
      rw [if_neg hf]
      exact h.keep hq rfl (Nat.le_refl _) rfl h.fps fun _ => .inl
  | pushed f hw =>
    unfold State.pushed
    split <;> exact h.keep (fun _ => List.not_mem_nil) rfl (Nat.le_refl _) rfl h.fps fun _ => .inl
  | failed => exact h.keep (fun _ => List.not_mem_nil) rfl (Nat.le_refl _) rfl h.fps fun _ => .inl
  | encode ptsNs room =>
    have hq (g : PushedFrame) (out : Option HelperOut) :
        .pushing g ∉ [Event.encoded ptsNs out] := by
      intro hg
      cases List.mem_singleton.1 hg
    cases ptsNs with
    | none => exact h.keep (fun g => hq g _) rfl (Nat.le_refl _) rfl h.fps fun _ => .inl
    | some p => exact h.keep (fun g => hq g _) rfl (Nat.le_refl _) rfl h.fps fun _ => .inl
  | status nowTick hw =>
    apply h.keep _ rfl (Nat.le_refl _) rfl h.fps fun _ => .inl
    intro g hg
    cases List.mem_singleton.1 hg

theorem start (s : Setup) : Pumped s [] (.start s) := by
  refine ⟨⟨0, rfl, Nat.le_refl _, ?_⟩, rfl, ?_, ?_, ?_, .nil, ?_⟩
  · intro f hf
    cases hf
  · exact target_fps _ _ (profile_fps s.fits)
  · intro c hc
    cases hc
  · intro f hf
    cases hf
  · intro f g hf
    cases hf

end Pumped

/-- The table holds proofs of pushed captures that were not reported yet, a proof is entered for
the first push of a serial only, and what was reported is such a proof. -/
structure Proved (es : List Event) (h : State) : Prop where
  serials : h.lastSourceSerial = h.lastEnqueuedSerial
  current : ∀ f, h.phase = .pushing f ∨ h.phase = .queued f →
    .pushing f ∈ es ∧ ∀ g, .pushing g ∈ es → g.ptsNs ≤ f.ptsNs
  pushed : h.phase ≠ .ended → ∀ f, .pushing f ∈ es →
    f.serial ≤ h.lastEnqueuedSerial ∨ h.phase = .pushing f ∨ h.phase = .queued f
  noted : h.phase ≠ .ended → ∀ f, .enqueued f ∈ es →
    f.serial ≤ h.lastEnqueuedSerial ∨ h.phase = .queued f
  enqueued : ∀ f, .enqueued f ∈ es → .pushing f ∈ es
  increasing : ∀ f g, .enqueued f ∈ es → .enqueued g ∈ es → f.ptsNs < g.ptsNs →
    f.serial < g.serial
  first : ∀ f g, .pushing f ∈ es → .enqueued g ∈ es → f.serial = g.serial → g.ptsNs ≤ f.ptsNs
  pending : ∀ p proof, h.pending.entries.lookup p = some proof →
    (∃ f, .enqueued f ∈ es ∧ f.ptsNs = p ∧ proof = ⟨f.serial, f.capturedAtMs⟩) ∧
      ∀ out, .encoded (some p) (some out) ∉ es
  encoded : ∀ p out, .encoded p (some out) ∈ es → ∃ f, .enqueued f ∈ es ∧ p = some f.ptsNs ∧
    out = .frame (toString f.serial.toNat) f.capturedAtMs
  size : Table.size h.pending.entries ≤ MAX_PENDING_FRESH_PROOFS
  nodup : (reported es).Nodup

/-- The event neither pushes nor enters nor reports a frame. -/
def Event.quiet : Event → Bool
  | .captured _ | .status _ | .encoded _ none => true
  | .pushing _ | .enqueued _ | .encoded _ (some _) => false

theorem reported_quiet {fs : List Event} (h : ∀ x ∈ fs, x.quiet = true) :
    reported (es ++ fs) = reported es := by
  have hnil : fs.filterMap Event.reported = [] := by
    apply List.filterMap_eq_nil_iff.2
    intro x hx
    cases x with
    | captured | status | pushing | enqueued => rfl
    | encoded p out =>
      cases out with
      | none => rfl
      | some out => cases h _ hx
  unfold reported
  rw [List.filterMap_append, hnil, List.append_nil]

/-- What is reported is the serial of a proof, at the timestamp of its frame. -/
theorem reported_source {es : List Event} (h : ∀ p out, .encoded p (some out) ∈ es →
      ∃ f, .enqueued f ∈ es ∧ p = some f.ptsNs ∧
        out = .frame (toString f.serial.toNat) f.capturedAtMs) (hx : x ∈ es)
    (hs : x.reported = some serial) :
    ∃ f, .enqueued f ∈ es ∧ f.serial = serial ∧ ∃ out, x = .encoded (some f.ptsNs) (some out) := by
  cases x with
  | captured | status | pushing | enqueued => cases hs
  | encoded p out =>
    cases out with
    | none => cases hs
    | some out =>
      obtain ⟨f, hf, rfl, rfl⟩ := h p out hx
      rw [Event.reported, parseU64_toString f.serial.toNat_lt, UInt64.ofNat_toNat] at hs
      cases hs
      exact ⟨f, hf, rfl, _, rfl⟩

namespace Proved

/-- A step that neither pushes nor enters nor reports a frame. -/
theorem keep (h : Proved es a) (hq : ∀ x ∈ fs, x.quiet = true)
    (hs : b.lastSourceSerial = a.lastSourceSerial)
    (he : b.lastEnqueuedSerial = a.lastEnqueuedSerial) (hp : b.pending = a.pending)
    (hw : b.phase = a.phase ∨ b.phase = .ended) : Proved (es ++ fs) b := by
  have hold {x : Event} (hx : x ∈ es ++ fs) (hloud : x.quiet = false) : x ∈ es := by
    rcases List.mem_append.1 hx with hx | hx
    · exact hx
    · rw [hq x hx] at hloud
      cases hloud
  have hmem {x : Event} (hx : x ∈ es) : x ∈ es ++ fs := List.mem_append_left _ hx
  have hphase {f : PushedFrame} (hf : b.phase = .pushing f ∨ b.phase = .queued f) :
      a.phase = .pushing f ∨ a.phase = .queued f := by
    rcases hw with hw | hw
    · rw [← hw]
      exact hf
    · rw [hw] at hf
      rcases hf with hf | hf <;> cases hf
  have hrun (hb : b.phase ≠ .ended) : b.phase = a.phase := hw.resolve_right hb
  constructor
  · rw [hs, he]
    exact h.serials
  · intro f hf
    obtain ⟨hpush, hlast⟩ := h.current f (hphase hf)
    exact ⟨hmem hpush, fun g hg => hlast g (hold hg rfl)⟩
  · intro hb f hf
    rw [hrun hb, he]
    exact h.pushed (hrun hb ▸ hb) f (hold hf rfl)
  · intro hb f hf
    rw [hrun hb, he]
    exact h.noted (hrun hb ▸ hb) f (hold hf rfl)
  · exact fun f hf => hmem (h.enqueued f (hold hf rfl))
  · exact fun f g hf hg => h.increasing f g (hold hf rfl) (hold hg rfl)
  · exact fun f g hf hg => h.first f g (hold hf rfl) (hold hg rfl)
  · intro p proof hl
    rw [hp] at hl
    obtain ⟨⟨f, hf, hfp⟩, hout⟩ := h.pending p proof hl
    exact ⟨⟨f, hmem hf, hfp⟩, fun out hm => hout out (hold hm rfl)⟩
  · intro p out hm
    obtain ⟨f, hf, hfp⟩ := h.encoded p out (hold hm rfl)
    exact ⟨f, hmem hf, hfp⟩
  · rw [hp]
    exact h.size
  · rw [reported_quiet hq]
    exact h.nodup

theorem push {a : State} (h : Proved es a) (hw : a.phase = .waiting)
    (hlater : ∀ g, .pushing g ∈ es → g.ptsNs < f.ptsNs) :
    Proved (es ++ [.pushing f]) { a with pump, phase := .pushing f, nextPush } := by
  have hmem {x : Event} (hx : x ∈ es) : x ∈ es ++ [.pushing f] := List.mem_append_left _ hx
  have hrun : a.phase ≠ .ended := by
    rw [hw]
    exact Phase.noConfusion
  constructor
  · exact h.serials
  · intro g hg
    obtain rfl : f = g := by
      rcases hg with hg | hg
      · exact Phase.pushing.inj hg
      · cases hg
    refine ⟨List.mem_append_right _ (List.mem_singleton_self _), fun g hg => ?_⟩
    rcases mem_pushing hg with hg | rfl
    · exact UInt64.le_of_lt (hlater g hg)
    · exact UInt64.le_refl _
  · intro _ g hg
    rcases mem_pushing hg with hg | rfl
    · left
      rcases h.pushed hrun g hg with hle | hphase | hphase
      · exact hle
      · rw [hw] at hphase
        cases hphase
      · rw [hw] at hphase
        cases hphase
    · exact .inr (.inl rfl)
  · intro _ g hg
    left
    rcases h.noted hrun g (mem_of_ne hg Event.noConfusion) with hle | hphase
    · exact hle
    · rw [hw] at hphase
      cases hphase
  · exact fun g hg => hmem (h.enqueued g (mem_of_ne hg Event.noConfusion))
  · exact fun g g' hg hg' => h.increasing g g' (mem_of_ne hg Event.noConfusion)
      (mem_of_ne hg' Event.noConfusion)
  · intro g g' hg hg' hs
    have henq := mem_of_ne hg' Event.noConfusion
    rcases mem_pushing hg with hg | rfl
    · exact h.first g g' hg henq hs
    · exact UInt64.le_of_lt (hlater g' (h.enqueued g' henq))
  · intro p proof hl
    obtain ⟨⟨g, hg, hgp⟩, hout⟩ := h.pending p proof hl
    exact ⟨⟨g, hmem hg, hgp⟩, fun out hm => hout out (mem_of_ne hm Event.noConfusion)⟩
  · intro p out hm
    obtain ⟨g, hg, hgp⟩ := h.encoded p out (mem_of_ne hm Event.noConfusion)
    exact ⟨g, hmem hg, hgp⟩
  · exact h.size
  · have hnil : reported (es ++ [.pushing f]) = reported es := by
      unfold reported
      rw [List.filterMap_append]
      exact List.append_nil _
    rw [hnil]
    exact h.nodup

/-- The proof of a frame with a new serial is entered. -/
theorem enqueue {a : State} (h : Proved es a) (hm : Pumped s es a) (hw : a.phase = .pushing f)
    (hnew : a.lastEnqueuedSerial < f.serial) :
    Proved (es ++ [.enqueued f]) { a.enqueue f with phase := .queued f } := by
  obtain ⟨hpush, hlast⟩ := h.current f (.inl hw)
  have hrun : a.phase ≠ .ended := by
    rw [hw]
    exact Phase.noConfusion
  have hle {g : PushedFrame} (hg : .enqueued g ∈ es) : g.serial ≤ a.lastEnqueuedSerial := by
    rcases h.noted hrun g hg with hle | hphase
    · exact hle
    · rw [hw] at hphase
      cases hphase
  have hlt {g : PushedFrame} (hg : .enqueued g ∈ es) : g.serial < f.serial :=
    UInt64.lt_of_le_of_lt (hle hg) hnew
  have hmem {x : Event} (hx : x ∈ es) : x ∈ es ++ [.enqueued f] := List.mem_append_left _ hx
  unfold State.enqueue
  rw [if_pos hnew]
  constructor
  · exact h.serials
  · intro g hg
    obtain rfl : f = g := by
      rcases hg with hg | hg
      · cases hg
      · exact Phase.queued.inj hg
    exact ⟨hmem hpush, fun g hg => hlast g (mem_of_ne hg Event.noConfusion)⟩
  · intro _ g hg
    rcases h.pushed hrun g (mem_of_ne hg Event.noConfusion) with hle | hphase | hphase
    · exact .inl hle
    · rw [hw] at hphase
      cases hphase
      exact .inr (.inr rfl)
    · rw [hw] at hphase
      cases hphase
  · intro _ g hg
    rcases mem_enqueued hg with hg | rfl
    · exact .inl (hle hg)
    · exact .inr rfl
  · intro g hg
    rcases mem_enqueued hg with hg | rfl
    · exact hmem (h.enqueued g hg)
    · exact hmem hpush
  · intro g g' hg hg' hpts
    rcases mem_enqueued hg with before | rfl
    · rcases mem_enqueued hg' with before' | rfl
      · exact h.increasing g g' before before' hpts
      · exact hlt before
    · rcases mem_enqueued hg' with before' | rfl
      · have hback := UInt64.lt_of_lt_of_le hpts (hlast g' (h.enqueued g' before'))
        exact absurd hback (UInt64.lt_irrefl _)
      · exact absurd hpts (UInt64.lt_irrefl _)
  · intro g g' hg hg' hs
    have hpushed := mem_of_ne hg Event.noConfusion
    rcases mem_enqueued hg' with hg' | rfl
    · exact h.first g g' hpushed hg' hs
    · rcases h.pushed hrun g hpushed with hle | hphase | hphase
      · exact absurd (UInt64.lt_of_le_of_lt hle hnew) (hs ▸ UInt64.lt_irrefl _)
      · rw [hw] at hphase
        cases hphase
        exact UInt64.le_refl _
      · rw [hw] at hphase
        cases hphase
  · intro p proof hl
    have hl' : ((Table.evict MAX_PENDING_FRESH_PROOFS (Table.size a.pending.entries)
        a.pending.entries).insert f.ptsNs ⟨f.serial, f.capturedAtMs⟩).lookup p = some proof := hl
    rw [Table.lookup_insert] at hl'
    split at hl'
    · next hp =>
      cases hl'
      refine ⟨⟨f, List.mem_append_right _ (List.mem_singleton_self _), hp.symm, rfl⟩, ?_⟩
      intro out hout
      obtain ⟨g, hg, hgp, -⟩ := h.encoded _ out (mem_of_ne hout Event.noConfusion)
      have hfg := hm.unique g f (h.enqueued g hg) hpush
        (Option.some.inj (hgp.symm.trans (hp ▸ rfl)))
      exact UInt64.lt_irrefl _ (hfg ▸ hlt hg)
    · obtain ⟨⟨g, hg, hgp⟩, hout⟩ := h.pending p proof (Table.lookup_evict hl')
      exact ⟨⟨g, hmem hg, hgp⟩, fun out hm => hout out (mem_of_ne hm Event.noConfusion)⟩
  · intro p out hout
    obtain ⟨g, hg, hgp⟩ := h.encoded p out (mem_of_ne hout Event.noConfusion)
    exact ⟨g, hmem hg, hgp⟩
  · have hevict := Table.size_evict (b := MAX_PENDING_FRESH_PROOFS) (by decide)
      (Nat.le_refl (Table.size a.pending.entries))
    exact Nat.le_trans (Table.size_insert_le ..) hevict
  · have hnil : reported (es ++ [.enqueued f]) = reported es := by
      unfold reported
      rw [List.filterMap_append]
      exact List.append_nil _
    rw [hnil]
    exact h.nodup

/-- A cached frame enters no proof. -/
theorem repeated {a : State} (h : Proved es a) (hw : a.phase = .pushing f)
    (hold : ¬ a.lastEnqueuedSerial < f.serial) :
    Proved es { a.enqueue f with phase := .queued f } := by
  have hrun : a.phase ≠ .ended := by
    rw [hw]
    exact Phase.noConfusion
  unfold State.enqueue
  rw [if_neg hold]
  refine ⟨h.serials, ?_, ?_, ?_, h.enqueued, h.increasing, h.first, h.pending, h.encoded, h.size,
    h.nodup⟩
  · intro g hg
    obtain rfl : f = g := by
      rcases hg with hg | hg
      · cases hg
      · exact Phase.queued.inj hg
    exact h.current f (.inl hw)
  · intro _ g hg
    rcases h.pushed hrun g hg with hle | hphase | hphase
    · exact .inl hle
    · rw [hw] at hphase
      cases hphase
      exact .inr (.inr rfl)
    · rw [hw] at hphase
      cases hphase
  · intro _ g hg
    left
    rcases h.noted hrun g hg with hle | hphase
    · exact hle
    · rw [hw] at hphase
      cases hphase

theorem settle {a : State} (h : Proved es a) (hw : a.phase = .queued f) :
    Proved es { a.pushed s f with phase := .waiting } := by
  have hrun : a.phase ≠ .ended := by
    rw [hw]
    exact Phase.noConfusion
  have hsettled {last : UInt64} (hold : a.lastEnqueuedSerial ≤ last) (hf : f.serial ≤ last) :
      (∀ g, .pushing g ∈ es → g.serial ≤ last) ∧ ∀ g, .enqueued g ∈ es → g.serial ≤ last := by
    constructor
    · intro g hg
      rcases h.pushed hrun g hg with hle | hphase | hphase
      · exact UInt64.le_trans hle hold
      · rw [hw] at hphase
        cases hphase
      · rw [hw] at hphase
        cases hphase
        exact hf
    · intro g hg
      rcases h.noted hrun g hg with hle | hphase
      · exact UInt64.le_trans hle hold
      · rw [hw] at hphase
        cases hphase
        exact hf
  have hcurrent {g : PushedFrame} (hg : Phase.waiting = .pushing g ∨ Phase.waiting = .queued g) :
      .pushing g ∈ es ∧ ∀ g', .pushing g' ∈ es → g'.ptsNs ≤ g.ptsNs := by
    rcases hg with hg | hg <;> cases hg
  unfold State.pushed
  split
  · next hlt =>
    have hle : a.lastEnqueuedSerial ≤ f.serial := h.serials ▸ UInt64.le_of_lt hlt
    obtain ⟨hpushed, hnoted⟩ := hsettled hle (UInt64.le_refl _)
    exact ⟨rfl, fun g hg => hcurrent hg, fun _ g hg => .inl (hpushed g hg),
      fun _ g hg => .inl (hnoted g hg), h.enqueued, h.increasing, h.first, h.pending, h.encoded,
      h.size, h.nodup⟩
  · next hnot =>
    have hle : f.serial ≤ a.lastEnqueuedSerial := by
      rw [← h.serials]
      exact UInt64.not_lt.1 hnot
    obtain ⟨hpushed, hnoted⟩ := hsettled (UInt64.le_refl _) hle
    exact ⟨h.serials, fun g hg => hcurrent hg, fun _ g hg => .inl (hpushed g hg),
      fun _ g hg => .inl (hnoted g hg), h.enqueued, h.increasing, h.first, h.pending, h.encoded,
      h.size, h.nodup⟩

/-- A proof leaves the table, unreported. -/
theorem take {a : State} (h : Proved es a) (ptsNs : UInt64) :
    Proved es { a with pending := (a.pending.take ptsNs).1 } := by
  have hlookup {p : UInt64} {proof : FreshProof}
      (hl : (a.pending.entries.erase ptsNs).lookup p = some proof) :
      a.pending.entries.lookup p = some proof := by
    rw [Table.lookup_erase] at hl
    split at hl
    · cases hl
    · exact hl
  exact ⟨h.serials, h.current, h.pushed, h.noted, h.enqueued, h.increasing, h.first,
    fun p proof hl => h.pending p proof (hlookup hl), h.encoded,
    Nat.le_trans (List.kerase_sublist ..).length_le h.size, h.nodup⟩

/-- A proof is reported when it leaves the table, so it is reported once. -/
theorem report {a : State} (h : Proved es a) (hm : Pumped s es a)
    (hl : a.pending.entries.lookup ptsNs = some proof) :
    Proved (es ++ [.encoded (some ptsNs)
        (some (.frame (toString proof.serial.toNat) proof.capturedAtMs))])
      { a with pending := (a.pending.take ptsNs).1 } := by
  obtain ⟨⟨f, hf, rfl, rfl⟩, hnone⟩ := h.pending ptsNs proof hl
  have htake := h.take f.ptsNs
  have hold {x : Event} (hx : x ∈ es ++ [.encoded (some f.ptsNs)
      (some (.frame (toString f.serial.toNat) f.capturedAtMs))])
      (hne : ∀ p out, x ≠ .encoded p out) : x ∈ es :=
    (List.mem_append.1 hx).resolve_right fun hx => hne _ _ (List.mem_singleton.1 hx)
  have hmem {x : Event} (hx : x ∈ es) : x ∈ es ++ [.encoded (some f.ptsNs)
      (some (.frame (toString f.serial.toNat) f.capturedAtMs))] := List.mem_append_left _ hx
  constructor
  · exact h.serials
  · intro g hg
    obtain ⟨hpush, hlast⟩ := h.current g hg
    exact ⟨hmem hpush, fun g' hg' => hlast g' (hold hg' fun _ _ => Event.noConfusion)⟩
  · exact fun hrun g hg => h.pushed hrun g (hold hg fun _ _ => Event.noConfusion)
  · exact fun hrun g hg => h.noted hrun g (hold hg fun _ _ => Event.noConfusion)
  · exact fun g hg => hmem (h.enqueued g (hold hg fun _ _ => Event.noConfusion))
  · exact fun g g' hg hg' => h.increasing g g'
      (hold hg fun _ _ => Event.noConfusion) (hold hg' fun _ _ => Event.noConfusion)
  · exact fun g g' hg hg' => h.first g g'
      (hold hg fun _ _ => Event.noConfusion) (hold hg' fun _ _ => Event.noConfusion)
  · intro p proof hp
    obtain ⟨⟨g, hg, hgp⟩, hout⟩ := htake.pending p proof hp
    refine ⟨⟨g, hmem hg, hgp⟩, fun out hm => ?_⟩
    rcases List.mem_append.1 hm with hm | hm
    · exact hout out hm
    · cases List.mem_singleton.1 hm
      have hgone : (a.pending.entries.erase f.ptsNs).lookup f.ptsNs = some proof := hp
      rw [Table.lookup_erase, if_pos rfl] at hgone
      cases hgone
  · intro p out hm
    rcases List.mem_append.1 hm with hm | hm
    · obtain ⟨g, hg, hgp⟩ := h.encoded p out hm
      exact ⟨g, hmem hg, hgp⟩
    · cases List.mem_singleton.1 hm
      exact ⟨f, hmem hf, rfl, rfl⟩
  · exact htake.size
  · have hsnoc : reported (es ++ [.encoded (some f.ptsNs)
        (some (.frame (toString f.serial.toNat) f.capturedAtMs))]) = reported es ++ [f.serial] := by
      unfold reported
      rw [List.filterMap_append, List.filterMap_cons_some (b := f.serial)]
      · rfl
      · rw [Event.reported, parseU64_toString f.serial.toNat_lt, UInt64.ofNat_toNat]
    rw [hsnoc]
    apply List.nodup_append.2
    refine ⟨h.nodup, List.nodup_singleton _, ?_⟩
    rintro serial hs _ hmem rfl
    cases List.mem_singleton.1 hmem
    obtain ⟨x, hx, hxs⟩ := List.mem_filterMap.1 hs
    obtain ⟨g, hg, hgs, out, rfl⟩ := reported_source h.encoded hx hxs
    -- two entered frames with one serial are one, and its buffer has reported nothing yet
    obtain rfl : g = f := by
      apply hm.unique g f (h.enqueued g hg) (h.enqueued f hf)
      exact UInt64.le_antisymm (h.first f g (h.enqueued f hf) hg hgs.symm)
        (h.first g f (h.enqueued g hg) hf hgs)
    exact hnone _ hx

theorem step (h : Proved es a) (hm : Pumped s es a) (hs : Step s a fs b) :
    Proved (es ++ fs) b := by
  cases hs with
  | capture now pump f hp =>
    apply h.keep (b := { a with pump }) _ rfl rfl rfl (.inl rfl)
    intro x hx
    cases List.mem_singleton.1 hx
    rfl
  | pause => exact h.keep nofun rfl rfl rfl (.inl rfl)
  | retarget | empty => exact h.keep nofun rfl rfl rfl (.inl rfl)
  | push now pump f hw hd hp => exact h.push hw (hm.push (p := .pushing f) hd hp).1
  | enqueue f hw =>
    split
    · next hnew => exact h.enqueue hm hw hnew
    · next hold =>
      rw [List.append_nil]
      exact h.repeated hw hold
  | pushed f hw =>
    rw [List.append_nil]
    exact h.settle hw
  | failed => exact h.keep nofun rfl rfl rfl (.inr rfl)
  | encode ptsNs room =>
    have hquiet (p : Option UInt64) : ∀ x ∈ [Event.encoded p none], x.quiet = true := by
      intro x hx
      cases List.mem_singleton.1 hx
      rfl
    cases ptsNs with
    | none => exact h.keep (hquiet none) rfl rfl rfl (.inl rfl)
    | some p =>
      have hprobe : a.probe (some p) =
        ({ a with pending := (a.pending.take p).1 }, a.pending.entries.lookup p) := rfl
      rw [hprobe]
      cases hl : a.pending.entries.lookup p with
      | none => exact (h.take p).keep (hquiet _) rfl rfl rfl (.inl rfl)
      | some proof =>
        cases room with
        | true => exact h.report hm hl
        | false => exact (h.take p).keep (hquiet _) rfl rfl rfl (.inl rfl)
  | status nowTick hw =>
    apply h.keep _ rfl rfl rfl (.inl rfl)
    intro x hx
    cases List.mem_singleton.1 hx
    rfl

theorem start (s : Setup) : Proved [] (.start s) := by
  refine ⟨rfl, ?_, ?_, ?_, ?_, ?_, ?_, ?_, ?_, Nat.zero_le _, .nil⟩
  · intro f hf
    rcases hf with hf | hf <;> cases hf
  · intro _ f hf
    cases hf
  · intro _ f hf
    cases hf
  · intro f hf
    cases hf
  · intro f g hf
    cases hf
  · intro f g hf
    cases hf
  · intro p proof hl
    cases hl
  · intro p out hm
    cases hm

theorem run (hr : Run (Step s) (.start s) es h) : Pumped s es h ∧ Proved es h := by
  apply hr.invariant (I := fun es h => Pumped s es h ∧ Proved es h)
  · exact ⟨.start s, .start s⟩
  · rintro es a fs b ⟨hpumped, hproved⟩ hs
    exact ⟨hpumped.step hs, hproved.step hpumped hs⟩

end Proved

/-- A push of a frame, and a later push of the same capture. -/
def Repeats (es : List Event) (f g : PushedFrame) : Prop :=
  List.Sublist [.pushing f, .pushing g] es ∧ f.serial = g.serial

theorem Repeats.later (h : Repeats es f g) (ho : (pushes es).Pairwise (· < ·)) :
    f.ptsNs < g.ptsNs := by
  have hsub : [f.ptsNs, g.ptsNs].Sublist (pushes es) := h.1.filterMap Event.pushedPts
  exact List.rel_of_pairwise_cons (ho.sublist hsub) (List.mem_singleton_self _)

/-- The proofs of freshness are genuine. -/
theorem frames_genuine (hr : Run (Step s) (.start s) es h) :
    (reported es).Nodup ∧
    (∀ p out, .encoded p (some out) ∈ es → ∃ f, p = some f.ptsNs ∧ .pushing f ∈ es ∧
      .captured f.captured ∈ es ∧ out = .frame (toString f.serial.toNat) f.capturedAtMs) ∧
    (∀ f g, Repeats es f g → ∀ out, .encoded (some g.ptsNs) (some out) ∉ es) ∧
    Table.size h.pending.entries ≤ 128 ∧
    (List.Sublist (outputs es) (pushes es) → (reported es).Pairwise (· < ·)) := by
  obtain ⟨hm, hp⟩ := Proved.run hr
  refine ⟨hp.nodup, ?_, ?_, hp.size, ?_⟩
  · intro p out hout
    obtain ⟨f, hf, hfp, hframe⟩ := hp.encoded p out hout
    exact ⟨f, hfp, hp.enqueued f hf, hm.captured f (hp.enqueued f hf), hframe⟩
  · intro f g hrep out hout
    have hlt := hrep.later hm.ordered
    obtain ⟨hsub, hserial⟩ := hrep
    have hf : .pushing f ∈ es := hsub.subset (List.mem_cons_self ..)
    have hg : .pushing g ∈ es := hsub.subset (List.mem_cons_of_mem _ (List.mem_cons_self ..))
    obtain ⟨g', hg', hpts, -⟩ := hp.encoded _ out hout
    obtain rfl := hm.unique g g' hg (hp.enqueued g' hg') (Option.some.inj hpts)
    exact UInt64.lt_irrefl _ (UInt64.lt_of_lt_of_le hlt (hp.first f g hf hg' hserial))
  · intro hsub
    have hout : es.Pairwise fun x y => ∀ p, x.encodedPts = some p → ∀ q, y.encodedPts = some q →
        p < q := List.pairwise_filterMap.1 (hm.ordered.sublist hsub)
    apply List.pairwise_filterMap.2
    apply hout.imp_of_mem
    intro x y hx hy hxy a ha b hb
    obtain ⟨f, hf, rfl, out, rfl⟩ := reported_source hp.encoded hx ha
    obtain ⟨g, hg, rfl, out', rfl⟩ := reported_source hp.encoded hy hb
    exact hp.increasing f g hf hg (hxy _ rfl _ rfl)

def aSetup : Setup where
  choice := .hardware
  requested := ⟨1280, 720, 15, 2500⟩
  source := ⟨0, 0, 1280, 720⟩
  scaled := (1280, 720)
  profile := ⟨1280, 720, 15, 2500⟩
  fits := by decide
  startedTick := 0
  began := 0

/-- Between two captures the first is pushed once more. -/
theorem frames_genuine_repeated : ∃ es h, Run (Step aSetup) (.start aSetup) es h ∧
    outputs es = pushes es ∧ reported es = [1, 2] ∧ (reported es).Nodup ∧
    (∀ out, .encoded (some 66666666) (some out) ∉ es) ∧ (reported es).Pairwise (· < ·) := by
  obtain ⟨h, hr⟩ : ∃ h, Run (Step aSetup) (.start aSetup) [.captured ⟨1, 5⟩, .pushing ⟨0, 1, 5⟩,
      .enqueued ⟨0, 1, 5⟩, .encoded (some 0) (some (.frame "1" 5)), .pushing ⟨66666666, 1, 5⟩,
      .encoded (some 66666666) none, .captured ⟨2, 6⟩, .pushing ⟨133333332, 2, 6⟩,
      .enqueued ⟨133333332, 2, 6⟩, .encoded (some 133333332) (some (.frame "2" 6))] h := by
    have hfirst : Run (Step aSetup) (.start aSetup) _ _ := ((((Run.single
      (.capture _ 5 _ _ rfl)).snoc (.push _ 0 _ _ rfl (by decide) rfl)).snoc
      (.enqueue _ _ rfl)).snoc (.pushed _ _ rfl)).snoc (.encode _ (some 0) true)
    have hagain := (((hfirst.snoc (.push _ 66666666 _ _ rfl (by decide) rfl)).snoc
      (.enqueue _ _ rfl)).snoc (.pushed _ _ rfl)).snoc (.encode _ (some 66666666) true)
    exact ⟨_, ((((hagain.snoc (.capture _ 6 _ _ rfl)).snoc
      (.push _ 133333332 _ _ rfl (by decide) rfl)).snoc (.enqueue _ _ rfl)).snoc
      (.pushed _ _ rfl)).snoc (.encode _ (some 133333332) true)⟩
  obtain ⟨hnodup, -, hrepeat, -, horder⟩ := frames_genuine hr
  refine ⟨_, h, hr, rfl, by decide, hnodup, hrepeat ⟨0, 1, 5⟩ ⟨66666666, 1, 5⟩ ⟨?_, rfl⟩,
    horder (List.Sublist.refl _)⟩
  exact .cons _ (.cons_cons _ (.cons _ (.cons _ (.cons_cons _ (List.nil_sublist _)))))

end Helper
end RemoteCodex
