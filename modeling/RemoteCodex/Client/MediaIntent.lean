import RemoteCodex.Lib.Trace
import RemoteCodex.Client.MediaClient

namespace RemoteCodex
set_option autoImplicit true
open Trace
namespace MediaClient

/-- A lease is held, or it may come without another call. -/
def Page.Claims (w : Page) : Prop := w.client.lease ≠ none ∨ w.Crossing

/-- The attempts to come have no socket yet. -/
def Page.Fresh (w : Page) : Prop := ∀ a, w.client.attempt < a → w.wires a = none

/-- What a step does to the lease and to what is on its way. -/
inductive Leads (w : Page) : List Event → Page → Prop where
  | acquire (w' : Page) : Leads w [.acquire] w'
  | stop (w' : Page) (h : ¬ w'.Claims) : Leads w [.stop] w'
  | release (w' : Page) (h : w'.Claims → w.Crossing) : Leads w [.release] w'
  | quiet (w' : Page) (h : w'.Claims → w.Claims) : Leads w [] w'

/-- `release` is called only while no acquire is on its way to the host and no grant on its way
back. -/
def Timely (text : Js.Value → Option Js.Str) (w : Page) (es : List Event) (w' : Page) : Prop :=
  Step text w es w' ∧ (.release ∈ es → ¬ w.Crossing)

@[simp] theorem post_client (w : Page) (r : Request) : (w.post r).client = w.client := by
  unfold Page.post
  split
  · rfl
  · split <;> rfl

theorem setWire_wires (w : Page) (a b : Nat) (wire : Wire) :
    (w.setWire a wire).wires b = if b = a then some wire else w.wires b :=
  Function.update_apply ..

theorem setWire_fresh {w : Page} (h : w.Fresh) (hw : w.wires a ≠ none) :
    (w.setWire a wire).Fresh := by
  intro b hb
  have hne : b ≠ a := by
    rintro rfl
    exact hw (h b hb)
  rw [setWire_wires, if_neg hne]
  exact h b hb

theorem post_fresh {w : Page} (h : w.Fresh) (r : Request) : (w.post r).Fresh := by
  unfold Page.post
  split
  · exact h
  · next a _ =>
    split
    · exact h
    · next wire hw =>
      apply setWire_fresh h
      rw [hw]
      exact Option.some_ne_none wire

theorem setWire_crossing {w : Page} (hw : w.wires a = some old)
    (hcross : wire.Crossing → old.Crossing) (h : (w.setWire a wire).Crossing) : w.Crossing := by
  obtain ⟨x, hx, hc⟩ := h
  rw [setWire_wires] at hx
  split at hx
  · next ha =>
    cases hx
    exact ⟨old, by rw [← hw, ← ha]; rfl, hcross hc⟩
  · exact ⟨x, hx, hc⟩

theorem post_crossing (w : Page) (hr : r.acquires = false) (h : (w.post r).Crossing) :
    w.Crossing := by
  unfold Page.post at h
  split at h
  · exact h
  · split at h
    · exact h
    · next wire hw =>
      apply setWire_crossing hw _ h
      rintro (⟨q, hq, hacq⟩ | hdown)
      · rcases List.mem_append.1 hq with hq | hq
        · exact .inl ⟨q, hq, hacq⟩
        · rw [List.mem_singleton.1 hq, hr] at hacq
          cases hacq
      · exact .inr hdown

theorem release_fresh {w : Page} (h : w.Fresh) (ready : Bool) : (w.release ready).Fresh := by
  unfold Page.release
  split
  · intro a ha
    have hp := post_fresh h .release
    exact hp a (by rw [post_client]; exact ha)
  · exact h

theorem release_crossing (w : Page) (ready : Bool) (h : (w.release ready).Crossing) :
    w.Crossing := by
  unfold Page.release at h
  split at h
  · apply post_crossing w (r := .release) rfl
    obtain ⟨wire, hw, hc⟩ := h
    exact ⟨wire, by rw [post_client]; exact hw, hc⟩
  · exact h

theorem release_leads (w : Page) (ready : Bool) : Leads w [.release] (w.release ready) := by
  apply Leads.release
  rintro (hl | hc)
  · exact absurd rfl hl
  · exact release_crossing w ready hc

theorem stop_wires {w : Page} (h : w.Fresh) (ready : Bool) :
    ∀ a, w.client.attempt < a → (w.stop ready).wires a = none := by
  intro a ha
  have hrel := release_fresh h ready
  unfold Page.stop
  split
  · exact post_fresh hrel .stop a (by rw [post_client]; exact ha)
  · exact hrel a ha

theorem stop_leads {w : Page} (h : w.Fresh) (ready : Bool) :
    (w.stop ready).Fresh ∧ Leads w [.stop] (w.stop ready) := by
  have hwires := stop_wires h ready
  constructor
  · intro a ha
    exact hwires a (Nat.lt_of_succ_lt ha)
  · apply Leads.stop
    rintro (hl | ⟨wire, hw, -⟩)
    · exact hl rfl
    · have hnone : (w.stop ready).wires (w.client.attempt + 1) = none :=
        hwires _ (Nat.lt_succ_self _)
      exact Option.some_ne_none wire (hw.symm.trans hnone)

theorem sendOrFail_leads {w : Page} (h : w.Fresh) (ready : Bool) (hr : r.acquires = false) :
    (w.sendOrFail ready r).1.Fresh ∧ Leads w (w.sendOrFail ready r).2 (w.sendOrFail ready r).1 := by
  unfold Page.sendOrFail
  split
  · next w' hs =>
    have hw' : w' = w.post r := by
      unfold Page.send at hs
      split at hs
      · exact (Option.some.inj hs).symm
      · cases hs
    rw [hw']
    refine ⟨post_fresh h r, .quiet _ ?_⟩
    rintro (hl | hc)
    · rw [post_client] at hl
      exact .inl hl
    · exact .inr (post_crossing w hr hc)
  · exact stop_leads h ready

/-- What a message that is taken can change. -/
theorem message_cases {c c' : MediaClient} (h : c.message text signaled m = some (c', effect)) :
    c' = c ∨ c' = { c with lease := none } ∨
      (∃ lease, c' = { c with lease, seq := 0 } ∧ (lease ≠ none → grants (some m) = true)) ∨
      ∃ captureState awaitingFreshFrame controlAllowed,
        c' = { c with captureState, awaitingFreshFrame, controlAllowed } := by
  unfold message at h
  split at h
  · cases h
  · next kind hk =>
    split at h
    · split at h
      · cases h
        exact .inl rfl
      · cases h
    split at h
    · obtain ⟨sdp, -, he⟩ := Option.map_eq_some_iff.1 h
      cases he
      exact .inl rfl
    split at h
    · obtain ⟨sdp, -, he⟩ := Option.map_eq_some_iff.1 h
      cases he
      exact .inl rfl
    split at h
    · next hlease =>
      obtain ⟨lease, hl, he⟩ := Option.map_eq_some_iff.1 h
      cases he
      refine .inr (.inr (.inl ⟨lease, rfl, fun hsome => ?_⟩))
      rw [grants, hk, hlease, hl]
      exact Bool.and_eq_true_iff.2 ⟨decide_eq_true rfl, Option.isSome_iff_ne_none.2 hsome⟩
    split at h
    · obtain ⟨s, -, he⟩ := Option.map_eq_some_iff.1 h
      cases he
      exact .inr (.inr (.inr ⟨_, _, _, rfl⟩))
    split at h
    · split at h
      · cases h
        exact .inr (.inl rfl)
      · cases h
    split at h
    · cases h
      exact .inl rfl
    · cases h

/-- A message that is taken leaves no lease that was not held before, unless it is a grant. -/
theorem message_lease {c c' : MediaClient} (h : c.message text signaled m = some (c', effect))
    (hl : c'.lease ≠ none) : c.lease ≠ none ∨ grants (some m) = true := by
  rcases message_cases h with rfl | rfl | ⟨lease, rfl, hg⟩ | ⟨_, _, _, rfl⟩
  · exact .inl hl
  · exact absurd rfl hl
  · exact .inr (hg hl)
  · exact .inl hl

theorem message_attempt {c c' : MediaClient} (h : c.message text signaled m = some (c', effect)) :
    c'.attempt = c.attempt := by
  rcases message_cases h with rfl | rfl | ⟨lease, rfl, -⟩ | ⟨_, _, _, rfl⟩ <;> rfl

theorem Leads.from {v w : Page} (h : Leads v es w') (hcl : v.Claims → w.Claims)
    (hcr : v.Crossing → w.Crossing) : Leads w es w' := by
  cases h with
  | acquire => exact .acquire _
  | stop _ h => exact .stop _ h
  | release _ h => exact .release _ fun hc => hcr (h hc)
  | quiet _ h => exact .quiet _ fun hc => hcl (h hc)

theorem crossing_congr {v w : Page} (ha : v.client.attempt = w.client.attempt)
    (hw : v.wires = w.wires) (h : v.Crossing) : w.Crossing := by
  obtain ⟨wire, hwire, hc⟩ := h
  exact ⟨wire, by rw [← ha, ← hw]; exact hwire, hc⟩

theorem popped_crossing {w : Page} (hw : w.wires a = some wire) (hd : wire.down = data :: rest) :
    (w.setWire a { wire with down := rest }).Crossing → w.Crossing := by
  apply setWire_crossing hw
  rintro (hup | ⟨m, hm, hg⟩)
  · exact .inl hup
  · refine .inr ⟨m, ?_, hg⟩
    rw [hd]
    exact List.mem_cons_of_mem _ hm

/-- The next message of the current socket. -/
theorem receive_leads {w : Page} (h : w.Fresh) (signaled : Option Js.Str) (ready : Bool)
    (hw : w.wires a = some wire) (hd : wire.down = data :: rest) (hc : a = w.client.attempt) :
    ((w.setWire a { wire with down := rest }).receive text signaled ready data).1.Fresh ∧
      Leads w ((w.setWire a { wire with down := rest }).receive text signaled ready data).2
        ((w.setWire a { wire with down := rest }).receive text signaled ready data).1 := by
  have hpopped := popped_crossing hw hd
  have hfresh : (w.setWire a { wire with down := rest }).Fresh := by
    apply setWire_fresh h
    rw [hw]
    exact Option.some_ne_none wire
  generalize hv : w.setWire a { wire with down := rest } = v at hpopped hfresh
  have hclient : v.client = w.client := by
    rw [← hv]
    rfl
  unfold Page.receive
  cases hm : data.bind (v.client.message text signaled) with
  | none =>
    have hstop := stop_leads hfresh ready
    refine ⟨hstop.1, hstop.2.from ?_ hpopped⟩
    rintro (hl | hcr)
    · rw [hclient] at hl
      exact .inl hl
    · exact .inr (hpopped hcr)
  | some result =>
    obtain ⟨c, effect⟩ := result
    obtain ⟨m, rfl, hm⟩ := Option.bind_eq_some_iff.1 hm
    have hatt := message_attempt hm
    have hcross : ({ v with client := c } : Page).Crossing → w.Crossing := fun hx =>
      hpopped (crossing_congr (v := { v with client := c }) hatt rfl hx)
    have hclaims : ({ v with client := c } : Page).Claims → w.Claims := by
      rintro (hl | hx)
      · rcases message_lease hm hl with hheld | hgrant
        · rw [hclient] at hheld
          exact .inl hheld
        · have hmem : some m ∈ wire.down := by
            rw [hd]
            exact List.mem_cons_self ..
          exact .inr ⟨wire, by rw [← hc]; exact hw, .inr ⟨_, hmem, hgrant⟩⟩
      · exact .inr (hcross hx)
    have hfresh' : ({ v with client := c } : Page).Fresh := by
      intro b hb
      exact hfresh b (by rw [← hatt]; exact hb)
    cases effect with
    | nothing => exact ⟨hfresh', .quiet _ hclaims⟩
    | release => exact ⟨release_fresh hfresh' ready, (release_leads _ ready).from hclaims hcross⟩
    | answer sdp =>
      have hsend := sendOrFail_leads hfresh' ready (r := .answer sdp) rfl
      exact ⟨hsend.1, hsend.2.from hclaims hcross⟩

/-- Fields that do not matter may change after a quiet step. -/
theorem Leads.then (h : Leads w [] v) (hl : u.client.lease = v.client.lease)
    (ha : u.client.attempt = v.client.attempt) (hw : u.wires = v.wires) : Leads w [] u := by
  cases h with
  | quiet _ h =>
    apply Leads.quiet
    rintro (hlease | hc)
    · rw [hl] at hlease
      exact h (.inl hlease)
    · exact h (.inr (crossing_congr ha hw hc))

theorem Leads.refl (w : Page) : Leads w [] w := .quiet w id

theorem send_leads {w : Page} (h : w.Fresh) (hs : w.send ready r = some w') : w'.Fresh ∧
    w'.client = w.client ∧ (r.acquires = false → Leads w [] w') := by
  unfold Page.send at hs
  split at hs
  · cases hs
    refine ⟨post_fresh h r, post_client w r, fun hr => .quiet _ ?_⟩
    rintro (hl | hc)
    · rw [post_client] at hl
      exact .inl hl
    · exact .inr (post_crossing w hr hc)
  · cases hs

theorem acquire_fresh {w : Page} (h : w.Fresh) (now : Rat) (ready : Bool) :
    (w.acquire now ready).Fresh := by
  unfold Page.acquire
  split
  · exact h
  · next s _ =>
    split
    · cases hs : w.send ready (.acquire s.generation s.geometryVersion) with
      | none => exact h
      | some w' => exact (send_leads h hs).1
    · exact h

theorem action_leads {w : Page} (h : w.Fresh) (now : Rat) (ready : Bool) (action : Js.Value) :
    (w.action now ready action).1.Fresh ∧
      Leads w (w.action now ready action).2 (w.action now ready action).1 := by
  unfold Page.action
  split
  · split
    · next lease s _ _ _ =>
      have hsend := sendOrFail_leads
        (w := { w with client := { w.client with seq := w.client.seq + 1 } }) h ready
        (r := .input lease s.generation s.geometryVersion (w.client.seq + 1) action) rfl
      exact ⟨hsend.1, hsend.2.from id id⟩
    · exact ⟨release_fresh h ready, release_leads w ready⟩
  · exact ⟨release_fresh h ready, release_leads w ready⟩

theorem report_leads {w : Page} (h : w.Fresh) (s : MediaSource) (now : Rat) (ready : Bool) :
    (w.report s now ready).1.Fresh ∧
      Leads w (w.report s now ready).2 (w.report s now ready).1 := by
  unfold Page.report
  split
  · split
    · next w' hs =>
      obtain ⟨hf, -, hl⟩ := send_leads h hs
      exact ⟨hf, (hl rfl).then rfl rfl rfl⟩
    · exact stop_leads h ready
  · exact ⟨h, .refl w⟩

theorem frame_leads {w : Page} (h : w.Fresh) (now : Rat) (ready : Bool) :
    (w.frame now ready).1.Fresh ∧ Leads w (w.frame now ready).2 (w.frame now ready).1 := by
  unfold Page.frame
  split
  · exact ⟨h, .refl w⟩
  · next s _ =>
    have hrep := report_leads
      (w := { w with client := { w.client with gate := w.client.gate.presented now } }) h s now
      ready
    exact ⟨hrep.1, hrep.2.from id id⟩

theorem transport_leads {w : Page} (h : w.Fresh) (ready connected down : Bool) :
    (w.transport ready connected down).1.Fresh ∧
      Leads w (w.transport ready connected down).2 (w.transport ready connected down).1 := by
  unfold Page.transport
  split
  · constructor
    · exact release_fresh
        (w := { w with client := { w.client with gate := w.client.gate.transport connected } }) h
        ready
    · exact (release_leads _ ready).from id id
  · exact ⟨h, (Leads.refl w).then rfl rfl rfl⟩

theorem stale_leads {w : Page} (h : w.Fresh) (now : Rat) (ready : Bool) :
    (w.stale now ready).1.Fresh ∧ Leads w (w.stale now ready).2 (w.stale now ready).1 := by
  unfold Page.stale
  split
  · exact ⟨release_fresh h ready, release_leads w ready⟩
  · exact ⟨h, .refl w⟩

theorem heartbeat_leads {w : Page} (h : w.Fresh) (ready : Bool) :
    (w.heartbeat ready).1.Fresh ∧ Leads w (w.heartbeat ready).2 (w.heartbeat ready).1 := by
  unfold Page.heartbeat
  split
  · exact sendOrFail_leads h ready rfl
  · exact sendOrFail_leads h ready rfl

theorem open_leads {w : Page} (h : w.Fresh) (ready : Bool) (source : MediaSource) :
    (w.open ready source).Fresh ∧ Leads w [.stop] (w.open ready source) := by
  have hwires := stop_wires h ready
  constructor
  · intro a ha
    exact hwires a (by have := Nat.lt_of_succ_lt ha; exact Nat.lt_of_succ_lt this)
  · apply Leads.stop
    rintro (hl | ⟨wire, hw, -⟩)
    · exact hl rfl
    · have hnone : (w.stop ready).wires (w.client.attempt + 2) = none :=
        hwires _ (Nat.lt_add_of_pos_right (by decide))
      exact Option.some_ne_none wire (hw.symm.trans hnone)

theorem socketOpened_leads {w : Page} (h : w.Fresh) (a : Nat) :
    (w.socketOpened a).Fresh ∧ Leads w [] (w.socketOpened a) := by
  unfold Page.socketOpened
  split
  · next ha =>
    constructor
    · intro b hb
      have hne : b ≠ a := by
        rintro rfl
        exact absurd hb (by rw [ha]; exact Nat.lt_irrefl _)
      rw [setWire_wires, if_neg hne]
      exact h b hb
    · apply Leads.quiet
      rintro (hl | ⟨wire, hw, hc⟩)
      · exact .inl hl
      · rw [setWire_wires] at hw
        split at hw
        · cases hw
          rcases hc with ⟨r, hr, -⟩ | ⟨m, hm, -⟩
          · cases hr
          · cases hm
        · next hne => exact absurd ha.symm hne
  · exact ⟨h, (Leads.refl w).then rfl rfl rfl⟩

/-- The host's answers carry a grant only when they answer an acquire. -/
theorem host_leads {w : Page} (h : w.Fresh) (hw : w.wires a = some wire)
    (hu : wire.up = request.toList ++ rest)
    (ha : Answers Request.acquires grants request answers) :
    (w.setWire a ⟨rest, wire.down ++ answers⟩).Fresh ∧
      Leads w [] (w.setWire a ⟨rest, wire.down ++ answers⟩) := by
  constructor
  · apply setWire_fresh h
    rw [hw]
    exact Option.some_ne_none wire
  · apply Leads.quiet
    rintro (hl | hc)
    · exact .inl hl
    · apply Or.inr
      apply setWire_crossing hw _ hc
      rintro (⟨r, hr, hacq⟩ | ⟨m, hm, hg⟩)
      · refine .inl ⟨r, ?_, hacq⟩
        rw [hu]
        exact List.mem_append_right _ hr
      · rcases List.mem_append.1 hm with hm | hm
        · exact .inr ⟨m, hm, hg⟩
        · obtain ⟨r, rfl, hacq⟩ := ha.asked hm hg
          refine .inl ⟨r, ?_, hacq⟩
          rw [hu]
          exact List.mem_cons_self ..

/-- What a step can do. -/
theorem step_leads {w : Page} (h : w.Fresh) (hs : Step text w es w') :
    w'.Fresh ∧ Leads w es w' := by
  cases hs with
  | «open» ready source => exact open_leads h ready source
  | opened a ha => exact socketOpened_leads h a
  | unopened a ready ha hc =>
    have hstop := stop_leads (w := { w with opening := w.opening.erase a }) h ready
    exact ⟨hstop.1, hstop.2.from id id⟩
  | abandoned a ha hc => exact ⟨h, (Leads.refl w).then rfl rfl rfl⟩
  | acquire now ready => exact ⟨acquire_fresh h now ready, .acquire _⟩
  | release ready => exact ⟨release_fresh h ready, release_leads w ready⟩
  | stop ready => exact stop_leads h ready
  | action now ready action => exact action_leads h now ready action
  | transport ready connected down => exact transport_leads h ready connected down
  | stale now ready => exact stale_leads h now ready
  | heartbeat ready => exact heartbeat_leads h ready
  | frame now ready => exact frame_leads h now ready
  | candidate ready candidate mline => exact sendOrFail_leads h ready rfl
  | refresh ready ticket =>
    cases hsend : w.send ready (.refreshAuth ticket) with
    | none => exact ⟨h, .refl w⟩
    | some w' => exact ⟨(send_leads h hsend).1, (send_leads h hsend).2.2 rfl⟩
  | failed ready => exact stop_leads h ready
  | message a wire data rest signaled ready hw hd hc =>
    exact receive_leads h signaled ready hw hd hc
  | ignored a wire data rest hw hd hc =>
    constructor
    · apply setWire_fresh h
      rw [hw]
      exact Option.some_ne_none wire
    · apply Leads.quiet
      rintro (hl | hcross)
      · exact .inl hl
      · exact .inr (popped_crossing hw hd hcross)
  | host a wire request rest answers hw hu ha => exact host_leads h hw hu ha

/-- While a lease is held or may come, the latest call was `acquire`. -/
structure Intended (es : List Event) (w : Page) : Prop where
  fresh : w.Fresh
  latest : w.Claims → es.getLast? = some .acquire

theorem Intended.step (h : Intended es w) (hs : Timely text w fs w') : Intended (es ++ fs) w' := by
  obtain ⟨hstep, htimely⟩ := hs
  obtain ⟨hfresh, hleads⟩ := step_leads h.fresh hstep
  refine ⟨hfresh, fun hclaims => ?_⟩
  cases hleads with
  | acquire => exact List.getLast?_concat
  | stop _ hnone => exact absurd hclaims hnone
  | release _ hcross => exact absurd (hcross hclaims) (htimely (List.mem_singleton_self _))
  | quiet _ hq =>
    rw [List.append_nil]
    exact h.latest (hq hclaims)

theorem message_grant (text : Js.Value → Option Js.Str) (signaled : Option Js.Str) (c : MediaClient)
    (hg : grants (some m) = true) :
    ∃ lease, lease ≠ none ∧
      c.message text signaled m = some ({ c with lease, seq := 0 }, .nothing) := by
  obtain ⟨hk, hl⟩ := Bool.and_eq_true_iff.1 hg
  obtain ⟨lease, hl, hsome⟩ := (Option.any_eq_true _ _).1 hl
  refine ⟨lease, Option.isSome_iff_ne_none.1 hsome, ?_⟩
  unfold message
  rw [of_decide_eq_true hk, hl]
  rfl

/-- A grant that is next undoes a release. -/
theorem grant_undoes_release (text : Js.Value → Option Js.Str) {w : Page}
    (hw : w.wires w.client.attempt = some wire) (hd : wire.down = some m :: rest)
    (hg : grants (some m) = true) :
    ∃ v w', Step text w [.release] v ∧ Step text v [] w' ∧ w'.client.lease ≠ none := by
  obtain ⟨lease, hne, hm⟩ := message_grant text none w.client.released hg
  have hrelease : (w.release false).wires = w.wires := by
    unfold Page.release
    rw [Bool.and_false, if_neg Bool.false_ne_true]
  have hstep : Step text (w.release false) _ _ := .message _ w.client.attempt wire (some m) rest
    none false (by rw [hrelease, hw]) hd rfl
  generalize hv : (w.release false).setWire w.client.attempt { wire with down := rest } = v at hstep
  have hclient : v.client = w.client.released := by
    rw [← hv]
    rfl
  have hreceive : Page.receive text none v false (some m) =
      ({ v with client := { w.client.released with lease, seq := 0 } }, []) := by
    unfold Page.receive
    rw [Option.bind_some, hclient, hm]
  rw [hreceive] at hstep
  exact ⟨_, _, .release w false, hstep, hne⟩

def aSource : MediaSource := ⟨Js.str "a", .finite 1, Js.str "1", true⟩

/-- A live capture that may be controlled. -/
def liveStatus : Js.Value := .object [(Js.str "type", .string (Js.str "status")),
  (Js.str "mode", .string (Js.str "hardware")), (Js.str "capture_state", .string (Js.str "live")),
  (Js.str "fps", .number (.finite 15)), (Js.str "bitrate_kbps", .number (.finite 2500)),
  (Js.str "adaptive_idle", .bool false), (Js.str "control_allowed", .bool true),
  (Js.str "awaiting_fresh_frame", .bool false)]

def aGrant : Js.Value := .object [(Js.str "type", .string (Js.str "lease")),
  (Js.str "lease_epoch", .string (Js.str "1"))]

theorem acquire_ready {w : Page} (hs : w.client.source = some s) (ha : s.controlAllowed = true)
    (hc : w.client.canControl now = true) (hk : w.client.socket.isSome = true) :
    w.acquire now true = w.post (.acquire s.generation s.geometryVersion) := by
  simp only [Page.acquire, hs, ha, hc, Page.send, hk, Bool.and_self, if_true, Option.getD_some]

theorem Timely.of_quiet (hs : Step text w es w') (h : .release ∉ es) : Timely text w es w' :=
  ⟨hs, fun hm => absurd hm h⟩

/-- A client has asked for control, and the grant is next. -/
theorem granted : ∃ w, Run (Timely fun _ => none) .start [.stop, .acquire] w ∧
    w.client.attempt = 2 ∧ w.wires 2 = some ⟨[], [some aGrant]⟩ := by
  have hopen : Run (Timely fun _ => none) .start [.stop] _ :=
    .single (.of_quiet (.open _ false aSource) (by decide))
  have hopened := hopen.snoc (.of_quiet (.opened _ 2 (by decide)) (by decide))
  have hsent := hopened.snoc (.of_quiet
    (.host _ 2 ⟨[], []⟩ none [] [some liveStatus] rfl rfl (by decide)) (by decide))
  have hstatus := hsent.snoc (.of_quiet
    (.message _ 2 ⟨[], [some liveStatus]⟩ (some liveStatus) [] none false rfl rfl rfl) (by decide))
  have hconnected := hstatus.snoc (.of_quiet (.transport _ false true false rfl) (by decide))
  have hframe := hconnected.snoc (.of_quiet (.frame _ 0 true rfl) (by decide))
  have hasked := hframe.snoc (.of_quiet (.acquire _ 0 true) (by decide))
  rw [acquire_ready (s := aSource) rfl rfl (by decide +kernel) rfl] at hasked
  have hreported := hasked.snoc (.of_quiet (.host _ 2
    ⟨[.presented (.finite 1) (Js.str "1"), .acquire (.finite 1) (Js.str "1")], []⟩
    (some (.presented (.finite 1) (Js.str "1"))) [.acquire (.finite 1) (Js.str "1")] []
    rfl rfl (by decide)) (by decide))
  have hgranted := hreported.snoc (.of_quiet (.host _ 2
    ⟨[.acquire (.finite 1) (Js.str "1")], []⟩ (some (.acquire (.finite 1) (Js.str "1"))) []
    [some aGrant] rfl rfl (by decide)) (by decide))
  exact ⟨_, hgranted, rfl, rfl⟩

/-- The lease follows the latest call, if `release` is never called while an acquire or its grant
is on its way. -/
theorem lease_follows_intent (hr : Run (Timely text) .start es w) (hl : w.client.lease ≠ none) :
    es.getLast? = some .acquire := by
  have hintended : Intended es w := by
    apply hr.invariant (I := Intended)
    · refine ⟨fun a _ => rfl, ?_⟩
      rintro (h | ⟨wire, hw, -⟩)
      · exact absurd rfl h
      · cases hw
    · intro es t e u h hs
      exact h.step hs
  exact hintended.latest (.inl hl)

theorem lease_follows_intent_granted : ∃ w, Run (Timely fun _ => none) .start [.stop, .acquire] w ∧
    w.client.lease ≠ none ∧ [Event.stop, .acquire].getLast? = some .acquire := by
  obtain ⟨w, hr, ha, hw⟩ := granted
  obtain ⟨lease, hne, hm⟩ := message_grant (fun _ => none) none w.client (m := aGrant) (by decide)
  have hstep : Step (fun _ => none) w _ _ := .message _ 2 ⟨[], [some aGrant]⟩ (some aGrant) [] none
    false hw rfl ha.symm
  have hreceive : Page.receive (fun _ => none) none (w.setWire 2 ⟨[], []⟩) false (some aGrant) =
      ({ w.setWire 2 ⟨[], []⟩ with client := { w.client with lease, seq := 0 } }, []) := by
    unfold Page.receive
    rw [Option.bind_some, show (w.setWire 2 ⟨[], []⟩).client = w.client from rfl, hm]
  rw [hreceive] at hstep
  have hheld := hr.snoc (Timely.of_quiet hstep List.not_mem_nil)
  exact ⟨_, hheld, hne, lease_follows_intent hheld hne⟩

/-- The window loses the focus while the grant is on its way, and then the grant arrives. -/
theorem lease_after_release : ∃ es w, Run (Step fun _ => none) .start es w ∧
    w.client.lease ≠ none ∧ es.getLast? = some .release := by
  obtain ⟨w, hr, ha, hw⟩ := granted
  rw [← ha] at hw
  obtain ⟨v, w', hrelease, hgrant, hne⟩ :=
    grant_undoes_release (fun _ => none) hw rfl (by decide)
  have hrun : Run (Step fun _ => none) .start [.stop, .acquire] w := hr.imp fun h => h.1
  exact ⟨_, _, (hrun.snoc hrelease).snoc hgrant, hne, rfl⟩

end MediaClient
end RemoteCodex
