import RemoteCodex.Lib.Trace
import RemoteCodex.Client.Controller

namespace RemoteCodex
set_option autoImplicit true
open Trace
namespace Client

/-- What a user sees of the connection: whether there is one and which, the host, and the sessions
with their leases. -/
def Controller.view (c : Controller) : Bool × Js.Str × Option HostInfo × List SessionInfo :=
  (c.connected, c.connectionId, c.host, c.sessions)

/-- There is no connection, and no lease is held. -/
structure Controller.Blank (c : Controller) : Prop where
  connected : c.connected = false
  connectionId : c.connectionId = []
  leases : ∀ s ∈ c.sessions, s.lease = none

/-- The attempt that an event belongs to. -/
def Event.attempt : Event → Option Nat
  | .succeeded a | .failed a | .caught a | .answered a _ | .refused a _ | .message a _
  | .closed a _ | .erred a => some a
  | _ => none

def Event.supersedes : Event → Bool
  | .connect _ | .stop => true
  | _ => false

/-- A newer `connect` or a `stop` was called since. -/
def Superseded (es : List Event) (a : Nat) : Prop :=
  ∃ before after, es = before ++ after ∧ .connect a ∈ before ∧ ∃ e ∈ after, e.supersedes = true

theorem Superseded.before (h : Superseded (es ++ fs) a)
    (hq : ∀ e ∈ fs, e.supersedes = false) : Superseded es a := by
  obtain ⟨before, after, he, hm, e, hea, hs⟩ := h
  rcases List.append_eq_append_iff.1 he with ⟨mid, rfl, rfl⟩ | ⟨mid, rfl, rfl⟩
  · rw [hq e (List.mem_append_right _ hea)] at hs
    cases hs
  · rcases List.mem_append.1 hea with hmid | hfs
    · exact ⟨before, mid, rfl, hm, e, hmid, hs⟩
    · rw [hq e hfs] at hs
      cases hs

theorem Superseded.began (h : Superseded (es ++ [e]) a) : .connect a ∈ es := by
  obtain ⟨before, after, he, hm, x, hx, _⟩ := h
  rcases List.append_eq_append_iff.1 he with ⟨mid, rfl, hmid⟩ | ⟨mid, rfl, rfl⟩
  · cases mid with
    | nil => rwa [List.append_nil] at hm
    | cons y ys =>
      rw [List.cons_append, List.cons.injEq] at hmid
      have hnil := (List.append_eq_nil_iff.1 hmid.2.symm).2
      rw [hnil] at hx
      cases hx
  · exact List.mem_append_left _ hm

theorem Superseded.append (h : Superseded es a) : Superseded (es ++ fs) a := by
  obtain ⟨before, after, rfl, hm, e, he, hs⟩ := h
  exact ⟨before, after ++ fs, List.append_assoc .., hm, e, List.mem_append_left _ he, hs⟩

theorem Superseded.now (es : List Event) (he : e.supersedes = true) :
    Superseded (es ++ [.connect a] ++ [e]) a :=
  ⟨_, _, rfl, List.mem_append_right _ (List.mem_singleton_self _), e, List.mem_singleton_self _, he⟩

/-- Attempts are counted, and lists carry the number of their attempt. -/
structure Counted (es : List Event) (w : Page) : Prop where
  began : ∀ a, .connect a ∈ es → a ≤ w.c.attempt
  superseded : ∀ a, Superseded es a → a < w.c.attempt
  epoch : w.c.reloadEpoch = w.c.attempt

theorem Counted.quiet (h : Counted es w) (ha : w'.c.attempt = w.c.attempt)
    (he : w'.c.reloadEpoch = w.c.reloadEpoch) (hq : ∀ e ∈ fs, e.supersedes = false) :
    Counted (es ++ fs) w' where
  began := by
    intro a hm
    rw [ha]
    rcases List.mem_append.1 hm with hm | hm
    · exact h.began a hm
    · cases hq _ hm
  superseded := by
    intro a hs
    rw [ha]
    exact h.superseded a (hs.before hq)
  epoch := by rw [he, ha, h.epoch]

theorem Counted.next (h : Counted es w) (ha : w'.c.attempt = w.c.attempt + 1)
    (he : w'.c.reloadEpoch = w.c.reloadEpoch + 1)
    (hn : ∀ a, Event.connect a = e → a = w.c.attempt + 1) : Counted (es ++ [e]) w' where
  began := by
    intro a hm
    rw [ha]
    rcases List.mem_append.1 hm with hm | hm
    · exact Nat.le_succ_of_le (h.began a hm)
    · rw [hn a (List.mem_singleton.1 hm)]
  superseded := by
    intro a hs
    rw [ha]
    exact Nat.lt_succ_of_le (h.began a hs.began)
  epoch := by rw [he, ha, h.epoch]

/-- `refreshSessions` sets the promise only. -/
theorem refreshSessions_c (w : Page) :
    (w.refreshSessions).1.c = { w.c with reload := some (w.refreshSessions).2 } := by
  unfold Page.refreshSessions
  split
  · next pending hp => rw [← hp]
  · rfl

theorem want_c (w : Page) (r : Nat) : (w.want r).c = w.c := by
  unfold Page.want
  split <;> rfl

theorem disconnected_c (w : Page) :
    ∃ timer, w.disconnected.c = { w.c.disconnect with retryTimer := timer } := by
  unfold Page.disconnected
  split
  · exact ⟨w.c.retryTimer, rfl⟩
  · exact ⟨some w.nextTimer, rfl⟩

theorem disconnected_counters (w : Page) :
    w.disconnected.c.attempt = w.c.attempt ∧ w.disconnected.c.reloadEpoch = w.c.reloadEpoch := by
  obtain ⟨timer, hc⟩ := disconnected_c w
  rw [hc]
  exact ⟨rfl, rfl⟩

theorem closed_c (w : Page) (s : Nat) : ∃ timer,
    (w.closed s).c =
      if w.c.socket = some s then { w.c.disconnect with retryTimer := timer } else w.c := by
  obtain ⟨timer, hc⟩ := disconnected_c (w.dropSocket s)
  refine ⟨timer, ?_⟩
  unfold Page.closed
  split
  · exact hc
  · rfl

theorem closed_counters (w : Page) (s : Nat) :
    (w.closed s).c.attempt = w.c.attempt ∧ (w.closed s).c.reloadEpoch = w.c.reloadEpoch := by
  obtain ⟨timer, hc⟩ := closed_c w s
  rw [hc]
  split <;> exact ⟨rfl, rfl⟩

theorem onMessage_counters (w : Page) (m : Message) :
    (w.onMessage m).c.attempt = w.c.attempt ∧
      (w.onMessage m).c.reloadEpoch = w.c.reloadEpoch := by
  cases m with
  | notice n =>
    simp only [Page.onMessage, want_c, refreshSessions_c, and_self]
  | hello protocol agentEpoch connectionId =>
    simp only [Page.onMessage, Controller.onMessage]
    split <;> exact ⟨rfl, rfl⟩
  | invalid | lease | other => exact ⟨rfl, rfl⟩

theorem hosted_c (w : Page) (a : Nat) (retry : Bool) (host : HostInfo) :
    (w.hosted a retry host).c =
      if w.c.current a then
        { w.c with
          host := some host
          reload := some ({ w with c := { w.c with host := some host } }.refreshSessions).2 }
      else w.c := by
  unfold Page.hosted
  split
  · simp only [Page.setCall, refreshSessions_c]
  · rfl

theorem opened_c (w : Page) (a : Nat) (retry : Bool) :
    (w.opened a retry).c =
      if w.c.current a then { w.c with socket := some w.nextSocket } else w.c := by
  unfold Page.opened
  split <;> rfl

theorem Counted.step (h : Counted es w) (hs : Step w fs w') : Counted (es ++ fs) w' := by
  cases hs with
  | connect | retry t ht =>
    refine h.next rfl rfl fun a ha => ?_
    cases ha
    rfl
  | stop => exact h.next rfl rfl fun a ha => by cases ha
  | authenticated a retry hc => exact h.quiet rfl rfl (by simp [Event.supersedes])
  | hosted a retry host hc =>
    refine h.quiet ?_ ?_ (by simp [Event.supersedes])
    · rw [hosted_c]
      split <;> rfl
    · rw [hosted_c]
      split <;> rfl
  | listed | unlisted | failed => exact h.quiet rfl rfl (by simp [Event.supersedes])
  | opened a retry hc =>
    refine h.quiet ?_ ?_ (by simp [Event.supersedes])
    · rw [opened_c]
      split <;> rfl
    · rw [opened_c]
      split <;> rfl
  | caught a retry hc =>
    refine h.quiet ?_ ?_ (by simp [Event.supersedes])
    · cases retry with
      | true => exact (disconnected_counters w).1
      | false => rfl
    · cases retry with
      | true => exact (disconnected_counters w).2
      | false => rfl
  | refresh =>
    refine h.quiet ?_ ?_ (by simp)
    · rw [refreshSessions_c]
    · rw [refreshSessions_c]
  | answered r l list grants hr hl =>
    refine h.quiet rfl rfl ?_
    split <;> simp [Event.supersedes]
  | refused r l hr hf hn => exact h.quiet rfl rfl (by simp [Event.supersedes])
  | message s a m hs hg =>
    refine h.quiet ?_ ?_ ?_
    · split
      · exact (onMessage_counters w m).1
      · rfl
    · split
      · exact (onMessage_counters w m).2
      · rfl
    · split <;> simp [Event.supersedes]
  | closed s a hs =>
    refine h.quiet ?_ ?_ (by simp [Event.supersedes])
    · exact (closed_counters w s).1
    · exact (closed_counters w s).2
  | erred s a hs | grant | produce => exact h.quiet rfl rfl (by simp [Event.supersedes])

theorem Counted.run (hr : Run Step .start es w) : Counted es w := by
  refine hr.invariant (I := Counted) ⟨?_, ?_, rfl⟩ fun h hs => h.step hs
  · intro a hm
    cases hm
  · intro a hs
    obtain ⟨before, after, he, hm, _⟩ := hs
    rw [(List.append_eq_nil_iff.1 he.symm).1] at hm
    cases hm

end Client
end RemoteCodex

