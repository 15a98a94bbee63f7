import RemoteCodex.Lib.History
import RemoteCodex.Lib.Trace
import RemoteCodex.Agent.MediaTurns

namespace RemoteCodex
set_option autoImplicit true
open Trace History
namespace Media

/-- The connection is in the loop, or it has just left it. -/
def Task.inLoop : Task → Bool
  | .looping .. | .leaving .. => true
  | _ => false

/-- There is one stream at most, and it is the active one. -/
structure Streams (w : World) : Prop where
  unique : ∀ t u k k', w.tasks t = some k → w.tasks u = some k' → k.stream ≠ none →
    k'.stream ≠ none → t = u
  active : ∀ t k stream cancel source, w.tasks t = some k →
    k.stream = some (stream, cancel, source) → ∃ client, w.m.active = some ⟨stream, client, cancel⟩

theorem setTask_tasks (w : World) (t u : Nat) (k : Task) :
    (w.setTask t k).tasks u = if u = t then some k else w.tasks u :=
  Function.update_apply ..

/-- A connection that keeps its stream, or has none. -/
theorem Streams.setTask (h : Streams w) (hk : k.stream = none ∨
      ∃ old, w.tasks t = some old ∧ old.stream = k.stream) (hm : m.active = w.m.active) :
    Streams ({ w with m }.setTask t k) := by
  have hold {u : Nat} {k' : Task} (hu : ({ w with m }.setTask t k).tasks u = some k')
      (hs : k'.stream ≠ none) : ∃ old, w.tasks u = some old ∧ old.stream = k'.stream := by
    rw [setTask_tasks] at hu
    split at hu
    · next hut =>
      cases hu
      rcases hk with hk | ⟨old, ht, ho⟩
      · exact absurd hk hs
      · exact ⟨old, by rw [hut, ht], ho⟩
    · exact ⟨k', hu, rfl⟩
  constructor
  · intro u v k₁ k₂ hu hv hs₁ hs₂
    obtain ⟨old₁, hu, he₁⟩ := hold hu hs₁
    obtain ⟨old₂, hv, he₂⟩ := hold hv hs₂
    exact h.unique u v old₁ old₂ hu hv (by rw [he₁]; exact hs₁) (by rw [he₂]; exact hs₂)
  · intro u k' stream cancel source hu hs
    obtain ⟨old, hu, he⟩ := hold hu (by rw [hs]; exact Option.some_ne_none _)
    obtain ⟨client, hact⟩ := h.active u old stream cancel source hu (by rw [he, hs])
    exact ⟨client, hm.trans hact⟩

theorem Streams.manager (h : Streams w) (hm : m.active = w.m.active) : Streams { w with m } where
  unique := h.unique
  active := by
    intro t k stream cancel source ht hs
    obtain ⟨client, hact⟩ := h.active t k stream cancel source ht hs
    exact ⟨client, hm.trans hact⟩

/-- No connection has a stream while none is active. -/
theorem Streams.none_of_inactive (h : Streams w) (hn : w.m.active = none)
    (ht : w.tasks t = some k) : k.stream = none := by
  cases hs : k.stream with
  | none => rfl
  | some x =>
    obtain ⟨stream, cancel, source⟩ := x
    obtain ⟨client, hact⟩ := h.active t k stream cancel source ht hs
    rw [hn] at hact
    cases hact

theorem register_eq {w : World} (hm : w.m.register client stream = .ok (m, cancel)) :
    w.m.active = none ∧ cancel = w.m.nextToken ∧
      m = { w.m with active := some ⟨stream, client, cancel⟩, nextToken := w.m.nextToken + 1 } := by
  unfold MediaManager.register at hm
  split at hm
  · cases hm
  · next hnone =>
    cases hm
    exact ⟨Option.not_isSome_iff_eq_none.1 hnone, rfl, rfl⟩

theorem Streams.register (h : Streams w) (hm : w.m.register client stream = .ok (m, cancel)) :
    Streams ({ w with m }.setTask t (.starting stream cancel source p)) := by
  obtain ⟨hnone, -, hm⟩ := register_eq hm
  have hold {u : Nat} {k : Task} (hu : ({ w with m }.setTask t
      (.starting stream cancel source p)).tasks u = some k) (hs : k.stream ≠ none) :
      u = t ∧ k = .starting stream cancel source p := by
    rw [setTask_tasks] at hu
    split at hu
    · next hut =>
      cases hu
      exact ⟨hut, rfl⟩
    · exact absurd (h.none_of_inactive hnone hu) hs
  constructor
  · intro u v k₁ k₂ hu hv hs₁ hs₂
    rw [(hold hu hs₁).1, (hold hv hs₂).1]
  · intro u k stream' cancel' source' hu hs
    obtain ⟨-, rfl⟩ := hold hu (by rw [hs]; exact Option.some_ne_none _)
    cases hs
    exact ⟨client, by rw [hm]; rfl⟩

theorem Streams.finish (h : Streams w) (ht : w.tasks t = some (.left stream cancel source)) :
    Streams ({ w with m := w.m.finish stream }.setTask t .done) := by
  have hother {u : Nat} {k : Task}
      (hu : ({ w with m := w.m.finish stream }.setTask t .done).tasks u = some k) :
      k.stream = none := by
    rw [setTask_tasks] at hu
    split at hu
    · cases hu
      rfl
    · next hut =>
      cases hs : k.stream with
      | none => rfl
      | some x =>
        exact absurd (h.unique u t k _ hu ht (by rw [hs]; exact Option.some_ne_none x)
          (Option.some_ne_none _)) hut
  constructor
  · intro u v k₁ k₂ hu hv hs₁ hs₂
    exact absurd (hother hu) hs₁
  · intro u k stream' cancel' source' hu hs
    rw [hother hu] at hs
    cases hs

theorem approve_active (c : MediaConfig) (m : MediaManager) (now later : Nat) (id : Uuid)
    (found : Option Found) (control : Bool) :
    (m.approve c now later id found control).1.active = m.active ∧
      (m.approve c now later id found control).1.guiControlled = m.guiControlled := by
  unfold MediaManager.approve
  split
  · exact ⟨rfl, rfl⟩
  split
  · exact ⟨rfl, rfl⟩
  split
  · exact ⟨rfl, rfl⟩
  simp only
  split <;> exact ⟨rfl, rfl⟩

theorem cancelAll_active (m : MediaManager) :
    m.cancelAll.active = m.active ∧ m.cancelAll.guiControlled = m.guiControlled := by
  unfold MediaManager.cancelAll
  split <;> exact ⟨rfl, rfl⟩

theorem revokeClient_active (m : MediaManager) (id : Uuid) :
    (m.revokeClient id).active = m.active ∧
      (m.revokeClient id).guiControlled = m.guiControlled := by
  unfold MediaManager.revokeClient
  split
  · exact ⟨rfl, rfl⟩
  · split <;> exact ⟨rfl, rfl⟩

theorem finish_flag (m : MediaManager) (stream : Uuid) :
    (m.finish stream).guiControlled = m.guiControlled := by
  unfold MediaManager.finish
  split <;> rfl

/-- The loop's flag tells whether it holds a lease, and there is no flag without a loop. -/
structure Flagged (w : World) : Prop where
  streams : Streams w
  looping : ∀ t stream cancel l, w.tasks t = some (.looping stream cancel l) →
    w.m.guiControlled = l.lease.isSome
  resting : (∀ t k, w.tasks t = some k → k.inLoop = false) → w.m.guiControlled = false

theorem Task.stream_of_inLoop {k : Task} (h : k.inLoop = true) : k.stream ≠ none := by
  cases k with
  | looping | leaving => exact Option.some_ne_none _
  | upgraded | found | starting | left | done => cases h

theorem new_eq (h : Loop.new p source now = some l) : l.lease = none ∧ l.source = source := by
  unfold Loop.new at h
  split at h
  · cases h
    exact ⟨rfl, rfl⟩
  · cases h

namespace Flagged

/-- A connection out of the loop does not touch the flag. -/
theorem setTask (h : Flagged w) (ht : ∀ old, w.tasks t = some old → old.inLoop = false)
    (hk : k.inLoop = false) (hm : m.guiControlled = w.m.guiControlled)
    (hs : Streams ({ w with m }.setTask t k)) : Flagged ({ w with m }.setTask t k) where
  streams := hs
  looping := by
    intro u stream cancel l hu
    rw [setTask_tasks] at hu
    split at hu
    · cases hu
      cases hk
    · exact hm.trans (h.looping u stream cancel l hu)
  resting := by
    intro hrest
    refine hm.trans (h.resting fun u old hu => ?_)
    by_cases hut : u = t
    · rw [hut] at hu
      exact ht old hu
    · apply hrest u old
      rw [setTask_tasks, if_neg hut]
      exact hu

theorem manager (h : Flagged w) (hm : m.active = w.m.active)
    (hf : m.guiControlled = w.m.guiControlled) : Flagged { w with m } where
  streams := h.streams.manager hm
  looping := fun t stream cancel l ht => hf.trans (h.looping t stream cancel l ht)
  resting := fun hrest => hf.trans (h.resting hrest)

/-- A stream out of the loop is alone, so the flag is clear. -/
theorem clear (h : Flagged w) (ht : w.tasks t = some k) (hk : k.inLoop = false)
    (hs : k.stream ≠ none) : w.m.guiControlled = false := by
  apply h.resting
  intro u k' hu
  cases hin : k'.inLoop with
  | false => rfl
  | true =>
    obtain rfl := h.streams.unique u t k' k hu ht (Task.stream_of_inLoop hin) hs
    rw [ht] at hu
    cases hu
    rw [hk] at hin
    cases hin

/-- A connection in the loop, or one that enters or leaves it, decides the flag alone. -/
theorem only {w : World} {m : MediaManager} {k : Task}
    (hs : Streams ({ w with m }.setTask t k)) (hk : k.stream ≠ none)
    (hl : ∀ stream cancel l, k = .looping stream cancel l → m.guiControlled = l.lease.isSome)
    (hr : k.inLoop = false → m.guiControlled = false) :
    Flagged ({ w with m }.setTask t k) where
  streams := hs
  looping := by
    intro u stream cancel l hu
    have ht : ({ w with m }.setTask t k).tasks t = some k := by
      rw [setTask_tasks, if_pos rfl]
    obtain rfl := hs.unique u t _ k hu ht (Option.some_ne_none _) hk
    rw [ht] at hu
    exact hl stream cancel l (Option.some.inj hu)
  resting := by
    intro hrest
    apply hr
    apply hrest t
    rw [setTask_tasks, if_pos rfl]

theorem step {c : MediaConfig} (h : Flagged w) (hs : Step c w fs w') : Flagged w' := by
  have hsame {t : Nat} {k old : Task} (ht : w.tasks t = some old) (ho : old.stream = k.stream) :
      Streams (w.setTask t k) :=
    h.streams.setTask (.inr ⟨old, ht, ho⟩) rfl
  cases hs with
  | approve now later id found control m view hid hm =>
    have hact := approve_active c w.m now later id found control
    rw [hm] at hact
    exact h.manager hact.1 hact.2
  | refuse now later id found control m text hm =>
    have hact := approve_active c w.m now later id found control
    rw [hm] at hact
    exact h.manager hact.1 hact.2
  | upgrade t cancelled now id p source ht hg =>
    apply h.setTask _ rfl rfl (h.streams.setTask (.inl rfl) rfl)
    intro old hold
    rw [ht] at hold
    cases hold
  | find t cancelled now p source again ht hg | miss t p source ht | busy t p source ht hb =>
    apply h.setTask _ rfl rfl (h.streams.setTask (.inl rfl) rfl)
    intro old hold
    rw [ht] at hold
    cases hold
    rfl
  | register t p source stream m cancel ht hm =>
    obtain ⟨-, -, hmeq⟩ := register_eq hm
    apply h.setTask _ rfl (by rw [hmeq]) (h.streams.register hm)
    intro old hold
    rw [ht] at hold
    cases hold
    rfl
  | unstarted t p source stream cancel ht =>
    have hstream : Streams (w.setTask t (.left stream cancel source)) := hsame ht rfl
    apply h.setTask _ rfl rfl hstream
    intro old hold
    rw [ht] at hold
    cases hold
    rfl
  | started t p source stream cancel now l ht hl =>
    have hclear := h.clear ht rfl (Option.some_ne_none _)
    obtain ⟨hlease, hsource⟩ := new_eq hl
    have hstream : Streams (w.setTask t (.looping stream cancel l)) :=
      hsame ht (by rw [← hsource]; rfl)
    apply only hstream (Option.some_ne_none _)
    · intro stream cancel l' hk
      cases hk
      rw [hclear, hlease]
      rfl
    · exact fun _ => hclear
  | cancelled t stream cancel l ht =>
    have hstream : Streams (w.setTask t (.leaving stream cancel l.source)) := hsame ht rfl
    apply only hstream (Option.some_ne_none _)
    · intro stream cancel l hk
      cases hk
    · intro hk
      cases hk
  | turn t stream cancel l e i ht hc hp =>
    have hturn := turn_turns c e l w.m.guiControlled i
    have hflag := hturn.flag (h.looping t stream cancel l ht)
    have hstream (k : Task) (hk : k.stream = some (stream, cancel, l.source)) :
        Streams ({ w with m := { w.m with
          guiControlled := (l.turn c e w.m.guiControlled i).controlled } }.setTask t k) :=
      h.streams.setTask (.inr ⟨_, ht, hk.symm⟩) rfl
    have hsource (s : Approved) (hs : s = l.source) :
        some (stream, cancel, s) = some (stream, cancel, l.source) := by
      rw [hs]
    unfold World.after
    split
    · apply only (hstream (.looping _ _ _) (hsource _ hturn.source)) (Option.some_ne_none _)
      · intro stream cancel l hk
        cases hk
        exact hflag
      · intro hk
        cases hk
    · apply only (hstream (.leaving _ _ _) (hsource _ hturn.source)) (Option.some_ne_none _)
      · intro stream cancel l hk
        cases hk
      · intro hk
        cases hk
  | leave t stream cancel source ht =>
    have hstream : Streams ({ w with m := { w.m with guiControlled := false } }.setTask t
        (.left stream cancel source)) := h.streams.setTask (.inr ⟨_, ht, rfl⟩) rfl
    apply only hstream (Option.some_ne_none _)
    · intro stream cancel l hk
      cases hk
    · exact fun _ => rfl
  | finish t stream cancel source ht =>
    apply h.setTask _ rfl (finish_flag w.m stream) (h.streams.finish ht)
    intro old hold
    rw [ht] at hold
    cases hold
    rfl
  | cancelAll => exact h.manager (cancelAll_active w.m).1 (cancelAll_active w.m).2
  | revokeClient id => exact h.manager (revokeClient_active w.m id).1 (revokeClient_active w.m id).2
  | clearSources =>
    have hact := cancelAll_active { w.m with sources := ∅ }
    exact h.manager hact.1 hact.2

theorem run {c : MediaConfig} (hr : Run (Step c) .start es w) : Flagged w := by
  apply hr.preserves
  · refine ⟨⟨?_, ?_⟩, ?_, fun _ => rfl⟩
    · intro t u k k' ht
      cases ht
    · intro t k stream cancel source ht
      cases ht
    · intro t stream cancel l ht
      cases ht
  · intro t fs u h hs
    exact h.step hs

end Flagged
/-- The session of a connection was armed with an epoch. -/
def Armed (es : List Event) (t : Nat) (epoch : UInt64) : Prop :=
  ∃ e i effects, .turned t e i effects ∈ es ∧ .armed epoch ∈ effects

/-- An action with a number was passed on under an epoch. -/
def Passed (es : List Event) (t : Nat) (epoch n : UInt64) : Prop :=
  ∃ e i effects a, .turned t e i effects ∈ es ∧ .action epoch n a ∈ effects

/-- A session is not armed twice with an epoch. -/
def FreshArm (before : List Event) (x : Event) : Prop :=
  ∀ t e i effects epoch, x = .turned t e i effects → .armed epoch ∈ effects →
    ¬ Armed before t epoch

def Event.turns : Event → Bool
  | .turned .. => true
  | _ => false

/-- What a lease remembers of the actions passed under it. -/
structure Leased (es : List Event) (w : World) : Prop where
  held : ∀ t stream cancel l epoch, w.tasks t = some (.looping stream cancel l) →
    l.lease = some epoch → Armed es t epoch ∧ ∀ n, Passed es t epoch n → n ≤ l.lastSeq
  passed : ∀ t epoch n, Passed es t epoch n → Armed es t epoch

theorem Armed.append (h : Armed es t epoch) : Armed (es ++ fs) t epoch := by
  obtain ⟨e, i, effects, hm, hx⟩ := h
  exact ⟨e, i, effects, List.mem_append_left _ hm, hx⟩

theorem Passed.before (h : Passed (es ++ fs) t epoch n) (hq : ∀ x ∈ fs, x.turns = false) :
    Passed es t epoch n := by
  obtain ⟨e, i, effects, a, hm, hx⟩ := h
  rcases List.mem_append.1 hm with hm | hm
  · exact ⟨e, i, effects, a, hm, hx⟩
  · cases hq _ hm

theorem Passed.turned (h : Passed (es ++ [.turned u e i effects]) t epoch n) :
    Passed es t epoch n ∨ (t = u ∧ ∃ a, .action epoch n a ∈ effects) := by
  obtain ⟨e', i', effects', a, hm, hx⟩ := h
  rcases List.mem_append.1 hm with hm | hm
  · exact .inl ⟨e', i', effects', a, hm, hx⟩
  · cases List.mem_singleton.1 hm
    exact .inr ⟨rfl, a, hx⟩

namespace Leased

/-- A step that is no turn. -/
theorem quiet (h : Leased es w) (hq : ∀ x ∈ fs, x.turns = false)
    (ht : ∀ t stream cancel l, w'.tasks t = some (.looping stream cancel l) →
      l.lease = none ∨ w.tasks t = some (.looping stream cancel l)) : Leased (es ++ fs) w' where
  held := by
    intro t stream cancel l epoch hl hlease
    rcases ht t stream cancel l hl with hnone | hold
    · rw [hnone] at hlease
      cases hlease
    · obtain ⟨harmed, hle⟩ := h.held t stream cancel l epoch hold hlease
      exact ⟨harmed.append, fun n hn => hle n (hn.before hq)⟩
  passed := fun t epoch n hn => (h.passed t epoch n (hn.before hq)).append

/-- A connection that goes on out of the loop, or without a lease. -/
theorem setTask (h : Leased es w) (hq : ∀ x ∈ fs, x.turns = false)
    (hk : ∀ stream cancel l, k = .looping stream cancel l → l.lease = none) :
    Leased (es ++ fs) ({ w with m }.setTask t k) := by
  apply h.quiet hq
  intro u stream cancel l hu
  rw [setTask_tasks] at hu
  split at hu
  · exact .inl (hk stream cancel l (Option.some.inj hu))
  · exact .inr hu

/-- A turn: a lease is new, or it is the old one with a later number. -/
theorem turn (h : Leased es w)
    (ht : w.tasks t = some (.looping stream cancel l)) (hturn : Turns e l b i r)
    (hf : FreshArm es (.turned t e i r.effects)) :
    Leased (es ++ [.turned t e i r.effects]) (w.after t stream cancel r) where
  held := by
    intro u stream' cancel' l' epoch hu hlease
    unfold World.after at hu
    rw [setTask_tasks] at hu
    split at hu
    · next hut =>
      subst hut
      have hloop : r.loop = l' := by
        split at hu
        · exact (Task.looping.inj (Option.some.inj hu)).2.2
        · cases hu
      rw [← hloop] at hlease ⊢
      rcases hturn.lease hlease with harmed | ⟨hold, hle, hnew⟩
      · have hfresh := hf u e i r.effects epoch rfl harmed
        refine ⟨⟨e, i, r.effects, List.mem_append_right _ (List.mem_singleton_self _), harmed⟩, ?_⟩
        intro n hn
        rcases hn.turned with hn | ⟨-, a, ha⟩
        · exact absurd (h.passed u epoch n hn) hfresh
        · exact absurd ha ((hturn.armed harmed).2 n a)
      · obtain ⟨harmed, hlast⟩ := h.held u stream cancel l epoch ht hold
        refine ⟨harmed.append, fun n hn => ?_⟩
        rcases hn.turned with hn | ⟨-, a, ha⟩
        · exact UInt64.le_trans (hlast n hn) hle
        · exact hnew n a ha
    · next hut =>
      obtain ⟨harmed, hlast⟩ := h.held u stream' cancel' l' epoch hu hlease
      refine ⟨harmed.append, fun n hn => ?_⟩
      rcases hn.turned with hn | ⟨hu', -⟩
      · exact hlast n hn
      · exact absurd hu' hut
  passed := by
    intro u epoch n hn
    rcases hn.turned with hn | ⟨rfl, a, ha⟩
    · exact (h.passed u epoch n hn).append
    · obtain ⟨_, _, _, _, -, hp⟩ := hturn.action ha
      exact (h.held u stream cancel l epoch ht hp.held).1.append

theorem step {c : MediaConfig} (h : Leased es w) (hs : Step c w fs w')
    (hf : Each FreshArm (es ++ fs)) : Leased (es ++ fs) w' := by
  cases hs with
  | approve | refuse | cancelAll | revokeClient | clearSources =>
    exact h.quiet (by simp [Event.turns]) fun t stream cancel l ht => .inr ht
  | upgrade | find | miss | register | busy | unstarted | cancelled | leave | finish =>
    exact h.setTask (by simp [Event.turns]) fun stream cancel l hk => by cases hk
  | started t p source stream cancel now l ht hl =>
    apply h.setTask (by simp)
    intro stream cancel l' hk
    cases hk
    exact (new_eq hl).1
  | turn t stream cancel l e i ht hc hp =>
    exact h.turn ht (turn_turns c e l w.m.guiControlled i) (hf es _ [] rfl)

theorem run {c : MediaConfig} (hr : Run (Step c) .start es w) (hf : Each FreshArm es) :
    Leased es w := by
  have hleased : Each FreshArm es → Leased es w := by
    apply hr.invariant (I := fun es w => Each FreshArm es → Leased es w)
    · intro _
      constructor
      · intro t stream cancel l epoch ht
        cases ht
      · rintro t epoch n ⟨_, _, _, _, hm, -⟩
        cases hm
    · intro es w fs w' h hs hf
      exact (h hf.left).step hs hf
  exact hleased hf

end Leased

/-- Control of the media loop. The flag follows the lease and is clear without a loop, and an
action reaches the session only when it is permitted and newer than all actions before it under
the lease. -/
theorem media_control_safe {c : MediaConfig} (hr : Run (Step c) .start es w)
    (hf : Each FreshArm es) :
    (∀ t stream cancel l, w.tasks t = some (.looping stream cancel l) →
      w.m.guiControlled = l.lease.isSome) ∧
    (∀ t stream cancel source, w.tasks t = some (.left stream cancel source) →
      w.m.guiControlled = false) ∧
    ((∀ t k, w.tasks t = some k → k.inLoop = false) → w.m.guiControlled = false) ∧
    ∀ fs w' t e i effects epoch n a, Step c w fs w' → .turned t e i effects ∈ fs →
      .action epoch n a ∈ effects →
      ∃ stream cancel l leaseEpoch generation geometryVersion seq,
        w.tasks t = some (.looping stream cancel l) ∧
        i = .text (some (.input leaseEpoch generation geometryVersion seq a)) ∧
        Permitted e l leaseEpoch generation geometryVersion seq epoch n ∧
        ∀ m, Passed es t epoch m → m < n := by
  have hflag := Flagged.run hr
  refine ⟨hflag.looping, ?_, hflag.resting, ?_⟩
  · intro t stream cancel source ht
    exact hflag.clear ht rfl (Option.some_ne_none _)
  · intro fs w' t e i effects epoch n a hs hm hx
    cases hs with
    | turn u stream cancel l e' i' ht hc hp =>
      cases List.mem_singleton.1 hm
      obtain ⟨leaseEpoch, generation, geometryVersion, seq, hi, hperm⟩ :=
        (turn_turns c e l w.m.guiControlled i).action hx
      obtain ⟨-, hlast⟩ := (Leased.run hr hf).held t stream cancel l epoch ht hperm.held
      exact ⟨stream, cancel, l, leaseEpoch, generation, geometryVersion, seq, ht, hi, hperm,
        fun k hk => UInt64.lt_of_le_of_lt (hlast k hk) hperm.increasing⟩
    | approve | find | register | clearSources => cases List.mem_singleton.1 hm
    | refuse | upgrade | miss | busy | unstarted | started | cancelled | leave | finish
    | cancelAll | revokeClient => cases hm

/-- The turn arms the session. -/
def Event.arms : Event → Bool
  | .turned _ _ _ effects => effects.any fun x => match x with | .armed _ => true | _ => false
  | _ => false

/-- Only the last event of the history may arm a session. -/
theorem fresh_of_last (h : (es.all fun x => !x.arms) = true) : Each FreshArm (es ++ [x]) := by
  rintro before y after he t e i effects epoch - - ⟨e', i', effects', hm, hx⟩
  have hmem : Event.turned t e' i' effects' ∈ es := by
    rcases List.append_eq_append_iff.1 he with ⟨mid, rfl, hmid⟩ | ⟨mid, rfl, -⟩
    · cases mid with
      | nil =>
        rw [List.append_nil] at hm
        exact hm
      | cons z mid =>
        rw [List.cons_append, List.cons.injEq] at hmid
        have hnil := (List.append_eq_nil_iff.1 hmid.2.symm).2
        cases hnil
    · exact List.mem_append_left _ hm
  have hnone := Bool.eq_false_of_not_eq_true' (List.all_eq_true.1 h _ hmem)
  rw [Event.arms, List.any_eq_false] at hnone
  exact hnone _ hx rfl

def aConfig : MediaConfig := ⟨true, true, none, []⟩

def aPrincipal : Principal :=
  ⟨.fill 1, [.terminalRead, .windowView, .windowControl], fromSecs 3600, 0⟩

def anEnv : Env :=
  ⟨fromSecs 100, fromSecs 100, ∅, false, true, 1, true, 100000, true, true, true, true, some 1,
    true, none, true⟩

/-- A client has acquired the lease of a live window. -/
theorem acquired : ∃ es w l, Run (Step aConfig) .start es w ∧ Each FreshArm es ∧
    w.tasks 0 = some (.looping (.fill 3) 0 l) ∧ w.m.cancelled = ∅ ∧ l.principal = aPrincipal ∧
    .action 1 1 (.text "a") ∈ (l.turn aConfig anEnv w.m.guiControlled
      (.text (some (.input "1" 1 "1" "1" (.text "a"))))).effects := by
  have hstarted : Run (Step aConfig) .start _ _ := ((((Run.single (.approve _ 0 0 (.fill 2)
    (some ⟨"a", "window", ⟨0, 0, 1, 1⟩⟩) true _ _ List.not_mem_nil rfl)).snoc
    (.upgrade _ 0 ∅ 0 (.fill 2) aPrincipal _ rfl rfl)).snoc
    (.find _ 0 ∅ 0 aPrincipal _ _ rfl rfl)).snoc
    (.register _ 0 aPrincipal _ (.fill 3) _ _ rfl rfl)).snoc
    (.started _ 0 aPrincipal _ _ _ (fromSecs 100) _ rfl rfl)
  have hlive := ((hstarted.snoc (.turn _ 0 _ _ _ anEnv
    (.helper (some (.status .hardware .live 15 2500 false true false))) rfl (by decide)
    (by decide))).snoc
    (.turn _ 0 _ _ _ anEnv (.helper (some (.frame "1" 99900))) rfl (by decide) (by decide))).snoc
    (.turn _ 0 _ _ _ anEnv (.text (some (.presented 1 "1"))) rfl (by decide) (by decide))
  have hheld := hlive.snoc
    (.turn _ 0 _ _ _ anEnv (.text (some (.acquire 1 "1"))) rfl (by decide) (by decide))
  exact ⟨_, _, _, hheld, fresh_of_last (by decide), rfl, rfl, rfl, by decide⟩

theorem media_control_safe_acquired : ∃ es w fs w' e i effects stream cancel l leaseEpoch
    generation geometryVersion seq, Run (Step aConfig) .start es w ∧ Step aConfig w fs w' ∧
    .turned 0 e i effects ∈ fs ∧ .action 1 1 (.text "a") ∈ effects ∧
    w.tasks 0 = some (.looping stream cancel l) ∧ w.m.guiControlled = l.lease.isSome ∧
    i = .text (some (.input leaseEpoch generation geometryVersion seq (.text "a"))) ∧
    Permitted e l leaseEpoch generation geometryVersion seq 1 1 ∧
    ∀ m, Passed es 0 1 m → m < 1 := by
  obtain ⟨es, w, l, hr, hf, ht, hc, hp, hx⟩ := acquired
  have hs := Step.turn (c := aConfig) w 0 _ _ l anEnv
    (.text (some (.input "1" 1 "1" "1" (.text "a")))) ht (by rw [hc]; exact Finset.notMem_empty _)
    (Finset.notMem_empty _)
  obtain ⟨hflag, -, -, hpass⟩ := media_control_safe hr hf
  obtain ⟨stream, cancel, l', leaseEpoch, generation, geometryVersion, seq, ht', hi, hperm,
    hlast⟩ := hpass _ _ _ _ _ _ _ _ _ hs (List.mem_singleton_self _) hx
  exact ⟨es, w, _, _, _, _, _, stream, cancel, l', leaseEpoch, generation, geometryVersion, seq, hr,
    hs, List.mem_singleton_self _, hx, ht', hflag 0 stream cancel l' ht', hi, hperm, hlast⟩

end Media
end RemoteCodex
