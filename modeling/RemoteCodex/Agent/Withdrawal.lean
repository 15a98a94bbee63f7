import RemoteCodex.Agent.MediaControl

namespace RemoteCodex
set_option autoImplicit true
open Trace History
namespace Media

/-- The source was approved, and then a call of `clear_sources` came to its end. -/
def Withdrawn (es : List Event) (source : Uuid) : Prop :=
  Then (fun _ e => e = .approved source) [.cleared] es

/-- A source is registered by a connection that has looked it up, with no `clear_sources`
since. -/
def Timely (before : List Event) (x : Event) : Prop :=
  ∀ t source, x = .registered t source →
    Since (fun e => e ≠ .cleared) (fun _ e => e = .found t source) before

/-- The event is no step of a source's life. -/
def Event.quiet : Event → Bool
  | .registered .. | .turned .. => true
  | .approved _ | .cleared | .found .. => false

/-- A source that is found is approved, and not withdrawn. -/
def Sound (before : List Event) (x : Event) : Prop :=
  ∀ t source, x = .found t source → .approved source ∈ before ∧ ¬ Withdrawn before source

/-- The approved sources, the lookups and the tokens agree with the history. -/
structure Catalogue (es : List Event) (w : World) : Prop where
  issued : ∀ source, .approved source ∈ es → source ∈ w.m.issued
  sources : ∀ source s, w.m.sources.lookup source = some s →
    .approved source ∈ es ∧ ¬ Withdrawn es source
  lookups : ∀ t source p, w.tasks t = some (.found source p) → .found t source.view.id ∈ es
  found : Each Sound es
  cancelled : ∀ token ∈ w.m.cancelled, token < w.m.nextToken
  active : ∀ a, w.m.active = some a → a.cancel < w.m.nextToken

theorem withdrawn_before (h : Withdrawn (es ++ l) source) (hq : .cleared ∉ l) :
    Withdrawn es source := by
  apply Then.before h
  intro x hx hmem
  rw [List.mem_singleton.1 hmem] at hx
  exact hq hx

/-- A lookup that was sound stays sound until the next `clear_sources`. -/
theorem not_withdrawn (hf : Each Sound es)
    (hs : Since (fun e => e ≠ .cleared) (fun _ e => e = .found t source) es) :
    ¬ Withdrawn es source := by
  obtain ⟨before, e, after, rfl, rfl, ha⟩ := hs
  obtain ⟨-, hnot⟩ := hf before _ after rfl t source rfl
  intro hw
  apply hnot
  apply withdrawn_before (l := .found t source :: after) hw
  intro hm
  rcases List.mem_cons.1 hm with hm | hm
  · cases hm
  · exact ha _ hm rfl

theorem approve_cases {c : MediaConfig} {m m' : MediaManager} {control : Bool}
    (h : m.approve c now later source found control = (m', r)) :
    m'.cancelled = m.cancelled ∧ m'.nextToken = m.nextToken ∧ m'.active = m.active ∧
      (∀ x ∈ m.issued, x ∈ m'.issued) ∧
      ((∃ text, r = .error text) ∨ source ∈ m'.issued) ∧
      ∀ x s, m'.sources.lookup x = some s →
        m.sources.lookup x = some s ∨ (x = source ∧ ∃ view, r = .ok view) := by
  have hretain {x : Uuid} {s : Approved}
      (hx : (Table.retain (fun _ s => decide (now < s.untilTime)) m.sources).lookup x = some s) :
      m.sources.lookup x = some s :=
    (Table.lookup_of_retain hx).1
  unfold MediaManager.approve at h
  split at h
  · cases h
    exact ⟨rfl, rfl, rfl, fun _ hx => hx, .inl ⟨_, rfl⟩, fun _ _ hx => .inl hx⟩
  split at h
  · cases h
    exact ⟨rfl, rfl, rfl, fun _ hx => hx, .inl ⟨_, rfl⟩, fun _ _ hx => .inl hx⟩
  split at h
  · cases h
    exact ⟨rfl, rfl, rfl, fun _ hx => hx, .inl ⟨_, rfl⟩, fun _ _ hx => .inl hx⟩
  simp only at h
  split at h
  · cases h
    exact ⟨rfl, rfl, rfl, fun _ hx => hx, .inl ⟨_, rfl⟩, fun _ _ hx => .inl (hretain hx)⟩
  · cases h
    refine ⟨rfl, rfl, rfl, fun _ hx => List.mem_append_left _ hx,
      .inr (List.mem_append_right _ (List.mem_singleton_self _)), fun x s hx => ?_⟩
    rw [Table.lookup_insert] at hx
    split at hx
    · next hxs => exact .inr ⟨hxs, _, rfl⟩
    · exact .inl (hretain hx)

theorem get_lookup {c : MediaConfig} {m : MediaManager}
    (h : m.get c cancelled now source p = .ok s) : m.sources.lookup source ≠ none := by
  unfold MediaManager.get at h
  split at h
  · cases h
  · split at h
    · cases h
    · next hs =>
      intro hnone
      rw [hnone] at hs
      cases hs

theorem setTask_found {w : World} (hk : ∀ source p, k ≠ .found source p)
    (hu : (w.setTask t k).tasks u = some (.found source p)) :
    w.tasks u = some (.found source p) := by
  rw [setTask_tasks] at hu
  split at hu
  · exact absurd (Option.some.inj hu) (hk source p)
  · exact hu

namespace Catalogue

/-- A step that approves, finds and clears nothing. -/
theorem keep (h : Catalogue es w) (hq : ∀ x ∈ fs, x.quiet = true)
    (hs : ∀ source s, w'.m.sources.lookup source = some s → w.m.sources.lookup source = some s)
    (hi : ∀ x ∈ w.m.issued, x ∈ w'.m.issued)
    (hk : ∀ t source p, w'.tasks t = some (.found source p) → w.tasks t = some (.found source p))
    (hc : ∀ token ∈ w'.m.cancelled, token < w'.m.nextToken)
    (ha : ∀ a, w'.m.active = some a → a.cancel < w'.m.nextToken) : Catalogue (es ++ fs) w' where
  issued := by
    intro source hm
    rcases List.mem_append.1 hm with hm | hm
    · exact hi source (h.issued source hm)
    · cases hq _ hm
  sources := by
    intro source s hl
    obtain ⟨hm, hw⟩ := h.sources source s (hs source s hl)
    refine ⟨List.mem_append_left _ hm, fun hx => hw (withdrawn_before hx fun hc => ?_)⟩
    cases hq _ hc
  lookups := fun t source p ht => List.mem_append_left _ (h.lookups t source p (hk t source p ht))
  found := by
    apply h.found.append
    rintro before x after rfl t source rfl
    cases hq _ (List.mem_append_right _ (List.mem_cons_self ..))
  cancelled := hc
  active := ha

/-- A connection goes on without a lookup. -/
theorem goes (h : Catalogue es w) (hk : ∀ source p, k ≠ .found source p) :
    Catalogue es (w.setTask t k) := by
  have hkeep : Catalogue (es ++ []) (w.setTask t k) :=
    h.keep (fun x hx => (List.not_mem_nil hx).elim) (fun _ _ hl => hl) (fun _ hx => hx)
      (fun _ _ _ hu => setTask_found hk hu) h.cancelled h.active
  rw [List.append_nil] at hkeep
  exact hkeep

theorem approve {c : MediaConfig} {control : Bool} (h : Catalogue es w) (hid : source ∉ w.m.issued)
    (hm : w.m.approve c now later source target control = (m, .ok view)) :
    Catalogue (es ++ [.approved source]) { w with m } := by
  obtain ⟨hcan, hnext, hact, hissued, hnew, hsources⟩ := approve_cases hm
  constructor
  · intro x hx
    rcases List.mem_append.1 hx with hx | hx
    · exact hissued x (h.issued x hx)
    · cases List.mem_singleton.1 hx
      rcases hnew with ⟨text, ht⟩ | hnew
      · cases ht
      · exact hnew
  · intro x s hl
    have hbefore (hw : Withdrawn (es ++ [.approved source]) x) : Withdrawn es x := by
      apply withdrawn_before hw
      intro hc
      cases List.mem_singleton.1 hc
    rcases hsources x s hl with hold | ⟨rfl, -⟩
    · obtain ⟨happ, hnot⟩ := h.sources x s hold
      exact ⟨List.mem_append_left _ happ, fun hw => hnot (hbefore hw)⟩
    · -- a new identifier was never approved, so it cannot have been withdrawn
      refine ⟨List.mem_append_right _ (List.mem_singleton_self _), fun hw => hid ?_⟩
      obtain ⟨before, e, after, rfl, rfl⟩ := Then.marked (hbefore hw)
      exact h.issued x (List.mem_append_right _ (List.mem_cons_self ..))
  · exact fun t x p ht => List.mem_append_left _ (h.lookups t x p ht)
  · apply h.found.snoc
    intro t x hx
    cases hx
  · show ∀ token ∈ m.cancelled, token < m.nextToken
    rw [hcan, hnext]
    exact h.cancelled
  · show ∀ a, m.active = some a → a.cancel < m.nextToken
    rw [hact, hnext]
    exact h.active

theorem find {c : MediaConfig} (h : Catalogue es w)
    (hg : w.m.get c tokens now source.view.id p = .ok again) :
    Catalogue (es ++ [.found t source.view.id]) (w.setTask t (.found source p)) where
  issued := by
    intro x hx
    rcases List.mem_append.1 hx with hx | hx
    · exact h.issued x hx
    · cases List.mem_singleton.1 hx
  sources := by
    intro x s hl
    obtain ⟨happ, hnot⟩ := h.sources x s hl
    refine ⟨List.mem_append_left _ happ, fun hw => hnot (withdrawn_before hw fun hc => ?_)⟩
    cases List.mem_singleton.1 hc
  lookups := by
    intro u x q hu
    rw [setTask_tasks] at hu
    split at hu
    · next hut =>
      cases hu
      rw [hut]
      exact List.mem_append_right _ (List.mem_singleton_self _)
    · exact List.mem_append_left _ (h.lookups u x q hu)
  found := by
    apply h.found.snoc
    intro u x hx
    cases hx
    obtain ⟨s, hs⟩ := Option.ne_none_iff_exists'.1 (get_lookup hg)
    exact h.sources _ s hs
  cancelled := h.cancelled
  active := h.active

/-- Tokens are cancelled while the rest of the manager stays. -/
theorem cancels (h : Catalogue es w)
    (hm : m = w.m ∨ ∃ a, w.m.active = some a ∧ m = w.m.cancel a) : Catalogue es { w with m } := by
  rcases hm with rfl | ⟨a, ha, rfl⟩
  · exact h
  · refine ⟨h.issued, h.sources, h.lookups, h.found, fun token ht => ?_, h.active⟩
    rcases Finset.mem_insert.1 ht with rfl | ht
    · exact h.active a ha
    · exact h.cancelled token ht

theorem clear (h : Catalogue es w) :
    Catalogue (es ++ [.cleared]) { w with m := { w.m with sources := ∅ } } where
  issued := by
    intro x hx
    rcases List.mem_append.1 hx with hx | hx
    · exact h.issued x hx
    · cases List.mem_singleton.1 hx
  sources := by
    intro x s hl
    cases hl
  lookups := fun t x p ht => List.mem_append_left _ (h.lookups t x p ht)
  found := by
    apply h.found.snoc
    intro t x hx
    cases hx
  cancelled := h.cancelled
  active := h.active

end Catalogue

theorem cancelAll_cases (m : MediaManager) :
    m.cancelAll = m ∨ ∃ a, m.active = some a ∧ m.cancelAll = m.cancel a := by
  unfold MediaManager.cancelAll
  split
  · exact .inl rfl
  · next a ha => exact .inr ⟨a, ha, rfl⟩

theorem revokeClient_cases (m : MediaManager) (id : Uuid) :
    m.revokeClient id = m ∨ ∃ a, m.active = some a ∧ m.revokeClient id = m.cancel a := by
  unfold MediaManager.revokeClient
  split
  · exact .inl rfl
  · next a ha =>
    split
    · exact .inr ⟨a, ha, rfl⟩
    · exact .inl rfl

theorem Catalogue.step {c : MediaConfig} (h : Catalogue es w) (hs : Step c w fs w') :
    Catalogue (es ++ fs) w' := by
  have hnil {w' : World} (hw : Catalogue es w') : Catalogue (es ++ []) w' := by
    rw [List.append_nil]
    exact hw
  cases hs with
  | approve now later id found control m view hid hm => exact h.approve hid hm
  | refuse now later id found control m text hm =>
    obtain ⟨hcan, hnext, hact, hissued, -, hsources⟩ := approve_cases hm
    apply h.keep (fun x hx => (List.not_mem_nil hx).elim)
    · intro x s hl
      rcases hsources x s hl with hold | ⟨-, view, hview⟩
      · exact hold
      · cases hview
    · exact hissued
    · exact fun t x p ht => ht
    · show ∀ token ∈ m.cancelled, token < m.nextToken
      rw [hcan, hnext]
      exact h.cancelled
    · show ∀ a, m.active = some a → a.cancel < m.nextToken
      rw [hact, hnext]
      exact h.active
  | find t cancelled now p source again ht hg => exact h.find hg
  | register t p source stream m cancel ht hm =>
    obtain ⟨-, rfl, rfl⟩ := register_eq hm
    apply h.keep
    · intro x hx
      cases List.mem_singleton.1 hx
      rfl
    · exact fun x s hl => hl
    · exact fun x hx => hx
    · intro u x q hu
      exact setTask_found (fun _ _ hk => by cases hk) hu
    · exact fun token ht => Nat.lt_succ_of_lt (h.cancelled token ht)
    · intro a ha
      cases ha
      exact Nat.lt_succ_self _
  | upgrade | miss | busy | unstarted | started | cancelled =>
    exact hnil (h.goes fun _ _ hk => by cases hk)
  | turn t stream cancel l e i ht hc hp =>
    unfold World.after
    apply h.keep
    · intro x hx
      cases List.mem_singleton.1 hx
      rfl
    · exact fun x s hl => hl
    · exact fun x hx => hx
    · intro u x q hu
      apply setTask_found _ hu
      intro _ _ hk
      split at hk <;> cases hk
    · exact h.cancelled
    · exact h.active
  | leave t stream cancel source ht =>
    have hm : Catalogue es { w with m := { w.m with guiControlled := false } } :=
      ⟨h.issued, h.sources, h.lookups, h.found, h.cancelled, h.active⟩
    exact hnil (hm.goes fun _ _ hk => by cases hk)
  | finish t stream cancel source ht =>
    have hm : Catalogue es { w with m := w.m.finish stream } := by
      unfold MediaManager.finish
      split
      · exact ⟨h.issued, h.sources, h.lookups, h.found, h.cancelled, fun a ha => by cases ha⟩
      · exact h
    exact hnil (hm.goes fun _ _ hk => by cases hk)
  | cancelAll => exact hnil (h.cancels (cancelAll_cases w.m))
  | revokeClient id => exact hnil (h.cancels (revokeClient_cases w.m id))
  | clearSources => exact h.clear.cancels (cancelAll_cases _)

theorem Catalogue.run {c : MediaConfig} (hr : Run (Step c) .start es w) : Catalogue es w := by
  apply hr.invariant
  · refine ⟨?_, ?_, ?_, Each.nil _, ?_, ?_⟩
    · exact fun _ hm => (List.not_mem_nil hm).elim
    · intro source s hl
      cases hl
    · intro t source p ht
      cases ht
    · exact fun _ ht => (Finset.notMem_empty _ ht).elim
    · intro a ha
      cases ha
  · intro es t fs u h hs
    exact h.step hs

/-- The stream of a connection. -/
def World.streamOf (w : World) (t : Nat) : Option (Uuid × CancellationToken × Approved) :=
  (w.tasks t).bind Task.stream

theorem streamOf_setTask (w : World) (t u : Nat) (k : Task) :
    (w.setTask t k).streamOf u = if u = t then k.stream else w.streamOf u := by
  unfold World.streamOf
  rw [setTask_tasks]
  split <;> rfl

theorem setTask_self (w : World) (t : Nat) (k : Task) : (w.setTask t k).tasks t = some k :=
  Function.update_self ..

theorem streamOf_eq {w : World} (ht : w.tasks t = some k) : w.streamOf t = k.stream := by
  unfold World.streamOf
  rw [ht]
  rfl

/-- A connection that keeps its stream. -/
theorem streamOf_goes {w : World} {k : Task} (hs : w.streamOf t = k.stream) (u : Nat) :
    (w.setTask t k).streamOf u = w.streamOf u := by
  rw [streamOf_setTask]
  split
  · next hut => rw [hut, hs]
  · rfl

/-- The active stream belongs to a connection, and a stream on a withdrawn source is cancelled. -/
structure Cut (es : List Event) (w : World) : Prop where
  owned : ∀ a, w.m.active = some a → ∃ t source, w.streamOf t = some (a.id, a.cancel, source)
  cut : ∀ t stream cancel source, w.streamOf t = some (stream, cancel, source) →
    Withdrawn es source.view.id → cancel ∈ w.m.cancelled

namespace Cut

/-- A step after which the streams are the same. -/
theorem keep (h : Cut es w) (hq : .cleared ∉ fs) (hs : ∀ t, v.streamOf t = w.streamOf t)
    (ha : v.m.active = w.m.active) (hc : w.m.cancelled ⊆ v.m.cancelled) :
    Cut (es ++ fs) v where
  owned := by
    intro a hact
    obtain ⟨t, source, ht⟩ := h.owned a (ha ▸ hact)
    exact ⟨t, source, (hs t).trans ht⟩
  cut := by
    intro t stream cancel source ht hw
    exact hc (h.cut t stream cancel source ((hs t) ▸ ht) (withdrawn_before hw hq))

theorem register (hst : Streams w) (hf : Each Sound es)
    (htime : Timely es (.registered t source.view.id))
    (hm : w.m.register client stream = .ok (m, cancel)) :
    Cut (es ++ [.registered t source.view.id])
      ({ w with m }.setTask t (.starting stream cancel source p)) := by
  obtain ⟨hnone, rfl, rfl⟩ := register_eq hm
  constructor
  · intro a ha
    cases ha
    exact ⟨t, source, by rw [streamOf_setTask, if_pos rfl]; rfl⟩
  · intro u stream' cancel' source' hu hw
    rw [streamOf_setTask] at hu
    split at hu
    · cases hu
      have hsince := htime t source.view.id rfl
      refine absurd (withdrawn_before hw fun hc => ?_) (not_withdrawn hf hsince)
      cases List.mem_singleton.1 hc
    · obtain ⟨k, hk, hs⟩ := Option.bind_eq_some_iff.1 hu
      rw [hst.none_of_inactive hnone hk] at hs
      cases hs

theorem finish (h : Cut es w) (hst : Streams w)
    (ht : w.tasks t = some (.left stream cancel source)) :
    Cut es ({ w with m := w.m.finish stream }.setTask t .done) := by
  obtain ⟨client, hact⟩ := hst.active t _ stream cancel source ht rfl
  have hfin : w.m.finish stream = { w.m with active := none } := by
    unfold MediaManager.finish
    rw [hact]
    exact if_pos (beq_self_eq_true stream)
  rw [hfin]
  constructor
  · intro a ha
    cases ha
  · intro u stream' cancel' source' hu hw
    rw [streamOf_setTask] at hu
    split at hu
    · cases hu
    · exact h.cut u stream' cancel' source' hu hw

/-- The active stream is the only one, so `clear_sources` cancels what there is. -/
theorem clear {w : World} (h : Cut es w) (hst : Streams w) :
    Cut (es ++ [.cleared]) { w with m := w.m.clearSources } := by
  have hact : w.m.clearSources.active = w.m.active := (cancelAll_active _).1
  constructor
  · intro a ha
    exact h.owned a (hact ▸ ha)
  · intro t stream cancel source ht _
    obtain ⟨k, hk, hs⟩ := Option.bind_eq_some_iff.1 ht
    obtain ⟨client, ha⟩ := hst.active t k stream cancel source hk hs
    show cancel ∈ ({ w.m with sources := ∅ } : MediaManager).cancelAll.cancelled
    unfold MediaManager.cancelAll
    simp only [ha]
    exact Finset.mem_insert_self ..

theorem step {c : MediaConfig} (h : Cut es w) (hst : Streams w) (hf : Each Sound es)
    (htime : Each Timely (es ++ fs)) (hs : Step c w fs w') : Cut (es ++ fs) w' := by
  cases hs with
  | approve now later id found control m view hid hm =>
    obtain ⟨hcan, -, hact, -⟩ := approve_cases hm
    have hsub : w.m.cancelled ⊆ m.cancelled := by rw [hcan]
    apply h.keep (v := { w with m }) _ (fun _ => rfl) hact hsub
    intro hc
    cases List.mem_singleton.1 hc
  | refuse now later id found control m text hm =>
    obtain ⟨hcan, -, hact, -⟩ := approve_cases hm
    have hsub : w.m.cancelled ⊆ m.cancelled := by rw [hcan]
    exact h.keep (v := { w with m }) List.not_mem_nil (fun _ => rfl) hact hsub
  | upgrade t cancelled now id p source ht hg =>
    have hnone : w.streamOf t = none := by
      unfold World.streamOf
      rw [ht]
      rfl
    exact h.keep List.not_mem_nil (streamOf_goes hnone) rfl (Finset.Subset.refl _)
  | find t cancelled now p source again ht hg =>
    have hstream : w.streamOf t = (Task.found source p).stream := (streamOf_eq ht).trans rfl
    apply h.keep _ (streamOf_goes hstream) rfl (Finset.Subset.refl _)
    intro hc
    cases List.mem_singleton.1 hc
  | miss t p source ht | busy t p source ht hb | unstarted t p source stream cancel ht
  | cancelled t stream cancel l ht =>
    exact h.keep List.not_mem_nil (streamOf_goes ((streamOf_eq ht).trans rfl)) rfl
      (Finset.Subset.refl _)
  | leave t stream cancel source ht =>
    have hstream : w.streamOf t = (Task.left stream cancel source).stream :=
      (streamOf_eq ht).trans rfl
    exact h.keep List.not_mem_nil (streamOf_goes hstream) rfl (Finset.Subset.refl _)
  | register t p source stream m cancel ht hm =>
    exact register hst hf (htime es _ [] rfl) hm
  | started t p source stream cancel now l ht hl =>
    have hstream : w.streamOf t = (Task.looping stream cancel l).stream := by
      rw [streamOf_eq ht, ← (new_eq hl).2]
      rfl
    exact h.keep List.not_mem_nil (streamOf_goes hstream) rfl (Finset.Subset.refl _)
  | turn t stream cancel l e i ht hc hp =>
    have hturn := turn_turns c e l w.m.guiControlled i
    have hgoes (fs : List Event) (b : Bool) (k : Task) (hq : .cleared ∉ fs)
        (hk : k.stream = some (stream, cancel, l.source)) :
        Cut (es ++ fs) ({ w with m := { w.m with guiControlled := b } }.setTask t k) := by
      have hstream : w.streamOf t = k.stream := (streamOf_eq ht).trans hk.symm
      exact h.keep hq (streamOf_goes hstream) rfl (Finset.Subset.refl _)
    unfold World.after
    apply hgoes
    · intro hc
      cases List.mem_singleton.1 hc
    · rw [← hturn.source]
      split <;> rfl
  | finish t stream cancel source ht =>
    rw [List.append_nil]
    exact h.finish hst ht
  | cancelAll =>
    apply h.keep (v := { w with m := w.m.cancelAll }) List.not_mem_nil (fun _ => rfl)
      (cancelAll_active w.m).1
    rcases cancelAll_cases w.m with hm | ⟨a, -, hm⟩
    · rw [hm]
    · rw [hm]
      exact Finset.subset_insert ..
  | revokeClient id =>
    apply h.keep (v := { w with m := w.m.revokeClient id }) List.not_mem_nil (fun _ => rfl)
      (revokeClient_active w.m id).1
    rcases revokeClient_cases w.m id with hm | ⟨a, -, hm⟩
    · rw [hm]
    · rw [hm]
      exact Finset.subset_insert ..
  | clearSources => exact h.clear hst

/-- The streams of a run are followed beside its catalogue. -/
theorem run {c : MediaConfig} (hr : Run (Step c) .start es w) (ht : Each Timely es) :
    Cut es w := by
  have hall : Catalogue es w ∧ Flagged w ∧ (Each Timely es → Cut es w) := by
    apply hr.invariant (I := fun es w => Catalogue es w ∧ Flagged w ∧ (Each Timely es → Cut es w))
    · refine ⟨Catalogue.run (c := c) .nil, Flagged.run (c := c) .nil, fun _ => ⟨?_, ?_⟩⟩
      · intro a ha
        cases ha
      · intro t stream cancel source hs
        cases hs
    · rintro es w fs w' ⟨hcat, hflag, hcut⟩ hs
      exact ⟨hcat.step hs, hflag.step hs,
        fun htime => (hcut htime.left).step hflag.streams hcat.found htime hs⟩
  exact hall.2.2 ht

end Cut

/-- A registration out of time is one on a withdrawn source. -/
theorem withdrawn_of_late {c : MediaConfig} (hr : Run (Step c) .start es w)
    (ht : w.tasks t = some (.found source p)) (hlate : ¬ Timely es (.registered t source.view.id)) :
    Withdrawn es source.view.id := by
  have hcat := Catalogue.run hr
  rcases since_or_then (Event.found t source.view.id) Event.cleared (hcat.lookups t source p ht)
    with hsince | ⟨before, e, after, rfl, rfl, hc⟩
  · exfalso
    apply hlate
    intro u x hx
    cases hx
    exact hsince
  · obtain ⟨happ, -⟩ := hcat.found before _ after rfl t _ rfl
    obtain ⟨first, rest, rfl⟩ := List.append_of_mem happ
    refine ⟨first, _, rest ++ .found t source.view.id :: after, ?_, rfl, ?_⟩
    · rw [List.append_assoc, List.cons_append]
    · intro x hx
      exact List.mem_append_right _ (List.mem_cons_of_mem _ (hc hx))

/-- Its stream is active, and no call of `clear_sources` has cancelled it. -/
theorem late_registration {c : MediaConfig} (hr : Run (Step c) .start es w)
    (ht : w.tasks t = some (.found source p)) (hlate : ¬ Timely es (.registered t source.view.id))
    (hm : w.m.register p.clientId stream = .ok (m, cancel)) :
    m.active = some ⟨stream, p.clientId, cancel⟩ ∧
      Withdrawn (es ++ [.registered t source.view.id]) source.view.id ∧ cancel ∉ m.cancelled := by
  obtain ⟨-, rfl, rfl⟩ := register_eq hm
  refine ⟨rfl, (withdrawn_of_late hr ht hlate).later, fun hc => ?_⟩
  exact Nat.lt_irrefl _ ((Catalogue.run hr).cancelled _ hc)

/-- When every source is registered without a `clear_sources` since its lookup, a stream on a
withdrawn source is cancelled. -/
theorem withdrawn_cancelled {c : MediaConfig} (hr : Run (Step c) .start es w)
    (ht : Each Timely es) :
    (∀ a, w.m.active = some a → ∃ t source, w.streamOf t = some (a.id, a.cancel, source)) ∧
    ∀ t stream cancel source, w.streamOf t = some (stream, cancel, source) →
      Withdrawn es source.view.id → cancel ∈ w.m.cancelled := by
  have hcut := Cut.run hr ht
  exact ⟨hcut.owned, hcut.cut⟩

theorem register_inactive (m : MediaManager) (client stream : Uuid) (h : m.active = none) :
    m.register client stream = .ok ({ m with
      active := some ⟨stream, client, m.nextToken⟩
      nextToken := m.nextToken + 1 }, m.nextToken) := by
  unfold MediaManager.register
  rw [h]
  rfl

/-- A connection has looked up a source. -/
theorem looked_up : ∃ w source,
    Run (Step aConfig) .start [.approved (.fill 2), .found 0 (.fill 2)] w ∧
    w.tasks 0 = some (.found source aPrincipal) ∧ source.view.id = .fill 2 ∧ w.m.active = none := by
  have hfound : Run (Step aConfig) .start _ _ := ((Run.single (.approve _ 0 0 (.fill 2)
    (some ⟨"a", "window", ⟨0, 0, 1, 1⟩⟩) true _ _ List.not_mem_nil rfl)).snoc
    (.upgrade _ 0 ∅ 0 (.fill 2) aPrincipal _ rfl rfl)).snoc
    (.find _ 0 ∅ 0 aPrincipal _ _ rfl rfl)
  exact ⟨_, _, hfound, rfl, rfl, rfl⟩

/-- The stream was registered before `clear_sources`. -/
theorem withdrawn_cancelled_registered : ∃ es w stream cancel source,
    Run (Step aConfig) .start es w ∧ Each Timely es ∧
    w.streamOf 0 = some (stream, cancel, source) ∧ Withdrawn es source.view.id ∧
    cancel ∈ w.m.cancelled := by
  obtain ⟨w, source, hr, ht, hid, hnone⟩ := looked_up
  have hcleared := (hr.snoc (.register w 0 aPrincipal source (.fill 3) _ _ ht
    (register_inactive _ _ _ hnone))).snoc (.clearSources _)
  have htime : Each Timely [.approved (.fill 2), .found 0 (.fill 2),
      .registered 0 source.view.id, .cleared] := by
    have hquiet {es : List Event} {x : Event} (h : ∀ t source, x ≠ .registered t source) :
        Timely es x := fun t source hx => absurd hx (h t source)
    refine Each.snoc (l := [_, _, _]) (Each.snoc (l := [_, _]) (Each.snoc (l := [_])
      (Each.snoc (l := []) (Each.nil _) (hquiet nofun)) (hquiet nofun)) ?_) (hquiet nofun)
    intro t x hx
    cases hx
    exact ⟨[.approved (.fill 2)], _, [], rfl, by rw [hid], fun _ hx => (List.not_mem_nil hx).elim⟩
  have hw : Withdrawn [.approved (.fill 2), .found 0 (.fill 2),
      .registered 0 source.view.id, .cleared] source.view.id :=
    ⟨[], _, _, rfl, by rw [hid], fun x hx => by rw [List.mem_singleton.1 hx]; simp⟩
  have hstream := setTask_self w 0 (.starting (.fill 3) w.m.nextToken source aPrincipal)
  exact ⟨_, _, _, _, source, hcleared, htime, streamOf_eq hstream, hw,
    (withdrawn_cancelled hcleared htime).2 0 _ _ source (streamOf_eq hstream) hw⟩

/-- `clear_sources` came between the lookup and the registration. -/
theorem registered_after_clear : ∃ es w a source, Run (Step aConfig) .start es w ∧
    w.m.active = some a ∧ w.streamOf 0 = some (a.id, a.cancel, source) ∧
    Withdrawn es source.view.id ∧ a.cancel ∉ w.m.cancelled := by
  obtain ⟨w, source, hr, ht, hid, hnone⟩ := looked_up
  have hcleared := hr.snoc (.clearSources w)
  have hnone' : w.m.clearSources.active = none := (cancelAll_active _).1.trans hnone
  have hm := register_inactive _ aPrincipal.clientId (.fill 3) hnone'
  have hlate : ¬ Timely ([.approved (.fill 2), .found 0 (.fill 2)] ++ [.cleared])
      (.registered 0 source.view.id) := by
    intro htime
    have hw : Withdrawn ([.approved (.fill 2), .found 0 (.fill 2)] ++ [.cleared]) source.view.id :=
      ⟨[], _, _, rfl, by rw [hid], fun x hx => by rw [List.mem_singleton.1 hx]; simp⟩
    exact not_withdrawn (Catalogue.run hcleared).found (htime 0 _ rfl) hw
  obtain ⟨hact, hw, hnot⟩ := late_registration hcleared ht hlate hm
  have hstream := setTask_self w 0
    (.starting (.fill 3) w.m.clearSources.nextToken source aPrincipal)
  exact ⟨_, _, _, source, hcleared.snoc (.register _ 0 aPrincipal source (.fill 3) _ _ ht hm), hact,
    streamOf_eq hstream, hw, hnot⟩

end Media
end RemoteCodex
