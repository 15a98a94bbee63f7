import Mathlib.Data.List.Forall2
import RemoteCodex.Lib.History
import RemoteCodex.Client.Reloads

namespace RemoteCodex
set_option autoImplicit true
open Trace History
namespace Client

/-- A session of a list. Since then its lease may have been dropped, or have come in a lease
message. -/
def Kept (since : List Event) (x y : SessionInfo) : Prop :=
  y.dropLease = x.dropLease ∧
    (y.lease = x.lease ∨ y.lease = none ∨
      ∃ g lease, .processed (.lease g y.sessionId lease) ∈ since ∧ y.lease = some lease)

/-- The event is not a notice that is processed. -/
def Event.silent (e : Event) : Prop := ∀ m, e ≠ .processed (.notice m)

/-- The sessions are those of a list that the server produced no earlier than the last notice that
was processed. -/
def Fresh (es : List Event) (sessions : List SessionInfo) : Prop :=
  ∃ before r list n after, es = before ++ .produced r list n :: after ∧
    (∀ e ∈ after, e.silent) ∧ List.Forall₂ (Kept after) list sessions

theorem Kept.refl (since : List Event) (x : SessionInfo) : Kept since x x :=
  ⟨rfl, .inl rfl⟩

theorem Kept.append (h : Kept since x y) (fs : List Event) : Kept (since ++ fs) x y := by
  obtain ⟨hd, hl | hl | ⟨g, lease, hm, hl⟩⟩ := h
  · exact ⟨hd, .inl hl⟩
  · exact ⟨hd, .inr (.inl hl)⟩
  · exact ⟨hd, .inr (.inr ⟨g, lease, List.mem_append_left _ hm, hl⟩)⟩

theorem Kept.drop (h : Kept since x y) : Kept since x y.dropLease :=
  ⟨h.1, .inr (.inl rfl)⟩

theorem Kept.lease {y : SessionInfo} (h : Kept since x y)
    (hm : .processed (.lease g y.sessionId v) ∈ since) :
    Kept since x { y with lease := some v } :=
  ⟨h.1, .inr (.inr ⟨g, v, hm, rfl⟩)⟩

theorem Fresh.append (h : Fresh es sessions) (hq : ∀ e ∈ fs, e.silent) :
    Fresh (es ++ fs) sessions := by
  obtain ⟨before, r, list, n, after, rfl, hn, hk⟩ := h
  exact ⟨before, r, list, n, after ++ fs, List.append_assoc .., List.forall_mem_append.2 ⟨hn, hq⟩,
    hk.imp fun _ _ h => h.append fs⟩

theorem Fresh.drop (h : Fresh es sessions) : Fresh es (sessions.map SessionInfo.dropLease) := by
  obtain ⟨before, r, list, n, after, he, hn, hk⟩ := h
  refine ⟨before, r, list, n, after, he, hn, List.forall₂_map_right_iff.2 (hk.imp ?_)⟩
  intro x y h
  exact h.drop

theorem Fresh.lease {c : Controller} (h : Fresh es c.sessions)
    (hm : .processed (.lease g sessionId v) ∈ fs) (hq : ∀ e ∈ fs, e.silent) :
    Fresh (es ++ fs) (c.onMessage (.lease g sessionId v)).sessions := by
  obtain ⟨before, r, list, n, after, rfl, hn, hk⟩ := h
  refine ⟨before, r, list, n, after ++ fs, List.append_assoc .., List.forall_mem_append.2 ⟨hn, hq⟩,
    List.forall₂_map_right_iff.2 (hk.imp fun x y h => ?_)⟩
  split
  · next hid => exact (h.append fs).lease (List.mem_append_right _ (hid ▸ hm))
  · exact h.append fs

/-- A list is fresh as long as no notice came since the server produced it. -/
theorem Fresh.now (h : Since Event.silent (fun _ e => ∃ r, e = .produced r list n) es) :
    Fresh es list := by
  obtain ⟨before, e, after, rfl, ⟨r, rfl⟩, hg⟩ := h
  refine ⟨before, r, list, n, after, rfl, hg, ?_⟩
  exact List.forall₂_same.2 fun x _ => .refl after x

/-- The list request that the controller waits for. -/
def Page.waiting (w : Page) : Option Reload := w.c.reload.bind w.reloads

/-- No notice waits for a list. -/
def Calm (w : Page) : Prop := ∀ l, w.waiting = some l → l.wanted = false

/-- The current socket belongs to the current attempt and is open. -/
def Page.open (w : Page) : Prop :=
  ∃ s, w.c.socket = some s ∧ w.sockets s = some w.c.attempt

/-- A turn at a good time. A notice comes before the server has answered the request that is waited
for, and a lease message not after it has answered without that lease. A request that a notice
waits for does not fail while the controller is or can get connected, and no attempt begins while
the controller is connected and a notice waits. -/
structure Timely (w : Page) (fs : List Event) (w' : Page) : Prop where
  step : Step w fs w'
  notice : ∀ m l, .processed (.notice m) ∈ fs → w.waiting = some l → l.progress = .asked
  lease : ∀ g id lease l list n, .processed (.lease g id lease) ∈ fs → w.waiting = some l →
    l.progress = .produced list n → g < n
  refused : ∀ a r l, .refused a r ∈ fs → w.c.reload = some r → w.reloads r = some l →
    l.wanted = true → w.c.connected = false ∧ ¬ w.open
  connect : ∀ a l, .connect a ∈ fs → w.c.connected = true → w.waiting = some l →
    l.wanted = false

/-- The session list of the current attempt has arrived, or an older one is still shown. -/
inductive Listed (w : Page) : Prop where
  | connected (hc : w.c.connected = true)
  | answered (hc : w.calls w.c.attempt = some ⟨retry, .sessions r⟩)
      (hr : w.reloads r = some l) (hl : l.progress = .fulfilled)
  | listed (hc : w.calls w.c.attempt = some ⟨retry, .websocket⟩)
  | opened (ho : w.open)

theorem Listed.running (h : Listed w) (hw : Wired w) : w.c.stopped = false := by
  refine Bool.eq_false_iff.2 fun hst => ?_
  obtain ⟨hno, hnone⟩ := hw.stopped hst
  cases h with
  | connected hc => cases hno.symm.trans hc
  | answered hc hr hl => cases hnone.symm.trans hc
  | listed hc => cases hnone.symm.trans hc
  | opened ho =>
    obtain ⟨s, -, hs⟩ := ho
    obtain ⟨retry, hdone⟩ := hw.opened s _ hs
    cases hnone.symm.trans hdone

/-- A call that does not get an answer does not list the sessions. -/
theorem Listed.of_setCall (h : Listed (w.setCall a retry pc))
    (hl : ∀ r, pc = .sessions r → ∀ l, w.reloads r = some l → l.progress ≠ .fulfilled)
    (hw : pc ≠ .websocket) : Listed w := by
  cases h with
  | connected hc => exact .connected hc
  | @answered again r l hc hr hf =>
    by_cases ha : w.c.attempt = a
    · rw [← ha] at hc
      cases (Function.update_self ..).symm.trans hc
      exact absurd hf (hl r rfl l hr)
    · exact .answered ((setCall_ne w ha).symm.trans hc) hr hf
  | listed hc =>
    by_cases ha : w.c.attempt = a
    · rw [← ha] at hc
      cases (Function.update_self ..).symm.trans hc
      exact absurd rfl hw
    · exact .listed ((setCall_ne w ha).symm.trans hc)
  | opened ho => exact .opened ho

/-- A request that is not fulfilled does not list them either. -/
theorem Listed.of_setReload (h : Listed (w.setReload r l)) (hl : l.progress ≠ .fulfilled) :
    Listed w := by
  cases h with
  | connected hc => exact .connected hc
  | answered hc hr hf =>
    rcases setReload_cases hr with ⟨-, rfl⟩ | ⟨-, hr⟩
    · exact absurd hf hl
    · exact .answered hc hr hf
  | listed hc => exact .listed hc
  | opened ho => exact .opened ho

/-- A step that changes none of this, or closes a socket. -/
theorem Listed.same {w' : Page} (h : Listed w') (ha : w'.c.attempt = w.c.attempt)
    (hs : w'.c.socket = w.c.socket) (hc : w'.c.connected = true → w.c.connected = true ∨ w.open)
    (hcalls : w'.calls = w.calls) (hreloads : w'.reloads = w.reloads)
    (hsockets : ∀ s a, w'.sockets s = some a → w.sockets s = some a) : Listed w := by
  cases h with
  | connected hc' => exact (hc hc').elim .connected .opened
  | answered hc' hr hf =>
    rw [ha, hcalls] at hc'
    rw [hreloads] at hr
    exact .answered hc' hr hf
  | listed hc' =>
    rw [ha, hcalls] at hc'
    exact .listed hc'
  | opened ho =>
    obtain ⟨s, hcs, hws⟩ := ho
    exact .opened ⟨s, hs.symm.trans hcs, ha ▸ hsockets s _ hws⟩

theorem Listed.of_disconnected (h : Listed w.disconnected) : Listed w := by
  unfold Page.disconnected at h
  split at h
  · exact h.same rfl rfl nofun rfl rfl fun _ _ hs => hs
  · exact h.same rfl rfl nofun rfl rfl fun _ _ hs => hs

theorem Listed.of_dropSocket (h : Listed (w.dropSocket s)) : Listed w := by
  refine h.same rfl rfl .inl rfl rfl fun s' a hs => ?_
  have hne : s' ≠ s := by
    rintro rfl
    cases (Function.update_self ..).symm.trans hs
  exact (Function.update_of_ne hne ..).symm.trans hs

theorem Listed.of_refresh (h : Listed (w.refreshSessions).1) : Listed w := by
  cases hr : w.c.reload with
  | some r => rwa [refreshSessions_some hr] at h
  | none =>
    rw [refreshSessions_none hr] at h
    exact (h.of_setReload nofun).same rfl rfl .inl rfl rfl fun _ _ hs => hs

theorem waiting_eq {w : Page} (hr : w.c.reload = some r) (hl : w.reloads r = some l) :
    w.waiting = some l := by
  rw [Page.waiting, hr]
  exact hl

theorem waiting_none {w : Page} (hr : w.c.reload = none) : w.waiting = none := by
  rw [Page.waiting, hr]
  rfl

theorem current_attempt {c : Controller} (h : c.current a = true) : a = c.attempt := by
  simp only [Controller.current, Bool.and_eq_true, beq_iff_eq] at h
  exact h.2

/-- What is known of the session list and of the request that is waited for. -/
structure Listing (es : List Event) (w : Page) : Prop where
  wanted : ∀ l, w.waiting = some l → l.wanted = true →
    w.c.stopped = false ∧ ∃ retry, w.calls w.c.attempt = some ⟨retry, .done⟩
  produced : ∀ l list n, w.waiting = some l → l.progress = .produced list n →
    Since Event.silent (fun _ e => ∃ r, e = .produced r list n) es
  fresh : Listed w → Calm w → Fresh es w.c.sessions

theorem Listing.silent (h : Listing es w) (hq : ∀ e ∈ fs, e.silent) : Listing (es ++ fs) w where
  wanted := h.wanted
  produced := fun l list n hwait hp => (h.produced l list n hwait hp).append hq
  fresh := fun hl hcalm => (h.fresh hl hcalm).append hq

/-- A step of the attempt that is no answer and no notice. -/
theorem Listing.turn {w' : Page} (h : Listing es w)
    (hw : ∀ l, w'.waiting = some l → w.waiting = some l ∨ l = ⟨w.c.reloadEpoch, false, .asked⟩)
    (hcalm : Calm w' → Calm w) (hst : w'.c.stopped = w.c.stopped)
    (hd : ∀ retry, w.calls w.c.attempt = some ⟨retry, .done⟩ →
      w'.calls w'.c.attempt = some ⟨retry, .done⟩)
    (hl : Listed w' → Listed w) (hs : Fresh es w.c.sessions → Fresh es w'.c.sessions) :
    Listing es w' where
  wanted := by
    intro l hwait hwant
    rcases hw l hwait with hwait | rfl
    · obtain ⟨hrun, retry, hdone⟩ := h.wanted l hwait hwant
      exact ⟨hst.trans hrun, retry, hd retry hdone⟩
    · cases hwant
  produced := by
    intro l list n hwait hp
    rcases hw l hwait with hwait | rfl
    · exact h.produced l list n hwait hp
    · cases hp
  fresh := fun hlisted hcalm' => hs (h.fresh (hl hlisted) (hcalm hcalm'))

/-- A turn that leaves the request alone. -/
theorem Listing.same {w' : Page} (h : Listing es w) (hw : w'.waiting = w.waiting)
    (hst : w'.c.stopped = w.c.stopped)
    (hd : ∀ retry, w.calls w.c.attempt = some ⟨retry, .done⟩ →
      w'.calls w'.c.attempt = some ⟨retry, .done⟩)
    (hl : Listed w' → Listed w) (hs : Fresh es w.c.sessions → Fresh es w'.c.sessions) :
    Listing es w' :=
  h.turn (fun _ hl => .inl (hw ▸ hl)) (fun hcalm l hl => hcalm l (hw.trans hl)) hst hd hl hs

/-- Nothing is waited for any more. -/
theorem Listing.over {w' : Page} (hr : w'.waiting = none)
    (hs : Listed w' → Fresh es w'.c.sessions) : Listing es w' where
  wanted := by
    intro l hwait
    cases hr.symm.trans hwait
  produced := by
    intro l list n hwait
    cases hr.symm.trans hwait
  fresh := fun hl _ => hs hl

theorem refresh_waiting {w : Page} (hl : (w.refreshSessions).1.waiting = some l) :
    w.waiting = some l ∨ l = ⟨w.c.reloadEpoch, false, .asked⟩ := by
  cases hr : w.c.reload with
  | some r =>
    rw [refreshSessions_some hr] at hl
    exact .inl hl
  | none =>
    rw [refreshSessions_none hr, waiting_eq rfl (setReload_self ..)] at hl
    exact .inr (Option.some.inj hl).symm

theorem refresh_calm (hcalm : Calm (w.refreshSessions).1) : Calm w := by
  intro l hl
  cases hr : w.c.reload with
  | some r =>
    rw [refreshSessions_some hr] at hcalm
    exact hcalm l hl
  | none => cases (waiting_none hr).symm.trans hl

theorem Listing.refresh (h : Listing es w) : Listing es (w.refreshSessions).1 := by
  refine h.turn (fun l => refresh_waiting) refresh_calm ?_ ?_ Listed.of_refresh ?_
  · rw [refreshSessions_c]
  · intro retry hd
    rwa [refreshSessions_c, refreshSessions_calls]
  · rw [refreshSessions_c]
    exact id

theorem refreshSessions_grants (w : Page) : (w.refreshSessions).1.grants = w.grants := by
  unfold Page.refreshSessions
  split <;> rfl

theorem disconnected_grants (w : Page) : w.disconnected.grants = w.grants := by
  unfold Page.disconnected
  split <;> rfl

theorem disconnected_reloads (w : Page) : w.disconnected.reloads = w.reloads := by
  unfold Page.disconnected
  split <;> rfl

theorem Listing.disconnected (h : Listing es w) : Listing es w.disconnected := by
  obtain ⟨timer, hc⟩ := disconnected_c w
  refine h.same ?_ ?_ ?_ Listed.of_disconnected ?_
  · rw [Page.waiting, hc, disconnected_reloads]
    rfl
  · rw [hc]
    rfl
  · intro retry hd
    rw [hc, disconnected_calls]
    exact hd
  · rw [hc]
    exact Fresh.drop

theorem Listing.closed (h : Listing es w) (s : Nat) : Listing es (w.closed s) := by
  have hdrop : Listing es (w.dropSocket s) :=
    h.same rfl rfl (fun _ hd => hd) Listed.of_dropSocket id
  unfold Page.closed
  split
  · exact hdrop.disconnected
  · exact hdrop

/-- A call that is not over goes on, and does not get the list yet. -/
theorem Listing.pass (h : Listing es w) (hc : w.calls a = some ⟨retry, pc⟩) (hp : pc ≠ .done)
    (hl : ∀ r, pc' = .sessions r → ∀ l, w.reloads r = some l → l.progress ≠ .fulfilled)
    (hw : pc' ≠ .websocket) : Listing es (w.setCall a retry pc') := by
  refine h.same rfl rfl (fun again hd => ?_) (fun hls => hls.of_setCall hl hw) id
  have hne : w.c.attempt ≠ a := by
    intro he
    rw [he] at hd
    cases hc.symm.trans hd
    exact hp rfl
  exact (setCall_ne w hne).trans hd

theorem Listing.hosted (h : Listing es w) (hw : Wired w) (hc : w.calls a = some ⟨retry, .host⟩) :
    Listing es (w.hosted a retry host) := by
  unfold Page.hosted
  split
  · have hhost : Waits { w with c := { w.c with host := some host } } :=
      hw.waits.same rfl rfl rfl rfl
    have hl : Listing es { w with c := { w.c with host := some host } } :=
      h.same rfl rfl (fun _ hd => hd) (fun hl => hl.same rfl rfl .inl rfl rfl fun _ _ hs => hs) id
    refine hl.refresh.pass ((congrFun (refreshSessions_calls _) a).trans hc) nofun ?_ nofun
    rintro r ⟨⟩ l hr hf
    obtain ⟨k, hk, -, hp⟩ := hhost.refresh.waited _ (by rw [refreshSessions_c])
    cases hk.symm.trans hr
    rw [hf] at hp
    cases hp
  · exact h.pass hc nofun nofun nofun

theorem Listed.of_connect (h : Listed (w.connect retry)) (hw : Wired w) :
    w.c.connected = true := by
  cases h with
  | connected hc => exact hc
  | answered hc hr hl => cases (Function.update_self ..).symm.trans hc
  | listed hc => cases (Function.update_self ..).symm.trans hc
  | opened ho =>
    obtain ⟨s, -, hs⟩ := ho
    obtain ⟨again, hdone⟩ := hw.opened s _ hs
    exact absurd (hw.made _ _ hdone) (Nat.not_succ_le_self _)

/-- An attempt that begins keeps the list of the one before, as long as that is connected. -/
theorem Listing.connect (h : Listing es w) (hw : Wired w) (retry : Bool)
    (hcalm : w.c.connected = true → Calm w) : Listing es (w.connect retry) := by
  refine .over (waiting_none rfl) fun hl => ?_
  have hc := hl.of_connect hw
  exact h.fresh (.connected hc) (hcalm hc)

theorem want_calls (w : Page) (r : Nat) : (w.want r).calls = w.calls := by
  unfold Page.want
  split <;> rfl

theorem want_grants (w : Page) (r : Nat) : (w.want r).grants = w.grants := by
  unfold Page.want
  split <;> rfl

theorem setReload_waiting {w : Page} (hr : w.c.reload ≠ some r) :
    (w.setReload r l).waiting = w.waiting := by
  cases hp : w.c.reload with
  | none => exact (waiting_none (w := w.setReload r l) hp).trans (waiting_none hp).symm
  | some p =>
    have hne : p ≠ r := fun he => hr (he ▸ hp)
    simp only [Page.waiting, Page.setReload, hp, Option.bind_some, Function.update_of_ne hne]

/-- Nothing changes for the controller when the answer is for an attempt before. -/
theorem loaded_stale {c : Controller} (hr : c.reload ≠ some r) (he : epoch ≠ c.reloadEpoch) :
    c.loaded r epoch list = c := by
  simp only [Controller.loaded, if_neg hr, he, false_and, if_false]

theorem Listing.answered (h : Listing es w) (hw : Wired w) (hr : w.reloads r = some l)
    (hl : l.progress = .produced list n) :
    Listing es ({ w with c := w.c.loaded r l.epoch list }.setReload r
      { l with progress := .fulfilled }) := by
  by_cases hcur : w.c.reload = some r
  · refine .over (waiting_none (if_pos hcur)) fun hlisted => ?_
    have hrun : w.c.stopped = false := hlisted.running (hw.finish hr rfl rfl rfl rfl rfl rfl)
    obtain ⟨k, hk, hepoch, -⟩ := hw.waits.waited r hcur
    cases hr.symm.trans hk
    simp only [Page.setReload, Controller.loaded, hepoch, hrun, and_self, if_true]
    exact Fresh.now (h.produced l list n (waiting_eq hcur hr) hl)
  · have hepoch : l.epoch ≠ w.c.reloadEpoch := by
      intro he
      exact hcur (hw.waits.alone r l hr he (by rw [hl]; rfl))
    rw [loaded_stale hcur hepoch]
    refine h.same (setReload_waiting hcur) rfl (fun _ hd => hd) (fun hlisted => ?_) id
    cases hlisted with
    | connected hc => exact .connected hc
    | answered hc hr' hf =>
      rcases setReload_cases hr' with ⟨rfl, -⟩ | ⟨-, hr'⟩
      · -- no current call waits for this request
        obtain ⟨k, hk, hka⟩ := hw.listing _ _ _ hc
        cases hr.symm.trans hk
        exact absurd (hka.trans hw.epoch.symm) hepoch
      · exact .answered hc hr' hf
    | listed hc => exact .listed hc
    | opened ho => exact .opened ho

theorem Listing.refused (h : Listing es w) (hr : w.reloads r = some l)
    (hg : w.c.reload = some r → l.wanted = true → w.c.connected = false ∧ ¬ w.open) :
    Listing es ({ w with c := w.c.unloaded r }.setReload r { l with progress := .rejected }) := by
  by_cases hcur : w.c.reload = some r
  · refine .over (waiting_none (if_pos hcur)) fun hlisted => ?_
    have hlisted : Listed w :=
      (hlisted.of_setReload nofun).same rfl rfl .inl rfl rfl fun _ _ hs => hs
    have hwait := waiting_eq hcur hr
    refine h.fresh hlisted fun k hk => ?_
    cases hwait.symm.trans hk
    refine Bool.eq_false_iff.2 fun hwant => ?_
    -- a request that a notice waits for fails only when the list is no longer shown
    obtain ⟨hno, hopen⟩ := hg hcur hwant
    obtain ⟨-, retry, hdone⟩ := h.wanted l hwait hwant
    cases hlisted with
    | connected hc => cases hno.symm.trans hc
    | answered hc hr hf => cases hdone.symm.trans hc
    | listed hc => cases hdone.symm.trans hc
    | opened ho => exact hopen ho
  · have hc : w.c.unloaded r = w.c := by simp only [Controller.unloaded, if_neg hcur]
    rw [hc]
    exact h.same (setReload_waiting hcur) rfl (fun _ hd => hd) (fun hl => hl.of_setReload nofun) id

theorem Listing.produce (h : Listing es w) (hr : w.reloads r = some l) :
    Listing (es ++ [.produced r list n])
      (w.setReload r { l with progress := .produced list n }) := by
  have hs : Listing (es ++ [.produced r list n]) w := h.silent (List.forall_mem_singleton.2 nofun)
  by_cases hcur : w.c.reload = some r
  · have hwait := waiting_eq hcur hr
    have hwait' : (w.setReload r { l with progress := .produced list n }).waiting =
        some { l with progress := .produced list n } := waiting_eq hcur (setReload_self ..)
    refine ⟨?_, ?_, ?_⟩
    · intro k hk hwant
      cases hwait'.symm.trans hk
      exact hs.wanted l hwait hwant
    · intro k list' n' hk hp
      cases hwait'.symm.trans hk
      cases hp
      exact .now ⟨r, rfl⟩
    · intro hlisted hcalm
      refine hs.fresh (hlisted.of_setReload nofun) fun k hk => ?_
      rw [← Option.some.inj (hwait.symm.trans hk)]
      exact hcalm { l with progress := .produced list n } hwait'
  · exact hs.same (setReload_waiting hcur) rfl (fun _ hd => hd) (fun hl => hl.of_setReload nofun) id

theorem Listing.lease (h : Listing es w) (hm : .processed (.lease g sessionId v) ∈ fs)
    (hq : ∀ e ∈ fs, e.silent) :
    Listing (es ++ fs) (w.onMessage (.lease g sessionId v)) where
  wanted := h.wanted
  produced := (h.silent hq).produced
  fresh := fun hl hcalm =>
    (h.fresh (hl.same rfl rfl .inl rfl rfl fun _ _ hs => hs) hcalm).lease hm hq

theorem want_waiting {w : Page} (hr : w.c.reload = some r) (hl : w.reloads r = some l) :
    (w.want r).waiting = some { l with wanted := true } := by
  unfold Page.want
  rw [hl]
  exact waiting_eq hr (setReload_self ..)

/-- A notice waits for a list that the server has not produced yet. -/
theorem Listing.notice (hw : Wired w) (hl : w.listens s a)
    (hs : w.sockets s = some a) (hg : ∀ l, w.waiting = some l → l.progress = .asked) :
    Listing (es ++ fs) (w.onMessage (.notice m)) := by
  have hreload := congrArg Controller.reload (refreshSessions_c w)
  obtain ⟨l, hl', -⟩ := hw.waits.refresh.waited _ hreload
  have hasked : l.progress = .asked := by
    rcases refresh_waiting (waiting_eq hreload hl') with hwait | rfl
    · exact hg l hwait
    · rfl
  have hwait : (w.onMessage (.notice m)).waiting = some { l with wanted := true } :=
    want_waiting hreload hl'
  refine ⟨?_, ?_, fun _ hcalm => by cases hcalm _ hwait⟩
  · intro k hk _
    obtain ⟨retry, hdone⟩ := hw.opened s a hs
    rw [current_attempt hl.2] at hdone
    refine ⟨?_, retry, ?_⟩
    · simpa only [Page.onMessage, want_c, refreshSessions_c] using hl.running
    · rw [Page.onMessage, want_c, want_calls, refreshSessions_c, refreshSessions_calls]
      exact hdone
  · intro k list n hk hp
    cases hwait.symm.trans hk
    cases hasked.symm.trans hp

theorem Listing.message (h : Listing es w) (hw : Wired w) (hl : w.listens s a)
    (hs : w.sockets s = some a)
    (hg : ∀ n, m = .notice n → ∀ l, w.waiting = some l → l.progress = .asked) :
    Listing (es ++ [.message a m, .processed m]) (w.onMessage m) := by
  cases m with
  | notice n => exact Listing.notice hw hl hs (hg n rfl)
  | lease g sessionId v =>
    exact h.lease (List.mem_cons_of_mem _ (List.mem_singleton_self _)) (by simp [Event.silent])
  | hello protocol agentEpoch connectionId =>
    have hq : Listing (es ++ [.message a (.hello protocol agentEpoch connectionId),
        .processed (.hello protocol agentEpoch connectionId)]) w :=
      h.silent (by simp [Event.silent])
    simp only [Page.onMessage, Controller.onMessage]
    split
    · exact hq
    · have hopen : w.open := ⟨s, hl.1, current_attempt hl.2 ▸ hs⟩
      exact hq.same rfl rfl (fun _ hd => hd)
        (fun hl => hl.same rfl rfl (fun _ => .inr hopen) rfl rfl fun _ _ hs => hs) id
  | invalid | other => exact h.silent (by simp [Event.silent])

theorem Listing.step (h : Listing es w) (hw : Wired w) (hs : Timely w fs w') :
    Listing (es ++ fs) w' := by
  obtain ⟨hstep, hnotice, hlease, hrefused, hconnect⟩ := hs
  have hq : (∀ e ∈ fs, e.silent) → Listing (es ++ fs) w := h.silent
  have hone {e : Event} (he : e.silent) : ∀ x ∈ [e], x.silent := List.forall_mem_singleton.2 he
  cases hstep with
  | connect =>
    exact (hq (hone nofun)).connect hw false fun hc l => hconnect _ l (List.mem_singleton_self _) hc
  | retry t ht =>
    have htimers : Wired { w with timers := w.timers.erase t } :=
      hw.same rfl rfl rfl rfl (fun _ hc => hc) rfl rfl rfl fun _ _ hs => hs
    have hl : Listing (es ++ [.connect (w.c.attempt + 1)])
        { w with timers := w.timers.erase t } :=
      (hq (hone nofun)).same rfl rfl (fun _ hd => hd)
        (fun hl => hl.same rfl rfl .inl rfl rfl fun _ _ hs => hs) id
    exact hl.connect htimers true fun hc l => hconnect _ l (List.mem_singleton_self _) hc
  | stop =>
    refine .over (waiting_none rfl) fun hl => ?_
    cases hl.running hw.stop
  | authenticated a retry hc =>
    refine (hq (hone nofun)).pass hc nofun (fun r hr => ?_) ?_
    · split at hr <;> cases hr
    · split <;> nofun
  | hosted a retry host hc => exact (hq (hone nofun)).hosted hw hc
  | listed a retry r l hc hr hl =>
    by_cases hcur : w.c.current a = true
    · rw [if_pos hcur]
      cases current_attempt hcur
      have hlisted : Listed w := .answered hc hr hl
      refine (hq (hone nofun)).same rfl rfl (fun again hd => ?_) (fun _ => hlisted) id
      cases hc.symm.trans hd
    · rw [if_neg hcur]
      exact (hq (hone nofun)).pass hc nofun nofun nofun
  | unlisted a retry r l hc hr hl => exact (hq (hone nofun)).pass hc nofun nofun nofun
  | opened a retry hc =>
    unfold Page.opened
    split
    · next hcur =>
      cases current_attempt hcur
      refine (hq (hone nofun)).same rfl rfl (fun again hd => ?_) (fun _ => .listed hc) id
      cases hc.symm.trans hd
    · exact (hq (hone nofun)).pass hc nofun nofun nofun
  | failed a retry pc hc hp =>
    refine (hq (hone nofun)).pass hc ?_ nofun nofun
    rintro rfl
    simp only [reduceCtorEq, or_self] at hp
  | caught a retry hc =>
    cases retry with
    | true =>
      exact (hq (hone nofun)).disconnected.pass ((congrFun (disconnected_calls w) a).trans hc)
        nofun nofun nofun
    | false => exact (hq (hone nofun)).pass hc nofun nofun nofun
  | refresh =>
    rw [List.append_nil]
    exact h.refresh
  | answered r l list grants hr hl =>
    refine Listing.answered (hq ?_) hw hr hl
    split <;> simp [Event.silent]
  | refused r l hr hf hn =>
    exact (hq (hone nofun)).refused hr fun hcur hwant =>
      hrefused _ r l (List.mem_singleton_self _) hcur hr hwant
  | message s a m hs hg =>
    by_cases hl : w.listens s a
    · rw [if_pos hl] at hnotice ⊢
      rw [if_pos hl]
      refine h.message hw hl hs fun n hm l hwait => hnotice n l ?_ hwait
      exact List.mem_cons_of_mem _ (List.mem_singleton.2 (congrArg Event.processed hm).symm)
    · rw [if_neg hl] at hq
      rw [if_neg hl, if_neg hl]
      exact hq (hone nofun)
  | closed s a hs => exact (hq (hone nofun)).closed s
  | erred s a hs => exact hq (hone nofun)
  | grant =>
    exact (hq (hone nofun)).same rfl rfl (fun _ hd => hd)
      (fun hl => hl.same rfl rfl .inl rfl rfl fun _ _ hs => hs) id
  | produce r l list hr hl => exact h.produce hr

theorem Listing.run (hr : Run Timely .start es w) : Listing es w := by
  induction hr with
  | nil =>
    refine .over rfl fun hl => ?_
    cases hl with
    | connected hc => cases hc
    | answered hc => cases hc
    | listed hc => cases hc
    | opened ho =>
      obtain ⟨s, hs, -⟩ := ho
      cases hs
  | snoc hr hs ih => exact ih.step (.run (hr.imp Timely.step)) hs

end Client
end RemoteCodex
