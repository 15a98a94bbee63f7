import RemoteCodex.Client.Attempts

namespace RemoteCodex
set_option autoImplicit true
open Trace
namespace Client

def Progress.pending : Progress → Bool
  | .asked | .produced _ _ => true
  | .fulfilled | .rejected => false

/-- The list request that the controller waits for is the one pending request of its attempt. -/
structure Waits (w : Page) : Prop where
  waited : ∀ r, w.c.reload = some r →
    ∃ l, w.reloads r = some l ∧ l.epoch = w.c.reloadEpoch ∧ l.progress.pending = true
  alone : ∀ r l, w.reloads r = some l → l.epoch = w.c.reloadEpoch →
    l.progress.pending = true → w.c.reload = some r
  used : ∀ r l, w.reloads r = some l → r < w.nextReload ∧ l.epoch ≤ w.c.reloadEpoch

theorem Waits.same {w' : Page} (h : Waits w) (hr : w'.c.reload = w.c.reload)
    (he : w'.c.reloadEpoch = w.c.reloadEpoch) (hl : w'.reloads = w.reloads)
    (hn : w'.nextReload = w.nextReload) : Waits w' := by
  obtain ⟨hwaited, halone, hused⟩ := h
  constructor <;> simpa only [hr, he, hl, hn]

/-- A new attempt waits for nothing. -/
theorem Waits.next {w' : Page} (h : Waits w) (hr : w'.c.reload = none)
    (he : w'.c.reloadEpoch = w.c.reloadEpoch + 1) (hl : w'.reloads = w.reloads)
    (hn : w'.nextReload = w.nextReload) : Waits w' where
  waited := by
    intro r hw
    rw [hr] at hw
    cases hw
  alone := by
    intro r l hw hepoch
    rw [hl] at hw
    have := (h.used r l hw).2
    omega
  used := by
    intro r l hw
    rw [hl] at hw
    obtain ⟨hlt, hle⟩ := h.used r l hw
    omega

@[simp] theorem setReload_self (w : Page) (r : Nat) (l : Reload) :
    (w.setReload r l).reloads r = some l :=
  Function.update_self ..

theorem setReload_ne {s : Nat} (w : Page) (l : Reload) (hs : s ≠ r) :
    (w.setReload r l).reloads s = w.reloads s :=
  Function.update_of_ne hs ..

theorem setReload_cases {w : Page} {k : Reload} (h : (w.setReload r l).reloads s = some k) :
    (s = r ∧ k = l) ∨ (s ≠ r ∧ w.reloads s = some k) := by
  by_cases hs : s = r
  · subst hs
    rw [setReload_self] at h
    exact .inl ⟨rfl, (Option.some.inj h).symm⟩
  · rw [setReload_ne w l hs] at h
    exact .inr ⟨hs, h⟩

theorem setReload_epoch {w : Page} {l l' : Reload} (hl : w.reloads r = some l)
    (he : l'.epoch = l.epoch) (h : ∃ k, w.reloads s = some k ∧ k.epoch = a) :
    ∃ k, (w.setReload r l').reloads s = some k ∧ k.epoch = a := by
  obtain ⟨k, hk, hka⟩ := h
  by_cases hs : s = r
  · subst hs
    cases hl.symm.trans hk
    exact ⟨l', setReload_self .., he.trans hka⟩
  · exact ⟨k, (setReload_ne w l' hs).trans hk, hka⟩

theorem refreshSessions_some {w : Page} (hr : w.c.reload = some r) :
    w.refreshSessions = (w, r) := by
  unfold Page.refreshSessions
  split
  · next hp =>
    rw [hr] at hp
    cases hp
    rfl
  · next hp => rw [hr] at hp; cases hp

/-- `refreshSessions` returns the request that it waits for, or asks for a new one. -/
theorem refreshSessions_none {w : Page} (hr : w.c.reload = none) :
    w.refreshSessions =
      ({ w with
          c := { w.c with reload := some w.nextReload }
          nextReload := w.nextReload + 1
        }.setReload w.nextReload ⟨w.c.reloadEpoch, false, .asked⟩, w.nextReload) := by
  unfold Page.refreshSessions
  split
  · next hp => rw [hr] at hp; cases hp
  · rfl

theorem refreshSessions_calls (w : Page) : (w.refreshSessions).1.calls = w.calls := by
  unfold Page.refreshSessions
  split <;> rfl

theorem refreshSessions_sockets (w : Page) : (w.refreshSessions).1.sockets = w.sockets := by
  unfold Page.refreshSessions
  split <;> rfl

theorem refreshSessions_reloads (h : Waits w) (hl : w.reloads r = some l) :
    (w.refreshSessions).1.reloads r = some l := by
  cases hr : w.c.reload with
  | some p => rwa [refreshSessions_some hr]
  | none =>
    rw [refreshSessions_none hr]
    have hne : r ≠ w.nextReload := Nat.ne_of_lt (h.used r l hl).1
    exact (setReload_ne _ _ hne).trans hl

theorem Waits.refresh (h : Waits w) : Waits (w.refreshSessions).1 := by
  cases hr : w.c.reload with
  | some r => rwa [refreshSessions_some hr]
  | none =>
    rw [refreshSessions_none hr]
    constructor
    · rintro r ⟨⟩
      exact ⟨_, setReload_self .., rfl, rfl⟩
    · intro r l hl he hp
      rcases setReload_cases hl with ⟨rfl, -⟩ | ⟨-, hl⟩
      · rfl
      · cases hr.symm.trans (h.alone r l hl he hp)
    · intro r l hl
      rcases setReload_cases hl with ⟨rfl, rfl⟩ | ⟨-, hl⟩
      · exact ⟨Nat.lt_succ_self _, Nat.le_refl _⟩
      · obtain ⟨hlt, hle⟩ := h.used r l hl
        exact ⟨Nat.lt_succ_of_lt hlt, hle⟩

/-- A pending request stays pending. -/
theorem Waits.mark {l l' : Reload} (h : Waits w) (hl : w.reloads r = some l)
    (he : l'.epoch = l.epoch) (hp : l'.progress.pending = l.progress.pending) :
    Waits (w.setReload r l') where
  waited := by
    intro s hs
    obtain ⟨k, hk, hke, hkp⟩ := h.waited s hs
    by_cases hsr : s = r
    · subst hsr
      cases hl.symm.trans hk
      exact ⟨l', setReload_self .., he.trans hke, hp.trans hkp⟩
    · exact ⟨k, (setReload_ne w l' hsr).trans hk, hke, hkp⟩
  alone := by
    intro s k hk hke hkp
    rcases setReload_cases hk with ⟨rfl, rfl⟩ | ⟨-, hk⟩
    · exact h.alone s l hl (he.symm.trans hke) (hp.symm.trans hkp)
    · exact h.alone s k hk hke hkp
  used := by
    intro s k hk
    rcases setReload_cases hk with ⟨rfl, rfl⟩ | ⟨-, hk⟩
    · rw [he]
      exact h.used s l hl
    · exact h.used s k hk

/-- A request that is over is no longer waited for. -/
theorem Waits.finish {c : Controller} {p : Progress} (h : Waits w) (hl : w.reloads r = some l)
    (he : c.reloadEpoch = w.c.reloadEpoch)
    (hr : c.reload = if w.c.reload = some r then none else w.c.reload)
    (hp : p.pending = false) :
    Waits ({ w with c }.setReload r { l with progress := p }) where
  waited := by
    intro s hs
    have hs' : c.reload = some s := hs
    rw [hr] at hs'
    split at hs'
    · cases hs'
    · next hne =>
      obtain ⟨k, hk, hke, hkp⟩ := h.waited s hs'
      have hsr : s ≠ r := fun he => hne (he ▸ hs')
      exact ⟨k, (setReload_ne _ _ hsr).trans hk, hke.trans he.symm, hkp⟩
  alone := by
    intro s k hk hke hkp
    rcases setReload_cases hk with ⟨rfl, rfl⟩ | ⟨hsr, hk⟩
    · cases hp.symm.trans hkp
    · have hw := h.alone s k hk (hke.trans he) hkp
      refine hr.trans ((if_neg fun hc => hsr ?_).trans hw)
      exact Option.some.inj (hw.symm.trans hc)
  used := by
    intro s k hk
    rcases setReload_cases hk with ⟨rfl, rfl⟩ | ⟨-, hk⟩
    · exact he ▸ h.used s l hl
    · exact he ▸ h.used s k hk

theorem disconnected_calls (w : Page) : w.disconnected.calls = w.calls := by
  unfold Page.disconnected
  split <;> rfl

theorem Page.listens.running {w : Page} (h : w.listens s a) : w.c.stopped = false := by
  have hcur := h.2
  simp only [Controller.current, Bool.and_eq_true, Bool.not_eq_true'] at hcur
  exact hcur.1

theorem setCall_ne {b : Nat} (w : Page) (hb : b ≠ a) :
    (w.setCall a retry pc).calls b = w.calls b :=
  Function.update_of_ne hb ..

/-- How calls, sockets and list requests hang together. -/
structure Wired (w : Page) : Prop where
  epoch : w.c.reloadEpoch = w.c.attempt
  made : ∀ a call, w.calls a = some call → a ≤ w.c.attempt
  opened : ∀ s a, w.sockets s = some a → ∃ retry, w.calls a = some ⟨retry, .done⟩
  stopped : w.c.stopped = true → w.c.connected = false ∧ w.calls w.c.attempt = none
  listing : ∀ a retry r, w.calls a = some ⟨retry, .sessions r⟩ →
    ∃ l, w.reloads r = some l ∧ l.epoch = a
  waits : Waits w

/-- A step that changes nothing of this, or closes a socket. -/
theorem Wired.same {w' : Page} (h : Wired w) (ha : w'.c.attempt = w.c.attempt)
    (he : w'.c.reloadEpoch = w.c.reloadEpoch) (hr : w'.c.reload = w.c.reload)
    (hs : w'.c.stopped = w.c.stopped)
    (hc : w.c.stopped = true → w'.c.connected = true → w.c.connected = true)
    (hcalls : w'.calls = w.calls) (hreloads : w'.reloads = w.reloads)
    (hnext : w'.nextReload = w.nextReload)
    (hsockets : ∀ s a, w'.sockets s = some a → w.sockets s = some a) : Wired w' where
  epoch := by rw [he, ha, h.epoch]
  made := by simpa only [hcalls, ha] using h.made
  opened := by
    intro s a hsa
    rw [hcalls]
    exact h.opened s a (hsockets s a hsa)
  stopped := by
    intro hst
    rw [hs] at hst
    obtain ⟨hno, hcall⟩ := h.stopped hst
    rw [hcalls, ha]
    refine ⟨Bool.eq_false_iff.2 fun hyes => ?_, hcall⟩
    cases hno.symm.trans (hc hst hyes)
  listing := by simpa only [hcalls, hreloads] using h.listing
  waits := h.waits.same hr he hreloads hnext

/-- A call that is not over moves on. -/
theorem Wired.pass {retry' : Bool} (h : Wired w) (hc : w.calls a = some ⟨retry, pc⟩)
    (hp : pc ≠ .done) (hl : ∀ r, pc' = .sessions r → ∃ l, w.reloads r = some l ∧ l.epoch = a) :
    Wired (w.setCall a retry' pc') where
  epoch := h.epoch
  made := by
    intro b call hb
    by_cases hba : b = a
    · exact hba ▸ h.made a _ hc
    · exact h.made b call ((Function.update_of_ne hba ..).symm.trans hb)
  opened := by
    intro s b hsb
    obtain ⟨again, hb⟩ := h.opened s b hsb
    have hba : b ≠ a := by
      rintro rfl
      cases hc.symm.trans hb
      exact hp rfl
    exact ⟨again, (Function.update_of_ne hba ..).trans hb⟩
  stopped := by
    intro hst
    obtain ⟨hno, hcall⟩ := h.stopped hst
    have hne : w.c.attempt ≠ a := by
      rintro he
      rw [he, hc] at hcall
      cases hcall
    exact ⟨hno, (Function.update_of_ne hne ..).trans hcall⟩
  listing := by
    intro b again r hb
    by_cases hba : b = a
    · subst hba
      cases (Function.update_self ..).symm.trans hb
      exact hl r rfl
    · exact h.listing b again r ((Function.update_of_ne hba ..).symm.trans hb)
  waits := h.waits.same rfl rfl rfl rfl

theorem Wired.connect (h : Wired w) (retry : Bool) : Wired (w.connect retry) where
  epoch := congrArg (· + 1) h.epoch
  made := by
    intro b call hb
    by_cases hba : b = w.c.attempt + 1
    · exact Nat.le_of_eq hba
    · exact Nat.le_succ_of_le (h.made b call ((Function.update_of_ne hba ..).symm.trans hb))
  opened := by
    intro s b hsb
    obtain ⟨again, hb⟩ := h.opened s b hsb
    have hba : b ≠ w.c.attempt + 1 := Nat.ne_of_lt (Nat.lt_succ_of_le (h.made b _ hb))
    exact ⟨again, (Function.update_of_ne hba ..).trans hb⟩
  stopped := by
    intro hst
    cases hst
  listing := by
    intro b again r hb
    by_cases hba : b = w.c.attempt + 1
    · subst hba
      cases (Function.update_self ..).symm.trans hb
    · exact h.listing b again r ((Function.update_of_ne hba ..).symm.trans hb)
  waits := h.waits.next rfl rfl rfl rfl

theorem Wired.stop (h : Wired w) : Wired w.stop where
  epoch := congrArg (· + 1) h.epoch
  made := fun b call hb => Nat.le_succ_of_le (h.made b call hb)
  opened := h.opened
  stopped := by
    intro _
    refine ⟨rfl, Option.eq_none_iff_forall_ne_some.2 fun call hcall => ?_⟩
    exact Nat.not_succ_le_self _ (h.made _ call hcall)
  listing := h.listing
  waits := h.waits.next rfl rfl rfl rfl

theorem Wired.refresh (h : Wired w) : Wired (w.refreshSessions).1 where
  epoch := by
    rw [refreshSessions_c]
    exact h.epoch
  made := by
    rw [refreshSessions_c, refreshSessions_calls]
    exact h.made
  opened := by
    rw [refreshSessions_calls, refreshSessions_sockets]
    exact h.opened
  stopped := by
    rw [refreshSessions_c, refreshSessions_calls]
    exact h.stopped
  listing := by
    intro a retry r hc
    rw [refreshSessions_calls] at hc
    obtain ⟨l, hl, he⟩ := h.listing a retry r hc
    exact ⟨l, refreshSessions_reloads h.waits hl, he⟩
  waits := h.waits.refresh

theorem Wired.mark {l l' : Reload} (h : Wired w) (hl : w.reloads r = some l)
    (he : l'.epoch = l.epoch) (hp : l'.progress.pending = l.progress.pending) :
    Wired (w.setReload r l') where
  epoch := h.epoch
  made := h.made
  opened := h.opened
  stopped := h.stopped
  listing := fun a retry s hc => setReload_epoch hl he (h.listing a retry s hc)
  waits := h.waits.mark hl he hp

theorem Wired.finish {c : Controller} {p : Progress} (h : Wired w) (hl : w.reloads r = some l)
    (ha : c.attempt = w.c.attempt) (he : c.reloadEpoch = w.c.reloadEpoch)
    (hs : c.stopped = w.c.stopped) (hc : c.connected = w.c.connected)
    (hr : c.reload = if w.c.reload = some r then none else w.c.reload)
    (hp : p.pending = false) :
    Wired ({ w with c }.setReload r { l with progress := p }) where
  epoch := he.trans (h.epoch.trans ha.symm)
  made := fun a call hca => ha.symm ▸ h.made a call hca
  opened := h.opened
  stopped := fun hst =>
    have ⟨hno, hcall⟩ := h.stopped (hs.symm.trans hst)
    ⟨hc.trans hno, (congrArg w.calls ha).trans hcall⟩
  listing := fun a retry s hca => setReload_epoch (w := w) hl rfl (h.listing a retry s hca)
  waits := h.waits.finish hl he hr hp

/-- The call opens its socket and returns. -/
theorem Wired.open {c : Controller} (h : Wired w) (hca : w.calls a = some ⟨retry, .websocket⟩)
    (hc : c = { w.c with socket := some n }) :
    Wired ({ w with
      c
      sockets := Function.update w.sockets w.nextSocket (some a)
      nextSocket := w.nextSocket + 1 }.setCall a retry .done) := by
  subst hc
  obtain ⟨hepoch, hmade, hopened, hstopped, hlisting, hwaits⟩ :=
    show Wired (w.setCall a retry .done) from h.pass hca nofun nofun
  refine ⟨hepoch, hmade, ?_, hstopped, hlisting, hwaits.same rfl rfl rfl rfl⟩
  intro s b hsb
  by_cases hs : s = w.nextSocket
  · subst hs
    cases (Function.update_self ..).symm.trans hsb
    exact ⟨retry, Function.update_self ..⟩
  · exact hopened s b ((Function.update_of_ne hs ..).symm.trans hsb)

theorem Wired.disconnected (h : Wired w) : Wired w.disconnected := by
  unfold Page.disconnected
  split
  · exact h.same rfl rfl rfl rfl nofun rfl rfl rfl fun _ _ hs => hs
  · exact h.same rfl rfl rfl rfl nofun rfl rfl rfl fun _ _ hs => hs

theorem Wired.closed (h : Wired w) (s : Nat) : Wired (w.closed s) := by
  have hdrop : Wired (w.dropSocket s) := by
    refine h.same rfl rfl rfl rfl (fun _ hc => hc) rfl rfl rfl fun s' a hs => ?_
    by_cases he : s' = s
    · subst he
      cases (Function.update_self ..).symm.trans hs
    · exact (Function.update_of_ne he ..).symm.trans hs
  unfold Page.closed
  split
  · exact hdrop.disconnected
  · exact hdrop

theorem Wired.want (h : Wired w) (r : Nat) : Wired (w.want r) := by
  unfold Page.want
  split
  · exact h
  · next hl => exact h.mark hl rfl rfl

theorem Wired.hosted (h : Wired w) (hca : w.calls a = some ⟨retry, .host⟩) (host : HostInfo) :
    Wired (w.hosted a retry host) := by
  unfold Page.hosted
  split
  · next hcur =>
    have hhost : Wired { w with c := { w.c with host := some host } } :=
      h.same rfl rfl rfl rfl (fun _ hc => hc) rfl rfl rfl fun _ _ hs => hs
    have hw := hhost.refresh
    refine hw.pass ((congrFun (refreshSessions_calls _) a).trans hca) (by decide) ?_
    rintro r ⟨⟩
    obtain ⟨l, hl, he, -⟩ := hw.waits.waited _ (by rw [refreshSessions_c])
    refine ⟨l, hl, ?_⟩
    simp only [Controller.current, Bool.and_eq_true, beq_iff_eq] at hcur
    rw [he, hw.epoch, refreshSessions_c]
    exact hcur.2.symm
  · exact h.pass hca (by decide) fun r hr => by cases hr

theorem Wired.onMessage (h : Wired w) (hs : w.c.stopped = false) (m : Message) :
    Wired (w.onMessage m) := by
  cases m with
  | notice n => exact h.refresh.want _
  | hello protocol agentEpoch connectionId =>
    simp only [Page.onMessage, Controller.onMessage]
    split
    · exact h
    · exact h.same rfl rfl rfl rfl (fun ht => by rw [hs] at ht; cases ht) rfl rfl rfl
        fun _ _ hs => hs
  | invalid | other => exact h
  | lease g id lease =>
    exact h.same rfl rfl rfl rfl (fun _ hc => hc) rfl rfl rfl fun _ _ hs => hs

theorem Wired.step (h : Wired w) (hs : Step w fs w') : Wired w' := by
  cases hs with
  | connect => exact h.connect false
  | retry t ht =>
    refine Wired.connect ?_ true
    exact h.same rfl rfl rfl rfl (fun _ hc => hc) rfl rfl rfl fun _ _ hs => hs
  | stop => exact h.stop
  | authenticated a retry hc => exact h.pass hc nofun fun r hr => by split at hr <;> cases hr
  | hosted a retry host hc => exact h.hosted hc host
  | listed a retry r l hc hr hl => exact h.pass hc nofun fun r hr => by split at hr <;> cases hr
  | unlisted a retry r l hc hr hl => exact h.pass hc nofun nofun
  | opened a retry hc =>
    unfold Page.opened
    split
    · exact h.open hc rfl
    · exact h.pass hc nofun nofun
  | failed a retry pc hc hp =>
    refine h.pass hc ?_ nofun
    rintro rfl
    simp only [reduceCtorEq, or_self] at hp
  | caught a retry hc =>
    cases retry with
    | true => exact h.disconnected.pass ((congrFun (disconnected_calls w) a).trans hc) nofun nofun
    | false => exact h.pass hc nofun nofun
  | refresh => exact h.refresh
  | answered r l list grants hr hl => exact h.finish hr rfl rfl rfl rfl rfl rfl
  | refused r l hr hf hn => exact h.finish hr rfl rfl rfl rfl rfl rfl
  | message s a m hs hg =>
    split
    · next hl => exact h.onMessage hl.running m
    · exact h
  | closed s a hs => exact h.closed s
  | erred s a hs => exact h
  | grant => exact h.same rfl rfl rfl rfl (fun _ hc => hc) rfl rfl rfl fun _ _ hs => hs
  | produce r l list hr hl => exact h.mark hr rfl (by rw [hl]; rfl)

theorem Wired.run (hr : Run Step .start es w) : Wired w := by
  refine hr.preserves ⟨rfl, nofun, nofun, nofun, nofun, nofun, nofun, nofun⟩ fun h hs => h.step hs

end Client
end RemoteCodex

