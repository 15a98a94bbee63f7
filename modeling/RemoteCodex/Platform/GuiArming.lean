import RemoteCodex.Lib.History
import RemoteCodex.Lib.Ticks
import RemoteCodex.Lib.Trace
import RemoteCodex.Platform.GuiSession

namespace RemoteCodex
set_option autoImplicit true
open Trace History
namespace GuiSession

/-- The events that advance the revision. -/
def Event.advances : Event → Bool
  | .swapped .. | .revoked => true
  | _ => false

/-- How often the revision was advanced. -/
abbrev revisions (es : List Event) : Nat := Ticks.time Event.advances es

/-- The 64-bit revision does not wrap. -/
def NoWrap (es : List Event) : Prop := revisions es < 2 ^ 64

instance (es : List Event) : Decidable (NoWrap es) := inferInstanceAs (Decidable (_ < _))

def Event.answers : Event → Bool
  | .answered .. => true
  | _ => false

/-- The call has swapped the epoch in, and the worker has answered no arm since. -/
def Swapped (es : List Event) (c : Nat) (epoch : UInt64) : Prop :=
  Since (fun e => e.answers = false) (fun _ e => e = .swapped c epoch) es

/-- Some call of `arm` has returned the epoch. -/
def Returned (es : List Event) (epoch : UInt64) : Prop := ∃ c, .returned c epoch ∈ es

/-- What the history before an event says. -/
def Sound (before : List Event) : Event → Prop
  | .loaded c expected => revisions before = expected.toNat ∧ ∀ x, .loaded c x ∉ before
  | .swapped c epoch => revisions before + 1 = epoch.toNat ∧
      ∃ expected, .loaded c expected ∈ before ∧ expected.toNat + 1 = epoch.toNat
  | .answered c epoch => Swapped before c epoch
  | .returned c epoch => .answered c epoch ∈ before
  | .revoked => True
  | .accepted epoch => revisions before = epoch.toNat ∧ Returned before epoch

def Command.Known (es : List Event) : Command → Prop
  | .arm c expected => .loaded c expected ∈ es
  | .action epoch _ => Returned es epoch
  | _ => True

def Call.Known (es : List Event) (c : Nat) : Option Call → Prop
  | none | some .loading => ∀ x, .loaded c x ∉ es
  | some (.armedLoad epoch _) | some (.revisionLoad epoch _) => Returned es epoch
  | some (.lowering cmd) | some (.advancing cmd) | some (.posting cmd) | some (.sending cmd)
  | some (.waking cmd) => cmd.Known es
  | some (.returned epoch) => .returned c epoch ∈ es
  | _ => True

def Pc.Known (es : List Event) : Pc → Prop
  | .armLoad c expected _ | .armSwap c expected _ => .loaded c expected ∈ es
  | .armStore c epoch _ | .armReload c epoch _ | .armReply c (some epoch) _ => Swapped es c epoch
  | .actionArmed epoch _ | .actionRevision epoch _ | .applying epoch _ _ | .checkArmed epoch _
  | .checkRevision epoch _ | .checkClosed epoch _ => Returned es epoch
  | _ => True

/-- The state agrees with the history. -/
structure Recorded (es : List Event) (w : World) : Prop where
  revision : revisions es = w.safety.revision.toNat
  events : Each Sound es
  queue : ∀ cmd ∈ w.queue, cmd.Known es
  calls : ∀ c, Call.Known es c (w.calls c)
  replies : ∀ c epoch, w.replies c = some (some epoch) → .answered c epoch ∈ es
  worker : w.worker.Known es

theorem Returned.append (h : Returned es epoch) : Returned (es ++ fs) epoch := by
  obtain ⟨c, hc⟩ := h
  exact ⟨c, List.mem_append_left _ hc⟩

theorem Command.Known.append {cmd : Command} (h : cmd.Known es) : cmd.Known (es ++ fs) := by
  cases cmd with
  | arm c expected => exact List.mem_append_left _ h
  | action epoch action => exact Returned.append h
  | frame | disarm | stop => trivial

theorem Call.Known.append {k : Option Call} (h : Call.Known es c k)
    (hq : ∀ x, .loaded c x ∉ fs) : Call.Known (es ++ fs) c k := by
  cases k with
  | none => exact fun x hx => (List.mem_append.1 hx).elim (h x) (hq x)
  | some k =>
    cases k with
    | loading => exact fun x hx => (List.mem_append.1 hx).elim (h x) (hq x)
    | armedLoad epoch action | revisionLoad epoch action => exact Returned.append h
    | lowering cmd | advancing cmd | posting cmd | sending cmd | waking cmd =>
      exact Command.Known.append h
    | returned epoch => exact List.mem_append_left _ h
    | unwoken | unwokenLowered | waiting | done => trivial

theorem Pc.Known.append {pc : Pc} (h : pc.Known es) (hq : ∀ e ∈ fs, e.answers = false) :
    pc.Known (es ++ fs) := by
  cases pc with
  | armLoad c expected left | armSwap c expected left => exact List.mem_append_left _ h
  | armStore c epoch left | armReload c epoch left => exact Since.append h hq
  | armReply c result left =>
    cases result with
    | none => trivial
    | some epoch => exact Since.append h hq
  | actionArmed epoch left | actionRevision epoch left | applying epoch checked left
  | checkArmed epoch left | checkRevision epoch left | checkClosed epoch left =>
    exact Returned.append h
  | getMessage | armedLoad | timerLoad | recv | armClear | stopping | lowering | advancing
  | closedLoad | closing | done => trivial

theorem next_toNat {r : UInt64} (h : r.toNat + 1 < 2 ^ 64) : (r + 1).toNat = r.toNat + 1 := by
  rw [UInt64.toNat_add]
  exact Nat.mod_eq_of_lt h

namespace Recorded

theorem setCall (h : Recorded es w) (hk : Call.Known es c (some k)) :
    Recorded es (w.setCall c k) where
  revision := h.revision
  events := h.events
  queue := h.queue
  calls := by
    intro d
    rw [show (w.setCall c k).calls d = if d = c then some k else w.calls d from
      Function.update_apply ..]
    split
    · next hd =>
      rw [hd]
      exact hk
    · exact h.calls d
  replies := h.replies
  worker := h.worker

theorem goto (h : Recorded es w) (hp : pc.Known es) : Recorded es (w.goto pc) :=
  { h with worker := hp }

theorem lower (h : Recorded es w) : Recorded es w.lower := { h with revision := h.revision }

theorem close (h : Recorded es w) : Recorded es w.close := { h with revision := h.revision }

theorem hooks (h : Recorded es w) (n : Nat) : Recorded es { w with hooks := n } :=
  { h with revision := h.revision }

/-- An event that is neither an answer nor the first load of a call. -/
theorem append (h : Recorded es w) (he : Sound es e) (ha : e.answers = false)
    (hq : ∀ c x, e ≠ .loaded c x)
    (hr : revisions (es ++ [e]) = w'.safety.revision.toNat)
    (hw : w' = { w with safety := w'.safety }) :
    Recorded (es ++ [e]) w' where
  revision := hr
  events := h.events.snoc he
  queue := by
    rw [hw]
    exact fun cmd hc => (h.queue cmd hc).append
  calls := by
    rw [hw]
    exact fun c => (h.calls c).append fun x hx => hq c x (List.mem_singleton.1 hx).symm
  replies := by
    rw [hw]
    exact fun c epoch hc => List.mem_append_left _ (h.replies c epoch hc)
  worker := by
    rw [hw]
    refine h.worker.append fun x hx => ?_
    rw [List.mem_singleton.1 hx]
    exact ha

/-- The second half of a revocation. -/
theorem advance (h : Recorded es w) (hw : NoWrap (es ++ [.revoked])) :
    Recorded (es ++ [.revoked]) w.advance := by
  have ht : revisions (es ++ [.revoked]) = revisions es + 1 := Ticks.time_snoc es rfl
  rw [NoWrap, ht, h.revision] at hw
  apply h.append (e := .revoked) trivial rfl (fun c x => Event.noConfusion) _ rfl
  rw [ht, h.revision]
  exact (next_toNat hw).symm

/-- A call of `arm` reads the revision. -/
theorem loaded (h : Recorded es w) (hc : w.calls c = some .loading) :
    Recorded (es ++ [.loaded c w.safety.revision])
      (w.setCall c (.posting (.arm c w.safety.revision))) where
  revision := by
    rw [revisions, Ticks.time_still es rfl]
    exact h.revision
  events := by
    apply h.events.snoc
    have hcall := h.calls c
    rw [hc] at hcall
    exact ⟨h.revision, hcall⟩
  queue := fun cmd hcmd => (h.queue cmd hcmd).append
  calls := by
    intro d
    rw [show (w.setCall c (.posting (.arm c w.safety.revision))).calls d =
      if d = c then some (.posting (.arm c w.safety.revision)) else w.calls d from
      Function.update_apply ..]
    split
    · exact List.mem_append_right _ (List.mem_singleton_self _)
    · next hd =>
      apply (h.calls d).append
      intro x hx
      cases List.mem_singleton.1 hx
      exact hd rfl
  replies := fun d epoch hd => List.mem_append_left _ (h.replies d epoch hd)
  worker := by
    apply h.worker.append
    intro x hx
    rw [List.mem_singleton.1 hx]
    rfl

theorem sent (h : Recorded es w) (hk : cmd.Known es) :
    Recorded es { w with queue := w.queue ++ [cmd] } :=
  { h with
    queue := by
      intro x hx
      rcases List.mem_append.1 hx with hx | hx
      · exact h.queue x hx
      · rw [List.mem_singleton.1 hx]
        exact hk }

theorem handle (h : Recorded es w) (hq : w.queue = cmd :: rest) (left : Nat) :
    Recorded es ({ w with queue := rest }.handle left cmd) := by
  have hk : cmd.Known es := h.queue cmd (by rw [hq]; exact List.mem_cons_self ..)
  have hrest : Recorded es { w with queue := rest } :=
    { h with queue := fun x hx => h.queue x (by rw [hq]; exact List.mem_cons_of_mem _ hx) }
  cases cmd with
  | frame | disarm | stop => exact hrest.goto trivial
  | arm call expected => exact hrest.goto hk
  | action epoch action => exact hrest.goto hk

/-- The swap takes effect only while the revision is the one that the call has read. -/
theorem swap (h : Recorded es w) (hp : w.worker = .armSwap c expected left)
    (hw : NoWrap (es ++ (w.swap c expected left).2)) :
    Recorded (es ++ (w.swap c expected left).2) (w.swap c expected left).1 := by
  have hloaded : Event.loaded c expected ∈ es := by
    have hk := h.worker
    rw [hp] at hk
    exact hk
  unfold World.swap at hw ⊢
  split
  · rw [List.append_nil]
    exact h.goto trivial
  · next hmax =>
    rw [if_neg hmax] at hw
    split
    · next hrev =>
      rw [if_pos hrev] at hw
      have ht : revisions (es ++ [.swapped c (expected + 1)]) = revisions es + 1 :=
        Ticks.time_snoc es rfl
      rw [NoWrap, ht, h.revision, hrev] at hw
      have hnext : (expected + 1).toNat = expected.toNat + 1 := next_toNat hw
      have hsound : Sound es (.swapped c (expected + 1)) := by
        refine ⟨?_, expected, hloaded, hnext.symm⟩
        rw [h.revision, hrev, hnext]
      have happ : Recorded (es ++ [.swapped c (expected + 1)])
          { w with safety := { w.safety with revision := expected + 1 } } := by
        apply h.append hsound rfl (fun d x => Event.noConfusion) _ rfl
        rw [ht, h.revision, hrev, hnext]
      exact happ.goto (Since.now rfl)
    · rw [List.append_nil]
      exact h.goto trivial

theorem reply (h : Recorded es w) (hp : w.worker = .armReply c result left) :
    Recorded (es ++ (w.reply c result left).2) (w.reply c result left).1 := by
  have hk := h.worker
  rw [hp] at hk
  unfold World.reply
  split
  · cases result with
    | none =>
      rw [show (Option.map (Event.answered c) none).toList = [] from rfl, List.append_nil]
      refine { h with replies := ?_, worker := trivial }
      intro d epoch hd
      have hd := (Function.update_apply w.replies c (some none) d).symm.trans hd
      split at hd
      · cases hd
      · exact h.replies d epoch hd
    | some epoch =>
      constructor
      · rw [revisions, show (Option.map (Event.answered c) (some epoch)).toList =
          [.answered c epoch] from rfl, Ticks.time_still es rfl]
        exact h.revision
      · exact h.events.snoc hk
      · exact fun cmd hcmd => (h.queue cmd hcmd).append
      · intro d
        apply (h.calls d).append
        intro x hx
        cases List.mem_singleton.1 hx
      · intro d other hd
        have hd := (Function.update_apply w.replies c (some (some epoch)) d).symm.trans hd
        split at hd
        · next hdc =>
          cases hd
          rw [hdc]
          exact List.mem_append_right _ (List.mem_singleton_self _)
        · exact List.mem_append_left _ (h.replies d other hd)
      · trivial
  · rw [List.append_nil]
    exact h.goto trivial

/-- The checks of an action pass at its revision. -/
theorem accepted (h : Recorded es w) (hret : Returned es epoch) (hr : w.safety.revision = epoch) :
    Recorded (es ++ [.accepted epoch]) w := by
  have hrev : revisions (es ++ [.accepted epoch]) = w.safety.revision.toNat := by
    rw [revisions, Ticks.time_still es rfl]
    exact h.revision
  refine h.append ⟨?_, hret⟩ rfl (fun d x => Event.noConfusion) hrev rfl
  rw [h.revision, hr]

/-- A step of a call that emits nothing. -/
theorem quietCall (h : Recorded es w) (hk : Call.Known es c (some k)) :
    Recorded (es ++ []) (w.setCall c k) := by
  rw [List.append_nil]
  exact h.setCall hk

/-- A step of the worker that emits nothing. -/
theorem quietGoto (h : Recorded es w) (hp : pc.Known es) : Recorded (es ++ []) (w.goto pc) := by
  rw [List.append_nil]
  exact h.goto hp

theorem step (h : Recorded es w) (hs : Step w fs w') (hw : NoWrap (es ++ fs)) :
    Recorded (es ++ fs) w' := by
  have hcall {c : Nat} {k : Call} (hc : w.calls c = some k) : Call.Known es c (some k) := by
    rw [← hc]
    exact h.calls c
  have hpc {pc : Pc} (hp : w.worker = pc) : pc.Known es := by
    rw [← hp]
    exact h.worker
  cases hs with
  | frame c hc => exact h.quietCall trivial
  | arm c hc =>
    apply h.quietCall
    have hk := h.calls c
    rw [hc] at hk
    exact hk
  | loaded c hc => exact h.loaded hc
  | action c d epoch action hc hd =>
    have hret : Event.returned d epoch ∈ es := hcall hd
    exact h.quietCall ⟨d, hret⟩
  | armedLoad c epoch action hc =>
    apply h.quietCall
    split
    · have hk := hcall hc
      exact hk
    · trivial
  | revisionLoad c epoch action hc =>
    apply h.quietCall
    split
    · have hk := hcall hc
      exact hk
    · trivial
  | disarm c hc | drop c hc => exact h.quietCall trivial
  | lowered c cmd hc =>
    have hk : cmd.Known es := hcall hc
    exact h.lower.quietCall hk
  | advanced c cmd hc =>
    apply (h.advance hw).setCall
    have hk : cmd.Known (es ++ [.revoked]) := Command.Known.append (hcall hc)
    cases cmd <;> exact hk
  | posting c cmd hc =>
    apply h.quietCall
    split
    · trivial
    · have hk := hcall hc
      exact hk
  | sent c cmd hc hq hcon =>
    have hk : cmd.Known es := hcall hc
    exact (h.sent hk).quietCall hk
  | unsent c cmd hc hq => exact h.quietCall trivial
  | woken c cmd hc => cases cmd <;> exact h.quietCall trivial
  | unwoken c cmd hc => cases cmd <;> exact h.quietCall trivial
  | unwokenLowered c hc => exact h.lower.quietCall trivial
  | unwokenAdvanced c hc => exact (h.advance hw).setCall trivial
  | returned c epoch hc hr =>
    have hans := h.replies c epoch hr
    have hrev : revisions (es ++ [.returned c epoch]) = w.safety.revision.toNat := by
      rw [revisions, Ticks.time_still es rfl]
      exact h.revision
    have happ : Recorded (es ++ [.returned c epoch]) w :=
      h.append hans rfl (fun d x => Event.noConfusion) hrev rfl
    exact happ.setCall (List.mem_append_right _ (List.mem_singleton_self _))
  | refused c hc hr | timedOut c hc => exact h.quietCall trivial
  | hook =>
    rw [List.append_nil]
    exact h.lower.hooks _
  | hooked hh => exact (h.advance hw).hooks _
  | message timer wake hp | quit hp | desktopGone hp | closedLoad hp =>
    first
    | exact h.quietGoto trivial
    | (apply h.quietGoto; split <;> trivial)
  | disarmed timer wake hp =>
    apply h.quietGoto
    split
    · trivial
    · split <;> trivial
  | timerLoad live hp =>
    apply h.quietGoto
    split <;> trivial
  | recv left cmd rest hp hq =>
    rw [List.append_nil]
    exact h.handle hq left
  | empty left hp hq | armUnable call expected left hp | failed epoch checked left hp
  | applied epoch left hp => exact h.quietGoto trivial
  | disconnected left hp hq | stopping hp | closing hp => exact h.close.quietGoto trivial
  | armLoad call expected left hp =>
    apply h.quietGoto
    split
    · have hk := hpc hp
      exact hk
    · trivial
  | armSwap call expected left hp => exact h.swap hp hw
  | armStore call next left hp =>
    have hset : Recorded es { w with safety := { w.safety with armed := true } } :=
      { h with revision := h.revision }
    have hk : Swapped es call next := hpc hp
    exact hset.quietGoto hk
  | armReload call next left hp =>
    apply h.quietGoto
    split
    · have hk := hpc hp
      exact hk
    · trivial
  | armClear call left hp => exact h.lower.quietGoto trivial
  | armReply call result left hp => exact h.reply hp
  | actionArmed epoch left hp =>
    apply h.quietGoto
    split
    · have hk := hpc hp
      exact hk
    · trivial
  | actionStale epoch left hp hr | checkStale epoch left hp hr => exact h.quietGoto trivial
  | actionAccepted epoch left hp hr | checkAccepted epoch left hp hr =>
    have hk : Returned es epoch := hpc hp
    exact (h.accepted hk hr).goto hk.append
  | check epoch checked left hp =>
    have hk : Returned es epoch := hpc hp
    exact h.quietGoto hk
  | checkArmed epoch left hp =>
    apply h.quietGoto
    split
    · have hk := hpc hp
      exact hk
    · trivial
  | checkClosed epoch left hp =>
    apply h.quietGoto
    split
    · trivial
    · have hk := hpc hp
      exact hk
  | lowering next hp => exact h.lower.quietGoto trivial
  | advancing next hp =>
    apply (h.advance hw).goto
    cases next <;> trivial

end Recorded

theorem Recorded.run (hr : Run Step .start es w) (hn : NoWrap es) : Recorded es w := by
  have hrec : NoWrap es → Recorded es w := by
    apply hr.invariant (I := fun es w => NoWrap es → Recorded es w)
    · intro _
      refine ⟨rfl, .nil _, fun cmd hc => (List.not_mem_nil hc).elim, ?_, ?_, trivial⟩
      · exact fun c x hx => List.not_mem_nil hx
      · intro c epoch hc
        cases hc
    · intro es t fs u h hs hn
      exact (h (Nat.lt_of_le_of_lt (Ticks.time_le es fs) hn)).step hs hn
  exact hrec hn

theorem Swapped.mem (h : Swapped es c epoch) : .swapped c epoch ∈ es := by
  obtain ⟨before, e, after, rfl, rfl, -⟩ := h
  exact List.mem_append_right _ (List.mem_cons_self ..)

/-- The revision has reached an epoch that was swapped in. -/
theorem swapped_le (h : Each Sound es) (hm : .swapped c epoch ∈ es) :
    epoch.toNat ≤ revisions es := by
  obtain ⟨before, after, rfl, hs, -⟩ := h.mem hm
  rw [revisions, Ticks.time_tick before after rfl, ← hs]
  exact Nat.le_add_right ..

theorem answered_swapped (h : Each Sound es) (hm : .answered c epoch ∈ es) :
    .swapped c epoch ∈ es := by
  obtain ⟨before, after, rfl, hs⟩ := h.mem hm
  exact List.mem_append_left _ hs.mem

theorem returned_swapped (h : Each Sound es) (hm : .returned c epoch ∈ es) :
    .swapped c epoch ∈ es := by
  obtain ⟨before, after, rfl, hs⟩ := h.mem hm
  exact List.mem_append_left _ (answered_swapped h.left hs)

/-- An epoch is one more than the revision that its call has read. -/
theorem returned_loaded (h : Each Sound es) (hm : .returned c epoch ∈ es) :
    ∃ x, .loaded c x ∈ es ∧ x.toNat + 1 = epoch.toNat := by
  obtain ⟨before, after, rfl, -, x, hx, he⟩ := h.mem (returned_swapped h hm)
  exact ⟨x, List.mem_append_left _ hx, he⟩

variable {es before since after : List Event} {c c' : Nat} {x y epoch epoch' : UInt64}

/-- A call reads the revision once. -/
theorem loaded_unique (h : Each Sound es) (he : es = before ++ .loaded c x :: after)
    (hm : .loaded c y ∈ es) : y = x := by
  obtain ⟨-, honce⟩ := h before _ after he
  rw [he] at hm
  rcases List.mem_append.1 hm with hm | hm
  · exact absurd hm (honce y)
  · rcases List.mem_cons.1 hm with hm | hm
    · cases hm
      rfl
    · obtain ⟨mid, rest, rfl⟩ := List.append_of_mem hm
      have hes : es = (before ++ .loaded c x :: mid) ++ .loaded c y :: rest := by
        rw [he, List.append_assoc, List.cons_append]
      obtain ⟨-, honce⟩ := h _ _ _ hes
      exact absurd (List.mem_append_right _ (List.mem_cons_self ..)) (honce x)

/-- What a session promises of its revocations. -/
structure Guarded (es : List Event) : Prop where
  /-- the checks of an action pass only while nothing was revoked since its arm -/
  unrevoked : ∀ before epoch after, es = before ++ .accepted epoch :: after →
    Returned before epoch ∧
      ∀ past c since, before = past ++ .returned c epoch :: since → .revoked ∉ since
  /-- the worker answers with ever larger epochs -/
  increasing : ∀ before c epoch since c' epoch' after,
    es = before ++ .answered c epoch :: since ++ .answered c' epoch' :: after → epoch < epoch'
  /-- every epoch that a call returns was an answer to it -/
  answered : ∀ c epoch, .returned c epoch ∈ es → .answered c epoch ∈ es
  /-- an arm that begins after another has returned gets a larger epoch -/
  later : ∀ before c epoch since c' x after epoch',
    es = before ++ .returned c epoch :: since ++ .loaded c' x :: after →
    .returned c' epoch' ∈ es → epoch < epoch'
  /-- a revocation after an arm has read the revision ends its epoch for good -/
  permanent : ∀ before c x since after epoch,
    es = before ++ .loaded c x :: since ++ .revoked :: after →
    .returned c epoch ∈ es → .accepted epoch ∉ after

theorem accepted_unrevoked (h : Each Sound es) (he : es = before ++ .accepted epoch :: after) :
    Returned before epoch ∧
      ∀ past c since, before = past ++ .returned c epoch :: since → .revoked ∉ since := by
  obtain ⟨hrev, hret⟩ := h before _ after he
  refine ⟨hret, ?_⟩
  rintro past c since rfl hm
  rw [he] at h
  have hpast : Each Sound past := (h.left).left
  have hans : Event.answered c epoch ∈ past := (h.left) past _ since rfl
  have hle := swapped_le hpast (answered_swapped hpast hans)
  have hstill : revisions (past ++ .returned c epoch :: since) = revisions past := by
    have hge : revisions past ≤ revisions (past ++ .returned c epoch :: since) :=
      Ticks.time_le past _
    omega
  exact Bool.noConfusion (Ticks.still hstill (List.mem_cons_of_mem _ hm))

theorem answers_increase (h : Each Sound es)
    (he : es = before ++ .answered c epoch :: since ++ .answered c' epoch' :: after) :
    epoch < epoch' := by
  obtain ⟨past, e, rest, hpast, rfl, hquiet⟩ := h _ _ _ he
  have hes : es = past ++ .swapped c' epoch' :: (rest ++ .answered c' epoch' :: after) := by
    rw [he, hpast, List.append_assoc, List.cons_append]
  obtain ⟨hnext, -⟩ := h past _ _ hes
  -- the earlier answer was given before this swap
  have hans : Event.answered c epoch ∈ past := by
    have hm : Event.answered c epoch ∈ past ++ .swapped c' epoch' :: rest := by
      rw [← hpast]
      exact List.mem_append_right _ (List.mem_cons_self ..)
    rcases List.mem_append.1 hm with hm | hm
    · exact hm
    · rcases List.mem_cons.1 hm with hm | hm
      · cases hm
      · exact Bool.noConfusion (hquiet _ hm)
  rw [hes] at h
  have hle := swapped_le h.left (answered_swapped h.left hans)
  rw [UInt64.lt_iff_toNat_lt]
  omega

theorem later_increases (h : Each Sound es)
    (he : es = before ++ .returned c epoch :: since ++ .loaded c' x :: after)
    (hm : .returned c' epoch' ∈ es) : epoch < epoch' := by
  obtain ⟨y, hy, hnext⟩ := returned_loaded h hm
  have hxy := loaded_unique h he hy
  obtain ⟨hrev, -⟩ := h _ _ _ he
  rw [he] at h
  have hle := swapped_le h.left (returned_swapped h.left
    (List.mem_append_right before (List.mem_cons_self ..)))
  rw [UInt64.lt_iff_toNat_lt, ← hnext, hxy]
  omega

theorem revoked_permanently (h : Each Sound es)
    (he : es = before ++ .loaded c x :: since ++ .revoked :: after)
    (hm : .returned c epoch ∈ es) : .accepted epoch ∉ after := by
  intro hacc
  obtain ⟨y, hy, hnext⟩ := returned_loaded h hm
  have hloaded : es = before ++ .loaded c x :: (since ++ .revoked :: after) := by
    rw [he, List.append_assoc, List.cons_append]
  obtain ⟨hrev, -⟩ := h _ _ _ hloaded
  rw [loaded_unique h hloaded hy, ← hrev] at hnext
  obtain ⟨mid, rest, rfl⟩ := List.append_of_mem hacc
  -- the epoch is current when it is accepted, so the revocation would be its swap
  have haccepted : es = (before ++ .loaded c x :: since ++ .revoked :: mid) ++
      .accepted epoch :: rest := by
    rw [he]
    simp only [List.append_assoc, List.cons_append]
  obtain ⟨hcur, c', hret⟩ := h _ _ _ haccepted
  rw [haccepted] at h
  obtain ⟨past, tail, hpast, hswap, -⟩ := h.left.mem (returned_swapped h.left hret)
  have hrevoked : revisions (before ++ .loaded c x :: since) = revisions past := by
    have hge : revisions before ≤ revisions (before ++ .loaded c x :: since) :=
      Ticks.time_le before _
    have htick : revisions (before ++ .loaded c x :: since ++ .revoked :: mid) =
        revisions (before ++ .loaded c x :: since) + 1 + revisions mid :=
      Ticks.time_tick _ mid rfl
    omega
  obtain ⟨-, hsame⟩ := Ticks.unique rfl hpast rfl rfl hrevoked
  cases hsame

/-- Arming and revoking are safe in every interleaving. -/
theorem session_guarded (hr : Run Step .start es w) (hn : NoWrap es) : Guarded es where
  unrevoked := fun _ _ _ he => accepted_unrevoked (Recorded.run hr hn).events he
  increasing := fun _ _ _ _ _ _ _ he => answers_increase (Recorded.run hr hn).events he
  answered := by
    intro c epoch hm
    obtain ⟨before, after, rfl, hs⟩ := (Recorded.run hr hn).events.mem hm
    exact List.mem_append_left _ hs
  later := fun _ _ _ _ _ _ _ _ he hm => later_increases (Recorded.run hr hn).events he hm
  permanent := fun _ _ _ _ _ _ he hm => revoked_permanently (Recorded.run hr hn).events he hm

/-- A call arms the session, and then an action is accepted. -/
theorem session_guarded_armed : ∃ es w, Run Step .start es w ∧ .accepted 1 ∈ es ∧ NoWrap es ∧
    Guarded es := by
  have hposted : Run Step .start _ _ := (((((Run.single (.arm _ 0 rfl)).snoc (.loaded _ 0 rfl)).snoc
    (.posting _ 0 _ rfl)).snoc (.sent _ 0 _ rfl (by decide) rfl)).snoc (.woken _ 0 _ rfl)).snoc
    (.message _ false true rfl)
  have hswapped := (((hposted.snoc (.disarmed _ false true rfl)).snoc
    (.recv _ 63 _ [] rfl rfl)).snoc (.armLoad _ 0 0 63 rfl)).snoc (.armSwap _ 0 0 63 rfl)
  have hreturned := (((hswapped.snoc (.armStore _ 0 1 63 rfl)).snoc
    (.armReload _ 0 1 63 rfl)).snoc (.armReply _ 0 (some 1) 63 rfl)).snoc (.returned _ 0 1 rfl rfl)
  have hsent := (((((hreturned.snoc (.action _ 1 0 1 (.text "a") rfl rfl)).snoc
    (.armedLoad _ 1 1 _ rfl)).snoc (.revisionLoad _ 1 1 _ rfl)).snoc (.posting _ 1 _ rfl)).snoc
    (.sent _ 1 _ rfl (by decide) rfl))
  have haccepted := ((hsent.snoc (.recv _ 62 _ [] rfl rfl)).snoc
    (.actionArmed _ 1 62 rfl)).snoc (.actionAccepted _ 1 62 rfl rfl)
  refine ⟨_, _, haccepted, by decide, ?_, session_guarded haccepted ?_⟩
  all_goals decide

end GuiSession
end RemoteCodex
