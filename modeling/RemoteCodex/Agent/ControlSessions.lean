import RemoteCodex.Agent.AtMostOnce
import RemoteCodex.Agent.Control

namespace RemoteCodex
set_option autoImplicit true
open Trace

/-- A job is written only after it was accepted. -/
structure Held (es : List Event) (w : World) : Prop where
  current : ∀ c, w.delivery.current = some c → ∃ a ∈ accepts es, a.reply = c.job.reply
  pty : ∀ part queue reply bytes ok, .pty part queue reply bytes ok ∈ es →
    ∃ a ∈ accepts es, a.reply = reply

/-- What is being written was waiting before, or was being written. -/
theorem Delivery.Move.current {P : Nat → Prop} (hm : Move d e d')
    (hc : ∀ c, d.current = some c → P c.job.reply) (hw : ∀ job ∈ d.waiting, P job.reply) :
    ∀ c, d'.current = some c → P c.job.reply := by
  intro c' hc'
  cases hm with
  | less d' es hn ho hf hq =>
    cases hcur : d.current with
    | none =>
      rw [hcur, hc'] at hf
      cases hf
    | some c =>
      have hp := hc c hcur
      rw [hcur, hc'] at hf
      cases hf with
      | same => exact hp
      | late job queue rest => exact hp
  | acceptNormal | acceptPriority => exact hc c' hc'
  | startNormal job normal hn =>
    cases hc'
    exact hw job (List.mem_append_left _ (hn ▸ List.mem_cons_self ..))
  | startInterrupt job others ho =>
    cases hc'
    exact hw job (List.mem_append_right _ (ho.mem_iff.2 (List.mem_cons_self ..)))
  | chunk job queue rest ok hcur =>
    cases hc'
    exact hc ⟨job, queue, some rest⟩ hcur

theorem Writing.step_pty {w : World} {j : Writing} {io : Bool} {queue : Queue}
    (h : .pty part queue reply bytes ok ∈ (j.step w io).2) : reply = j.job.reply := by
  unfold step at h
  cases hs : j.stage with
  | permitted check site =>
    rw [hs] at h
    simp only at h
    split at h <;> cases h
  | opening | write =>
    rw [hs] at h
    simp only at h
    split at h <;> cases List.mem_singleton.1 h <;> rfl
  | chunk =>
    rw [hs] at h
    simp only at h
    split at h
    · cases h
    · split at h
      · split at h <;> cases h
      · cases h
  | suffix result =>
    rw [hs] at h
    simp only at h
    split at h
    · split at h <;> cases List.mem_singleton.1 h <;> rfl
    · cases h
  | enter =>
    rw [hs] at h
    cases List.mem_singleton.1 h
    rfl
  | finish result =>
    rw [hs] at h
    cases List.mem_singleton.1 h

theorem acceptEvents_no_pty {r : Except ErrorCode InputJob} {n lease seq : Nat} :
    .pty part queue reply bytes ok ∉ acceptEvents n lease seq r := by
  intro h
  cases r with
  | ok job => cases List.mem_singleton.1 h
  | error e => cases h

/-- Only the job that is being written reaches the PTY. -/
theorem Step.pty_current (hs : Step w e u) (h : .pty part queue reply bytes ok ∈ e) :
    ∃ c, w.delivery.current = some c ∧ c.job.reply = reply := by
  cases hs with
  | write j io hp =>
    refine ⟨j.current, ?_, (Writing.step_pty h).symm⟩
    rw [World.delivery, hp]
    rfl
  | locked before after call hc =>
    cases call with
    | enqueue | enqueuePaste => exact absurd h acceptEvents_no_pty
    | _ => cases h
  | selectQuery | selectLost | cancelQueued | loseInterrupt | drainNormal | drainInterrupt =>
    cases List.mem_singleton.1 h
  | _ => cases h

theorem Held.step (h : Held es w) (ha : AtMostOnce es w) (hs : Step w e u) :
    Held (es ++ e) u := by
  have hold {r : Nat} (hr : ∃ a ∈ accepts es, a.reply = r) :
      ∃ a ∈ accepts (es ++ e), a.reply = r := by
    obtain ⟨a, hm, heq⟩ := hr
    rw [accepts_append]
    exact ⟨a, List.mem_append_left _ hm, heq⟩
  have hwaiting {job : InputJob} (hj : job ∈ w.delivery.waiting) :
      ∃ a ∈ accepts (es ++ e), a.reply = job.reply := by
    obtain ⟨a, hm, heq, _⟩ := ha.delivered.known job hj
    exact hold ⟨a, hm, heq⟩
  constructor
  · exact hs.move.current (P := fun r => ∃ a ∈ accepts (es ++ e), a.reply = r)
      (fun c hc => hold (h.current c hc)) fun job hj => hwaiting hj
  · intro part queue reply bytes ok hmem
    rcases List.mem_append.1 hmem with hmem | hmem
    · exact hold (h.pty part queue reply bytes ok hmem)
    · obtain ⟨c, hc, hr⟩ := hs.pty_current hmem
      exact hr ▸ hold (h.current c hc)

theorem Held.run (h : Run Step World.init es w) : Held es w := by
  have hboth : AtMostOnce es w ∧ Held es w := by
    apply h.invariant (I := fun es w => AtMostOnce es w ∧ Held es w)
    · refine ⟨.init, fun c hc => (by cases hc), ?_⟩
      intro part queue reply bytes ok hmem
      cases hmem
    · intro es t e u ⟨ha, hh⟩ hs
      exact ⟨ha.step hs, hh.step ha hs⟩
  exact hboth.2

/-- An input that is accepted later has a name that is not in use yet. -/
theorem Step.accepts_fresh (hs : Step w e u) :
    w.nextReply ≤ u.nextReply ∧ ∀ a ∈ accepts e, w.nextReply ≤ a.reply := by
  have hnone {fs : List Event} (hq : ∀ e ∈ fs, Event.accepted? e = none) :
      ∀ a ∈ accepts fs, w.nextReply ≤ a.reply := by
    intro a ha
    rw [accepts, List.filterMap_eq_nil_iff.2 hq] at ha
    cases ha
  have haccept {r : Except ErrorCode InputJob} {lease seq : Nat} :
      ∀ a ∈ accepts (acceptEvents w.nextReply lease seq r), w.nextReply ≤ a.reply := by
    intro a ha
    cases r with
    | ok job =>
      rw [List.mem_singleton.1 ha]
    | error e => cases ha
  cases hs with
  | locked before after call hc =>
    cases call with
    | enqueue | enqueuePaste => exact ⟨Nat.le_succ _, haccept⟩
    | _ => exact ⟨Nat.le_refl _, hnone (by simp [World.locked])⟩
  | write j io hp =>
    obtain ⟨_, _, hn, hq⟩ := j.step_input w io
    exact ⟨Nat.le_of_eq hn.symm, hnone hq⟩
  | _ => exact ⟨Nat.le_refl _, hnone (by simp [Event.accepted?])⟩

theorem run_accepts_fresh (hr : Run Step w es u) :
    w.nextReply ≤ u.nextReply ∧ ∀ a ∈ accepts es, w.nextReply ≤ a.reply := by
  apply hr.invariant (I := fun es u => w.nextReply ≤ u.nextReply ∧
    ∀ a ∈ accepts es, w.nextReply ≤ a.reply) ⟨Nat.le_refl _, fun a ha => (by cases ha)⟩
  intro es t e u ⟨hle, hall⟩ hs
  obtain ⟨hle', hall'⟩ := hs.accepts_fresh
  refine ⟨Nat.le_trans hle hle', fun a ha => ?_⟩
  rw [accepts_append] at ha
  rcases List.mem_append.1 ha with ha | ha
  · exact hall a ha
  · exact Nat.le_trans hle (hall' a ha)

def ControlEvent.session? (id : Uuid) : ControlEvent → Option Event
  | .session i e => if i = id then some e else none
  | _ => none

/-- What happened in one session. -/
def sessionLog (id : Uuid) (es : List ControlEvent) : List Event :=
  es.filterMap (ControlEvent.session? id)

theorem sessionLog_append (id : Uuid) (es fs : List ControlEvent) :
    sessionLog id (es ++ fs) = sessionLog id es ++ sessionLog id fs :=
  List.filterMap_append

theorem sessionLog_session (id i : Uuid) (e : List Event) :
    sessionLog id (e.map (.session i)) = if i = id then e else [] := by
  rw [sessionLog, List.filterMap_map]
  split
  · next h =>
    have hsome : ControlEvent.session? id ∘ ControlEvent.session i = some := by
      funext x
      exact if_pos h
    rw [hsome, List.filterMap_some]
  · next h =>
    exact List.filterMap_eq_nil_iff.2 fun _ _ => if_neg h

theorem mem_sessionLog {id : Uuid} {e : Event} :
    e ∈ sessionLog id es ↔ .session id e ∈ es := by
  rw [sessionLog, List.mem_filterMap]
  constructor
  · rintro ⟨x, hx, he⟩
    cases x with
    | session i e' =>
      by_cases hi : i = id
      · rw [ControlEvent.session?, if_pos hi] at he
        cases he
        exact hi ▸ hx
      · rw [ControlEvent.session?, if_neg hi] at he
        cases he
    | _ => cases he
  · intro hx
    exact ⟨_, hx, if_pos rfl⟩

namespace ControlWorld

variable {decode : String → Option (List UInt8)} {w u : ControlWorld}

/-- A session, before it is created as well. -/
def world (w : ControlWorld) (id : Uuid) : World := ((w.sessions id).map Hosted.w).getD .init

theorem world_of_session {id : Uuid} {h : Hosted} (hs : w.sessions id = some h) :
    w.world id = h.w := by
  rw [world, hs]
  rfl

theorem world_congr (hs : u.sessions = w.sessions) (id : Uuid) : u.world id = w.world id := by
  rw [world, hs]
  rfl

theorem world_setSession (w : ControlWorld) (id i : Uuid) (h : Hosted) :
    (w.setSession i h).world id = if id = i then h.w else w.world id := by
  rw [world, setSession]
  simp only [Function.update_apply]
  split <;> rfl

@[simp] theorem answer_sessions (w : ControlWorld) (r : Uuid) (result : Outcome ErrorCode Reply) :
    (w.answer r result).sessions = w.sessions := by
  cases result <;> rfl

@[simp] theorem trySend_sessions {v : Reply} (h : w.trySend v = some u) :
    u.sessions = w.sessions ∧ u.n = w.n ∧ u.pc = w.pc := by
  rw [trySend] at h
  split at h
  · cases h
  · cases h
    exact ⟨rfl, rfl, rfl⟩

/-- What handing a reply to the channel does. -/
theorem offer_cases (w : ControlWorld) (r : Uuid) (v : Reply) :
    (w.out.length < OUT_CAPACITY ∧
      w.offer r v = { w with out := w.out ++ [v], pc := .select }) ∨
    (OUT_CAPACITY ≤ w.out.length ∧ w.offer r v = { w with pc := .rejecting r .rateLimited }) := by
  by_cases h : OUT_CAPACITY ≤ w.out.length
  · refine .inr ⟨h, ?_⟩
    rw [offer, trySend, if_pos h]
  · refine .inl ⟨Nat.lt_of_not_le h, ?_⟩
    rw [offer, trySend, if_neg h]

/-- A completion task changes only the channel and the list of tasks. -/
theorem complete_eq (w : ControlWorld) (before after : List Completion) (c : Completion)
    (outcome : Option (Except ErrorCode Unit)) :
    ∃ out, w.complete before after c outcome =
      { w with out, children := before ++ { c with ended := true } :: after } := by
  rw [complete, trySend]
  split
  · exact ⟨_, rfl⟩
  · exact ⟨_, rfl⟩

theorem counted_spec (w : ControlWorld) :
    w.counted.sessions = w.sessions ∧ w.counted.n = w.n + 1 := by
  rw [counted]
  simp only
  split <;> exact ⟨rfl, rfl⟩

theorem dispatch_pong (received : Nat) (m : ControlMessage)
    (h : dispatch decode received m = .replying r v) : v.isAccepted = false := by
  cases m <;> cases h
  rfl

/-- A message changes nothing but the connection, and what comes next is a new request. -/
theorem onMessage_spec (w : ControlWorld) (C : Crypto) (msg : Option ControlMessage) :
    (w.onMessage decode C msg).sessions = w.sessions ∧
      (w.onMessage decode C msg).n = w.n + 1 ∧
        ∀ r v, (w.onMessage decode C msg).pc = .replying r v → v.isAccepted = false := by
  obtain ⟨hs, hn⟩ := w.counted_spec
  rw [onMessage.eq_def]
  generalize w.counted = c at hs hn
  simp only
  split
  · exact ⟨hs, hn, fun r v h => by cases h⟩
  · split
    · exact ⟨hs, hn, fun r v h => by cases h⟩
    · split
      · split
        · exact ⟨hs, hn, fun r v h => by cases h⟩
        · exact ⟨hs, hn, fun r v h => by cases h⟩
      · exact ⟨hs, hn, fun r v h => by cases h⟩
    · exact ⟨hs, hn, fun r v h => dispatch_pong _ _ h⟩

theorem admitted_of_admit {d : Action} {h : World} {p : Principal} {c : Uuid} {call : Call}
    (hc : d.call p c = some call) (ha : d.permit h p = .ok ()) : call.admitted h := by
  cases d with
  | acquire takeover =>
    cases hc
    rw [Action.permit] at ha
    split at ha
    · cases ha
    · next hreq =>
      split at ha
      · next hrun => exact ⟨hreq, hrun⟩
      · cases ha
  | resize => cases hc
  | renew | release | enqueue =>
    cases hc
    exact ha

/-- Every session makes steps of its own. -/
theorem Step.world (hs : Step decode C w e u) (id : Uuid) :
    Run RemoteCodex.Step (w.world id) (sessionLog id e) (u.world id) := by
  have hsame {u : ControlWorld} {e : List ControlEvent} (hu : u.sessions = w.sessions)
      (he : sessionLog id e = []) :
      Run RemoteCodex.Step (w.world id) (sessionLog id e) (u.world id) := by
    rw [he, world_congr hu]
    exact .nil
  have hset {i : Uuid} {h : Hosted} (h' : Hosted) {e : List Event} (hh : w.sessions i = some h)
      (hr : Run RemoteCodex.Step h.w e h'.w) :
      Run RemoteCodex.Step (w.world id) (sessionLog id (e.map (.session i)))
        ((w.setSession i h').world id) := by
    rw [world_setSession, sessionLog_session]
    by_cases hi : id = i
    · subst hi
      rw [if_pos rfl, if_pos rfl, world_of_session hh]
      exact hr
    · rw [if_neg hi, if_neg (Ne.symm hi)]
      exact .nil
  cases hs with
  | create info hs =>
    rw [world_setSession]
    split
    · next hi =>
      rw [ControlWorld.world, hi, hs]
      exact .nil
    · exact .nil
  | unlist i h hh => exact hset _ (e := []) hh .nil
  | session i h e v hh hs ha hc =>
    exact hset { h with w := v } hh (.single hs)
  | permit d h call hp hh hc hl ha =>
    have hadmit := admitted_of_admit hc ha
    exact hset (e := []) { h with w := { h.w with calls := h.w.calls ++ [call] } } hh
      (.single (.request h.w call hl hadmit))
  | locked d h call before after hp hh hc hq =>
    have htaken : sessionLog id (d.taken w.n h.w.nextReply) = [] := by
      rw [Dispatch.taken]
      split <;> rfl
    simp only [lock]
    rw [sessionLog_append, htaken, List.append_nil, world_congr (answer_sessions _ _ _)]
    exact hset { h with w := _ } hh (.single (.locked h.w before after call hq))
  | message msg hp => exact hsame (w.onMessage_spec _ msg).1 rfl
  | resize d result hp hc hr => exact hsame (w.answer_sessions _ _) rfl
  | offer r v hp =>
    rcases w.offer_cases r v with ⟨_, ho⟩ | ⟨_, ho⟩ <;> rw [ho] <;> exact hsame rfl rfl
  | complete c before after result hc he hr =>
    obtain ⟨out, ho⟩ := w.complete_eq before after c (some result)
    rw [ho]
    exact hsame rfl rfl
  | lost c h before after hc he hr hh hj =>
    obtain ⟨out, ho⟩ := w.complete_eq before after c none
    rw [ho]
    exact hsame rfl rfl
  | _ => exact hsame rfl rfl

end ControlWorld
end RemoteCodex
