import RemoteCodex.Agent.ControlRuns
import RemoteCodex.Agent.ControlSessions

namespace RemoteCodex
set_option autoImplicit true
open Trace

namespace ControlWorld

variable {decode : String → Option (List UInt8)} {w u : ControlWorld}

/-- A request that the session whose lock it took did not accept. -/
structure Refused (es : List ControlEvent) (w : ControlWorld) (id : Uuid) (reply : Nat) :
    Prop where
  named : reply < (w.world id).nextReply
  never : ∀ a ∈ accepts (sessionLog id es), a.reply ≠ reply

def Untaken (es : List ControlEvent) (n : Nat) : Prop := ∀ id reply, .taken n id reply ∉ es

def Unrejected (es : List ControlEvent) (n : Nat) : Prop := ∀ r code, .rejected n r code ∉ es

/-- The job of a request was queued. -/
def Queued (es : List ControlEvent) (n : Nat) : Prop :=
  ∃ id reply, .taken n id reply ∈ es ∧ ∃ a ∈ accepts (sessionLog id es), a.reply = reply

/-- What is known about the request that is being worked on. -/
def Current (es : List ControlEvent) (w : ControlWorld) : ControlPc → Prop
  | .checking .. | .locking _ => Untaken es w.n ∧ Unrejected es w.n
  | .replying _ v => if v.isAccepted then Queued es w.n else Untaken es w.n
  | .rejecting .. => ∀ id reply, .taken w.n id reply ∈ es → Refused es w id reply
  | _ => True

/-- What the connection has done against what the sessions have done. -/
structure Answering (es : List ControlEvent) (w : ControlWorld) : Prop where
  sessions : ∀ id, Run RemoteCodex.Step .init (sessionLog id es) (w.world id)
  taken : ∀ n id reply, .taken n id reply ∈ es → n ≤ w.n
  rejected : ∀ n r code, .rejected n r code ∈ es → n ≤ w.n
  refused : ∀ n id reply r code, .taken n id reply ∈ es → .rejected n r code ∈ es →
    Refused es w id reply
  current : Current es w w.pc

/-- The steps in which the reply to an accepted input finds room in the outgoing channel. -/
def Roomy (decode : String → Option (List UInt8)) (C : Crypto) (w : ControlWorld)
    (e : List ControlEvent) (u : ControlWorld) : Prop :=
  Step decode C w e u ∧
    ∀ v, .offered v ∈ e → v.isAccepted = true → w.out.length < OUT_CAPACITY

variable {C : Crypto} {es e : List ControlEvent} {id : Uuid} {reply n : Nat}

theorem Refused.step (h : Refused es w id reply) (hs : Step decode C w e u) :
    Refused (es ++ e) u id reply := by
  obtain ⟨hle, hnew⟩ := run_accepts_fresh (hs.world id)
  refine ⟨Nat.lt_of_lt_of_le h.named hle, fun a ha => ?_⟩
  rw [sessionLog_append, accepts_append] at ha
  rcases List.mem_append.1 ha with ha | ha
  · exact h.never a ha
  · have hge := hnew a ha
    have hlt := h.named
    omega

theorem Queued.append (h : Queued es n) (e : List ControlEvent) : Queued (es ++ e) n := by
  obtain ⟨id, reply, ht, a, ha, hr⟩ := h
  refine ⟨id, reply, List.mem_append_left _ ht, a, ?_, hr⟩
  rw [sessionLog_append, accepts_append]
  exact List.mem_append_left _ ha

theorem Untaken.append (h : Untaken es n) (he : ∀ id reply, .taken n id reply ∉ e) :
    Untaken (es ++ e) n := by
  intro id reply hm
  rcases List.mem_append.1 hm with hm | hm
  · exact h id reply hm
  · exact he id reply hm

theorem Unrejected.append (h : Unrejected es n) (he : ∀ r code, .rejected n r code ∉ e) :
    Unrejected (es ++ e) n := by
  intro r code hm
  rcases List.mem_append.1 hm with hm | hm
  · exact h r code hm
  · exact he r code hm

/-- Events that neither take nor reject a request. -/
def Calm (e : List ControlEvent) : Prop :=
  (∀ n id reply, .taken n id reply ∉ e) ∧ ∀ n r code, .rejected n r code ∉ e

theorem calm_nil : Calm [] := ⟨fun _ _ _ => List.not_mem_nil, fun _ _ _ => List.not_mem_nil⟩

theorem calm_session (id : Uuid) (e : List Event) : Calm (e.map (.session id)) := by
  constructor
  · intro n i reply h
    obtain ⟨_, _, he⟩ := List.mem_map.1 h
    cases he
  · intro n r code h
    obtain ⟨_, _, he⟩ := List.mem_map.1 h
    cases he

theorem Current.append {pc : ControlPc} (h : Current es w pc) (hs : Step decode C w e u)
    (hn : u.n = w.n) (he : Calm e) : Current (es ++ e) u pc := by
  obtain ⟨ht, hr⟩ := he
  cases pc with
  | checking | locking =>
    simp only [Current, hn] at h ⊢
    exact ⟨h.1.append (ht _), h.2.append (hr _)⟩
  | replying r v =>
    simp only [Current, hn] at h ⊢
    by_cases hv : v.isAccepted = true
    · rw [if_pos hv] at h ⊢
      exact h.append e
    · rw [if_neg hv] at h ⊢
      exact h.append (ht _)
  | rejecting r code =>
    simp only [Current, hn] at h ⊢
    intro id reply hm
    rcases List.mem_append.1 hm with hm | hm
    · exact (h id reply hm).step hs
    · exact absurd hm (ht _ id reply)
  | _ => trivial

/-- A request that has not reached a queue. -/
theorem current_untaken {pc : ControlPc} (ht : Untaken es w.n) (hj : Unrejected es w.n)
    (hp : ∀ r v, pc = .replying r v → v.isAccepted = false) : Current es w pc := by
  cases pc with
  | checking | locking => exact ⟨ht, hj⟩
  | replying r v =>
    rw [Current, hp r v rfl]
    exact ht
  | rejecting r code => exact fun id reply hm => absurd hm (ht id reply)
  | _ => trivial

theorem Answering.calm (h : Answering es w) (hs : Step decode C w e u) (hn : w.n ≤ u.n)
    (he : Calm e) (hc : Current (es ++ e) u u.pc) : Answering (es ++ e) u := by
  obtain ⟨ht, hj⟩ := he
  have hold {x : ControlEvent} (hm : x ∈ es ++ e) (hx : x ∉ e) : x ∈ es :=
    (List.mem_append.1 hm).resolve_right hx
  constructor
  · intro id
    rw [sessionLog_append]
    exact (h.sessions id).trans (hs.world id)
  · intro n id reply hm
    exact Nat.le_trans (h.taken n id reply (hold hm (ht n id reply))) hn
  · intro n r code hm
    exact Nat.le_trans (h.rejected n r code (hold hm (hj n r code))) hn
  · intro n id reply r code hm hm'
    exact (h.refused n id reply r code (hold hm (ht n id reply)) (hold hm' (hj n r code))).step hs
  · exact hc

/-- The answer to a request that has not reached a queue. -/
theorem current_answer {result : Outcome ErrorCode Reply} (r : Uuid) (ht : Untaken es w.n)
    (hj : Unrejected es w.n) (hv : ∀ v, result = .ok v → v.isAccepted = false) :
    (w.answer r result).n = w.n ∧ Current es (w.answer r result) (w.answer r result).pc := by
  cases result with
  | ok v =>
    refine ⟨rfl, current_untaken ht hj ?_⟩
    intro r' v' h
    cases h
    exact hv v rfl
  | err code => exact ⟨rfl, fun id reply hm => absurd hm (ht id reply)⟩
  | panic => exact ⟨rfl, trivial⟩

theorem reply_not_accepted {d : Dispatch} {p : Principal} {c : Uuid} {h : World} {v : Reply}
    (hd : ∀ epoch id seq data received, d.action ≠ .enqueue epoch id seq data received)
    (hv : d.reply p c h = .ok v) : v.isAccepted = false := by
  rw [Dispatch.reply] at hv
  cases ha : d.action with
  | enqueue epoch id seq data received => exact absurd ha (hd epoch id seq data received)
  | resize =>
    rw [ha] at hv
    cases hv
    rfl
  | acquire | renew | release =>
    rw [ha] at hv
    simp only [Outcome.map] at hv
    split at hv <;> cases hv
    rfl

@[simp] theorem answer_n (w : ControlWorld) (r : Uuid) (result : Outcome ErrorCode Reply) :
    (w.answer r result).n = w.n := by
  cases result <;> rfl

/-- Where an input leads that took the lock. -/
def inputPc (requestId sessionId inputId : Uuid) : Except ErrorCode InputJob → ControlPc
  | .ok _ => .replying requestId (.accepted requestId sessionId inputId)
  | .error code => .rejecting requestId code

/-- An input that takes the lock. -/
theorem lock_enqueue {d : Dispatch} {h : Hosted} {epoch seq received : Nat} {i : Uuid}
    {data : List UInt8} (ha : d.action = .enqueue epoch i seq data received) (calls : List Call)
    {r : Except ErrorCode InputJob} {s : Session}
    (hr : h.w.s.enqueue w.p w.connection epoch i seq data received h.w.now h.w.nextReply = (r, s)) :
    ∃ v : ControlWorld,
      w.lock d h (.enqueue w.p w.connection epoch i seq data received) calls =
          (v, (acceptEvents h.w.nextReply epoch seq r).map (.session d.sessionId) ++
            [.taken w.n d.sessionId h.w.nextReply]) ∧
        v.n = w.n ∧ (v.world d.sessionId).nextReply = h.w.nextReply + 1 ∧
        v.pc = inputPc d.requestId d.sessionId i r := by
  rw [lock, Dispatch.reply, Dispatch.taken]
  simp only [ha, World.locked, hr]
  refine ⟨_, rfl, answer_n _ _ _, ?_, ?_⟩
  · rw [world_congr (answer_sessions _ _ _)]
    exact congrArg World.nextReply ((world_setSession ..).trans (if_pos rfl))
  · cases r <;> rfl

/-- A request that takes the lock and is not an input. -/
theorem lock_other {d : Dispatch} {call : Call} (h : Hosted) (calls : List Call)
    (hd : ∀ epoch id seq data received, d.action ≠ .enqueue epoch id seq data received) :
    Calm (w.lock d h call calls).2 ∧ (w.lock d h call calls).1.n = w.n ∧
      (Untaken es w.n → Unrejected es w.n →
        Current es (w.lock d h call calls).1 (w.lock d h call calls).1.pc) := by
  have htaken : d.taken w.n h.w.nextReply = [] := by
    rw [Dispatch.taken]
    split
    · next ha => exact absurd ha (hd _ _ _ _ _)
    · rfl
  rw [lock, htaken, List.append_nil]
  refine ⟨calm_session _ _, answer_n _ _ _, fun ht hj => ?_⟩
  exact (current_answer (w := { w.setSession d.sessionId _ with children := _ }) d.requestId ht hj
    fun v hv => reply_not_accepted hd hv).2

/-- An input is accepted, or refused and answered as rejected. -/
theorem Answering.enqueue (h : Answering es w) (ht : Untaken es w.n) (hj : Unrejected es w.n)
    {i : Uuid} {host : World} {r : Except ErrorCode InputJob} {epoch seq : Nat}
    {requestId inputId : Uuid} (hw : w.world i = host)
    (hs : Step decode C w ((acceptEvents host.nextReply epoch seq r).map (.session i) ++
      [.taken w.n i host.nextReply]) u)
    (hn : u.n = w.n) (hnext : (u.world i).nextReply = host.nextReply + 1)
    (hpc : u.pc = inputPc requestId i inputId r) :
    Answering (es ++ ((acceptEvents host.nextReply epoch seq r).map (.session i) ++
      [.taken w.n i host.nextReply])) u := by
  generalize he : (acceptEvents host.nextReply epoch seq r).map (ControlEvent.session i) ++
    [.taken w.n i host.nextReply] = e at hs
  have htaken {n reply : Nat} {id : Uuid} (hm : .taken n id reply ∈ e) :
      n = w.n ∧ id = i ∧ reply = host.nextReply := by
    rw [← he] at hm
    rcases List.mem_append.1 hm with hm | hm
    · exact absurd hm ((calm_session i _).1 n id reply)
    · cases List.mem_singleton.1 hm
      exact ⟨rfl, rfl, rfl⟩
  have hrejected {n : Nat} {r : Uuid} {code : ErrorCode} : .rejected n r code ∉ e := by
    intro hm
    rw [← he] at hm
    rcases List.mem_append.1 hm with hm | hm
    · exact (calm_session i _).2 n r code hm
    · cases List.mem_singleton.1 hm
  have hlog : sessionLog i e = acceptEvents host.nextReply epoch seq r := by
    rw [← he, sessionLog_append, sessionLog_session, if_pos rfl]
    exact List.append_nil _
  constructor
  · intro id
    rw [sessionLog_append]
    exact (h.sessions id).trans (hs.world id)
  · intro n id reply hm
    rcases List.mem_append.1 hm with hm | hm
    · exact hn ▸ h.taken n id reply hm
    · exact Nat.le_of_eq ((htaken hm).1.trans hn.symm)
  · intro n r code hm
    exact hn ▸ h.rejected n r code ((List.mem_append.1 hm).resolve_right hrejected)
  · intro n id reply r code hm hm'
    have hr := (List.mem_append.1 hm').resolve_right hrejected
    rcases List.mem_append.1 hm with hm | hm
    · exact (h.refused n id reply r code hm hr).step hs
    · rw [(htaken hm).1] at hr
      exact absurd hr (hj r code)
  · cases r with
    | ok job =>
      have haccepted : (Reply.accepted requestId i inputId).isAccepted = true := rfl
      rw [hpc, inputPc, Current, if_pos haccepted]
      refine ⟨i, host.nextReply, ?_, ⟨host.nextReply, epoch, seq, job.data⟩, ?_, rfl⟩
      · rw [hn, ← he]
        exact List.mem_append_right _ (List.mem_append_right _ (List.mem_singleton_self _))
      · rw [sessionLog_append, hlog, accepts_append]
        exact List.mem_append_right _ (List.mem_singleton_self _)
    | error code =>
      rw [hpc]
      intro id reply hm
      rw [hn] at hm
      rcases List.mem_append.1 hm with hm | hm
      · exact absurd hm (ht id reply)
      · obtain ⟨_, rfl, rfl⟩ := htaken hm
        refine ⟨by omega, fun a hacc => ?_⟩
        rw [sessionLog_append, hlog, acceptEvents, List.append_nil] at hacc
        have hlt := (AtMostOnce.run (h.sessions id)).keyed.reply a hacc
        rw [hw] at hlt
        omega

/-- The lock of a session is taken. -/
theorem Answering.lock (h : Answering es w) {d : Dispatch} {host : Hosted} {call : Call}
    {calls : List Call} (hp : w.pc = .locking d) (hh : w.sessions d.sessionId = some host)
    (hc : d.action.call w.p w.connection = some call)
    (hs : Step decode C w (w.lock d host call calls).2 (w.lock d host call calls).1) :
    Answering (es ++ (w.lock d host call calls).2) (w.lock d host call calls).1 := by
  have hcur := h.current
  rw [hp] at hcur
  obtain ⟨ht, hj⟩ := hcur
  have hworld := world_of_session hh
  cases ha : d.action with
  | enqueue epoch i seq data received =>
    rw [ha] at hc
    cases hc
    cases hr : host.w.s.enqueue w.p w.connection epoch i seq data received host.w.now
        host.w.nextReply with | mk r s
    obtain ⟨v, hv, hn, hnext, hpc⟩ := lock_enqueue ha calls hr
    rw [hv] at hs ⊢
    exact h.enqueue ht hj hworld hs hn hnext hpc
  | resize =>
    rw [ha] at hc
    cases hc
  | acquire | renew | release =>
    obtain ⟨hcalm, hn, hcurrent⟩ := @lock_other w (es ++ (w.lock d host call calls).2) d call host
      calls fun _ _ _ _ _ he => by
        rw [ha] at he
        cases he
    exact h.calm hs (Nat.le_of_eq hn.symm) hcalm
      (hcurrent (ht.append (hcalm.1 _)) (hj.append (hcalm.2 _)))

/-- The rejection is sent. -/
theorem Answering.reject (h : Answering es w) {r : Uuid} {code : ErrorCode}
    (hs : Step decode C w [.rejected w.n r code] { w with pc := .select })
    (hc : Current es w (.rejecting r code)) :
    Answering (es ++ [.rejected w.n r code]) { w with pc := .select } := by
  have htaken {n reply : Nat} {id : Uuid}
      (hm : .taken n id reply ∈ es ++ [.rejected w.n r code]) : .taken n id reply ∈ es := by
    rcases List.mem_append.1 hm with hm | hm
    · exact hm
    · cases List.mem_singleton.1 hm
  constructor
  · intro id
    rw [sessionLog_append]
    exact (h.sessions id).trans (hs.world id)
  · exact fun n id reply hm => h.taken n id reply (htaken hm)
  · intro n r code hm
    rcases List.mem_append.1 hm with hm | hm
    · exact h.rejected n r code hm
    · cases List.mem_singleton.1 hm
      exact Nat.le_refl _
  · intro n id reply r' code' hm hm'
    rcases List.mem_append.1 hm' with hm' | hm'
    · exact (h.refused n id reply r' code' (htaken hm) hm').step hs
    · cases List.mem_singleton.1 hm'
      exact (hc id reply (htaken hm)).step hs
  · trivial

theorem Roomy.answering (hs : Roomy decode C w e u) (h : Answering es w) :
    Answering (es ++ e) u := by
  obtain ⟨hs, hroom⟩ := hs
  have hcur := h.current
  have hsame {v : ControlWorld} (hv : Step decode C w [] v) (hn : v.n = w.n) (hp : v.pc = w.pc) :
      Answering (es ++ []) v :=
    h.calm hv (Nat.le_of_eq hn.symm) calm_nil (hp ▸ hcur.append hv hn calm_nil)
  have hidle {v : ControlWorld} {e : List ControlEvent} (hv : Step decode C w e v)
      (hn : v.n = w.n) (he : Calm e) (hc : Current (es ++ e) v v.pc) : Answering (es ++ e) v :=
    h.calm hv (Nat.le_of_eq hn.symm) he hc
  cases hs with
  | create info hs => exact hsame (.create w info hs) rfl rfl
  | unlist id host hh => exact hsame (.unlist w id host hh) rfl rfl
  | session id host e v hh hs ha hc =>
    have hv : Step decode C w _ _ := .session w id host e v hh hs ha hc
    exact hidle hv rfl (calm_session id e) (hcur.append hv rfl (calm_session id e))
  | auth auth => exact hsame (.auth w auth) rfl rfl
  | tick d => exact hsame (.tick w d) rfl rfl
  | shutdown => exact hsame (.shutdown w) rfl rfl
  | stop hp hs => exact hidle (.stop w hp hs) rfl calm_nil trivial
  | recv v out hp hq => exact hidle (.recv w v out hp hq) rfl calm_nil trivial
  | send v hp => exact hidle (.send w v hp) rfl (by simp [Calm]) trivial
  | sendFailed v hp => exact hidle (.sendFailed w v hp) rfl calm_nil trivial
  | poll hp hq => exact hidle (.poll w hp hq) rfl calm_nil trivial
  | wake hp => exact hidle (.wake w hp) rfl calm_nil trivial
  | message msg hp =>
    obtain ⟨_, hn, hpong⟩ := @onMessage_spec decode w C msg
    refine h.calm (.message w msg hp) (by omega) calm_nil (current_untaken ?_ ?_ hpong)
    · intro id reply hm
      rw [List.append_nil] at hm
      have hle := h.taken _ id reply hm
      omega
    · intro r code hm
      rw [List.append_nil] at hm
      have hle := h.rejected _ r code hm
      omega
  | failed hp => exact hidle (.failed w hp) rfl calm_nil trivial
  | join c before after hp hc he =>
    exact hidle (.join w c before after hp hc he) rfl calm_nil trivial
  | check d c checks hp hc =>
    rw [hp] at hcur
    have hv : Step decode C w [] _ := .check w d c checks hp hc
    have hcur : Current es w (.checking d checks) := hcur
    exact hidle hv rfl calm_nil (hcur.append hv rfl calm_nil)
  | refuse d c checks code hp hc =>
    rw [hp] at hcur
    have hv : Step decode C w [] _ := .refuse w d c checks code hp hc
    exact hidle hv rfl calm_nil fun id reply hm => absurd hm (hcur.1.append (calm_nil.1 _) id reply)
  | permit d host call hp hh hc hl ha =>
    rw [hp] at hcur
    have hv : Step decode C w [] _ := .permit w d host call hp hh hc hl ha
    have hcur : Current es w (.locking d) := hcur
    exact hidle hv rfl calm_nil (hcur.append hv rfl calm_nil)
  | deny d host code hp hh hc ha =>
    rw [hp] at hcur
    have hv : Step decode C w [] _ := .deny w d host code hp hh hc ha
    exact hidle hv rfl calm_nil fun id reply hm => absurd hm (hcur.1.append (calm_nil.1 _) id reply)
  | locked d host call before after hp hh hc hq =>
    have hv : Step decode C w _ _ := .locked w d host call before after hp hh hc hq
    exact h.lock hp hh hc hv
  | resize d result hp hc hr =>
    rw [hp] at hcur
    obtain ⟨hn, hanswer⟩ := @current_answer w es result d.requestId hcur.1 hcur.2
      fun v hv => by
        rw [hr v hv]
        rfl
    rw [List.append_nil]
    have := hidle (.resize w d result hp hc hr) hn calm_nil (by rwa [List.append_nil])
    rwa [List.append_nil] at this
  | offer r v hp =>
    have hcalm : Calm [ControlEvent.offered v] := by simp [Calm]
    have hv : Step decode C w [.offered v] _ := .offer w r v hp
    rcases w.offer_cases r v with ⟨_, ho⟩ | ⟨hfull, ho⟩
    · rw [ho] at hv ⊢
      exact hidle hv rfl hcalm trivial
    · rw [hp] at hcur
      by_cases ha : v.isAccepted = true
      · have hlt := hroom v (List.mem_singleton_self _) ha
        omega
      · simp only [Current, if_neg ha] at hcur
        rw [ho] at hv ⊢
        exact hidle hv rfl hcalm fun id reply hm =>
          absurd hm (hcur.append (hcalm.1 _) id reply)
  | reject r code hp =>
    rw [hp] at hcur
    have hv : Step decode C w _ _ := .reject w r code hp
    exact h.reject hv hcur
  | rejectFailed r code hp => exact hidle (.rejectFailed w r code hp) rfl calm_nil trivial
  | complete c before after result hc he hr =>
    obtain ⟨out, ho⟩ := w.complete_eq before after c (some result)
    have hv : Step decode C w [] _ := .complete w c before after result hc he hr
    rw [ho] at hv ⊢
    exact hsame hv rfl rfl
  | lost c host before after hc he hr hh hj =>
    obtain ⟨out, ho⟩ := w.complete_eq before after c none
    have hv : Step decode C w [] _ := .lost w c host before after hc he hr hh hj
    rw [ho] at hv ⊢
    exact hsame hv rfl rfl

/-- A value is handed to the channel where a request is answered. -/
theorem Step.offered {v : Reply} (hs : Step decode C w e u) (hv : .offered v ∈ e) :
    ∃ r, w.pc = .replying r v ∧ u = w.offer r v := by
  have hsession {i : Uuid} {e : List Event} : .offered v ∉ e.map (ControlEvent.session i) := by
    intro hm
    obtain ⟨_, _, he⟩ := List.mem_map.1 hm
    cases he
  cases hs with
  | offer r v' hp =>
    cases List.mem_singleton.1 hv
    exact ⟨r, hp, rfl⟩
  | session => exact absurd hv hsession
  | locked d =>
    rcases List.mem_append.1 hv with hv | hv
    · exact absurd hv hsession
    · rw [Dispatch.taken] at hv
      split at hv
      · cases List.mem_singleton.1 hv
      · cases hv
  | send | reject => cases List.mem_singleton.1 hv
  | _ => cases hv

theorem answering_start (auth : Auth) (p : Principal) (connection : Uuid) (now : Nat) :
    Answering [] (start auth p connection now) where
  sessions := fun _ => .nil
  taken := fun _ _ _ h => absurd h List.not_mem_nil
  rejected := fun _ _ _ h => absurd h List.not_mem_nil
  refused := fun _ _ _ _ _ h => absurd h List.not_mem_nil
  current := trivial

/-- As long as the replies to accepted inputs find room, nothing that is rejected is ever written;
a reply that finds none turns an input that is queued into a rejected one. -/
theorem rejected_unwritten {auth : Auth} {p : Principal} {connection : Uuid} {now : Nat}
    (hr : Run (Roomy decode C) (start auth p connection now) es w) :
    (∀ n r code id reply, .rejected n r code ∈ es → .taken n id reply ∈ es →
      ∀ part queue bytes ok, .session id (.pty part queue reply bytes ok) ∉ es) ∧
    ∀ e u, Step decode C w e u →
      ¬ (∀ v, .offered v ∈ e → v.isAccepted = true → w.out.length < OUT_CAPACITY) →
        Queued es w.n ∧ ∃ r code, u.pc = .rejecting r code := by
  have h : Answering es w :=
    hr.invariant (answering_start auth p connection now) fun hi hs => hs.answering hi
  constructor
  · intro n r code id reply hj ht part queue bytes ok hm
    obtain ⟨a, ha, heq⟩ := (Held.run (h.sessions id)).pty _ _ _ _ _ (mem_sessionLog.2 hm)
    exact (h.refused n id reply r code ht hj).never a ha heq
  · intro e u hs hfull
    simp only [Classical.not_forall] at hfull
    obtain ⟨v, hv, ha, hlen⟩ := hfull
    obtain ⟨r, hp, hu⟩ := hs.offered hv
    have hcur := h.current
    rw [hp, Current, if_pos ha] at hcur
    refine ⟨hcur, r, .rateLimited, ?_⟩
    rcases w.offer_cases r v with ⟨hlt, _⟩ | ⟨_, ho⟩
    · exact absurd hlt hlen
    · rw [hu, ho]

/-- A person who types one letter again and again. -/
def typist : Principal := ⟨.fill 1, [.terminalWrite], fromSecs 60, 7⟩

def tty : SessionInfo := ⟨.fill 1, .fill 2, 1, 80, 24⟩

def keyId (k : Nat) : Uuid := ⟨UInt8.ofNat k :: List.replicate 15 0, rfl⟩

theorem keyId_injective {j k : Nat} (hj : j ≤ 128) (hk : k ≤ 128) (h : keyId j = keyId k) :
    j = k := by
  have hbytes := congrArg (fun u => u.bytes.head?) h
  simp only [keyId, List.head?_cons, Option.some.injEq] at hbytes
  have hnat := congrArg UInt8.toNat hbytes
  rw [UInt8.toNat_ofNat', UInt8.toNat_ofNat'] at hnat
  omega

def letterText (text : String) : Option (List UInt8) := if text = "eA==" then some [120] else none

def keyMessage (k : Nat) : ControlMessage :=
  .input (.fill 4) (.fill 1) (.fill 2) 1 1 (keyId k) k (.binary "eA==")

def keyDispatch (k now : Nat) : Dispatch := ⟨.fill 4, .fill 1, .enqueue 1 (keyId k) k [120] now⟩

/-- A letter is typed without the lease. -/
theorem rejected_unwritten_letter :
    ∃ es : List ControlEvent, .rejected 1 (.fill 4) .leaseRequired ∈ es ∧
      .taken 1 (.fill 1) 0 ∈ es ∧
        ∀ part queue bytes ok, .session (.fill 1) (.pty part queue 0 bytes ok) ∉ es := by
  let C : Crypto := ⟨fun _ => [], fun _ => none, fun _ => false, fun _ => false, fun _ _ _ => false⟩
  let w₀ := start (.new ⟨∅, false⟩ "host" 0) typist (.fill 2) 0
  have hroomy {w u : ControlWorld} {e : List ControlEvent} (hs : Step letterText C w e u)
      (hp : ∀ r v, w.pc ≠ .replying r v) : Roomy letterText C w e u := by
    refine ⟨hs, fun v hv => ?_⟩
    obtain ⟨r, hpc, _⟩ := hs.offered hv
    exact absurd hpc (hp r v)
  let d : Dispatch := keyDispatch 1 0
  let h : Hosted := ⟨tty, true, .init⟩
  have hmessage := ((Run.single (hroomy (.create w₀ tty rfl) nofun)).snoc
    (hroomy (.poll _ rfl rfl) nofun)).snoc
    (hroomy (.message _ (some (keyMessage 1)) rfl) nofun)
  have hchecked := (((hmessage.snoc (hroomy (.check _ d _ _ rfl rfl) nofun)).snoc
    (hroomy (.check _ d _ _ rfl rfl) nofun)).snoc (hroomy (.check _ d _ _ rfl rfl) nofun)).snoc
    (hroomy (.check _ d _ _ rfl rfl) nofun)
  have hadmitted := hchecked.snoc (hroomy (.permit _ d h _ rfl rfl rfl rfl (by decide)) nofun)
  have hlocked := hadmitted.snoc (hroomy (.locked _ d _ _ [] [] rfl rfl rfl rfl) nofun)
  have hrejected := hlocked.snoc (hroomy (.reject _ (.fill 4) .leaseRequired rfl) nofun)
  obtain ⟨hnever, _⟩ := rejected_unwritten hrejected
  have hall := hnever 1 (.fill 4) .leaseRequired (.fill 1) 0
    (List.mem_append_right _ (List.mem_singleton_self _))
    (List.mem_append_left _ (List.mem_append_right _ (List.mem_singleton_self _)))
  exact ⟨_, List.mem_append_right _ (List.mem_singleton_self _),
    List.mem_append_left _ (List.mem_append_right _ (List.mem_singleton_self _)), hall⟩

/-- The first `k` letters were written, and none of them is settled for the connection. -/
structure Typed (k : Nat) (w : ControlWorld) (h : Hosted) : Prop where
  host : w.sessions (.fill 1) = some h
  info : h.info = tty
  listed : h.listed = true
  clock : h.w.now = 0 ∧ h.w.cancelled = ∅
  alive : h.w.alive = true
  idle : h.w.pc = .select ∧ h.w.calls = [] ∧ h.w.s.writer = []
  running : h.w.s.running = true ∧ h.w.s.closed = false
  lease : h.w.s.input.lease = ⟨1, some ⟨.fill 1, .fill 2, LEASE_TTL⟩⟩
  highest : ∀ s, h.w.s.input.ledger.highest.lookup (.fill 2, 1) = some s → s ≤ k
  unused : ∀ j, k < j → j ≤ 128 → h.w.s.input.ledger.outcomes.lookup (keyId j) = none
  owner : w.p = typist ∧ w.connection = .fill 2
  window : w.now = 0 ∧ w.window = 0 ∧ w.count = k
  out : w.out = []
  children : w.children.length = k ∧ ∀ c ∈ w.children, c.ended = false ∧
    ∃ result, (c.sessionId, c.reply, result) ∈ w.outcomes

theorem counted_eq (h : w.now - w.window < fromSecs 1) :
    w.counted = { w with n := w.n + 1, count := w.count + 1 } := by
  rw [counted, if_neg (Nat.not_le_of_lt h)]

/-- A letter is received. -/
theorem Typed.receive {k : Nat} {h : Hosted} (ht : Typed k w h) (hp : w.pc = .select)
    (hk : k < 128) :
    Run (Step letterText C) w []
      { w with
        n := w.n + 1
        count := k + 1
        pc := .checking (keyDispatch (k + 1) w.now) [] } := by
  obtain ⟨hnow, hwindow, hcount⟩ := ht.window
  have hpoll : Run (Step letterText C) w _ _ := .single (.poll w hp ht.out)
  have hmessage := hpoll.snoc (.message _ (some (keyMessage (k + 1))) rfl)
  have hdata : InputPayload.bytes letterText (.binary "eA==") = some [120] := rfl
  have hcounted : ({ w with pc := .polled } : ControlWorld).counted =
      { w with pc := .polled, n := w.n + 1, count := k + 1 } := by
    rw [counted_eq (by simp only [hnow, hwindow]; decide), hcount]
  have hbusy : ¬ 2000 < k + 1 := by omega
  rw [onMessage.eq_def, hcounted] at hmessage
  simp only [if_neg hbusy, keyMessage, dispatch, hdata] at hmessage
  have hchecked := (hmessage.snoc (.check _ (keyDispatch (k + 1) w.now) .children
    [.session, .generation (.fill 2) 1, .payload true] rfl ?_)).snoc
    (.check _ _ .session [.generation (.fill 2) 1, .payload true] rfl ?_)
  · exact (hchecked.snoc (.check _ _ (.generation (.fill 2) 1) [.payload true] rfl (by
      simp only [check, keyDispatch, ht.host, ht.info, ht.running.1, tty]
      rfl))).snoc (.check _ _ (.payload true) [] rfl rfl)
  · have hfew : ¬ CHILDREN_LIMIT ≤ w.children.length := by
      rw [ht.children.1]
      exact Nat.not_le_of_lt hk
    exact if_neg hfew
  · simp only [check, keyDispatch, ht.host, Option.any_some, ht.listed]
    rfl

/-- A letter is accepted and written before the loop answers. -/
theorem Typed.input {k : Nat} {h : Hosted} (ht : Typed k w h) (hp : w.pc = .select)
    (hk : k < 128) :
    ∃ (u : ControlWorld) (es : List ControlEvent) (h' : Hosted) (reply : Nat),
      Run (Step letterText C) w es u ∧ Typed (k + 1) u h' ∧
        u.pc = .replying (.fill 4) (.accepted (.fill 4) (.fill 1) (keyId (k + 1))) ∧
          .taken u.n (.fill 1) reply ∈ es ∧
            .session (.fill 1) (.pty .data .normal reply [120] true) ∈ es := by
  have hreceived := ht.receive (C := C) hp hk
  obtain ⟨hp, hc⟩ := ht.owner
  obtain ⟨hnow, hcancelled⟩ := ht.clock
  obtain ⟨hselect, hcalls, hempty⟩ := ht.idle
  obtain ⟨hrunning, hclosed⟩ := ht.running
  have hreq : typist.require h.w.cancelled h.w.now .terminalWrite = .ok () := by
    rw [hnow, hcancelled]
    decide
  have hverify : h.w.s.input.lease.verify (.fill 1) (.fill 2) 1 h.w.now = .ok () := by
    rw [hnow, ht.lease]
    decide
  obtain ⟨ledger, henq, hhigh, hnone⟩ := @Session.enqueue_ok h.w.s typist (.fill 2) (keyId (k + 1))
    1 (k + 1) w.now h.w.now h.w.nextReply [120] hverify (by decide)
    ⟨Nat.succ_pos k, by simp only [MAX_JS_INTEGER]; omega⟩
    (ht.unused _ (Nat.lt_succ_self k) hk) (fun top htop => Nat.lt_succ_of_le (ht.highest top htop))
    (by decide) hclosed (by rw [hempty]; decide)
  rw [hempty, List.nil_append] at henq
  have hlocked := hreceived.trans (run_lock (d := keyDispatch (k + 1) w.now) rfl ht.host rfl
    ht.alive hcalls (by rw [hp]; exact hreq) (by rw [hp, hc]; exact henq))
  let job : InputJob := ⟨typist, .fill 2, 1, keyId (k + 1), [120], h.w.nextReply, w.now, false,
    false, false⟩
  let v : World := { h.w with
    calls := []
    s := { h.w.s.setLedger ledger with writer := [job] }
    nextReply := h.w.nextReply + 1 }
  have hpermits : v.Permits job := ⟨hreq, hrunning, hverify⟩
  have hwrite := run_write hpermits hselect ht.alive rfl rfl rfl rfl (List.cons_ne_nil _ _)
    (by decide : ([120] : List UInt8).length ≤ CHUNK)
  have hv := setSession_self w (.fill 1) { h with w := v }
  have hwritten := hlocked.trans
    (run_session (.fill 1) (h := { h with w := v }) hv hwrite ht.alive rfl)
  refine ⟨_, _, { h with w := { v with
    pc := .select, s := { v.s with writer := [] }.finishId job.id "written" } }, h.w.nextReply,
    hwritten, ?_, rfl, ?_, ?_⟩
  · constructor
    · simp only [setSession, Function.update_self]
    · exact ht.info
    · exact ht.listed
    · exact ht.clock
    · exact ht.alive
    · exact ⟨rfl, rfl, rfl⟩
    · exact ht.running
    · exact ht.lease
    · intro top htop
      rw [Session.finishId_highest] at htop
      cases hhigh.symm.trans htop
      exact Nat.le_refl _
    · intro j hj hle
      apply finish_none
      apply hnone
      · intro he
        have heq := keyId_injective hle (Nat.succ_le_of_lt hk) he
        omega
      · exact ht.unused j (by omega) hle
    · exact ⟨hp, hc⟩
    · exact ⟨ht.window.1, ht.window.2.1, rfl⟩
    · exact ht.out
    · obtain ⟨hlen, hall⟩ := ht.children
      refine ⟨?_, fun c hc => ?_⟩
      · exact List.length_append.trans (congrArg (· + 1) hlen)
      · rcases List.mem_append.1 hc with hc | hc
        · obtain ⟨he, result, hr⟩ := hall c hc
          exact ⟨he, result, List.mem_append_left _ hr⟩
        · cases List.mem_singleton.1 hc
          exact ⟨rfl, .ok (), List.mem_append_right _ (List.mem_singleton_self _)⟩
  · exact List.mem_append_left _ (List.mem_cons_of_mem _ (List.mem_singleton_self _))
  · exact List.mem_append_right _ (List.mem_cons_self ..)

/-- A letter is accepted and the connection says so. -/
theorem Typed.next {k : Nat} {h : Hosted} (ht : Typed k w h) (hp : w.pc = .select)
    (hk : k < 128) :
    ∃ (u : ControlWorld) (es : List ControlEvent) (h' : Hosted),
      Run (Step letterText C) w es u ∧ Typed (k + 1) u h' ∧ u.pc = .select := by
  obtain ⟨u, es, h', _, hrun, htyped, hpc, _, _⟩ := ht.input (C := C) hp hk
  have hroom : ¬ OUT_CAPACITY ≤ u.out.length := by
    rw [htyped.out]
    decide
  have hoffer : Step letterText C u _ _ := .offer u _ _ hpc
  rw [offer, trySend, if_neg hroom, htyped.out] at hoffer
  have hsent := (hrun.snoc hoffer).snoc (.recv _ _ [] rfl rfl)
  exact ⟨_, _, h', hsent.snoc (.send _ _ rfl),
    ⟨htyped.host, htyped.info, htyped.listed, htyped.clock, htyped.alive, htyped.idle,
      htyped.running, htyped.lease, htyped.highest, htyped.unused, htyped.owner, htyped.window,
      rfl, htyped.children⟩, rfl⟩

/-- A connection with the lease of a session, before anything is typed. -/
theorem typed_start (auth : Auth) :
    ∃ (w : ControlWorld) (es : List ControlEvent) (h : Hosted),
      Run (Step letterText C) (start auth typist (.fill 2) 0) es w ∧ Typed 0 w h ∧
        w.pc = .select := by
  have hcreate : Run (Step letterText C) (start auth typist (.fill 2) 0) _ _ :=
    .single (.create _ tty rfl)
  have hreq : typist.require ∅ 0 .terminalWrite = .ok () := by decide
  let v : World := { World.init with
    s := World.init.s.setLease ⟨1, some ⟨.fill 1, .fill 2, LEASE_TTL⟩⟩ }
  have hlocked := (Run.single (RemoteCodex.Step.request World.init
    (.acquire typist (.fill 2) false) rfl ⟨hreq, rfl⟩)).snoc (.locked _ [] [] _ rfl)
  have hacquire : Run RemoteCodex.Step World.init [] v := hlocked
  have hrun := hcreate.trans (run_session tty.sessionId
    (setSession_self _ tty.sessionId ⟨tty, true, .init⟩) hacquire rfl rfl)
  refine ⟨_, _, ⟨tty, true, v⟩, hrun, ?_, rfl⟩
  constructor
  · simp only [setSession, tty, Function.update_self]
  · rfl
  · rfl
  · exact ⟨rfl, rfl⟩
  · rfl
  · exact ⟨rfl, rfl, rfl⟩
  · exact ⟨rfl, rfl⟩
  · rfl
  · intro s hs
    cases hs
  · intro j _ _
    rfl
  · exact ⟨rfl, rfl⟩
  · exact ⟨rfl, rfl, rfl⟩
  · rfl
  · exact ⟨rfl, fun c hc => absurd hc List.not_mem_nil⟩

theorem typed_run (auth : Auth) {k : Nat} (hk : k ≤ 128) :
    ∃ (w : ControlWorld) (es : List ControlEvent) (h : Hosted),
      Run (Step letterText C) (start auth typist (.fill 2) 0) es w ∧ Typed k w h ∧
        w.pc = .select := by
  induction k with
  | zero => exact typed_start auth
  | succ k ih =>
    obtain ⟨w, es, h, hrun, ht, hp⟩ := ih (Nat.le_of_succ_le hk)
    obtain ⟨u, fs, h', hrun', hu⟩ := ht.next (C := C) hp hk
    exact ⟨u, _, h', hrun.trans hrun', hu⟩

/-- All completion tasks answer while the reply to the last letter waits for the channel: the
letter was written, and it is rejected. -/
theorem rejected_written :
    ∃ (C : Crypto) (auth : Auth) (w : ControlWorld) (es : List ControlEvent) (n : Nat)
      (r : Uuid) (code : ErrorCode) (id : Uuid) (reply : Nat),
      Run (Step letterText C) (start auth typist (.fill 2) 0) es w ∧
        .rejected n r code ∈ es ∧ .taken n id reply ∈ es ∧
          .session id (.pty .data .normal reply [120] true) ∈ es := by
  let C : Crypto := ⟨fun _ => [], fun _ => none, fun _ => false, fun _ => false, fun _ _ _ => false⟩
  let auth := Auth.new ⟨∅, false⟩ "host" 0
  obtain ⟨w, es, h, hrun, ht, hp⟩ := typed_run (C := C) auth (k := 127) (by decide)
  obtain ⟨u, fs, h', reply, hrun', hu, hpc, htaken, hpty⟩ := ht.input (C := C) hp (by decide)
  obtain ⟨hlen, hall⟩ := hu.children
  obtain ⟨v, hdone, hout, hvpc, hvn⟩ := @run_complete letterText C u u.children []
    (List.nil_append _).symm hall (by rw [hu.out, hlen]; decide)
  rw [hu.out, hlen] at hout
  have hfull : OUT_CAPACITY ≤ v.out.length := Nat.le_of_eq hout.symm
  have hoffer : Step letterText C v _ _ := .offer v _ _ (hvpc.trans hpc)
  rw [offer, trySend, if_pos hfull] at hoffer
  have hend := (((hrun.trans hrun').trans hdone).snoc hoffer).snoc (.reject _ _ _ rfl)
  refine ⟨C, auth, _, _, v.n, .fill 4, .rateLimited, .fill 1, reply, hend, ?_, ?_, ?_⟩
  · exact List.mem_append_right _ (List.mem_singleton_self _)
  · simp only [List.mem_append, hvn, htaken, or_true, true_or]
  · simp only [List.mem_append, hpty, or_true, true_or]

end ControlWorld
end RemoteCodex
