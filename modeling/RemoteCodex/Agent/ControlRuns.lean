import RemoteCodex.Agent.Control

namespace RemoteCodex
set_option autoImplicit true
open Trace

theorem evict_none {limit : Nat} {id : Uuid} (ids : List Uuid)
    (outcomes : AList fun _ : Uuid => String) (h : outcomes.lookup id = none) :
    (InputLedger.evict limit ids outcomes).2.lookup id = none := by
  induction ids generalizing outcomes with
  | nil => exact h
  | cons x ids ih =>
    rw [InputLedger.evict]
    split
    · apply ih
      rw [Table.lookup_erase]
      split
      · rfl
      · exact h
    · exact h

/-- An input that passes the checks of the ledger. -/
theorem acceptLimit_ok {l : InputLedger} {connection id : Uuid} {lease seq bytes max : Nat}
    (hb : 0 < bytes ∧ bytes ≤ max) (hs : 0 < seq ∧ seq ≤ MAX_JS_INTEGER)
    (hid : l.outcomes.lookup id = none)
    (hh : ∀ s, l.highest.lookup (connection, lease) = some s → s < seq) :
    ∃ ledger, l.acceptLimit connection lease id seq bytes max = (.ok (), ledger) ∧
      ledger.highest.lookup (connection, lease) = some seq ∧
      ∀ i ≠ id, l.outcomes.lookup i = none → ledger.outcomes.lookup i = none := by
  rw [InputLedger.acceptLimit, if_neg (by omega), if_neg ?_]
  · refine ⟨_, rfl, AList.lookup_insert _, fun i hi hnone => ?_⟩
    apply evict_none
    rw [Table.lookup_insert, if_neg hi]
    exact hnone
  · rw [hid]
    rintro (h | h)
    · cases h
    · cases hl : l.highest.lookup (connection, lease) with
      | none =>
        rw [hl] at h
        cases h
      | some s =>
        rw [hl, Option.any_some, decide_eq_true_eq] at h
        have hlt := hh s hl
        omega

theorem finish_none {l : InputLedger} {id i : Uuid} {status : String}
    (h : l.outcomes.lookup i = none) : (l.finish id status).outcomes.lookup i = none := by
  rw [InputLedger.finish]
  split
  · rw [AList.lookup_eq_none] at h ⊢
    rwa [AList.mem_replace]
  · exact h

/-- An input that passes all checks is queued. -/
theorem Session.enqueue_ok {s : Session} {p : Principal} {c id : Uuid}
    {lease seq received now reply : Nat} {data : List UInt8}
    (hv : s.input.lease.verify p.clientId c lease now = .ok ())
    (hb : 0 < data.length ∧ data.length ≤ MAX_INPUT) (hs : 0 < seq ∧ seq ≤ MAX_JS_INTEGER)
    (hid : s.input.ledger.outcomes.lookup id = none)
    (hh : ∀ top, s.input.ledger.highest.lookup (c, lease) = some top → top < seq)
    (hp : data ≠ [3]) (hc : s.closed = false) (hw : s.writer.length < WRITER_CAPACITY) :
    ∃ ledger,
      s.enqueue p c lease id seq data received now reply =
        (.ok ⟨p, c, lease, id, data, reply, received, false, false, false⟩,
          { s.setLedger ledger with
            writer := s.writer ++
              [⟨p, c, lease, id, data, reply, received, false, false, false⟩] }) ∧
      ledger.highest.lookup (c, lease) = some seq ∧
      ∀ i ≠ id, s.input.ledger.outcomes.lookup i = none → ledger.outcomes.lookup i = none := by
  obtain ⟨ledger, ha, hhigh, hnone⟩ := acceptLimit_ok hb hs hid hh
  refine ⟨ledger, ?_, hhigh, hnone⟩
  have hroom : ¬ ((s.setLedger ledger).closed = true ∨
      WRITER_CAPACITY ≤ (s.setLedger ledger).writer.length) := by
    rintro (h | h)
    · have hopen : (s.setLedger ledger).closed = false := hc
      rw [hopen] at h
      cases h
    · exact absurd h (Nat.not_le_of_lt hw)
  simp only [enqueue, hv, InputLedger.accept, ha, hp, decide_false, Bool.false_eq_true, ↓reduceIte,
    trySendWriter]
  rw [if_neg hroom]
  rfl

/-- The writer thread inside `write_job`, with a job that is neither a paste nor an interrupt. -/
def World.typing (w : World) (job : InputJob) (rest : List UInt8) (stage : Stage) : World :=
  { w with pc := .writing ⟨job, .normal, rest, false, none, stage⟩ }

/-- The job may be written. -/
structure World.Permits (w : World) (job : InputJob) : Prop where
  require : job.p.require w.cancelled w.now .terminalWrite = .ok ()
  running : w.s.running = true
  lease : w.s.input.lease.verify job.p.clientId job.connection job.epoch w.now = .ok ()

theorem World.Permits.step {w : World} {job : InputJob} (h : w.Permits job)
    (rest : List UInt8) (check : Check) (site : Site) :
    Step (w.typing job rest (.permitted check site)) []
      (w.typing job rest
        (Writing.nextCheck ⟨job, .normal, rest, false, none, .chunk⟩ site check)) := by
  have hs := Step.write (w.typing job rest (.permitted check site)) _ true rfl
  have hcheck : Writing.check ⟨job, .normal, rest, false, none, .permitted check site⟩
      (w.typing job rest (.permitted check site)) check = .ok () := by
    cases check with
    | require => exact h.require
    | running => exact if_pos h.running
    | lease => exact h.lease
  simp only [Writing.step, hcheck] at hs
  exact hs

/-- The three checks of `permitted`. -/
theorem World.Permits.run {w : World} {job : InputJob} (h : w.Permits job)
    (rest : List UInt8) (site : Site) :
    Run Step (w.typing job rest (.permitted .require site)) []
      (w.typing job rest (Writing.onPassed ⟨job, .normal, rest, false, none, .chunk⟩ site)) :=
  ((Run.single (h.step rest .require site)).snoc (h.step rest .running site)).snoc
    (h.step rest .lease site)

/-- A short input in the queue of an idle writer thread is written in one piece. -/
theorem run_write {w : World} {job : InputJob} (h : w.Permits job) (hp : w.pc = .select)
    (ha : w.alive = true) (hn : w.s.writer = [job]) (hb : job.bulk = false)
    (hbr : job.bracketed = false) (he : job.appendEnter = false) (hd : job.data ≠ [])
    (hl : job.data.length ≤ CHUNK) :
    Run Step w [.pty .data .normal job.reply job.data true, .replied job.reply (.ok ())]
      { w with pc := .select, s := { w.s with writer := [] }.finishId job.id "written" } := by
  obtain ⟨byte, bytes, hbytes⟩ := List.exists_cons_of_ne_nil hd
  let v : World := { w with s := { w.s with writer := [] } }
  have hv : v.Permits job := ⟨h.require, h.running, h.lease⟩
  have hstart : Step w [] (v.typing job job.data (.permitted .require .start)) :=
    .selectNormal w job [] hp hn ha
  have hopen := (Run.single hstart).trans (hv.run job.data .start)
  simp only [Writing.onPassed, hbr, Bool.false_eq_true, ↓reduceIte] at hopen
  have hchunk := Step.write (v.typing job job.data .chunk) _ true rfl
  simp only [Writing.step, hbytes, hb, Bool.false_eq_true, ↓reduceIte] at hchunk
  have hpermitted : Step (v.typing job job.data .chunk) []
      (v.typing job job.data (.permitted .require .chunk)) := by
    rw [hbytes]
    exact hchunk
  have hready := (hopen.snoc hpermitted).trans (hv.run job.data .chunk)
  have hwrite := Step.write (v.typing job job.data .write) _ true rfl
  simp only [Writing.step, List.take_of_length_le hl, List.drop_of_length_le hl, ↓reduceIte]
    at hwrite
  have hempty := Step.write (v.typing job [] .chunk) _ true rfl
  have hsuffix := Step.write (v.typing job [] (.suffix (.ok ()))) _ true rfl
  simp only [Writing.step, Writing.afterSuffix, he, Bool.false_eq_true, ↓reduceIte] at hsuffix
  have hfinish := Step.write (v.typing job [] (.finish (.ok ()))) _ true rfl
  exact (((hready.snoc hwrite).snoc hempty).snoc hsuffix).snoc hfinish

theorem Writing.step_alive (w : World) (j : Writing) (io : Bool) :
    (j.step w io).1.alive = w.alive := by
  unfold step
  cases j.stage with
  | permitted check site => simp only; split <;> rfl
  | opening | write => simp only; split <;> rfl
  | chunk =>
    simp only
    split
    · rfl
    · split
      · split <;> rfl
      · rfl
  | suffix result =>
    simp only
    split
    · split <;> rfl
    · rfl
  | enter | finish => rfl

/-- A session that still exists existed before. -/
theorem Step.alive_of {w u : World} {e : List Event} (hs : Step w e u) (h : u.alive = true) :
    w.alive = true := by
  cases hs with
  | dropSession => cases h
  | write j io hp => rwa [Writing.step_alive] at h
  | locked before after call hc => cases call <;> exact h
  | _ => exact h

namespace ControlWorld

variable {decode : String → Option (List UInt8)} {C : Crypto} {w u : ControlWorld}

@[simp] theorem setSession_self (w : ControlWorld) (id : Uuid) (h : Hosted) :
    (w.setSession id h).sessions id = some h := by
  simp only [setSession, Function.update_self]

/-- A session runs while the connection does nothing. -/
theorem run_session (id : Uuid) {h : Hosted} {v : World} {es : List Event}
    (hh : w.sessions id = some h) (hr : Run RemoteCodex.Step h.w es v) (ha : v.alive = true)
    (hp : w.pc.waits w.p w.connection = none) :
    Run (Step decode C) w (es.map (.session id))
      { w.setSession id { h with w := v } with
        outcomes := w.outcomes ++ es.filterMap (Event.outcome? id) } := by
  induction hr with
  | nil =>
    have hsame : w = { w.setSession id h with outcomes := w.outcomes ++ [] } := by
      simp only [setSession, List.append_nil]
      rw [← hh, Function.update_eq_self]
    exact hsame ▸ .nil
  | @snoc fs t e v hr hs ih =>
    have hrun := ih (hs.alive_of ha)
    have hstep := hrun.snoc (.session _ id { h with w := t } e v
      (Function.update_self id _ w.sessions) hs (fun _ => ha) fun call hcall => by
        cases hp.symm.trans hcall)
    simp only [setSession, Function.update_idem, List.append_assoc] at hstep
    rw [List.map_append, List.filterMap_append]
    exact hstep

/-- The completion tasks whose inputs are done send their values. -/
theorem run_complete {todo : List Completion} (before : List Completion)
    (hc : w.children = before ++ todo)
    (ht : ∀ c ∈ todo, c.ended = false ∧ ∃ result, (c.sessionId, c.reply, result) ∈ w.outcomes)
    (hl : w.out.length + todo.length ≤ OUT_CAPACITY) :
    ∃ u, Run (Step decode C) w [] u ∧ u.out.length = w.out.length + todo.length ∧
      u.pc = w.pc ∧ u.n = w.n := by
  induction todo generalizing w before with
  | nil => exact ⟨w, .nil, rfl, rfl, rfl⟩
  | cons c todo ih =>
    obtain ⟨he, result, hr⟩ := ht c (List.mem_cons_self ..)
    have hroom : ¬ OUT_CAPACITY ≤ w.out.length := by
      rw [List.length_cons] at hl
      omega
    have hstep : Step decode C w [] (w.complete before todo c (some result)) :=
      .complete w c before todo result hc he hr
    rw [complete, trySend, if_neg hroom, Option.getD_some] at hstep
    have hlen : (w.out ++ [c.value (some result)]).length = w.out.length + 1 :=
      List.length_append
    rw [List.length_cons] at hl ⊢
    obtain ⟨u, hrun, hsent, hpc, hn⟩ := ih
      (w := { w with
        out := w.out ++ [c.value (some result)]
        children := before ++ { c with ended := true } :: todo })
      (before ++ [{ c with ended := true }]) (List.append_cons ..)
      (fun c hc => ht c (List.mem_cons_of_mem _ hc)) (by rw [hlen]; omega)
    refine ⟨u, (Run.single hstep).trans hrun, ?_, hpc, hn⟩
    rw [hsent, hlen]
    omega

theorem lock_accepted {d : Dispatch} {h : Hosted} {epoch seq received : Nat} {id : Uuid}
    {data : List UInt8} {job : InputJob} {s : Session}
    (ha : d.action = .enqueue epoch id seq data received)
    (hq : h.w.s.enqueue w.p w.connection epoch id seq data received h.w.now h.w.nextReply =
      (.ok job, s)) (calls : List Call) :
    w.lock d h (.enqueue w.p w.connection epoch id seq data received) calls =
      ({ w.setSession d.sessionId
          { h with w := { h.w with calls, s, nextReply := h.w.nextReply + 1 } } with
        children := w.children ++ [⟨d.requestId, d.sessionId, id, h.w.nextReply, false⟩]
        pc := .replying d.requestId (.accepted d.requestId d.sessionId id) },
        [.session d.sessionId (.accepted h.w.nextReply epoch seq job.data),
          .taken w.n d.sessionId h.w.nextReply]) := by
  rw [lock, Dispatch.reply, Dispatch.taken]
  simp only [ha, World.locked, hq]
  rfl

/-- An input passes the session's own tests and its lock. -/
theorem run_lock {d : Dispatch} {h : Hosted} {epoch seq received : Nat} {id : Uuid}
    {data : List UInt8} {job : InputJob} {s : Session} (hp : w.pc = .checking d [])
    (hh : w.sessions d.sessionId = some h) (ha : d.action = .enqueue epoch id seq data received)
    (hl : h.w.alive = true) (hc : h.w.calls = [])
    (hr : w.p.require h.w.cancelled h.w.now .terminalWrite = .ok ())
    (hq : h.w.s.enqueue w.p w.connection epoch id seq data received h.w.now h.w.nextReply =
      (.ok job, s)) :
    Run (Step decode C) w
      [.session d.sessionId (.accepted h.w.nextReply epoch seq job.data),
        .taken w.n d.sessionId h.w.nextReply]
      { w.setSession d.sessionId
          { h with w := { h.w with calls := [], s, nextReply := h.w.nextReply + 1 } } with
        children := w.children ++ [⟨d.requestId, d.sessionId, id, h.w.nextReply, false⟩]
        pc := .replying d.requestId (.accepted d.requestId d.sessionId id) } := by
  have hcall : d.action.call w.p w.connection =
      some (.enqueue w.p w.connection epoch id seq data received) := by
    rw [ha]
    rfl
  have hadmit : d.action.permit h.w w.p = .ok () := by
    rw [ha]
    exact hr
  let h' : Hosted := { h with w := { h.w with
    calls := h.w.calls ++ [.enqueue w.p w.connection epoch id seq data received] } }
  let v : ControlWorld := { w.setSession d.sessionId h' with pc := .locking d }
  have hv : v.sessions d.sessionId = some h' := setSession_self w d.sessionId h'
  have hadmitted : Step decode C w [] v := .permit w d h _ hp hh hcall hl hadmit
  have hcalls : h'.w.calls = [] ++ .enqueue w.p w.connection epoch id seq data received :: [] := by
    simp only [h', hc, List.nil_append]
  have hlocked : Step decode C v _ _ := .locked v d h' _ [] [] rfl hv hcall hcalls
  have hlock : v.lock d h' (.enqueue w.p w.connection epoch id seq data received) ([] ++ []) = _ :=
    lock_accepted (w := v) (h := h') ha hq _
  rw [hlock] at hlocked
  have hrun := (Run.single hadmitted).snoc hlocked
  simp only [v, setSession, Function.update_idem] at hrun
  exact hrun

end ControlWorld
end RemoteCodex
