import RemoteCodex.Agent.JobWrites

namespace RemoteCodex
set_option autoImplicit true
open Trace Delivery

namespace InputJob

def opening (job : InputJob) : List UInt8 := if job.bracketed then pasteOpening else []

def closing (job : InputJob) : List UInt8 := if job.bracketed then pasteClosing else []

/-- All bytes of an input, in the order in which the PTY should get them. -/
def bytes (job : InputJob) : List UInt8 :=
  job.opening ++ job.data ++ job.closing ++ if job.appendEnter then [13] else []

end InputJob

/-- The writes all succeeded, and are these bytes. -/
def Sent (ws : List Write) (bytes : List UInt8) : Prop :=
  (∀ x ∈ ws, x.ok = true) ∧ ws.flatMap Write.bytes = bytes

theorem Sent.nil : Sent [] [] := ⟨fun _ hx => (List.not_mem_nil hx).elim, rfl⟩

theorem Sent.snoc (h : Sent ws bytes) (part : Part) (more : List UInt8) :
    Sent (ws ++ [⟨part, more, true⟩]) (bytes ++ more) := by
  constructor
  · intro x hx
    rcases List.mem_append.1 hx with hx | hx
    · exact h.1 x hx
    · rw [List.mem_singleton.1 hx]
  · rw [List.flatMap_append, h.2, List.flatMap_singleton]

/-- An error other than `InputDeliveryUnknown` tells that nothing was written, and a success that
all was. -/
def Truthful (es : List Event) (job : InputJob) : Except ErrorCode Unit → Prop
  | .ok () => Sent (writes job.reply es) job.bytes
  | .error e => e = .inputDeliveryUnknown ∨ writes job.reply es = []

/-- Something of the job has been handed over. -/
def Writing.begun (j : Writing) : Bool := j.prefixWritten || decide (j.rest ≠ j.job.data)

/-- No check fails, and no interrupt stops a paste, once something has been handed over. -/
structure Careful (w : World) : Prop where
  check : ∀ j check site, w.pc = .writing j → j.begun = true → j.stage = .permitted check site →
    j.check w check = .ok ()
  interrupt : ∀ j, w.pc = .writing j → j.begun = true → j.stage = .chunk → j.rest ≠ [] →
    j.job.bulk = true → w.s.interrupt = []

def CarefulStep (w : World) (e : List Event) (u : World) : Prop := Step w e u ∧ Careful w

/-- These bytes were handed over; none unless the local variables tell so. -/
def Out (es : List Event) (j : Writing) (bytes : List UInt8) : Prop :=
  Sent (writes j.job.reply es) bytes ∧ (j.begun = false → writes j.job.reply es = [])

/-- The data before `rest` was handed over. -/
def Streamed (es : List Event) (j : Writing) : Prop :=
  j.prefixWritten = j.job.bracketed ∧
    ∃ done, done ++ j.rest = j.job.data ∧ Out es j (j.job.opening ++ done)

/-- What was handed over at each stage of `write_job`. -/
def Honest (es : List Event) (j : Writing) : Prop :=
  match j.stage with
  | .permitted _ .start =>
    writes j.job.reply es = [] ∧ j.rest = j.job.data ∧ j.prefixWritten = false
  | .opening =>
    writes j.job.reply es = [] ∧ j.rest = j.job.data ∧ j.job.bracketed = true
  | .chunk => Streamed es j
  | .permitted _ .chunk | .write => j.rest ≠ [] ∧ Streamed es j
  | .suffix (.ok ()) =>
    j.prefixWritten = j.job.bracketed ∧ Out es j (j.job.opening ++ j.job.data)
  | .suffix (.error e) =>
    e = .inputDeliveryUnknown ∨ writes j.job.reply es = [] ∧ j.prefixWritten = false
  | .permitted _ .enter | .enter =>
    j.job.appendEnter = true ∧ Out es j (j.job.opening ++ j.job.data ++ j.job.closing)
  | .finish result => Truthful es j.job result

namespace Honest
variable {w u : World} {j j' : Writing} {io : Bool}

/-- A check that fails although nothing was handed over. -/
theorem denied (h : Honest es j) (hs : j.stage = .permitted check site)
    (hb : j.begun = false) (e : ErrorCode) :
    Honest es { j with stage := Writing.onDenied e site } := by
  have hprefix : j.prefixWritten = false := (Bool.or_eq_false_iff.1 hb).1
  unfold Honest at h
  rw [hs] at h
  cases site with
  | start => exact .inr ⟨h.1, h.2.2⟩
  | chunk =>
    obtain ⟨-, -, done, -, hout⟩ := h
    exact .inr ⟨hout.2 hb, hprefix⟩
  | enter => exact .inr (h.2.2 hb)

theorem passed (h : Honest es j) (hs : j.stage = .permitted check site) :
    Honest es { j with stage := j.nextCheck site check } := by
  unfold Honest at h
  rw [hs] at h
  cases check with
  | require | running =>
    cases site with
    | start => exact h
    | chunk => exact h
    | enter => exact h
  | lease =>
    cases site with
    | start =>
      obtain ⟨hnone, hrest, hp⟩ := h
      cases hbr : j.job.bracketed with
      | true =>
        have hstage : j.nextCheck .start .lease = .opening := if_pos hbr
        rw [hstage]
        exact ⟨hnone, hrest, hbr⟩
      | false =>
        have hoff : j.job.bracketed ≠ true := by
          rw [hbr]
          exact Bool.false_ne_true
        have hstage : j.nextCheck .start .lease = .chunk := if_neg hoff
        have hopening : j.job.opening ++ [] = [] := by
          rw [List.append_nil]
          exact if_neg hoff
        rw [hstage]
        refine ⟨hp.trans hbr.symm, [], hrest, ?_, fun _ => hnone⟩
        show Sent (writes j.job.reply es) (j.job.opening ++ [])
        rw [hnone, hopening]
        exact .nil
    | chunk => exact h
    | enter => exact h

theorem begun_of_drop (hdone : done ++ j.rest = j.job.data) (hne : j.rest ≠ []) :
    { j with rest := j.rest.drop CHUNK, stage }.begun = true := by
  have hlen : (j.rest.drop CHUNK).length < j.job.data.length := by
    have hpos := List.length_pos_of_ne_nil hne
    have hchunk : 0 < CHUNK := by decide
    rw [List.length_drop, ← hdone, List.length_append]
    omega
  have hrest : j.rest.drop CHUNK ≠ j.job.data := fun heq => Nat.ne_of_lt hlen (by rw [heq])
  unfold Writing.begun
  rw [decide_eq_true hrest, Bool.or_true]

/-- The data and its delimiters were handed over. -/
theorem ended (hall : Out es j (j.job.opening ++ j.job.data ++ j.job.closing)) :
    Honest es { j with stage := j.afterSuffix (.ok ()) } := by
  cases he : j.job.appendEnter with
  | true =>
    have hstage : j.afterSuffix (.ok ()) = .permitted .require .enter := if_pos he
    rw [hstage]
    exact ⟨he, hall⟩
  | false =>
    have hoff : j.job.appendEnter ≠ true := by
      rw [he]
      exact Bool.false_ne_true
    have hstage : j.afterSuffix (.ok ()) = .finish (.ok ()) := if_neg hoff
    have hbytes : j.job.bytes = j.job.opening ++ j.job.data ++ j.job.closing := by
      unfold InputJob.bytes
      rw [if_neg hoff, List.append_nil]
    rw [hstage]
    show Sent (writes j.job.reply es) j.job.bytes
    rw [hbytes]
    exact hall.1

theorem bare (h : Honest es j) (hs : j.stage = .suffix result) (hp : j.prefixWritten = false) :
    Honest es { j with stage := j.afterSuffix result } := by
  unfold Honest at h
  rw [hs] at h
  cases result with
  | error e => exact h.imp_right And.left
  | ok a =>
    cases a
    obtain ⟨hbr, hout⟩ := h
    apply ended
    have hclosing : j.job.closing = [] := by
      apply if_neg
      rw [← hbr, hp]
      exact Bool.false_ne_true
    rw [hclosing, List.append_nil]
    exact hout

theorem closed (h : Honest es j) (hs : j.stage = .suffix result) (hp : j.prefixWritten = true)
    (hw : result = .ok () → writes j.job.reply fs = [⟨.closing, pasteClosing, true⟩]) :
    Honest (es ++ fs) { j with stage := j.afterSuffix result } := by
  unfold Honest at h
  rw [hs] at h
  cases result with
  | error e =>
    left
    rcases h with h | ⟨-, hno⟩
    · exact h
    · rw [hp] at hno
      cases hno
  | ok a =>
    cases a
    obtain ⟨hbr, hout⟩ := h
    apply ended
    have hclosing : j.job.closing = pasteClosing := if_pos (hbr ▸ hp)
    have hbegun : j.begun = true := by
      unfold Writing.begun
      rw [hp, Bool.true_or]
    constructor
    · rw [hclosing, writes_append, hw rfl]
      exact hout.1.snoc .closing pasteClosing
    · intro hno
      rw [hbegun] at hno
      cases hno

/-- What one action makes of what was handed over. -/
theorem action {j : Writing} (h : Honest es j) (hc : Careful w) (hp : w.pc = .writing j)
    (ha : Writing.Action w j io fs u) (hu : u.pc = .writing j') : Honest (es ++ fs) j' := by
  cases ha with
  | denied check site e hs hcheck =>
    cases hu
    rw [List.append_nil]
    apply h.denied hs
    apply Bool.eq_false_of_not_eq_true
    intro hb
    rw [hc.check j check site hp hb hs] at hcheck
    cases hcheck
  | passed check site hs hcheck =>
    cases hu
    rw [List.append_nil]
    exact h.passed hs
  | opened hs hio =>
    cases hu
    unfold Honest at h
    rw [hs] at h
    obtain ⟨hnone, hrest, hbr⟩ := h
    have hopening : j.job.opening ++ [] = [] ++ pasteOpening := by
      rw [List.append_nil]
      exact if_pos hbr
    have hsent : Sent (writes j.job.reply es) [] := by
      rw [hnone]
      exact .nil
    refine ⟨hbr.symm, [], hrest, ?_, fun hno => nomatch hno⟩
    show Sent (writes j.job.reply (es ++ _)) (j.job.opening ++ [])
    rw [hopening, hio, writes_append, writes_pty]
    exact hsent.snoc .opening pasteOpening
  | unopened hs hio | unwritten hs hio | unclosed hs hpre hio =>
    cases hu
    exact .inl rfl
  | last hs hr =>
    cases hu
    unfold Honest at h
    rw [hs] at h
    obtain ⟨hbr, done, hdone, hout⟩ := h
    rw [hr, List.append_nil] at hdone
    rw [List.append_nil]
    exact ⟨hbr, hdone ▸ hout⟩
  | interrupted stop others hs hr hb hi =>
    cases hu
    have hnot : j.begun = false := by
      apply Bool.eq_false_of_not_eq_true
      intro hbegun
      rw [hc.interrupt j hp hbegun hs hr hb] at hi
      cases hi
    unfold Honest at h
    rw [hs] at h
    obtain ⟨-, done, -, hout⟩ := h
    rw [List.append_nil]
    exact .inr ⟨hout.2 hnot, (Bool.or_eq_false_iff.1 hnot).1⟩
  | next hs hr hb =>
    cases hu
    unfold Honest at h
    rw [hs] at h
    rw [List.append_nil]
    exact ⟨hr, h⟩
  | wrote hs hio =>
    cases hu
    unfold Honest at h
    rw [hs] at h
    obtain ⟨hne, hbr, done, hdone, hout⟩ := h
    refine ⟨hbr, done ++ j.rest.take CHUNK, ?_, ?_, fun hno => ?_⟩
    · show done ++ j.rest.take CHUNK ++ j.rest.drop CHUNK = j.job.data
      rw [List.append_assoc, List.take_append_drop, hdone]
    · show Sent (writes j.job.reply (es ++ _)) (j.job.opening ++ (done ++ j.rest.take CHUNK))
      rw [hio, writes_append, writes_pty, ← List.append_assoc]
      exact hout.1.snoc .data _
    · cases (begun_of_drop hdone hne).symm.trans hno
  | closed result hs hpre hio =>
    cases hu
    apply h.closed hs hpre
    intro hok
    rw [hio hok]
    exact writes_pty
  | bare result hs hpre =>
    cases hu
    rw [List.append_nil]
    exact h.bare hs hpre
  | entered hs =>
    cases hu
    unfold Honest at h
    rw [hs] at h
    obtain ⟨hen, hout⟩ := h
    cases io with
    | false => exact .inl rfl
    | true =>
      have hbytes : j.job.bytes = j.job.opening ++ j.job.data ++ j.job.closing ++ [13] := by
        unfold InputJob.bytes
        rw [if_pos hen]
      show Sent (writes j.job.reply (es ++ _)) j.job.bytes
      rw [hbytes, writes_append, writes_pty]
      exact hout.1.snoc .enter [13]
  | finished result hs =>
    simp only at hu
    split at hu <;> cases hu

/-- Only the writes of the job itself matter. -/
theorem quiet (h : Honest es j) (hw : writes j.job.reply fs = []) : Honest (es ++ fs) j := by
  have heq : writes j.job.reply (es ++ fs) = writes j.job.reply es := by
    rw [writes_append, hw, List.append_nil]
  unfold Honest Streamed Out Truthful at h ⊢
  rw [heq]
  exact h

theorem begin (job : InputJob) (queue : Queue) (hw : writes job.reply es = []) :
    Honest es (beginWriting job queue) := ⟨hw, rfl, rfl⟩

theorem step (h : ∀ j, w.pc = .writing j → Honest es j) (hh : Handed es w.delivery)
    (hs : CarefulStep w e u) : ∀ j, u.pc = .writing j → Honest (es ++ e) j := by
  intro j' hu
  cases hs.1.onward hu with
  | same hp hw => exact (h j' hp).quiet (hw _)
  | action j io hp ha => exact (h j hp).action hs.2 hp ha hu
  | begun job queue hb hj he =>
    rw [hb, he, List.append_nil]
    exact begin job queue (hh.untouched job hj)

theorem run (h : Run CarefulStep World.init es w) : ∀ j, w.pc = .writing j → Honest es j := by
  have hboth : Keyed es w ∧ Handed es w.delivery ∧ ∀ j, w.pc = .writing j → Honest es j := by
    apply h.invariant (I := fun es w => Keyed es w ∧ Handed es w.delivery ∧
      ∀ j, w.pc = .writing j → Honest es j)
    · exact ⟨.nil _ _ _, .init, fun j hj => nomatch hj⟩
    · rintro es w e u ⟨hk, hh, hhonest⟩ hs
      exact ⟨hk.step hs.1, hh.step (hk.step hs.1) hs.1, step hhonest hh hs⟩
  exact hboth.2.2

end Honest

theorem Writing.Action.replied (h : Action w j io es u) (hr : .replied r result ∈ es) :
    j.stage = .finish result ∧ r = j.job.reply ∧ es = [.replied r result] := by
  cases h with
  | finished result' hs =>
    cases List.mem_singleton.1 hr
    exact ⟨hs, rfl, rfl⟩
  | denied | passed | last | interrupted | next | bare => exact (List.not_mem_nil hr).elim
  | opened | unopened | wrote | unwritten | closed | unclosed | entered =>
    cases List.mem_singleton.1 hr

theorem locked_unreplied (w : World) (call : Call) : .replied r result ∉ (w.locked call).2 := by
  intro hr
  cases call with
  | acquire | renew | release => exact List.not_mem_nil hr
  | enqueue | enqueuePaste =>
    simp only [World.locked, acceptEvents] at hr
    split at hr
    · cases List.mem_singleton.1 hr
    · exact List.not_mem_nil hr

/-- The places where the writer thread completes an input: at the end of `write_job`, or with an
error for one that waits. -/
theorem Step.replied (hs : Step w e u) (hr : .replied r result ∈ e) :
    (∃ j, w.pc = .writing j ∧ j.stage = .finish result ∧ r = j.job.reply ∧
      e = [.replied r result]) ∨
    ∃ job ∈ w.delivery.waiting, ∃ code, r = job.reply ∧ result = .error code ∧
      e = [.replied r result] ∧
      (code = .inputCanceled → job ∈ w.s.writer ∧ ∃ i held, w.pc = .interrupted i held) := by
  have hwaits {job : InputJob} {code : ErrorCode}
      (hj : job ∈ w.s.writer ∨ job ∈ w.s.interrupt ++ w.pc.held)
      (hc : code = .inputCanceled → job ∈ w.s.writer ∧ ∃ i held, w.pc = .interrupted i held)
      (he : .replied r result ∈ [Event.replied job.reply (.error code)]) :
      ∃ job' ∈ w.delivery.waiting, ∃ code', r = job'.reply ∧ result = .error code' ∧
        [Event.replied job.reply (.error code)] = [.replied r result] ∧
        (code' = .inputCanceled →
          job' ∈ w.s.writer ∧ ∃ i held, w.pc = .interrupted i held) := by
    cases List.mem_singleton.1 he
    exact ⟨job, List.mem_append.2 hj, code, rfl, rfl, rfl, hc⟩
  cases hs with
  | write j io hp =>
    left
    obtain ⟨hs, he⟩ := (j.step_action w io).replied hr
    exact ⟨j, hp, hs, he⟩
  | locked before after call hc => exact (locked_unreplied _ call hr).elim
  | selectLost job others hp hn | drainNormal job others hp hn =>
    right
    have hj : job ∈ w.s.writer := by
      rw [hn]
      exact List.mem_cons_self ..
    exact hwaits (.inl hj) ErrorCode.noConfusion hr
  | cancelQueued job pending held others hp hn =>
    right
    have hj : pending ∈ w.s.writer := by
      rw [hn]
      exact List.mem_cons_self ..
    exact hwaits (.inl hj) (fun _ => ⟨hj, job, held, hp⟩) hr
  | loseInterrupt job held hp hn ha =>
    right
    have hj : job ∈ w.s.interrupt ++ w.pc.held := by
      rw [hp]
      exact List.mem_append_right _ (List.mem_singleton_self _)
    exact hwaits (.inr hj) ErrorCode.noConfusion hr
  | drainInterrupt job others hp hi =>
    right
    have hj : job ∈ w.s.interrupt ++ w.pc.held := by
      rw [hi]
      exact List.mem_cons_self ..
    exact hwaits (.inr hj) ErrorCode.noConfusion hr
  | selectQuery => cases List.mem_singleton.1 hr
  | tick | cancel | request | revokeConnection | revokeClient | revokeAll | stopRunning
  | signalStop | query | dropSession | selectStop | selectInterrupt | selectNormal
  | startInterrupt | drainedNormal | drainedInterrupt | exit => exact (List.not_mem_nil hr).elim

/-- Replies are truthful in every run in which a job that has begun is not stopped by a check or
by an interrupt. -/
theorem replies_truthful (h : Run CarefulStep World.init es w) (hs : Step w e u)
    (hj : job ∈ w.delivery.jobs) (hr : .replied job.reply result ∈ e) :
    Truthful (es ++ e) job result := by
  have hh : Handed es w.delivery := .run (h.imp And.left)
  rcases hs.replied hr with ⟨j, hp, hstage, hreply, rfl⟩ | ⟨other, ho, code, hreply, rfl, rfl, -⟩
  · have hcurrent : w.delivery.current = some j.current := by
      simp only [World.delivery, hp]
      rfl
    obtain rfl : job = j.job := hh.unique hj (Handed.current_mem hcurrent) hreply
    have hhonest := Honest.run h j hp
    unfold Honest at hhonest
    rw [hstage] at hhonest
    unfold Truthful at hhonest ⊢
    rw [writes_append, writes_replied, List.append_nil]
    exact hhonest
  · right
    rw [writes_append, writes_replied, List.append_nil, hreply]
    exact hh.untouched other ho

theorem Careful.idle (hp : w.pc = .select) : Careful w where
  check := fun _ _ _ h => nomatch hp.symm.trans h
  interrupt := fun _ h => nomatch hp.symm.trans h

theorem Careful.fresh (hp : w.pc = .writing j) (hb : j.begun = false) : Careful w where
  check := by
    intro j' check site h hbegun
    cases hp.symm.trans h
    rw [hb] at hbegun
    cases hbegun
  interrupt := by
    intro j' h hbegun
    cases hp.symm.trans h
    rw [hb] at hbegun
    cases hbegun

theorem Careful.through (hp : w.pc = .writing j) (hr : j.rest = [])
    (hs : ∀ check site, j.stage ≠ .permitted check site) : Careful w where
  check := by
    intro j' check site h _ hstage
    cases hp.symm.trans h
    exact absurd hstage (hs check site)
  interrupt := by
    intro j' h _ _ hne
    cases hp.symm.trans h
    exact absurd hr hne

def writingPrincipal : Principal := ⟨.fill 1, [.terminalWrite], 100, 7⟩

theorem writingPrincipal_require :
    writingPrincipal.require ∅ 0 .terminalWrite = .ok () := by decide

def typedJob : InputJob :=
  ⟨writingPrincipal, .fill 2, 1, .fill 9, [120], 0, 0, false, false, false⟩

/-- One byte is typed and written. -/
theorem replies_truthful_typed : ∃ es w job e u, Run CarefulStep World.init es w ∧ Step w e u ∧
    .replied job.reply (.ok ()) ∈ e ∧ job.data = [120] ∧ Truthful (es ++ e) job (.ok ()) := by
  have hrequest : CarefulStep World.init [] _ :=
    ⟨.request _ (.acquire writingPrincipal (.fill 2) false) rfl ⟨writingPrincipal_require, rfl⟩,
      .idle rfl⟩
  have hacquired := (Run.single hrequest).snoc ⟨.locked _ [] [] _ rfl, .idle rfl⟩
  have haccepted := (hacquired.snoc
    ⟨.request _ (.enqueue writingPrincipal (.fill 2) 1 (.fill 9) 1 [120] 0) rfl
      writingPrincipal_require, .idle rfl⟩).snoc ⟨.locked _ [] [] _ rfl, .idle rfl⟩
  have hstarted := haccepted.snoc ⟨.selectNormal _ _ _ rfl rfl rfl, .idle rfl⟩
  have hallowed := ((hstarted.snoc ⟨.write _ _ true rfl, .fresh rfl rfl⟩).snoc
    ⟨.write _ _ true rfl, .fresh rfl rfl⟩).snoc ⟨.write _ _ true rfl, .fresh rfl rfl⟩
  have hagain := (((hallowed.snoc ⟨.write _ _ true rfl, .fresh rfl rfl⟩).snoc
    ⟨.write _ _ true rfl, .fresh rfl rfl⟩).snoc ⟨.write _ _ true rfl, .fresh rfl rfl⟩).snoc
    ⟨.write _ _ true rfl, .fresh rfl rfl⟩
  have hdone := ((hagain.snoc ⟨.write _ _ true rfl, .fresh rfl rfl⟩).snoc
    ⟨.write _ _ true rfl, .through rfl rfl nofun⟩).snoc
    ⟨.write _ _ true rfl, .through rfl rfl nofun⟩
  have hreply := replies_truthful hdone (.write _ _ true rfl) (List.mem_singleton_self typedJob)
    (List.mem_singleton_self (Event.replied typedJob.reply (.ok ())))
  exact ⟨_, _, typedJob, _, _, hdone, .write _ _ true rfl, .head _, rfl, hreply⟩

/-- The lease is lost between the last chunk and the carriage return. -/
theorem replies_untruthful : ¬ ∀ es w e u job result, Run Step World.init es w → Step w e u →
    job ∈ w.delivery.jobs → .replied job.reply result ∈ e → Truthful (es ++ e) job result := by
  intro h
  have hacquired := (Run.single (Step.request World.init
    (.acquire writingPrincipal (.fill 2) false) rfl ⟨writingPrincipal_require, rfl⟩)).snoc
    (.locked _ [] [] _ rfl)
  have haccepted := (hacquired.snoc (.request _
    (.enqueuePaste writingPrincipal (.fill 2) 1 (.fill 9) 1 [120] false true 0) rfl
    ⟨writingPrincipal_require, rfl⟩)).snoc (.locked _ [] [] _ rfl)
  have hstarted := haccepted.snoc (.selectNormal _ _ _ rfl rfl rfl)
  have hallowed := ((hstarted.snoc (.write _ _ true rfl)).snoc (.write _ _ true rfl)).snoc
    (.write _ _ true rfl)
  have hwritten := ((((hallowed.snoc (.write _ _ true rfl)).snoc (.write _ _ true rfl)).snoc
    (.write _ _ true rfl)).snoc (.write _ _ true rfl)).snoc (.write _ _ true rfl)
  have hended := (hwritten.snoc (.write _ _ true rfl)).snoc (.write _ _ true rfl)
  have hlost := hended.snoc (.revokeAll _)
  have hdenied := ((hlost.snoc (.write _ _ true rfl)).snoc (.write _ _ true rfl)).snoc
    (.write _ _ true rfl)
  have hreply := h _ _ _ _ _ (.error .leaseRequired) hdenied (.write _ _ true rfl) (.head _)
    (.head _)
  rcases hreply with hunknown | hnothing
  · cases hunknown
  · cases hnothing

end RemoteCodex
