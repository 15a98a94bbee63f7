import RemoteCodex.Agent.AtMostOnce

namespace RemoteCodex
set_option autoImplicit true
open Trace Delivery

/-- One `write_all` for an input. -/
structure Write where
  part : Part
  bytes : List UInt8
  ok : Bool
  deriving DecidableEq

def Event.writeOf (reply : Nat) : Event → Option Write
  | .pty part _ r bytes ok => if r = reply then some ⟨part, bytes, ok⟩ else none
  | _ => none

/-- What a run handed to the PTY for one input, delimiters included, in order. -/
def writes (reply : Nat) (es : List Event) : List Write := es.filterMap (Event.writeOf reply)

theorem writes_append (r : Nat) (es fs : List Event) :
    writes r (es ++ fs) = writes r es ++ writes r fs := List.filterMap_append

theorem writes_pty : writes r [.pty part queue r bytes ok] = [⟨part, bytes, ok⟩] := by
  unfold writes
  simp only [List.filterMap_cons, Event.writeOf, ↓reduceIte, List.filterMap_nil]

theorem writes_other (h : s ≠ r) : writes r [.pty part queue s bytes ok] = [] := by
  unfold writes
  simp only [List.filterMap_cons, Event.writeOf, if_neg h, List.filterMap_nil]

theorem writes_replied : writes r [.replied s result] = [] := rfl

namespace Writing

/-- What one atomic action of `write_job` does. -/
inductive Action (w : World) (j : Writing) (io : Bool) : List Event → World → Prop where
  | denied (check : Check) (site : Site) (e : ErrorCode) (hs : j.stage = .permitted check site)
      (hc : j.check w check = .error e) : Action w j io [] (goto w j (onDenied e site))
  | passed (check : Check) (site : Site) (hs : j.stage = .permitted check site)
      (hc : j.check w check = .ok ()) : Action w j io [] (goto w j (j.nextCheck site check))
  | opened (hs : j.stage = .opening) (hio : io = true) :
      Action w j io [.pty .opening j.queue j.job.reply pasteOpening io]
        (goto w { j with prefixWritten := true } .chunk)
  | unopened (hs : j.stage = .opening) (hio : io = false) :
      Action w j io [.pty .opening j.queue j.job.reply pasteOpening io]
        (goto w j (.suffix (.error .inputDeliveryUnknown)))
  | last (hs : j.stage = .chunk) (hr : j.rest = []) : Action w j io [] (goto w j (.suffix (.ok ())))
  | interrupted (stop : InputJob) (others : List InputJob) (hs : j.stage = .chunk)
      (hr : j.rest ≠ []) (hb : j.job.bulk = true) (hi : w.s.interrupt = stop :: others) :
      Action w j io [] (goto { w with s := { w.s with interrupt := others } }
        { j with urgent := some stop } (.suffix (.error .inputCanceled)))
  | next (hs : j.stage = .chunk) (hr : j.rest ≠ [])
      (hb : j.job.bulk = true → w.s.interrupt = []) :
      Action w j io [] (goto w j (.permitted .require .chunk))
  | wrote (hs : j.stage = .write) (hio : io = true) :
      Action w j io [.pty .data j.queue j.job.reply (j.rest.take CHUNK) io]
        (goto w { j with rest := j.rest.drop CHUNK } .chunk)
  | unwritten (hs : j.stage = .write) (hio : io = false) :
      Action w j io [.pty .data j.queue j.job.reply (j.rest.take CHUNK) io]
        (goto w j (.suffix (.error .inputDeliveryUnknown)))
  | closed (result : Except ErrorCode Unit) (hs : j.stage = .suffix result)
      (hp : j.prefixWritten = true) (hio : result = .ok () → io = true) :
      Action w j io [.pty .closing j.queue j.job.reply pasteClosing io]
        (goto w j (j.afterSuffix result))
  | unclosed (hs : j.stage = .suffix (.ok ())) (hp : j.prefixWritten = true) (hio : io = false) :
      Action w j io [.pty .closing j.queue j.job.reply pasteClosing io]
        (goto w j (.finish (.error .inputDeliveryUnknown)))
  | bare (result : Except ErrorCode Unit) (hs : j.stage = .suffix result)
      (hp : j.prefixWritten = false) : Action w j io [] (goto w j (j.afterSuffix result))
  | entered (hs : j.stage = .enter) :
      Action w j io [.pty .enter j.queue j.job.reply [13] io]
        (goto w j (.finish (if io then .ok () else .error .inputDeliveryUnknown)))
  | finished (result : Except ErrorCode Unit) (hs : j.stage = .finish result) :
      Action w j io [.replied j.job.reply result]
        { w with
          s := w.s.finishId j.job.id (finishStatus result)
          pc := match j.urgent with
            | some stop => .interrupted stop true
            | none => .select }

theorem step_action (w : World) (j : Writing) (io : Bool) :
    Action w j io (j.step w io).2 (j.step w io).1 := by
  unfold step
  cases hs : j.stage with
  | permitted check site =>
    simp only
    split
    · next e hc => exact .denied check site e hs hc
    · next hc => exact .passed check site hs hc
  | opening =>
    cases io with
    | true => exact .opened hs rfl
    | false => exact .unopened hs rfl
  | chunk =>
    simp only
    split
    · next hr => exact .last hs hr
    · next b rest hr =>
      have hne : j.rest ≠ [] := by
        rw [hr]
        exact List.cons_ne_nil _ _
      split
      · next hb =>
        split
        · next stop others hi => exact .interrupted stop others hs hne hb hi
        · next hi => exact .next hs hne fun _ => hi
      · next hb => exact .next hs hne fun h => absurd h hb
  | write =>
    cases io with
    | true => exact .wrote hs rfl
    | false => exact .unwritten hs rfl
  | suffix result =>
    simp only
    split
    · next hp =>
      split
      · exact .unclosed hs hp rfl
      · next hne =>
        apply Action.closed result hs hp
        intro hok
        cases io with
        | true => rfl
        | false => exact (hne hok rfl).elim
    · next hp => exact .bare result hs (Bool.eq_false_of_not_eq_true hp)
  | enter => exact .entered hs
  | finish result => exact .finished result hs

/-- What is written next is the same job. -/
theorem Action.job (h : Action w j io fs u) (hu : u.pc = .writing j') : j'.job = j.job := by
  cases h with
  | finished result hs =>
    simp only at hu
    split at hu <;> cases hu
  | denied | passed | opened | unopened | last | interrupted | next | wrote | unwritten | closed
  | unclosed | bare | entered =>
    cases hu
    rfl

theorem Action.writes_self (h : Action w j io fs u) : ∀ r, writes r fs ≠ [] → r = j.job.reply := by
  intro r hr
  cases h with
  | denied | passed | last | interrupted | next | bare | finished => exact absurd rfl hr
  | opened | unopened | wrote | unwritten | closed | unclosed | entered =>
    apply Classical.byContradiction
    intro hne
    exact hr (writes_other (Ne.symm hne))

end Writing

namespace Delivery

/-- The inputs in flight. -/
def jobs (d : Delivery) : List InputJob := d.waiting ++ (d.current.map Current.job).toList

theorem Fades.job (h : Fades c c') :
    (c'.map Current.job).toList.Sublist (c.map Current.job).toList := by
  cases h with
  | same => exact .refl _
  | late => exact .refl _
  | gone => exact List.nil_sublist _

/-- The inputs in flight after an action were so before, or one was accepted. -/
theorem Move.jobs (h : Move d es d') :
    (d'.jobs.Subperm d.jobs ∧ d'.waiting ⊆ d.waiting) ∨
      ∃ job epoch seq, es = [.accepted job.reply epoch seq job.data] ∧
        d'.jobs.Perm (job :: d.jobs) ∧ d'.waiting.Perm (job :: d.waiting) := by
  cases h with
  | less _ _ hn ho hc hq =>
    have hw : d'.waiting.Subperm d.waiting := hn.sublist.subperm.append ho
    exact .inl ⟨hw.append hc.job.subperm, hw.subset⟩
  | acceptNormal job epoch seq =>
    have hw : (d.normal ++ [job] ++ d.others).Perm (job :: d.waiting) := by
      rw [List.append_assoc]
      exact List.perm_middle
    exact .inr ⟨job, epoch, seq, rfl, hw.append_right _, hw⟩
  | acceptPriority job epoch seq others ho =>
    have hw : (d.normal ++ others).Perm (job :: d.waiting) :=
      (ho.append_left d.normal).trans List.perm_middle
    exact .inr ⟨job, epoch, seq, rfl, hw.append_right _, hw⟩
  | startNormal job normal hn =>
    have hw : d.waiting = job :: (normal ++ d.others) := by
      unfold waiting
      rw [hn, List.cons_append]
    have hjobs : (normal ++ d.others ++ [job]).Subperm d.jobs := by
      unfold Delivery.jobs
      rw [hw]
      exact (List.perm_append_singleton _ _).subperm.trans (List.sublist_append_left ..).subperm
    refine .inl ⟨hjobs, ?_⟩
    rw [hw]
    exact List.subset_cons_self ..
  | startInterrupt job others ho =>
    have hw : d.waiting.Perm (job :: (d.normal ++ others)) :=
      (ho.append_left d.normal).trans List.perm_middle
    have hjobs : (d.normal ++ others ++ [job]).Subperm d.jobs :=
      ((List.perm_append_singleton _ _).trans hw.symm).subperm.trans
        (List.sublist_append_left ..).subperm
    exact .inl ⟨hjobs, fun _ hx => hw.mem_iff.2 (List.mem_cons_of_mem _ hx)⟩
  | chunk job queue rest ok hc =>
    left
    unfold Delivery.jobs
    rw [hc]
    exact ⟨List.Subperm.refl _, List.Subset.refl _⟩

end Delivery

theorem locked_writes (w : World) (call : Call) : writes r (w.locked call).2 = [] := by
  cases call with
  | acquire | renew | release => rfl
  | enqueue | enqueuePaste =>
    simp only [World.locked, acceptEvents]
    split <;> rfl

theorem locked_pc (w : World) (call : Call) : (w.locked call).1.pc = w.pc := by
  cases call <;> rfl

/-- Only `write_job` hands bytes of inputs over. -/
theorem Step.emits (hs : Step w e u) :
    (∀ r, writes r e = []) ∨ ∃ j io, w.pc = .writing j ∧ Writing.Action w j io e u := by
  cases hs with
  | write j io hp => exact .inr ⟨j, io, hp, j.step_action w io⟩
  | locked before after call hc => exact .inl fun r => locked_writes ..
  | tick | cancel | request | revokeConnection | revokeClient | revokeAll | stopRunning
  | signalStop | query | dropSession | selectStop | selectInterrupt | selectQuery | selectNormal
  | selectLost | cancelQueued | startInterrupt | loseInterrupt | drainNormal | drainedNormal
  | drainInterrupt | drainedInterrupt | exit => exact .inl fun _ => rfl

theorem Step.writes (hs : Step w e u) (hr : writes r e ≠ []) :
    ∃ j, w.pc = .writing j ∧ r = j.job.reply := by
  rcases hs.emits with hnone | ⟨j, io, hp, ha⟩
  · exact absurd (hnone r) hr
  · exact ⟨j, hp, ha.writes_self r hr⟩

/-- How the writer thread comes to write a job: it did so before, or it takes a waiting one. -/
inductive Onward (w : World) (e : List Event) (u : World) (j' : Writing) : Prop where
  | same (hp : w.pc = .writing j') (hw : ∀ r, RemoteCodex.writes r e = [])
  | action (j : Writing) (io : Bool) (hp : w.pc = .writing j) (ha : Writing.Action w j io e u)
  | begun (job : InputJob) (queue : Queue) (hb : j' = beginWriting job queue)
      (hj : job ∈ w.delivery.waiting) (he : e = [])

theorem Step.onward (hs : Step w e u) (hu : u.pc = .writing j') : Onward w e u j' := by
  cases hs with
  | write j io hp => exact .action j io hp (j.step_action w io)
  | selectNormal job others hp hn ha =>
    cases hu
    apply Onward.begun job .normal rfl _ rfl
    apply List.mem_append_left
    rw [World.delivery, hn]
    exact List.mem_cons_self ..
  | startInterrupt job held hp hn ha =>
    cases hu
    apply Onward.begun job .interrupt rfl _ rfl
    apply List.mem_append_right
    rw [World.delivery, hp]
    exact List.mem_append_right _ (List.mem_singleton_self _)
  | locked before after call hc =>
    rw [locked_pc] at hu
    exact .same hu fun r => locked_writes ..
  | tick | cancel | request | revokeConnection | revokeClient | revokeAll | stopRunning
  | signalStop | query | dropSession | cancelQueued => exact .same hu fun _ => rfl
  | selectQuery bytes others io hp | selectLost job others hp | drainNormal job others hp
  | drainInterrupt job others hp => cases hp.symm.trans hu
  | selectStop | selectInterrupt | loseInterrupt | drainedNormal | drainedInterrupt | exit =>
    cases hu

/-- The input that an accepted call puts into a queue. -/
inductive Call.Makes : Call → InputJob → Prop where
  | enqueue {id : Uuid} : Makes (.enqueue p c lease id seq data received)
      ⟨p, c, lease, id, data, reply, received, false, false, false⟩
  | enqueuePaste {id : Uuid} :
    Makes (.enqueuePaste p c lease id seq text bracketed appendEnter received)
      ⟨p, c, lease, id, Session.replaceLf (Session.replaceCrLf text), reply, received, true,
        bracketed, appendEnter⟩

/-- The queues after an enqueue: only Ctrl+C goes to the interrupts. -/
inductive Session.Queued (s : Session) (now : Nat) (s' : Session) : Option InputJob → Prop where
  | none (hw : s'.writer = s.writer) (hi : s'.interrupt = s.interrupt) : Queued s now s' none
  | normal (job : InputJob) (hw : s'.writer = s.writer ++ [job]) (hi : s'.interrupt = s.interrupt)
      (hl : s'.input.lease = s.input.lease)
      (hv : s.input.lease.verify job.p.clientId job.connection job.epoch now = .ok ()) :
      Queued s now s' (some job)
  | priority (job : InputJob) (hw : s'.writer = s.writer)
      (hi : s'.interrupt = s.interrupt ++ [job]) (hd : job.data = [3])
      (hl : s'.input.lease = s.input.lease)
      (hv : s.input.lease.verify job.p.clientId job.connection job.epoch now = .ok ()) :
      Queued s now s' (some job)

theorem Session.enqueue_queued (s : Session) (p : Principal) (c : Uuid) (lease : Nat) (id : Uuid)
    (seq : Nat) (data : List UInt8) (received now reply : Nat) :
    ∃ made, s.Queued now (s.enqueue p c lease id seq data received now reply).2 made ∧
      ∀ job, made = some job → Call.Makes (.enqueue p c lease id seq data received) job := by
  have hnone {s' : Session} (hw : s'.writer = s.writer) (hi : s'.interrupt = s.interrupt) :
      ∃ made, s.Queued now s' made ∧
        ∀ job, made = some job → Call.Makes (.enqueue p c lease id seq data received) job :=
    ⟨none, .none hw hi, nofun⟩
  unfold enqueue
  split
  · exact hnone rfl rfl
  · next hv =>
    split
    · exact hnone rfl rfl
    · next ledger ha =>
      simp only
      split
      · exact hnone rfl rfl
      · next s' hs =>
        refine ⟨some ⟨p, c, lease, id, data, reply, received, false, false, false⟩, ?_, ?_⟩
        rotate_left
        · intro job hj
          cases hj
          exact .enqueue
        by_cases hp : data = [3]
        · simp only [hp, decide_true, ↓reduceIte, trySendInterrupt] at hs
          split at hs
          · cases hs
          · cases hs
            exact .priority _ rfl (by rw [hp]; rfl) hp rfl hv
        · simp only [hp, decide_false, Bool.false_eq_true, ↓reduceIte, trySendWriter] at hs
          split at hs
          · cases hs
          · cases hs
            exact .normal _ rfl rfl rfl hv

theorem Session.enqueuePaste_queued (s : Session) (p : Principal) (c : Uuid) (lease : Nat)
    (id : Uuid) (seq : Nat) (text : List UInt8) (bracketed appendEnter : Bool)
    (received now reply : Nat) :
    ∃ made, s.Queued now
        (s.enqueuePaste p c lease id seq text bracketed appendEnter received now reply).2 made ∧
      ∀ job, made = some job →
        Call.Makes (.enqueuePaste p c lease id seq text bracketed appendEnter received) job := by
  have hnone {s' : Session} (hw : s'.writer = s.writer) (hi : s'.interrupt = s.interrupt) :
      ∃ made, s.Queued now s' made ∧ ∀ job, made = some job →
        Call.Makes (.enqueuePaste p c lease id seq text bracketed appendEnter received) job :=
    ⟨none, .none hw hi, nofun⟩
  unfold enqueuePaste
  simp only
  split
  · exact hnone rfl rfl
  · next hv =>
    split
    · exact hnone rfl rfl
    · next ledger ha =>
      split
      · exact hnone rfl rfl
      · next s' hs =>
        refine ⟨some ⟨p, c, lease, id, replaceLf (replaceCrLf text), reply, received, true,
          bracketed, appendEnter⟩, ?_, ?_⟩
        rotate_left
        · intro job hj
          cases hj
          exact .enqueuePaste
        unfold trySendWriter at hs
        split at hs
        · cases hs
        · cases hs
          exact .normal _ rfl rfl rfl hv

/-- What the locked section of a call does to the queues. -/
theorem World.locked_queued (w : World) (call : Call) :
    ∃ made, w.s.Queued w.now (w.locked call).1.s made ∧
      ∀ job, made = some job → call.Makes job := by
  cases call with
  | acquire | renew | release => exact ⟨none, .none rfl rfl, nofun⟩
  | enqueue => exact Session.enqueue_queued ..
  | enqueuePaste => exact Session.enqueuePaste_queued ..

/-- An input that a step accepted. -/
structure Arrives (w u : World) (job : InputJob) : Prop where
  made : ∃ call ∈ w.calls, call.Makes job
  verified : w.s.input.lease.verify job.p.clientId job.connection job.epoch w.now = .ok ()
  lease : u.s.input.lease = w.s.input.lease
  jobs : u.delivery.jobs ⊆ job :: w.delivery.jobs
  others : ∀ x ∈ u.delivery.others, x ∈ w.delivery.others ∨ x.data = [3]

theorem Delivery.Move.quiet (h : Move d es d') (hq : accepts es = []) :
    d'.jobs ⊆ d.jobs ∧ d'.others ⊆ d.others := by
  have hjobs : d'.jobs ⊆ d.jobs := by
    rcases h.jobs with ⟨hj, -⟩ | ⟨job, epoch, seq, rfl, -, -⟩
    · exact hj.subset
    · cases hq
  refine ⟨hjobs, ?_⟩
  cases h with
  | less _ _ hn ho hc hq => exact ho.subset
  | acceptNormal | acceptPriority => cases hq
  | startNormal | chunk => exact List.Subset.refl _
  | startInterrupt job others ho => exact fun _ hx => ho.mem_iff.2 (List.mem_cons_of_mem _ hx)

/-- A step keeps the inputs in flight, or one arrives. -/
theorem Step.arrivals (hs : Step w e u) :
    (u.delivery.jobs ⊆ w.delivery.jobs ∧ u.delivery.others ⊆ w.delivery.others) ∨
      ∃ job, Arrives w u job := by
  have hm := hs.move
  cases hs with
  | locked before after call hc =>
    obtain ⟨made, hq, hmakes⟩ := World.locked_queued { w with calls := before ++ after } call
    generalize hu : ({ w with calls := before ++ after }.locked call).1 = u at hm hq ⊢
    have hpc : u.pc = w.pc := by
      rw [← hu]
      exact locked_pc ..
    have hcall : call ∈ w.calls := by
      rw [hc]
      exact List.mem_append_right _ (List.mem_cons_self ..)
    cases hq with
    | none hw hi =>
      left
      unfold World.delivery
      simp only at hw hi
      rw [hw, hi, hpc]
      exact ⟨List.Subset.refl _, List.Subset.refl _⟩
    | normal job hw hi hl hv =>
      right
      refine ⟨job, ⟨call, hcall, hmakes job rfl⟩, hv, hl, ?_, ?_⟩
      · unfold World.delivery Delivery.jobs Delivery.waiting
        simp only at hw hi
        rw [hw, hi, hpc]
        intro x hx
        simp only [List.mem_append, List.mem_cons] at hx ⊢
        tauto
      · unfold World.delivery
        simp only at hw hi
        rw [hi, hpc]
        exact fun x hx => .inl hx
    | priority job hw hi hd hl hv =>
      right
      refine ⟨job, ⟨call, hcall, hmakes job rfl⟩, hv, hl, ?_, ?_⟩
      · unfold World.delivery Delivery.jobs Delivery.waiting
        simp only at hw hi
        rw [hw, hi, hpc]
        intro x hx
        simp only [List.mem_append, List.mem_cons] at hx ⊢
        tauto
      · unfold World.delivery
        simp only at hw hi
        rw [hi, hpc]
        intro x hx
        simp only [List.mem_append, List.mem_singleton] at hx ⊢
        rcases hx with (hx | rfl) | hx
        · exact .inl (.inl hx)
        · exact .inr hd
        · exact .inl (.inr hx)
  | write j io hp => exact .inl (hm.quiet (List.filterMap_eq_nil_iff.2 (j.step_input w io).2.2.2))
  | tick | cancel | request | revokeConnection | revokeClient | revokeAll | stopRunning
  | signalStop | query | dropSession | selectStop | selectInterrupt | selectQuery | selectNormal
  | selectLost | cancelQueued | startInterrupt | loseInterrupt | drainNormal | drainedNormal
  | drainInterrupt | drainedInterrupt | exit => exact .inl (hm.quiet rfl)

/-- The inputs in flight against the bytes handed to the PTY so far. -/
structure Handed (es : List Event) (d : Delivery) : Prop where
  known : ∀ job ∈ d.jobs, ∃ a ∈ accepts es, a.reply = job.reply
  untouched : ∀ job ∈ d.waiting, writes job.reply es = []
  distinct : (d.jobs.map InputJob.reply).Nodup
  seen : ∀ r, writes r es ≠ [] → ∃ a ∈ accepts es, a.reply = r

namespace Handed

theorem init : Handed [] World.init.delivery where
  known := fun _ hj => (List.not_mem_nil hj).elim
  untouched := fun _ hj => (List.not_mem_nil hj).elim
  distinct := List.nodup_nil
  seen := fun _ hr => absurd rfl hr

theorem current_mem {c : Current} {d : Delivery} (hc : d.current = some c) : c.job ∈ d.jobs := by
  unfold Delivery.jobs
  rw [hc]
  exact List.mem_append_right _ (List.mem_singleton_self _)

theorem waiting_mem {job : InputJob} {d : Delivery} (hj : job ∈ d.waiting) : job ∈ d.jobs :=
  List.mem_append_left _ hj

/-- An input in flight is known by its channel. -/
theorem unique (h : Handed es d) (ha : a ∈ d.jobs) (hb : b ∈ d.jobs) (hr : a.reply = b.reply) :
    a = b := List.inj_on_of_nodup_map h.distinct ha hb hr

/-- What waits is not being written. -/
theorem apart (h : Handed es d) (hj : job ∈ d.waiting) (hc : d.current = some c) :
    job.reply ≠ c.job.reply := by
  have hd := h.distinct
  unfold Delivery.jobs at hd
  rw [hc, List.map_append] at hd
  have hdis := List.disjoint_of_nodup_append hd
  intro heq
  exact hdis (List.mem_map_of_mem hj) (List.mem_singleton.2 heq)

theorem move (h : Handed es d) (hm : Move d fs d')
    (hr : (accepts (es ++ fs)).Pairwise fun a b => a.reply < b.reply)
    (hw : ∀ r, writes r fs ≠ [] → ∃ c, d.current = some c ∧ r = c.job.reply) :
    Handed (es ++ fs) d' := by
  have hgrow {p : Accepted → Prop} (ha : ∃ a ∈ accepts es, p a) :
      ∃ a ∈ accepts (es ++ fs), p a := by
    obtain ⟨a, ha, hp⟩ := ha
    rw [accepts_append]
    exact ⟨a, List.mem_append_left _ ha, hp⟩
  have huntouched : ∀ job ∈ d.waiting, writes job.reply (es ++ fs) = [] := by
    intro job hj
    rw [writes_append, h.untouched job hj, List.nil_append]
    apply Classical.byContradiction
    intro hne
    obtain ⟨c, hc, hreply⟩ := hw _ hne
    exact h.apart hj hc hreply
  have hseen : ∀ r, writes r (es ++ fs) ≠ [] → ∃ a ∈ accepts (es ++ fs), a.reply = r := by
    intro r hne
    rw [writes_append] at hne
    apply hgrow
    by_cases hold : writes r es = []
    · rw [hold, List.nil_append] at hne
      obtain ⟨c, hc, rfl⟩ := hw r hne
      exact h.known _ (current_mem hc)
    · exact h.seen r hold
  rcases hm.jobs with ⟨hj, hwait⟩ | ⟨job, epoch, seq, rfl, hj, hwait⟩
  · refine ⟨?_, fun job hm => huntouched job (hwait hm), ?_, hseen⟩
    · exact fun job hm => hgrow (h.known job (hj.subset hm))
    · obtain ⟨l, hp, hl⟩ := hj
      have hn : (l.map InputJob.reply).Nodup := h.distinct.sublist (hl.map _)
      exact (hp.map _).nodup_iff.1 hn
  · have hacc : accepts (es ++ [.accepted job.reply epoch seq job.data]) =
        accepts es ++ [⟨job.reply, epoch, seq, job.data⟩] := accepts_append es _
    have hfresh : ∀ a ∈ accepts es, a.reply ≠ job.reply := by
      intro a ha
      rw [hacc] at hr
      exact Nat.ne_of_lt ((List.pairwise_append.1 hr).2.2 a ha _ (List.mem_singleton_self _))
    refine ⟨?_, ?_, ?_, hseen⟩
    · intro job' hm
      rcases List.mem_cons.1 (hj.mem_iff.1 hm) with rfl | hm
      · rw [hacc]
        exact ⟨_, List.mem_append_right _ (List.mem_singleton_self _), rfl⟩
      · exact hgrow (h.known job' hm)
    · intro job' hm
      rcases List.mem_cons.1 (hwait.mem_iff.1 hm) with rfl | hm
      · rw [writes_append]
        apply Classical.byContradiction
        intro hne
        obtain ⟨a, ha, har⟩ := h.seen job'.reply fun hnil => hne (by rw [hnil]; rfl)
        exact hfresh a ha har
      · exact huntouched job' hm
    · apply (hj.map InputJob.reply).nodup_iff.2
      rw [List.map_cons]
      refine List.nodup_cons.2 ⟨?_, h.distinct⟩
      intro hm
      obtain ⟨other, ho, hreply⟩ := List.mem_map.1 hm
      obtain ⟨a, ha, har⟩ := h.known other ho
      exact hfresh a ha (har.trans hreply)

theorem step (h : Handed es w.delivery) (hk : Keyed (es ++ e) u) (hs : Step w e u) :
    Handed (es ++ e) u.delivery := by
  apply h.move hs.move (hk.order.imp And.left)
  intro r hr
  obtain ⟨j, hp, hreply⟩ := hs.writes hr
  refine ⟨j.current, ?_, hreply⟩
  simp only [World.delivery, hp]
  rfl

theorem run (h : Run Step World.init es w) : Handed es w.delivery := by
  have hboth : Keyed es w ∧ Handed es w.delivery := by
    apply h.invariant (I := fun es w => Keyed es w ∧ Handed es w.delivery)
    · exact ⟨.nil _ _ _, .init⟩
    · exact fun hi hs => ⟨hi.1.step hs, hi.2.step (hi.1.step hs) hs⟩
  exact hboth.2

end Handed

end RemoteCodex
