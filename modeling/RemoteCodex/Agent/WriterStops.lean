import RemoteCodex.Agent.WriterReplies

namespace RemoteCodex
set_option autoImplicit true
open Trace Delivery

/-- No holder of this epoch can write any more. -/
def Over (w : World) (epoch : Nat) : Prop :=
  epoch ≤ w.s.input.lease.epoch ∧
    (w.s.input.lease.epoch = epoch → ∀ o, w.s.input.lease.owner = some o → o.untilTime ≤ w.now)

/-- What a step does to what the checks look at. -/
structure Ages (w u : World) : Prop where
  lease : w.s.input.lease.Change w.now u.s.input.lease
  now : w.now ≤ u.now
  cancelled : w.cancelled ⊆ u.cancelled

theorem Session.Enqueued.lease (h : Session.Enqueued s c epoch seq reply r s') :
    s'.input.lease = s.input.lease := by
  cases h with
  | refused => rfl
  | full s' ha | normal s' job ha | priority s' job ha => exact ha.lease_eq

theorem Writing.Action.ages {w u : World} {j : Writing} {io : Bool} (h : Action w j io fs u) :
    Ages w u := by
  have hkeep (u : World) (hl : u.s.input.lease = w.s.input.lease) (hn : u.now = w.now)
      (hc : u.cancelled = w.cancelled) : Ages w u :=
    ⟨hl ▸ .keep, Nat.le_of_eq hn.symm, hc ▸ Finset.Subset.refl _⟩
  cases h with
  | denied | passed | opened | unopened | last | interrupted | next | wrote | unwritten | closed
  | unclosed | bare | entered | finished => exact hkeep _ rfl rfl rfl

theorem Step.ages (hs : Step w e u) : Ages w u := by
  have hkeep (u : World) (hl : u.s.input.lease = w.s.input.lease) (hn : w.now ≤ u.now)
      (hc : w.cancelled ⊆ u.cancelled) : Ages w u := ⟨hl ▸ .keep, hn, hc⟩
  cases hs with
  | tick d => exact hkeep _ rfl (Nat.le_add_right ..) (Finset.Subset.refl _)
  | cancel t => exact hkeep _ rfl (Nat.le_refl _) (Finset.subset_insert ..)
  | revokeConnection id =>
    exact ⟨Lease.revokeConnection_change .., Nat.le_refl _, Finset.Subset.refl _⟩
  | revokeClient id => exact ⟨Lease.revokeClient_change .., Nat.le_refl _, Finset.Subset.refl _⟩
  | revokeAll => exact ⟨.drop, Nat.le_refl _, Finset.Subset.refl _⟩
  | locked before after call hc =>
    cases call with
    | acquire => exact ⟨Lease.acquire_change rfl, Nat.le_refl _, Finset.Subset.refl _⟩
    | renew => exact ⟨Lease.renew_change rfl, Nat.le_refl _, Finset.Subset.refl _⟩
    | release => exact ⟨Lease.release_change rfl, Nat.le_refl _, Finset.Subset.refl _⟩
    | enqueue =>
      exact hkeep _ (Session.enqueue_spec ..).lease (Nat.le_refl _) (Finset.Subset.refl _)
    | enqueuePaste =>
      exact hkeep _ (Session.enqueuePaste_spec ..).lease (Nat.le_refl _) (Finset.Subset.refl _)
  | write j io hp => exact (j.step_action w io).ages
  | cancelQueued job pending held others hp hn =>
    refine hkeep _ ?_ (Nat.le_refl _) (Finset.Subset.refl _)
    simp only
    split <;> rfl
  | request | stopRunning | signalStop | query | dropSession | selectStop
  | selectInterrupt | selectQuery | selectNormal | selectLost | startInterrupt | loseInterrupt
  | drainNormal | drainedNormal | drainInterrupt | drainedInterrupt | exit =>
    exact hkeep _ rfl (Nat.le_refl _) (Finset.Subset.refl _)

theorem Over.step (h : Over w epoch) (hs : Step w e u) : Over u epoch := by
  have ha := hs.ages
  refine ⟨Nat.le_trans h.1 ha.lease.epoch_le, fun he o' ho' => ?_⟩
  have heq : u.s.input.lease.epoch = w.s.input.lease.epoch := by
    have hle := h.1
    have hmono := ha.lease.epoch_le
    omega
  obtain ⟨o, ho, -, -, hsame | hlive⟩ := ha.lease.owner_of_epoch heq ho'
  · rw [hsame]
    exact Nat.le_trans (h.2 (heq ▸ he) o ho) ha.now
  · exact absurd hlive (Nat.not_lt.2 (h.2 (heq ▸ he) o ho))

theorem Over.verify (h : Over w epoch) (client connection : Uuid) :
    w.s.input.lease.verify client connection epoch w.now ≠ .ok () := by
  intro hv
  obtain ⟨o, ho, hlive, -, -, he⟩ := (Lease.verify_eq_ok ..).1 hv
  exact absurd hlive (Nat.not_lt.2 (h.2 he o ho))

/-- A job of this principal and this epoch may not write any more. -/
def Stopped (w : World) (p : Principal) (epoch : Nat) : Prop :=
  p.require w.cancelled w.now .terminalWrite ≠ .ok () ∨ Over w epoch

theorem Stopped.step (h : Stopped w p epoch) (hs : Step w e u) : Stopped u p epoch := by
  rcases h with hreq | hover
  · left
    have ha := hs.ages
    intro hok
    apply hreq
    rw [Principal.require_eq_ok] at hok ⊢
    exact ⟨fun hc => hok.1 (ha.cancelled hc), Nat.lt_of_le_of_lt ha.now hok.2.1, hok.2.2⟩
  · exact .inr (hover.step hs)

/-- The inputs in flight belong to the holders of their epochs. -/
def Owned (w : World) : Prop := ∀ job ∈ w.delivery.jobs, job.epoch ≤ w.s.input.lease.epoch ∧
  ∀ o, w.s.input.lease.owner = some o → w.s.input.lease.epoch = job.epoch →
    o.client = job.p.clientId ∧ o.connection = job.connection

theorem Owned.step (h : Owned w) (hs : Step w e u) : Owned u := by
  have ha := hs.ages
  have hold (job : InputJob) (hj : job ∈ w.delivery.jobs) : job.epoch ≤ u.s.input.lease.epoch ∧
      ∀ o, u.s.input.lease.owner = some o → u.s.input.lease.epoch = job.epoch →
        o.client = job.p.clientId ∧ o.connection = job.connection := by
    obtain ⟨hle, howner⟩ := h job hj
    refine ⟨Nat.le_trans hle ha.lease.epoch_le, fun o' ho' he => ?_⟩
    have heq : u.s.input.lease.epoch = w.s.input.lease.epoch := by
      have hmono := ha.lease.epoch_le
      omega
    obtain ⟨o, ho, hclient, hconnection, -⟩ := ha.lease.owner_of_epoch heq ho'
    rw [hclient, hconnection]
    exact howner o ho (heq ▸ he)
  rcases hs.arrivals with ⟨hjobs, -⟩ | ⟨new, hnew⟩
  · exact fun job hj => hold job (hjobs hj)
  · intro job hj
    rcases List.mem_cons.1 (hnew.jobs hj) with rfl | hj
    · obtain ⟨o, ho, -, hclient, hconnection, he⟩ := (Lease.verify_eq_ok ..).1 hnew.verified
      rw [hnew.lease]
      refine ⟨Nat.le_of_eq he.symm, fun o' ho' _ => ?_⟩
      cases ho.symm.trans ho'
      exact ⟨hclient, hconnection⟩
    · exact hold job hj

theorem Owned.run (h : Run Step World.init es w) : Owned w := by
  apply h.preserves _ Owned.step
  exact fun _ hj => (List.not_mem_nil hj).elim

/-- The principal or the lease of the job fails its check. -/
def Fails (w : World) (job : InputJob) : Prop :=
  job.p.require w.cancelled w.now .terminalWrite ≠ .ok () ∨
    w.s.input.lease.verify job.p.clientId job.connection job.epoch w.now ≠ .ok ()

theorem Fails.unowned (h : w.s.input.lease.owner = none) : Fails w job := by
  right
  unfold Lease.verify
  rw [h]
  exact nofun

/-- A check that fails for a job in flight fails for good, and for all jobs like it. -/
theorem Fails.stopped (h : Fails w job) (ho : Owned w) (hj : job ∈ w.delivery.jobs) :
    Stopped w job.p job.epoch := by
  rcases h with hreq | hv
  · exact .inl hreq
  · right
    obtain ⟨hle, howner⟩ := ho job hj
    refine ⟨hle, fun he o hown => ?_⟩
    obtain ⟨hclient, hconnection⟩ := howner o hown he
    apply Classical.byContradiction
    intro hlive
    apply hv
    rw [Lease.verify_eq_ok]
    exact ⟨o, hown, Nat.lt_of_not_le hlive, hclient, hconnection, he⟩

/-- One write of `write_job` other than the closing delimiter. -/
def Write.Single (x : Write) : Prop :=
  (x.part = .opening ∧ x.bytes = pasteOpening) ∨ (x.part = .data ∧ x.bytes.length ≤ CHUNK) ∨
    (x.part = .enter ∧ x.bytes = [13])

/-- At most one write, and then the closing delimiter. -/
def Bounded (ws : List Write) : Prop := ∃ a b, ws = a ++ b ∧ a.length ≤ 1 ∧ b.length ≤ 1 ∧
  (∀ x ∈ a, x.Single) ∧ ∀ x ∈ b, x.part = .closing ∧ x.bytes = pasteClosing

theorem Bounded.nil : Bounded [] :=
  ⟨[], [], rfl, Nat.zero_le _, Nat.zero_le _, fun _ hx => (List.not_mem_nil hx).elim,
    fun _ hx => (List.not_mem_nil hx).elim⟩

theorem Bounded.single (h : x.Single) : Bounded [x] :=
  ⟨[x], [], rfl, Nat.le_refl _, Nat.zero_le _, fun _ hx => List.mem_singleton.1 hx ▸ h,
    fun _ hx => (List.not_mem_nil hx).elim⟩

theorem Bounded.close (h : Bounded ws) (hne : ∀ x ∈ ws, x.part ≠ .closing)
    (hx : x.part = .closing ∧ x.bytes = pasteClosing) : Bounded (ws ++ [x]) := by
  obtain ⟨a, b, rfl, ha, -, hsingle, hclosing⟩ := h
  have hb : b = [] := by
    apply List.eq_nil_iff_forall_not_mem.2
    intro y hy
    exact hne y (List.mem_append_right _ hy) (hclosing y hy).1
  rw [hb, List.append_nil]
  exact ⟨a, [x], rfl, ha, Nat.le_refl _, hsingle, fun y hy => List.mem_singleton.1 hy ▸ hx⟩

/-- The next check of the job will fail before it writes anything. -/
def Barred (w : World) (j : Writing) : Prop :=
  match j.stage with
  | .opening | .write | .enter => False
  | .permitted .running _ | .permitted .lease _ => Over w j.job.epoch
  | _ => True

/-- The closing delimiter comes no more. -/
def Stage.past : Stage → Bool
  | .permitted _ .enter | .enter | .finish _ => true
  | _ => false

/-- What a job that may not write any more has written since. -/
def Ending (ws : List Write) (w : World) (j : Writing) : Prop :=
  ws = [] ∨ (Barred w j ∧ (j.stage.past = false → ∀ x ∈ ws, x.part ≠ .closing))

namespace Ending
variable {w u : World} {j j' : Writing} {io : Bool}

theorem past_onDenied (site : Site) (e : ErrorCode) :
    (Writing.onDenied e site).past = (Stage.permitted check site).past := by
  cases site <;> rfl

theorem past_nextCheck (j : Writing) (site : Site) (check check' : Check) :
    (j.nextCheck site check).past = (Stage.permitted check' site).past := by
  cases check with
  | require | running => cases site <;> rfl
  | lease =>
    cases site with
    | start =>
      simp only [Writing.nextCheck, Writing.onPassed]
      split <;> rfl
    | chunk | enter => rfl

theorem past_afterSuffix (j : Writing) (result : Except ErrorCode Unit) :
    (j.afterSuffix result).past = true := by
  cases result with
  | ok a =>
    cases a
    simp only [Writing.afterSuffix]
    split <;> rfl
  | error e => rfl

theorem barred_afterSuffix (j : Writing) (result : Except ErrorCode Unit) :
    Barred u { j with stage := j.afterSuffix result } := by
  cases result with
  | ok a =>
    cases a
    simp only [Barred, Writing.afterSuffix]
    cases j.job.appendEnter <;> trivial
  | error e => trivial

theorem barred_onDenied (j : Writing) (site : Site) (e : ErrorCode) :
    Barred u { j with stage := Writing.onDenied e site } := by
  cases site <;> trivial

/-- A check that passes leaves only the lease to stop the job. -/
theorem barred_nextCheck (hs : j.stage = .permitted check site)
    (hst : Stopped w j.job.p j.job.epoch) (hb : Barred w j) (hc : j.check w check = .ok ()) :
    Barred w { j with stage := j.nextCheck site check } := by
  unfold Barred at hb
  rw [hs] at hb
  cases check with
  | require => exact hst.resolve_left fun hno => hno hc
  | running => exact hb
  | lease => exact absurd hc (hb.verify _ _)

/-- One action of the job. -/
theorem action (h : Ending ws w j) (hb : Bounded ws) (hst : Stopped w j.job.p j.job.epoch)
    (ha : Writing.Action w j io fs u) :
    Bounded (ws ++ writes j.job.reply fs) ∧
      ∀ j', u.pc = .writing j' → Ending (ws ++ writes j.job.reply fs) u j' := by
  -- the stages that write are not barred, so nothing was written before
  have hfirst (hno : ¬ Barred w j) : ws = [] := h.resolve_right fun hr => hno hr.1
  have hquiet (hfs : writes j.job.reply fs = []) (j' : Writing) (hu : u.pc = .writing j')
      (hbar : Barred w j → Barred u j') (hpast : j'.stage.past = false → j.stage.past = false) :
      Bounded (ws ++ writes j.job.reply fs) ∧
        ∀ j', u.pc = .writing j' → Ending (ws ++ writes j.job.reply fs) u j' := by
    rw [hfs, List.append_nil]
    refine ⟨hb, fun j'' hu' => ?_⟩
    cases hu.symm.trans hu'
    exact h.imp_right fun hr => ⟨hbar hr.1, fun hp => hr.2 (hpast hp)⟩
  have hwrote (part : Part) (bytes : List UInt8) (hno : ¬ Barred w j)
      (hfs : fs = [.pty part j.queue j.job.reply bytes io])
      (hsingle : (Write.mk part bytes io).Single) (hpart : part ≠ .closing) (j' : Writing)
      (hu : u.pc = .writing j') (hbar : Barred u j') :
      Bounded (ws ++ writes j.job.reply fs) ∧
        ∀ j', u.pc = .writing j' → Ending (ws ++ writes j.job.reply fs) u j' := by
    rw [hfirst hno, List.nil_append, hfs, writes_pty]
    refine ⟨.single hsingle, fun j'' hu' => ?_⟩
    cases hu.symm.trans hu'
    exact .inr ⟨hbar, fun _ x hx => List.mem_singleton.1 hx ▸ hpart⟩
  have hclosed {result : Except ErrorCode Unit} (hs : j.stage = .suffix result)
      (hfs : fs = [.pty .closing j.queue j.job.reply pasteClosing io]) (j' : Writing)
      (hu : u.pc = .writing j') (hbar : Barred u j') (hpast : j'.stage.past = true) :
      Bounded (ws ++ writes j.job.reply fs) ∧
        ∀ j', u.pc = .writing j' → Ending (ws ++ writes j.job.reply fs) u j' := by
    rw [hfs, writes_pty]
    refine ⟨?_, fun j'' hu' => ?_⟩
    · rcases h with rfl | ⟨-, hopen⟩
      · exact Bounded.nil.close (fun _ hx => (List.not_mem_nil hx).elim) ⟨rfl, rfl⟩
      · exact hb.close (hopen (by rw [hs]; rfl)) ⟨rfl, rfl⟩
    · cases hu.symm.trans hu'
      right
      refine ⟨hbar, fun hp => ?_⟩
      rw [hpast] at hp
      cases hp
  cases ha with
  | denied check site e hs hc =>
    apply hquiet rfl _ rfl (fun _ => barred_onDenied j site e)
    intro hp
    rw [hs, ← past_onDenied site e]
    exact hp
  | passed check site hs hc =>
    apply hquiet rfl _ rfl fun hbar => barred_nextCheck hs hst hbar hc
    intro hp
    rw [hs, ← past_nextCheck j site check]
    exact hp
  | opened hs hio | unopened hs hio =>
    apply hwrote .opening pasteOpening _ rfl (.inl ⟨rfl, rfl⟩) Part.noConfusion _ rfl trivial
    unfold Barred
    rw [hs]
    exact id
  | last hs hr | interrupted stop others hs hr hbulk hi | next hs hr hbulk =>
    apply hquiet rfl _ rfl (fun _ => trivial)
    intro _
    rw [hs]
    rfl
  | wrote hs hio | unwritten hs hio =>
    apply hwrote .data _ _ rfl (.inr (.inl ⟨rfl, List.length_take_le ..⟩)) Part.noConfusion _ rfl
      trivial
    unfold Barred
    rw [hs]
    exact id
  | closed result hs hp hio =>
    exact hclosed hs rfl _ rfl (barred_afterSuffix j result) (past_afterSuffix j result)
  | unclosed hs hp hio => exact hclosed hs rfl _ rfl trivial rfl
  | bare result hs hp =>
    apply hquiet rfl _ rfl (fun _ => barred_afterSuffix j result)
    intro hpast
    rw [past_afterSuffix] at hpast
    cases hpast
  | entered hs =>
    apply hwrote .enter [13] _ rfl (.inr (.inr ⟨rfl, rfl⟩)) Part.noConfusion _ rfl trivial
    unfold Barred
    rw [hs]
    exact id
  | finished result hs =>
    rw [writes_replied, List.append_nil]
    refine ⟨hb, fun j' hu => ?_⟩
    simp only at hu
    split at hu <;> cases hu

theorem age (h : Ending ws w j) (hover : Over w j.job.epoch → Over u j.job.epoch) :
    Ending ws u j := by
  apply h.imp_right
  rintro ⟨hbar, hopen⟩
  refine ⟨?_, hopen⟩
  unfold Barred at hbar ⊢
  split at hbar
  · exact hbar
  · exact hbar
  · exact hbar
  · exact hover hbar
  · exact hover hbar
  · exact trivial

end Ending

/-- No other input gets the channel of an accepted one. -/
theorem Step.same {job : InputJob} (hs : Step w e u) (hk : Keyed (es ++ e) u)
    (ha : ∃ a ∈ accepts es, a.reply = job.reply)
    (h : ∀ x ∈ w.delivery.jobs, x.reply = job.reply → x = job) :
    ∀ x ∈ u.delivery.jobs, x.reply = job.reply → x = job := by
  intro x hx hreply
  rcases hs.move.jobs with ⟨hjobs, -⟩ | ⟨new, epoch, seq, rfl, hperm, -⟩
  · exact h x (hjobs.subset hx) hreply
  · rcases List.mem_cons.1 (hperm.mem_iff.1 hx) with rfl | hx
    · obtain ⟨a, ha, har⟩ := ha
      have horder := hk.order
      rw [accepts_append] at horder
      have hlt := ((List.pairwise_append.1 horder).2.2 a ha _ (List.mem_singleton_self _)).1
      exact absurd (har.trans hreply.symm) (Nat.ne_of_lt hlt)
    · exact h x hx hreply

/-- A job that may not write any more, since a moment of the run. -/
structure Stopping (job : InputJob) (fs : List Event) (w : World) : Prop where
  stopped : Stopped w job.p job.epoch
  same : ∀ x ∈ w.delivery.jobs, x.reply = job.reply → x = job
  bounded : Bounded (writes job.reply fs)
  ending : ∀ j, w.pc = .writing j → j.job = job → Ending (writes job.reply fs) w j

theorem current_mem {w : World} (hp : w.pc = .writing j) : j.job ∈ w.delivery.jobs := by
  have hcurrent : w.delivery.current = some j.current := by
    rw [World.delivery, hp]
    rfl
  exact Handed.current_mem hcurrent

theorem Stopping.action {j : Writing} (h : Stopping job fs w) (hp : w.pc = .writing j)
    (ha : Writing.Action w j io e u) : Bounded (writes job.reply fs ++ writes job.reply e) ∧
      ∀ j', u.pc = .writing j' → j'.job = job →
        Ending (writes job.reply fs ++ writes job.reply e) u j' := by
  by_cases hjob : j.job = job
  · cases hjob
    obtain ⟨hbounded, hending⟩ := (h.ending j hp rfl).action h.bounded h.stopped ha
    exact ⟨hbounded, fun j' hu _ => hending j' hu⟩
  · have hnone : writes job.reply e = [] := by
      apply Classical.byContradiction
      intro hne
      exact hjob (h.same _ (current_mem hp) (ha.writes_self _ hne).symm)
    rw [hnone, List.append_nil]
    refine ⟨h.bounded, fun j' hu hj' => ?_⟩
    exact absurd ((ha.job hu).symm.trans hj') hjob

theorem Stopping.step (h : Stopping job fs w) (hh : Handed (es ++ fs) w.delivery)
    (hk : Keyed (es ++ fs ++ e) u) (ha : ∃ a ∈ accepts (es ++ fs), a.reply = job.reply)
    (hs : Step w e u) : Stopping job (fs ++ e) u := by
  refine ⟨h.stopped.step hs, hs.same hk ha h.same, ?_, ?_⟩
  · rw [writes_append]
    rcases hs.emits with hnone | ⟨j, io, hp, hact⟩
    · rw [hnone, List.append_nil]
      exact h.bounded
    · exact (h.action hp hact).1
  · intro j' hu hjob
    rw [writes_append]
    cases hs.onward hu with
    | same hp hw =>
      rw [hw, List.append_nil]
      exact (h.ending j' hp hjob).age fun hover => hover.step hs
    | action j io hp hact => exact (h.action hp hact).2 j' hu hjob
    | begun started queue hb hj he =>
      left
      have hnone := hh.untouched started hj
      have hreply : started.reply = job.reply := by
        rw [← hjob, hb]
        rfl
      rw [writes_append, hreply] at hnone
      rw [he, (List.append_eq_nil_iff.1 hnone).2]
      rfl

/-- The job fails its first checks. -/
def Silent (w : World) (j : Writing) : Prop :=
  match j.stage with
  | .permitted .require .start => j.prefixWritten = false
  | .permitted _ .start => j.prefixWritten = false ∧ Over w j.job.epoch
  | .suffix (.error _) => j.prefixWritten = false
  | .finish (.error _) => True
  | _ => False

theorem Silent.action {w u : World} {j : Writing} {io : Bool} (h : Silent w j)
    (hst : Stopped w j.job.p j.job.epoch) (ha : Writing.Action w j io fs u) :
    writes j.job.reply fs = [] ∧ ∀ j', u.pc = .writing j' → Silent u j' := by
  unfold Silent at h
  cases ha with
  | denied check site e hs hc =>
    refine ⟨rfl, fun j' hu => ?_⟩
    cases hu
    rw [hs] at h
    cases site with
    | start =>
      cases check with
      | require => exact h
      | running | lease => exact h.1
    | chunk | enter => cases check <;> exact h.elim
  | passed check site hs hc =>
    refine ⟨rfl, fun j' hu => ?_⟩
    cases hu
    rw [hs] at h
    cases site with
    | start =>
      cases check with
      | require => exact ⟨h, hst.resolve_left fun hno => hno hc⟩
      | running => exact h
      | lease => exact absurd hc (h.2.verify _ _)
    | chunk | enter => cases check <;> exact h.elim
  | opened hs | unopened hs | last hs | interrupted stop others hs | next hs | wrote hs
  | unwritten hs | unclosed hs | entered hs =>
    rw [hs] at h
    exact h.elim
  | closed result hs hp hio =>
    rw [hs] at h
    cases result with
    | ok a => exact h.elim
    | error e =>
      cases hp.symm.trans h
  | bare result hs hp =>
    refine ⟨rfl, fun j' hu => ?_⟩
    cases hu
    rw [hs] at h
    cases result with
    | ok a => exact h.elim
    | error e => trivial
  | finished result hs =>
    refine ⟨rfl, fun j' hu => ?_⟩
    simp only at hu
    split at hu <;> cases hu

theorem Silent.age (h : Silent w j) (hover : Over w j.job.epoch → Over u j.job.epoch) :
    Silent u j := by
  unfold Silent at h ⊢
  split at h
  · exact h
  · exact ⟨h.1, hover h.2⟩
  · exact h
  · exact trivial
  · exact h.elim

/-- A job that was started when it might not write any more. -/
structure Silenced (job : InputJob) (fs : List Event) (w : World) : Prop where
  stopped : Stopped w job.p job.epoch
  same : ∀ x ∈ w.delivery.jobs, x.reply = job.reply → x = job
  none : writes job.reply fs = []
  silent : ∀ j, w.pc = .writing j → j.job = job → Silent w j

theorem Silenced.step (h : Silenced job fs w) (hk : Keyed (es ++ e) u)
    (ha : ∃ a ∈ accepts es, a.reply = job.reply) (hs : Step w e u) : Silenced job (fs ++ e) u := by
  refine ⟨h.stopped.step hs, hs.same hk ha h.same, ?_, ?_⟩
  · rw [writes_append, h.none, List.nil_append]
    apply Classical.byContradiction
    intro hne
    rcases hs.emits with hnone | ⟨j, io, hp, hact⟩
    · exact hne (hnone _)
    · have hjob := h.same _ (current_mem hp) (hact.writes_self _ hne).symm
      cases hjob
      exact hne ((h.silent j hp rfl).action h.stopped hact).1
  · intro j' hu hjob
    cases hs.onward hu with
    | same hp hw => exact (h.silent j' hp hjob).age fun hover => hover.step hs
    | action j io hp hact =>
      have hj := (hact.job hu).symm.trans hjob
      cases hj
      exact ((h.silent j hp rfl).action h.stopped hact).2 j' hu
    | begun started queue hb hj he =>
      rw [hb]
      exact rfl

/-- Once the principal or the lease of a job fails its check, the job hands over at most one more
write and its closing delimiter, and no job like it that is started later hands over anything. -/
theorem revocation_bounds (h : Run Step World.init es w) (hj : job ∈ w.delivery.jobs)
    (hf : Fails w job) (hlater : Run Step w fs u) :
    Bounded (writes job.reply fs) ∧
      ∀ job' queue, job'.p = job.p → job'.epoch = job.epoch →
        u.pc = .writing (beginWriting job' queue) →
        ∀ gs v, Run Step u gs v → writes job'.reply gs = [] := by
  have hstopped : Stopped w job.p job.epoch := hf.stopped (.run h) hj
  constructor
  · have hh : Handed es w.delivery := .run h
    have hinv : Stopping job fs u ∧ Run Step World.init (es ++ fs) u := by
      apply hlater.invariant (I := fun fs u => Stopping job fs u ∧ Run Step World.init (es ++ fs) u)
      · refine ⟨⟨hstopped, fun x hx hr => hh.unique hx hj hr, .nil, fun _ _ _ => .inl rfl⟩, ?_⟩
        rw [List.append_nil]
        exact h
      · rintro fs w' e u ⟨hi, hrun⟩ hs
        have hnext := hrun.snoc hs
        refine ⟨hi.step (.run hrun) (AtMostOnce.run hnext).keyed ?_ hs, ?_⟩
        · obtain ⟨a, ha, hreply⟩ := hh.known job hj
          rw [accepts_append]
          exact ⟨a, List.mem_append_left _ ha, hreply⟩
        · rw [List.append_assoc] at hnext
          exact hnext
    exact hinv.1.bounded
  · intro job' queue hp he hu gs v hrest
    have hrun := h.trans hlater
    have hh : Handed (es ++ fs) u.delivery := .run hrun
    have hmem : job' ∈ u.delivery.jobs := current_mem hu
    have hstart : Stopped u job'.p job'.epoch := by
      rw [hp, he]
      exact hlater.preserves (P := fun w => Stopped w job.p job.epoch) hstopped Stopped.step
    have hinv : Silenced job' gs v ∧ Run Step World.init (es ++ fs ++ gs) v := by
      apply hrest.invariant (I := fun gs v => Silenced job' gs v ∧
        Run Step World.init (es ++ fs ++ gs) v)
      · refine ⟨⟨hstart, fun x hx hr => hh.unique hx hmem hr, rfl, ?_⟩, ?_⟩
        · intro j hj' _
          cases hu.symm.trans hj'
          exact rfl
        · rw [List.append_nil]
          exact hrun
      · rintro gs w' e v ⟨hi, hgs⟩ hs
        have hnext := hgs.snoc hs
        refine ⟨hi.step (AtMostOnce.run hnext).keyed ?_ hs, ?_⟩
        · obtain ⟨a, ha, hreply⟩ := hh.known job' hmem
          rw [accepts_append]
          exact ⟨a, List.mem_append_left _ ha, hreply⟩
        · rw [List.append_assoc] at hnext
          exact hnext
    exact hinv.1.none

/-- The lease is revoked between the check and the write. -/
theorem revocation_bounds_late : ∃ es w fs u, Run Step World.init es w ∧ Fails w typedJob ∧
    Run Step w fs u ∧ writes typedJob.reply fs = [⟨.data, [120], true⟩] ∧
    Bounded (writes typedJob.reply fs) := by
  have hacquired := (Run.single (Step.request World.init
    (.acquire writingPrincipal (.fill 2) false) rfl ⟨writingPrincipal_require, rfl⟩)).snoc
    (.locked _ [] [] _ rfl)
  have haccepted := (hacquired.snoc (.request _
    (.enqueue writingPrincipal (.fill 2) 1 (.fill 9) 1 [120] 0) rfl writingPrincipal_require)).snoc
    (.locked _ [] [] _ rfl)
  have hstarted := (((haccepted.snoc (.selectNormal _ _ _ rfl rfl rfl)).snoc
    (.write _ _ true rfl)).snoc (.write _ _ true rfl)).snoc (.write _ _ true rfl)
  have hallowed := (((hstarted.snoc (.write _ _ true rfl)).snoc (.write _ _ true rfl)).snoc
    (.write _ _ true rfl)).snoc (.write _ _ true rfl)
  have hrevoked := hallowed.snoc (.revokeAll _)
  refine ⟨_, _, _, _, hrevoked, .unowned rfl, .snoc (.snoc (.snoc .nil (.write _ _ true rfl))
    (.write _ _ true rfl)) (.write _ _ true rfl), rfl, ?_⟩
  exact (revocation_bounds hrevoked (List.mem_singleton_self typedJob) (.unowned rfl)
    (.snoc (.snoc (.snoc .nil (.write _ _ true rfl)) (.write _ _ true rfl))
      (.write _ _ true rfl))).1

end RemoteCodex
