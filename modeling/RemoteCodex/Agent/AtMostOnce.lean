import RemoteCodex.Agent.InputKeys

namespace RemoteCodex
set_option autoImplicit true
open Trace Delivery

/-- Every atomic action is one move of the delivery. -/
theorem Step.move (hs : Step w e u) : Move w.delivery e u.delivery := by
  have hless {d d' : Delivery} {es : List Event} (hn : d'.normal <:+ d.normal)
      (ho : d'.others.Subperm d.others) (hc : Fades d.current d'.current)
      (hq : ∀ e ∈ es, e.quiet = true) : Move d es d' := .less d d' es hn ho hc hq
  cases hs with
  | locked before after call hc =>
    cases call with
    | enqueue p c lease id seq data received =>
      exact Enqueued.move (w := { w with calls := before ++ after }) (Session.enqueue_spec ..) _
    | enqueuePaste p c lease id seq text bracketed appendEnter received =>
      exact Enqueued.move (w := { w with calls := before ++ after })
        (Session.enqueuePaste_spec ..) _
    | acquire | renew | release =>
      exact hless List.suffix_rfl (List.Subperm.refl _) (.same _) (by simp [World.locked])
  | write j io hp => exact j.step_move w io hp
  | selectInterrupt job others hp hi =>
    refine hless List.suffix_rfl ?_ ?_ (by simp)
    · simp only [World.delivery, WriterPc.held, hp, hi, List.append_nil]
      exact (List.perm_append_singleton job others).subperm
    · simp only [World.delivery, WriterPc.current, hp]
      exact .same _
  | selectNormal job others hp hn ha =>
    have hm := Move.startNormal w.delivery job others hn
    simp only [World.delivery, WriterPc.held, hp, List.append_nil] at hm ⊢
    simpa only [beginWriting, WriterPc.current, Writing.current, Stage.looping, ↓reduceIte,
      Option.toList_none, List.append_nil] using hm
  | startInterrupt job held hp hn ha =>
    have hm := Move.startInterrupt w.delivery job w.s.interrupt (by
      simp only [World.delivery, WriterPc.held, hp]
      exact List.perm_append_singleton job _)
    simp only [World.delivery, WriterPc.held] at hm ⊢
    simpa only [beginWriting, WriterPc.current, Writing.current, Stage.looping, ↓reduceIte,
      Option.toList_none, List.append_nil] using hm
  | cancelQueued job pending held others hp hn =>
    refine hless ?_ ?_ (.same _) (by simp [Event.quiet])
    · simp only [World.delivery, hn]
      split <;> exact List.suffix_cons pending others
    · simp only [World.delivery]
      split <;> exact List.Subperm.refl _
  | selectLost job others hp hn ha | drainNormal job others hp hn =>
    refine hless ?_ (List.Subperm.refl _) (.same _) (by simp [Event.quiet])
    simp only [World.delivery, hn]
    exact List.suffix_cons job others
  | drainInterrupt job others hp hi =>
    refine hless List.suffix_rfl ?_ (.same _) (by simp [Event.quiet])
    simp only [World.delivery, hi, List.cons_append]
    exact (List.sublist_cons_self job _).subperm
  | loseInterrupt job held hp hn ha =>
    refine hless List.suffix_rfl ?_ (.gone _) (by simp [Event.quiet])
    simp only [World.delivery, WriterPc.held, List.append_nil]
    exact (List.sublist_append_left _ _).subperm
  | selectStop hp | drainedNormal hp | drainedInterrupt hp =>
    refine hless List.suffix_rfl ?_ (.gone _) (by simp)
    simp only [World.delivery, WriterPc.held, List.append_nil]
    exact (List.sublist_append_left _ _).subperm
  | exit hp =>
    exact hless (List.nil_suffix) (List.nil_sublist _).subperm (.gone _) (by simp)
  | tick | cancel | request | revokeConnection | revokeClient | revokeAll | stopRunning
  | signalStop | query | dropSession | selectQuery =>
    exact hless List.suffix_rfl (List.Subperm.refl _) (.same _) (by simp [Event.quiet])

/-- The inputs in flight against the bytes handed to the PTY so far: a waiting input is untouched,
the one being written has handed over exactly what is no longer in `rest`. -/
structure Delivered (es : List Event) (jobs : List InputJob) (current : Option Current) :
    Prop where
  known : ∀ job ∈ jobs, ∃ a ∈ accepts es, a.reply = job.reply ∧ a.data = job.data
  untouched : ∀ job ∈ jobs, dataWritten job.reply es = []
  distinct : (jobs.map InputJob.reply).Nodup
  current : ∀ job queue rest, current = some ⟨job, queue, some rest⟩ →
    (∀ other ∈ jobs, other.reply ≠ job.reply) ∧
      ∃ a ∈ accepts es, a.reply = job.reply ∧ dataWritten job.reply es ++ rest = a.data
  seen : ∀ queue r bytes ok, .pty .data queue r bytes ok ∈ es → ∃ a ∈ accepts es, a.reply = r
  handed : ∀ a ∈ accepts es, dataWritten a.reply es <+: a.data

theorem Delivered.nil : Delivered [] [] none where
  known := by simp
  untouched := by simp
  distinct := .nil
  current := by simp
  seen := by simp
  handed := by simp [accepts]

theorem Delivered.quiet (h : Delivered es jobs c) (hq : ∀ e ∈ fs, Event.quiet e = true) :
    Delivered (es ++ fs) jobs c := by
  constructor
  · rw [accepts_quiet es hq]
    exact h.known
  · intro job hj
    rw [dataWritten_quiet _ es hq]
    exact h.untouched job hj
  · exact h.distinct
  · intro job queue rest hc
    rw [accepts_quiet es hq, dataWritten_quiet _ es hq]
    exact h.current job queue rest hc
  · intro queue r bytes ok he
    rw [accepts_quiet es hq]
    rcases List.mem_append.1 he with he | he
    · exact h.seen queue r bytes ok he
    · cases hq _ he
  · rw [accepts_quiet es hq]
    intro a ha
    rw [dataWritten_quiet _ es hq]
    exact h.handed a ha

theorem Delivered.subperm (h : Delivered es jobs c) (hs : jobs'.Subperm jobs) :
    Delivered es jobs' c where
  known := fun job hj => h.known job (hs.subset hj)
  untouched := fun job hj => h.untouched job (hs.subset hj)
  distinct := by
    obtain ⟨l, hp, hl⟩ := hs
    have hn : (l.map InputJob.reply).Nodup := h.distinct.sublist (hl.map _)
    exact (hp.map _).nodup_iff.1 hn
  current := by
    intro job queue rest hc
    obtain ⟨hn, ha⟩ := h.current job queue rest hc
    exact ⟨fun other ho => hn other (hs.subset ho), ha⟩
  seen := h.seen
  handed := h.handed

theorem Delivered.fades (h : Delivered es jobs c) (hf : Fades c c') :
    Delivered es jobs c' := by
  refine ⟨h.known, h.untouched, h.distinct, ?_, h.seen, h.handed⟩
  cases hf with
  | same c => exact h.current
  | late job queue rest =>
    intro job' queue' rest' hc
    cases hc
  | gone c =>
    intro job queue rest hc
    cases hc

/-- Nothing has been written for a channel that no accepted input has. -/
theorem Delivered.fresh (h : Delivered es jobs c) (hr : ∀ a ∈ accepts es, a.reply ≠ r) :
    dataWritten r es = [] := by
  apply List.flatMap_eq_nil_iff.2
  intro e he
  cases e with
  | pty part queue r' bytes ok =>
    cases part with
    | data =>
      obtain ⟨a, ha, har⟩ := h.seen queue r' bytes ok he
      have hne : r' ≠ r := by
        intro hrr
        exact hr a ha (har.trans hrr)
      simp only [Event.dataOf, hne, ↓reduceIte]
    | _ => rfl
  | _ => rfl

theorem Delivered.accept (h : Delivered es jobs c) (job : InputJob) (epoch seq : Nat)
    (hr : ∀ a ∈ accepts es, a.reply ≠ job.reply) :
    Delivered (es ++ [.accepted job.reply epoch seq job.data]) (job :: jobs) c := by
  have hacc : accepts (es ++ [.accepted job.reply epoch seq job.data]) =
      accepts es ++ [⟨job.reply, epoch, seq, job.data⟩] := accepts_append es _
  have hdata (r : Nat) : dataWritten r (es ++ [.accepted job.reply epoch seq job.data]) =
      dataWritten r es := by
    simp only [dataWritten, List.flatMap_append, List.flatMap_singleton, Event.dataOf,
      List.append_nil]
  have hold {P : Accepted → Prop} (hp : ∃ a ∈ accepts es, P a) :
      ∃ a ∈ accepts es ++ [⟨job.reply, epoch, seq, job.data⟩], P a := by
    obtain ⟨a, ha, hpa⟩ := hp
    exact ⟨a, List.mem_append_left _ ha, hpa⟩
  constructor
  · rw [hacc]
    intro other ho
    rcases List.mem_cons.1 ho with ho | ho
    · subst other
      exact ⟨_, List.mem_append_right _ (List.mem_singleton_self _), rfl, rfl⟩
    · exact hold (h.known other ho)
  · intro other ho
    rw [hdata]
    rcases List.mem_cons.1 ho with ho | ho
    · rw [ho]
      exact h.fresh hr
    · exact h.untouched other ho
  · rw [List.map_cons, List.nodup_cons]
    refine ⟨?_, h.distinct⟩
    intro hm
    obtain ⟨other, ho, he⟩ := List.mem_map.1 hm
    obtain ⟨a, ha, har, _⟩ := h.known other ho
    exact hr a ha (har.trans he)
  · intro cur queue rest hc
    obtain ⟨hn, a, ha, har, had⟩ := h.current cur queue rest hc
    rw [hacc, hdata]
    refine ⟨?_, hold ⟨a, ha, har, had⟩⟩
    intro other ho
    rcases List.mem_cons.1 ho with ho | ho
    · rw [ho]
      intro he
      exact hr a ha (har.trans he.symm)
    · exact hn other ho
  · intro queue r bytes ok he
    rw [hacc]
    rcases List.mem_append.1 he with he | he
    · exact hold (h.seen queue r bytes ok he)
    · cases List.mem_singleton.1 he
  · rw [hacc]
    intro a ha
    rw [hdata]
    rcases List.mem_append.1 ha with ha | ha
    · exact h.handed a ha
    · rw [List.mem_singleton.1 ha, h.fresh hr]
      exact List.nil_prefix

/-- Writing starts with a job that no longer waits and of which nothing was handed over. -/
theorem Delivered.start (h : Delivered es (job :: jobs) c) (queue : Queue) :
    Delivered es jobs (some ⟨job, queue, some job.data⟩) := by
  have hs : jobs.Subperm (job :: jobs) := (List.sublist_cons_self job jobs).subperm
  obtain ⟨hk, hu, hd, _, hseen, hh⟩ := h.subperm hs
  refine ⟨hk, hu, hd, ?_, hseen, hh⟩
  intro job' queue' rest hc
  cases hc
  constructor
  · intro other ho he
    have hnot := (List.nodup_cons.1 h.distinct).1
    exact hnot (he ▸ List.mem_map_of_mem ho)
  · obtain ⟨a, ha, har, had⟩ := h.known job (List.mem_cons_self ..)
    refine ⟨a, ha, har, ?_⟩
    rw [h.untouched job (List.mem_cons_self ..), List.nil_append, had]

theorem dataWritten_chunk (r : Nat) (es : List Event) (queue : Queue) (reply : Nat)
    (bytes : List UInt8) (ok : Bool) :
    dataWritten r (es ++ [.pty .data queue reply bytes ok]) =
      dataWritten r es ++ if reply = r then bytes else [] := by
  simp only [dataWritten, List.flatMap_append, List.flatMap_singleton, Event.dataOf]

/-- A chunk is the next piece of the data that has not been handed over yet. -/
theorem Delivered.chunk (h : Delivered es jobs (some ⟨job, queue, some rest⟩))
    (hu : ∀ a ∈ accepts es, ∀ b ∈ accepts es, a.reply = b.reply → a = b) (ok : Bool) :
    Delivered (es ++ [.pty .data queue job.reply (rest.take CHUNK) ok]) jobs
      (some ⟨job, queue, if ok then some (rest.drop CHUNK) else none⟩) := by
  obtain ⟨hn, a, ha, har, had⟩ := h.current job queue rest rfl
  have hacc : accepts (es ++ [.pty .data queue job.reply (rest.take CHUNK) ok]) =
      accepts es := by
    rw [accepts_append]
    exact List.append_nil _
  constructor
  · rw [hacc]
    exact h.known
  · intro other ho
    rw [dataWritten_chunk, if_neg (hn other ho).symm, List.append_nil]
    exact h.untouched other ho
  · exact h.distinct
  · intro job' queue' rest' hc
    cases ok with
    | false => cases hc
    | true =>
      cases hc
      refine ⟨hn, a, hacc ▸ ha, har, ?_⟩
      rw [dataWritten_chunk, if_pos rfl, List.append_assoc, List.take_append_drop, had]
  · rw [hacc]
    intro queue' r bytes ok' he
    rcases List.mem_append.1 he with he | he
    · exact h.seen queue' r bytes ok' he
    · cases List.mem_singleton.1 he
      exact ⟨a, ha, har⟩
  · rw [hacc]
    intro b hb
    rw [dataWritten_chunk]
    by_cases hr : job.reply = b.reply
    · have hab : a = b := hu a ha b hb (har.trans hr)
      subst b
      rw [if_pos hr, har]
      refine ⟨rest.drop CHUNK, ?_⟩
      rw [List.append_assoc, List.take_append_drop, had]
    · rw [if_neg hr, List.append_nil]
      exact h.handed b hb

theorem Delivered.move (h : Delivered es d.waiting d.current) (hm : Move d e d')
    (hk : (accepts (es ++ e)).Pairwise fun a b => a.reply < b.reply) :
    Delivered (es ++ e) d'.waiting d'.current := by
  rw [accepts_append] at hk
  have hfresh {job : InputJob} {epoch seq : Nat}
      (he : accepts e = [⟨job.reply, epoch, seq, job.data⟩]) :
      ∀ a ∈ accepts es, a.reply ≠ job.reply := by
    intro a ha
    rw [he, List.pairwise_append] at hk
    exact Nat.ne_of_lt (hk.2.2 a ha _ (List.mem_singleton_self _))
  cases hm with
  | less d' es hn ho hc hq =>
    exact ((h.subperm (hn.sublist.subperm.append ho)).fades hc).quiet hq
  | acceptNormal job epoch seq =>
    refine (h.accept job epoch seq (hfresh rfl)).subperm ?_
    simp only [waiting, List.append_assoc, List.singleton_append]
    exact List.perm_middle.subperm
  | acceptPriority job epoch seq others ho =>
    refine (h.accept job epoch seq (hfresh rfl)).subperm ?_
    exact ((ho.append_left _).trans List.perm_middle).subperm
  | startNormal job normal hn =>
    rw [List.append_nil]
    simp only [waiting, hn, List.cons_append] at h
    exact h.start .normal
  | startInterrupt job others ho =>
    rw [List.append_nil]
    refine Delivered.start (h.subperm ?_) .interrupt
    exact ((ho.append_left _).trans List.perm_middle).symm.subperm
  | chunk job queue rest ok hc =>
    rw [hc] at h
    refine h.chunk ?_ ok
    have hk' := (List.pairwise_append.1 hk).1
    intro a ha b hb he
    exact List.Pairwise.forall_of_forall_of_flip
      (R := fun a b : Accepted => a.reply = b.reply → a = b) (fun _ _ _ => rfl)
      (hk'.imp fun hab he => absurd he (Nat.ne_of_lt hab))
      (hk'.imp fun hab he => absurd he.symm (Nat.ne_of_lt hab)) ha hb he

/-- The normal queue against the normal chunks written so far: the queue is in the order of
acceptance, and everything written from it came before what it still holds. -/
structure Ordered (es : List Event) (normal : List InputJob) (current : Option Current) :
    Prop where
  sorted : (normal.map InputJob.reply).Pairwise (· < ·)
  order : (normalWrites es).Pairwise (· ≤ ·)
  behind : ∀ r ∈ normalWrites es, ∀ job ∈ normal, r < job.reply
  reached : ∀ job rest, current = some ⟨job, .normal, some rest⟩ →
    (∀ r ∈ normalWrites es, r ≤ job.reply) ∧ ∀ other ∈ normal, job.reply < other.reply

theorem Ordered.nil : Ordered [] [] none where
  sorted := .nil
  order := .nil
  behind := by simp
  reached := by simp

theorem Ordered.writes (h : Ordered es jobs c) (hw : normalWrites fs = normalWrites es) :
    Ordered fs jobs c where
  sorted := h.sorted
  order := hw ▸ h.order
  behind := hw ▸ h.behind
  reached := hw ▸ h.reached

theorem Ordered.suffix (h : Ordered es jobs c) (hs : jobs' <:+ jobs) : Ordered es jobs' c where
  sorted := h.sorted.sublist (hs.sublist.map _)
  order := h.order
  behind := fun r hr job hj => h.behind r hr job (hs.mem hj)
  reached := by
    intro job rest hc
    obtain ⟨hr, hj⟩ := h.reached job rest hc
    exact ⟨hr, fun other ho => hj other (hs.mem ho)⟩

theorem Ordered.fades (h : Ordered es jobs c) (hf : Fades c c') : Ordered es jobs c' := by
  refine ⟨h.sorted, h.order, h.behind, ?_⟩
  cases hf with
  | same c => exact h.reached
  | late job queue rest =>
    intro job' rest' hc
    cases hc
  | gone c =>
    intro job rest hc
    cases hc

theorem Delivered.written (h : Delivered es jobs c) (hr : r ∈ normalWrites es) :
    ∃ a ∈ accepts es, a.reply = r := by
  obtain ⟨e, he, hw⟩ := List.mem_filterMap.1 hr
  cases e with
  | pty part queue reply bytes ok =>
    cases part with
    | data =>
      cases queue with
      | normal =>
        cases hw
        exact h.seen _ _ _ _ he
      | interrupt => cases hw
    | _ => cases hw
  | _ => cases hw

/-- A new input goes to the end of the queue, behind everything that was ever in it. -/
theorem Ordered.accept {d : Delivery} (h : Ordered es d.normal d.current)
    (hd : Delivered es d.waiting d.current) (job : InputJob)
    (hr : ∀ a ∈ accepts es, a.reply < job.reply) :
    Ordered es (d.normal ++ [job]) d.current := by
  have hlast {P : InputJob → Prop} (hp : ∀ other ∈ d.normal, P other) (hj : P job) :
      ∀ other ∈ d.normal ++ [job], P other := by
    intro other ho
    rcases List.mem_append.1 ho with ho | ho
    · exact hp other ho
    · exact List.mem_singleton.1 ho ▸ hj
  constructor
  · rw [List.map_append, List.pairwise_append]
    refine ⟨h.sorted, List.pairwise_singleton _ _, ?_⟩
    intro r hm r' hm'
    obtain ⟨other, ho, heq⟩ := List.mem_map.1 hm
    obtain ⟨a, ha, har, _⟩ := hd.known other (List.mem_append_left _ ho)
    rw [List.mem_singleton.1 hm', ← heq, ← har]
    exact hr a ha
  · exact h.order
  · intro r hw
    obtain ⟨a, ha, har⟩ := hd.written hw
    exact hlast (h.behind r hw) (har ▸ hr a ha)
  · intro cur rest hc
    obtain ⟨hle, hlt⟩ := h.reached cur rest hc
    obtain ⟨_, a, ha, har, _⟩ := hd.current cur .normal rest hc
    exact ⟨hle, hlast hlt (har ▸ hr a ha)⟩

theorem Ordered.start (h : Ordered es (job :: jobs) c) :
    Ordered es jobs (some ⟨job, .normal, some job.data⟩) := by
  have hs : jobs <:+ job :: jobs := List.suffix_cons job jobs
  refine ⟨(h.suffix hs).sorted, h.order, (h.suffix hs).behind, ?_⟩
  intro job' rest hc
  cases hc
  constructor
  · intro r hr
    exact Nat.le_of_lt (h.behind r hr job (List.mem_cons_self ..))
  · intro other ho
    have hsorted := h.sorted
    rw [List.map_cons, List.pairwise_cons] at hsorted
    exact hsorted.1 _ (List.mem_map_of_mem ho)

theorem Ordered.chunk (h : Ordered es jobs (some ⟨job, queue, some rest⟩)) (bytes : List UInt8)
    (ok : Bool) :
    Ordered (es ++ [.pty .data queue job.reply bytes ok]) jobs
      (some ⟨job, queue, if ok then some (rest.drop CHUNK) else none⟩) := by
  cases queue with
  | interrupt =>
    have hw : normalWrites (es ++ [.pty .data .interrupt job.reply bytes ok]) =
        normalWrites es := by
      simp only [normalWrites, List.filterMap_append]
      exact List.append_nil _
    refine (Ordered.mk h.sorted h.order h.behind ?_).writes hw
    intro job' rest' hc
    cases hc
  | normal =>
    obtain ⟨hle, hlt⟩ := h.reached job rest rfl
    have hw : normalWrites (es ++ [.pty .data .normal job.reply bytes ok]) =
        normalWrites es ++ [job.reply] := by
      simp only [normalWrites, List.filterMap_append]
      rfl
    have hall : ∀ r ∈ normalWrites es ++ [job.reply], r ≤ job.reply := by
      intro r hr
      rcases List.mem_append.1 hr with hr | hr
      · exact hle r hr
      · exact Nat.le_of_eq (List.mem_singleton.1 hr)
    constructor
    · exact h.sorted
    · rw [hw, List.pairwise_append]
      refine ⟨h.order, List.pairwise_singleton _ _, ?_⟩
      intro r hr r' hr'
      rw [List.mem_singleton.1 hr']
      exact hle r hr
    · rw [hw]
      intro r hr other ho
      exact Nat.lt_of_le_of_lt (hall r hr) (hlt other ho)
    · intro job' rest' hc
      have hj : job = job' := by
        cases ok <;> cases hc
        rfl
      subst job'
      exact ⟨hw ▸ hall, hlt⟩

theorem Ordered.move {d : Delivery} (h : Ordered es d.normal d.current)
    (hd : Delivered es d.waiting d.current) (hm : Move d e d')
    (hk : (accepts (es ++ e)).Pairwise fun a b => a.reply < b.reply) :
    Ordered (es ++ e) d'.normal d'.current := by
  cases hm with
  | less d' es' hn ho hc hq =>
    exact ((h.suffix hn).fades hc).writes (normalWrites_quiet es hq)
  | acceptNormal job epoch seq =>
    have hw : normalWrites (es ++ [.accepted job.reply epoch seq job.data]) =
        normalWrites es := by
      simp only [normalWrites, List.filterMap_append]
      exact List.append_nil _
    refine (h.accept hd job ?_).writes hw
    rw [accepts_append, List.pairwise_append] at hk
    intro a ha
    exact hk.2.2 a ha _ (List.mem_singleton_self _)
  | acceptPriority job epoch seq others ho =>
    apply h.writes
    simp only [normalWrites, List.filterMap_append]
    exact List.append_nil _
  | startNormal job normal hn =>
    rw [List.append_nil]
    rw [hn] at h
    exact h.start
  | startInterrupt job others ho =>
    rw [List.append_nil]
    refine ⟨h.sorted, h.order, h.behind, ?_⟩
    intro job' rest hc
    cases hc
  | chunk job queue rest ok hc =>
    rw [hc] at h
    exact h.chunk _ ok

/-- The joint invariant of a session, its writer thread and the inputs it accepted. -/
structure AtMostOnce (es : List Event) (w : World) : Prop where
  keyed : Keyed es w
  delivered : Delivered es w.delivery.waiting w.delivery.current
  ordered : Ordered es w.delivery.normal w.delivery.current

theorem AtMostOnce.init : AtMostOnce [] World.init where
  keyed := .nil _ _ _
  delivered := .nil
  ordered := .nil

theorem AtMostOnce.step (h : AtMostOnce es w) (hs : Step w e u) : AtMostOnce (es ++ e) u := by
  have hk : Keyed (es ++ e) u := h.keyed.step hs
  have hr := hk.order.imp And.left
  exact ⟨hk, h.delivered.move hs.move hr, h.ordered.move h.delivered hs.move hr⟩

theorem AtMostOnce.run (h : Run Step World.init es w) : AtMostOnce es w :=
  h.invariant .init fun hi hs => hi.step hs

/-- In every run of a session a pair of lease epoch and sequence number is accepted at most
once, the bytes of an accepted input are handed to the PTY at most once and only those are,
and within an epoch the normal queue is written in the order of the sequence numbers. -/
theorem input_at_most_once (h : Run Step World.init es w) :
    ((accepts es).map fun a => (a.epoch, a.seq)).Nodup ∧
    ((accepts es).map Accepted.reply).Nodup ∧
    (∀ a ∈ accepts es, dataWritten a.reply es <+: a.data) ∧
    (∀ queue r bytes ok, .pty .data queue r bytes ok ∈ es → ∃ a ∈ accepts es, a.reply = r) ∧
    (normalWrites es).Pairwise fun r s => ∀ a ∈ accepts es, ∀ b ∈ accepts es,
      a.reply = r → b.reply = s → a.epoch = b.epoch → a = b ∨ a.seq < b.seq := by
  obtain ⟨hk, hd, ho⟩ := AtMostOnce.run h
  refine ⟨?_, ?_, hd.handed, hd.seen, ?_⟩
  · rw [List.Nodup, List.pairwise_map]
    refine hk.order.imp ?_
    intro a b hab he
    rw [Prod.mk.injEq] at he
    exact Nat.ne_of_lt (hab.2 he.1) he.2
  · rw [List.Nodup, List.pairwise_map]
    exact hk.order.imp fun hab => Nat.ne_of_lt hab.1
  · refine ho.order.imp ?_
    intro r s hle a ha b hb hr hs he
    subst r s
    rcases Nat.eq_or_lt_of_le hle with heq | hlt
    · exact .inl (hk.unique ha hb heq)
    · exact .inr (hk.seq_lt ha hb hlt he)

/-- One byte is typed and the network delivers the message twice. -/
theorem input_at_most_once_replayed :
    dataWritten 0 [.accepted 0 1 1 [120], .pty .data .normal 0 [120] true] <+: [120] := by
  have hp : Principal.require ⟨.fill 1, [.terminalWrite], 100, 7⟩ ∅ 0 .terminalWrite = .ok () := by
    decide
  have hreq := ((Run.single (Step.request World.init
      (.acquire ⟨.fill 1, [.terminalWrite], 100, 7⟩ (.fill 2) false) rfl ⟨hp, rfl⟩)).snoc
    (.locked _ [] [] _ rfl)).snoc
    (.request _ (.enqueue ⟨.fill 1, [.terminalWrite], 100, 7⟩ (.fill 2) 1 (.fill 9) 1 [120] 0)
      rfl hp)
  have hdup := hreq.snoc
    (.request _ (.enqueue ⟨.fill 1, [.terminalWrite], 100, 7⟩ (.fill 2) 1 (.fill 9) 1 [120] 0)
      rfl hp)
  have hacc := (hdup.snoc (.locked _ [] [_] _ rfl)).snoc (.locked _ [] [] _ rfl)
  have hstart := (((hacc.snoc (.selectNormal _ _ _ rfl rfl rfl)).snoc (.write _ _ true rfl)).snoc
    (.write _ _ true rfl)).snoc (.write _ _ true rfl)
  have hloop := (((hstart.snoc (.write _ _ true rfl)).snoc (.write _ _ true rfl)).snoc
    (.write _ _ true rfl)).snoc (.write _ _ true rfl)
  have hwrite := hloop.snoc (.write _ _ true rfl)
  exact (input_at_most_once hwrite).2.2.1 ⟨0, 1, 1, [120]⟩ (.head _)

end RemoteCodex
