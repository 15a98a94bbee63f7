import RemoteCodex.Agent.WriterReplies

namespace RemoteCodex
set_option autoImplicit true
open Trace Delivery

/-- The interrupt for which the writer thread cancels inputs. -/
def WriterPc.handles (pc : WriterPc) (i : InputJob) : Prop :=
  (∃ held, pc = .interrupted i held) ∨ ∃ j, pc = .writing j ∧ j.urgent = some i

/-- The one input was accepted before the other. -/
def AcceptedBefore (es : List Event) (r s : Nat) : Prop :=
  ∃ a b, [a, b].Sublist (accepts es) ∧ a.reply = r ∧ b.reply = s

theorem handles_mem {w : World} (h : w.pc.handles i) : i ∈ w.pc.held := by
  rcases h with ⟨held, hp⟩ | ⟨j, hp, hu⟩
  · rw [hp]
    exact List.mem_singleton_self _
  · rw [hp]
    show i ∈ j.urgent.toList
    rw [hu]
    exact List.mem_singleton_self _

/-- A paste is cancelled by an interrupt that it leaves to be written. -/
def Stage.cancels : Stage → Bool
  | .suffix (.error .inputCanceled) | .finish (.error .inputCanceled) => true
  | _ => false

/-- What goes past the normal queue is Ctrl+C, and it alone cancels. -/
structure Interrupted (w : World) : Prop where
  others : ∀ x ∈ w.delivery.others, x.data = [3]
  urgent : ∀ j, w.pc = .writing j → j.stage.cancels = true → j.urgent ≠ none

theorem Writing.check_cancels {w : World} (j : Writing) (check : Check)
    (h : j.check w check = .error e) : e ≠ .inputCanceled := by
  cases check with
  | require =>
    simp only [Writing.check, Principal.require] at h
    split at h
    · cases h; exact ErrorCode.noConfusion
    split at h
    · cases h; exact ErrorCode.noConfusion
    split at h
    · cases h; exact ErrorCode.noConfusion
    · cases h
  | running =>
    simp only [Writing.check] at h
    split at h
    · cases h
    · cases h; exact ErrorCode.noConfusion
  | lease =>
    simp only [Writing.check, Lease.verify] at h
    split at h
    · cases h; exact ErrorCode.noConfusion
    split at h
    · cases h; exact ErrorCode.noConfusion
    · cases h

theorem Writing.nextCheck_cancels (j : Writing) (site : Site) (check : Check) :
    (j.nextCheck site check).cancels = false := by
  cases check with
  | require | running => rfl
  | lease =>
    cases site with
    | start =>
      simp only [nextCheck, onPassed]
      split <;> rfl
    | chunk | enter => rfl

theorem Writing.afterSuffix_cancels {j : Writing} (h : (j.afterSuffix result).cancels = true) :
    result = .error .inputCanceled := by
  cases result with
  | ok a =>
    cases a
    simp only [afterSuffix] at h
    split at h <;> cases h
  | error e =>
    simp only [afterSuffix, Stage.cancels] at h
    split at h
    · next heq => cases heq
    · next heq => cases heq; rfl
    · cases h

theorem Writing.Action.urgent {w u : World} {j j' : Writing} {io : Bool} (h : Action w j io fs u)
    (hold : j.stage.cancels = true → j.urgent ≠ none) (hu : u.pc = .writing j')
    (hc : j'.stage.cancels = true) : j'.urgent ≠ none := by
  have hafter {result : Except ErrorCode Unit} (hs : j.stage = .suffix result)
      (hc : (j.afterSuffix result).cancels = true) : j.urgent ≠ none := by
    apply hold
    rw [hs, afterSuffix_cancels hc]
    rfl
  cases h with
  | denied check site e hs hcheck =>
    cases hu
    have hne := j.check_cancels check hcheck
    cases site with
    | start | chunk =>
      simp only [onDenied, Stage.cancels] at hc
      split at hc
      · next heq => cases heq; exact absurd rfl hne
      · next heq => cases heq
      · cases hc
    | enter =>
      simp only [onDenied, Stage.cancels] at hc
      split at hc
      · next heq => cases heq
      · next heq => cases heq; exact absurd rfl hne
      · cases hc
  | passed check site hs hcheck =>
    cases hu
    rw [nextCheck_cancels] at hc
    cases hc
  | interrupted stop others hs hr hb hi =>
    cases hu
    exact Option.some_ne_none _
  | closed result hs hp hio | bare result hs hp =>
    cases hu
    exact hafter hs hc
  | opened | unopened | last | next | wrote | unwritten | unclosed =>
    cases hu
    cases hc
  | entered hs =>
    cases hu
    cases io <;> cases hc
  | finished result hs =>
    simp only at hu
    split at hu <;> cases hu

namespace Interrupted

theorem init : Interrupted World.init where
  others := fun _ hx => (List.not_mem_nil hx).elim
  urgent := fun _ hp => nomatch hp

theorem step (h : Interrupted w) (hs : Step w e u) : Interrupted u := by
  constructor
  · intro x hx
    rcases hs.arrivals with ⟨-, hothers⟩ | ⟨job, ha⟩
    · exact h.others x (hothers hx)
    · rcases ha.others x hx with hold | hnew
      · exact h.others x hold
      · exact hnew
  · intro j' hu hc
    cases hs.onward hu with
    | same hp hw => exact h.urgent j' hp hc
    | action j io hp ha => exact ha.urgent (h.urgent j hp) hu hc
    | begun job queue hb hj he =>
      rw [hb] at hc
      cases hc

theorem run (h : Run Step World.init es w) : Interrupted w := h.preserves init step

end Interrupted

/-- Every input that is cancelled is cancelled for an interrupt, and was accepted before the
writer thread writes that interrupt. -/
theorem cancelled_before_interrupt (h : Run Step World.init es w) (hs : Step w e u)
    (hr : .replied r (.error .inputCanceled) ∈ e) :
    ∃ i, w.pc.handles i ∧ i.data = [3] ∧ (∃ a ∈ accepts es, a.reply = i.reply ∧ a.data = [3]) ∧
      (∃ a ∈ accepts es, a.reply = r) ∧ r ≠ i.reply ∧ writes i.reply es = [] := by
  have hh : Handed es w.delivery := .run h
  have hi : Interrupted w := .run h
  have hd := (AtMostOnce.run h).delivered
  have hmain {i job : InputJob} (hhandles : w.pc.handles i) (hj : job ∈ w.delivery.jobs)
      (hne : job.reply ≠ i.reply) (hreply : r = job.reply) :
      ∃ i, w.pc.handles i ∧ i.data = [3] ∧
        (∃ a ∈ accepts es, a.reply = i.reply ∧ a.data = [3]) ∧
        (∃ a ∈ accepts es, a.reply = r) ∧ r ≠ i.reply ∧ writes i.reply es = [] := by
    have hothers : i ∈ w.delivery.others := List.mem_append_right _ (handles_mem hhandles)
    have hwaits : i ∈ w.delivery.waiting := List.mem_append_right _ hothers
    obtain ⟨a, ha, har, had⟩ := hd.known i hwaits
    have hdata := hi.others i hothers
    refine ⟨i, hhandles, hdata, ⟨a, ha, har, had.trans hdata⟩, ?_, ?_, hh.untouched i hwaits⟩
    · rw [hreply]
      exact hh.known job hj
    · rw [hreply]
      exact hne
  rcases hs.replied hr with
    ⟨j, hp, hstage, hreply, -⟩ | ⟨job, hjob, code, hreply, hcode, -, hcancel⟩
  · have hne := hi.urgent j hp (by rw [hstage]; rfl)
    obtain ⟨i, hu⟩ := Option.ne_none_iff_exists'.1 hne
    have hcurrent : w.delivery.current = some j.current := by
      simp only [World.delivery, hp]
      rfl
    have hhandles : w.pc.handles i := .inr ⟨j, hp, hu⟩
    have hwaits : i ∈ w.delivery.waiting :=
      List.mem_append_right _ (List.mem_append_right _ (handles_mem hhandles))
    have hapart : i.reply ≠ j.job.reply := hh.apart hwaits hcurrent
    exact hmain hhandles (Handed.current_mem hcurrent) (Ne.symm hapart) hreply
  · cases hcode
    obtain ⟨hwriter, i, held, hp⟩ := hcancel rfl
    apply hmain (.inl ⟨held, hp⟩) (Handed.waiting_mem hjob) _ hreply
    have hdis := hh.distinct
    unfold Delivery.jobs Delivery.waiting at hdis
    rw [List.map_append, List.map_append] at hdis
    have hapart := List.disjoint_of_nodup_append hdis.of_append_left
    intro heq
    apply hapart (List.mem_map_of_mem hwriter)
    rw [heq]
    exact List.mem_map_of_mem (List.mem_append_right _ (handles_mem (.inl ⟨held, hp⟩)))

/-- Ctrl+C and then one byte are typed before the writer thread looks. -/
theorem late_input : ∃ es w u, Run Step World.init es w ∧
    Step w [.replied 1 (.error .inputCanceled)] u ∧
    (∃ i, w.pc.handles i ∧ i.reply = 0) ∧
    accepts es = [⟨0, 1, 1, [3]⟩, ⟨1, 1, 2, [120]⟩] := by
  have hacquired := (Run.single (Step.request World.init
    (.acquire writingPrincipal (.fill 2) false) rfl ⟨writingPrincipal_require, rfl⟩)).snoc
    (.locked _ [] [] _ rfl)
  have hinterrupt := (hacquired.snoc (.request _
    (.enqueue writingPrincipal (.fill 2) 1 (.fill 9) 1 [3] 0) rfl writingPrincipal_require)).snoc
    (.locked _ [] [] _ rfl)
  have htyped := (hinterrupt.snoc (.request _
    (.enqueue writingPrincipal (.fill 2) 1 (.fill 8) 2 [120] 0) rfl writingPrincipal_require)).snoc
    (.locked _ [] [] _ rfl)
  have htaken := htyped.snoc (.selectInterrupt _ _ _ rfl rfl)
  exact ⟨_, _, _, htaken, .cancelQueued _ _ { typedJob with id := .fill 8, reply := 1 } _ _ rfl rfl,
    ⟨_, .inl ⟨false, rfl⟩, rfl⟩, rfl⟩

theorem cancelled_before_interrupt_late : ∃ es w i, Run Step World.init es w ∧
    w.pc.handles i ∧ (∃ a ∈ accepts es, a.reply = 1) ∧ 1 ≠ i.reply ∧ writes i.reply es = [] := by
  obtain ⟨es, w, u, hrun, hstep, -⟩ := late_input
  obtain ⟨i, hi, -, -, hmore⟩ := cancelled_before_interrupt hrun hstep (.head _)
  exact ⟨es, w, i, hrun, hi, hmore⟩

/-- What is cancelled may have been accepted after the interrupt. -/
theorem cancelled_after_interrupt : ¬ ∀ es w e u r i, Run Step World.init es w → Step w e u →
    .replied r (.error .inputCanceled) ∈ e → w.pc.handles i → AcceptedBefore es r i.reply := by
  intro h
  obtain ⟨es, w, u, hrun, hstep, ⟨i, hi, hreply⟩, haccepts⟩ := late_input
  obtain ⟨a, b, hsub, ha, hb⟩ := h es w _ u 1 i hrun hstep (.head _) hi
  rw [haccepts] at hsub
  have heq := hsub.eq_of_length rfl
  cases heq
  cases ha

end RemoteCodex
