import RemoteCodex.Lib.History
import RemoteCodex.Agent.WriterStops

namespace RemoteCodex
set_option autoImplicit true
open Trace Delivery History

/-- A byte of pasted text: no control byte but TAB and CR. -/
def plain (b : UInt8) : Bool := decide (32 ≤ b) && b != 127 || b == 9 || b == 13

namespace Event

/-- The event hands something to the PTY. -/
def output : Event → Bool
  | .pty .. | .query .. => true
  | _ => false

def failed : Event → Bool
  | .pty _ _ _ _ ok | .query _ ok => !ok
  | _ => false

def opens (r : Nat) : Event → Bool
  | .pty .opening _ s _ _ => decide (s = r)
  | _ => false

def closes (r : Nat) : Event → Bool
  | .pty .closing _ s _ _ => decide (s = r)
  | _ => false

/-- Text of the paste `r`. -/
def text (r : Nat) : Event → Bool
  | .pty .data _ s bytes _ => decide (s = r) && bytes.all plain
  | _ => false

end Event

/-- The paste `r` was opened, and nothing but its text was written since. -/
def Opened (r : Nat) (es : List Event) : Prop :=
  Since (fun x => x.output = false ∨ x.text r = true) (fun _ x => x.opens r = true) es

/-- While a paste is open, what is written is its text, or closes it; and only an open paste is
closed. -/
def Fenced (before : List Event) (e : Event) : Prop :=
  (∀ r, Opened r before → e.output = false ∨ e.text r = true ∨ e.closes r = true) ∧
    ∀ r, e.closes r = true → Opened r before

/-- The paste that the writer thread has opened and not closed. -/
def WriterPc.opened : WriterPc → Option Nat
  | .writing j => if j.prefixWritten && !j.stage.past then some j.job.reply else none
  | _ => none

theorem opened_snoc :
    Opened r (es ++ [e]) ↔
      e.opens r = true ∨ Opened r es ∧ (e.output = false ∨ e.text r = true) := Since.snoc_iff

theorem mem_replaceCrLf (h : b ∈ Session.replaceCrLf text) : b ∈ text := by
  fun_induction Session.replaceCrLf text with
  | case1 rest ih =>
    rcases List.mem_cons.1 h with rfl | h
    · exact List.mem_cons_self ..
    · exact List.mem_cons_of_mem _ (List.mem_cons_of_mem _ (ih h))
  | case2 c rest hne ih =>
    rcases List.mem_cons.1 h with rfl | h
    · exact List.mem_cons_self ..
    · exact List.mem_cons_of_mem _ (ih h)
  | case3 => exact h

/-- What is left of an accepted text once its line ends are carriage returns. -/
theorem plain_of_allowed (h : Session.pasteAllowed text = true) :
    (Session.replaceLf (Session.replaceCrLf text)).all plain = true := by
  unfold Session.pasteAllowed at h
  simp only [Bool.and_eq_true, Bool.not_eq_true', List.any_eq_false] at h
  rw [List.all_eq_true]
  intro b hb
  obtain ⟨c, hc, rfl⟩ := List.mem_map.1 hb
  have hallowed := h.2 c (mem_replaceCrLf hc)
  by_cases hlf : c = 10
  · rw [if_pos hlf]
    rfl
  · rw [if_neg hlf]
    unfold plain
    simp only [Bool.or_eq_true, Bool.and_eq_true, Bool.not_eq_true', decide_eq_true_eq,
      beq_iff_eq, Bool.or_eq_false_iff, not_or, not_and, bne_iff_ne] at hallowed ⊢
    by_cases hctl : c < 32
    · have hsome := hallowed.1 hctl
      simp only [beq_eq_false_iff_ne] at hsome
      tauto
    · exact .inl (.inl ⟨UInt8.not_lt.1 hctl, hallowed.2⟩)

/-- How one step moves the paste that is open. -/
inductive Shift : Option Nat → List Event → Option Nat → Prop where
  | none : Shift o [] o
  | quiet (x : Event) (h : x.output = false) : Shift o [x] o
  | other (x : Event) (ho : ∀ r, x.opens r = false) (hc : ∀ r, x.closes r = false) :
      Shift .none [x] .none
  | opens (queue : Queue) (r : Nat) (bytes : List UInt8) (ok : Bool) :
      Shift .none [.pty .opening queue r bytes ok] (some r)
  | text (queue : Queue) (r : Nat) (bytes : List UInt8) (ok : Bool)
      (h : bytes.all plain = true) : Shift (some r) [.pty .data queue r bytes ok] (some r)
  | closes (queue : Queue) (r : Nat) (bytes : List UInt8) (ok : Bool) :
      Shift (some r) [.pty .closing queue r bytes ok] .none

theorem Shift.of (h : Shift a fs b) (ha : o = a) (hb : o' = b) : Shift o fs o' := by
  rw [ha, hb]
  exact h

/-- The history is fenced, and this paste is open at its end. -/
def Pasting (es : List Event) (o : Option Nat) : Prop :=
  Each Fenced es ∧ ∀ r, Opened r es ↔ o = some r

theorem Pasting.init : Pasting [] none := by
  refine ⟨.nil _, fun r => ⟨?_, nofun⟩⟩
  rintro ⟨before, x, after, he, -⟩
  cases before <;> cases he

theorem Pasting.closed (h : Pasting es none) (r : Nat) : ¬ Opened r es := by
  intro ho
  cases (h.2 r).1 ho

theorem Pasting.shift (h : Pasting es o) (hs : Shift o fs o') : Pasting (es ++ fs) o' := by
  have heach : Each Fenced es := h.1
  have hopen : ∀ r, Opened r es ↔ o = some r := h.2
  cases hs with
  | none =>
    rw [List.append_nil]
    exact h
  | quiet x hx =>
    have hno (r : Nat) : x.opens r = false ∧ x.closes r = false := by
      cases x with
      | pty part => cases hx
      | query => cases hx
      | accepted | replied => exact ⟨rfl, rfl⟩
    refine ⟨heach.snoc ⟨fun _ _ => .inl hx, fun r hc => ?_⟩, fun r => ?_⟩
    · rw [(hno r).2] at hc
      cases hc
    · rw [opened_snoc, (hno r).1, ← hopen r]
      exact ⟨fun h => (h.resolve_left Bool.false_ne_true).1, fun h => .inr ⟨h, .inl hx⟩⟩
  | other x ho hc =>
    refine ⟨heach.snoc ⟨fun r hr => (h.closed r hr).elim, fun r hr => ?_⟩, fun r => ?_⟩
    · rw [hc r] at hr
      cases hr
    · rw [opened_snoc, ho r]
      refine ⟨?_, nofun⟩
      rintro (hno | ⟨hr, -⟩)
      · cases hno
      · exact (h.closed r hr).elim
  | opens queue s bytes ok =>
    refine ⟨heach.snoc ⟨fun r hr => (h.closed r hr).elim, nofun⟩, fun r => ?_⟩
    rw [opened_snoc, Option.some.injEq]
    constructor
    · rintro (ho | ⟨hr, -⟩)
      · exact of_decide_eq_true ho
      · exact (h.closed r hr).elim
    · exact fun heq => .inl (decide_eq_true heq)
  | text queue s bytes ok hb =>
    have htext : (Event.pty .data queue s bytes ok).text s = true := by
      simp only [Event.text, decide_true, Bool.true_and, hb]
    refine ⟨heach.snoc ⟨fun r hr => ?_, nofun⟩, fun r => ?_⟩
    · cases (hopen r).1 hr
      exact .inr (.inl htext)
    · rw [opened_snoc]
      constructor
      · rintro (ho | ⟨hr, -⟩)
        · cases ho
        · exact (hopen r).1 hr
      · intro heq
        cases heq
        exact .inr ⟨(hopen s).2 rfl, .inr htext⟩
  | closes queue s bytes ok =>
    refine ⟨heach.snoc ⟨fun r hr => ?_, fun r hr => ?_⟩, fun r => ?_⟩
    · cases (hopen r).1 hr
      exact .inr (.inr (decide_eq_true rfl))
    · cases of_decide_eq_true hr
      exact (hopen s).2 rfl
    · rw [opened_snoc]
      refine ⟨?_, nofun⟩
      rintro (ho | ⟨-, ho | ho⟩) <;> cases ho

/-- The text of a paste that passed the checks of `enqueue_paste`. -/
def Call.allowed : Call → Prop
  | .enqueuePaste _ _ _ _ _ text _ _ _ => Session.pasteAllowed text = true
  | _ => True

/-- What is written between delimiters is plain text. -/
def InputJob.Plain (job : InputJob) : Prop := job.bracketed = true → job.data.all plain = true

theorem Call.Makes.plain (h : Call.Makes call job) (ha : call.allowed) : job.Plain := by
  cases h with
  | enqueue => exact Bool.noConfusion
  | enqueuePaste => exact fun _ => plain_of_allowed ha

theorem Call.admitted_allowed {call : Call} (h : call.admitted w) : call.allowed := by
  cases call with
  | enqueuePaste => exact h.2
  | acquire | renew | release | enqueue => trivial

theorem locked_calls (w : World) (call : Call) : (w.locked call).1.calls = w.calls := by
  cases call <;> rfl

theorem Writing.Action.calls (h : Action w j io fs u) : u.calls = w.calls := by
  cases h <;> rfl

theorem Step.calls (hs : Step w e u) : ∀ call ∈ u.calls, call ∈ w.calls ∨ call.admitted w := by
  cases hs with
  | request call hl ha =>
    intro c hc
    rcases List.mem_append.1 hc with hc | hc
    · exact .inl hc
    · rw [List.mem_singleton.1 hc]
      exact .inr ha
  | locked before after call hc =>
    rw [locked_calls, hc]
    intro c hmem
    left
    rcases List.mem_append.1 hmem with hmem | hmem
    · exact List.mem_append_left _ hmem
    · exact List.mem_append_right _ (List.mem_cons_of_mem _ hmem)
  | write j io hp =>
    rw [(j.step_action w io).calls]
    exact fun _ => .inl
  | tick | cancel | revokeConnection | revokeClient | revokeAll | stopRunning
  | signalStop | query | dropSession | selectStop | selectInterrupt | selectQuery | selectNormal
  | selectLost | cancelQueued | startInterrupt | loseInterrupt | drainNormal | drainedNormal
  | drainInterrupt | drainedInterrupt | exit => exact fun _ => .inl

/-- All calls and all inputs in flight are checked. -/
def Checked (w : World) : Prop :=
  (∀ call ∈ w.calls, call.allowed) ∧ ∀ job ∈ w.delivery.jobs, job.Plain

theorem Checked.init : Checked World.init :=
  ⟨fun _ h => (List.not_mem_nil h).elim, fun _ h => (List.not_mem_nil h).elim⟩

theorem Checked.step (h : Checked w) (hs : Step w e u) : Checked u := by
  constructor
  · intro call hc
    rcases hs.calls call hc with hold | hadmitted
    · exact h.1 call hold
    · exact Call.admitted_allowed hadmitted
  · rcases hs.arrivals with ⟨hjobs, -⟩ | ⟨new, hnew⟩
    · exact fun job hj => h.2 job (hjobs hj)
    · intro job hj
      rcases List.mem_cons.1 (hnew.jobs hj) with rfl | hj
      · obtain ⟨call, hc, hmakes⟩ := hnew.made
        exact hmakes.plain (h.1 call hc)
      · exact h.2 job hj

/-- The delimiter is not written yet. -/
def Stage.early : Stage → Bool
  | .permitted _ .start | .opening => true
  | _ => false

/-- The local variables of `write_job` as far as the delimiters go. -/
def Staged (j : Writing) : Prop :=
  (j.prefixWritten = true → j.job.bracketed = true) ∧
    (j.stage.early = true → j.prefixWritten = false) ∧
    (j.stage = .opening → j.job.bracketed = true) ∧ j.rest <:+ j.job.data

theorem Staged.begin (job : InputJob) (queue : Queue) : Staged (beginWriting job queue) :=
  ⟨Bool.noConfusion, fun _ => rfl, Stage.noConfusion, List.suffix_rfl⟩

namespace Staged
variable {w u : World} {j j' : Writing} {io : Bool}

theorem early_onDenied (site : Site) (e : ErrorCode) : (Writing.onDenied e site).early = false := by
  cases site <;> rfl

theorem early_afterSuffix (j : Writing) (result : Except ErrorCode Unit) :
    (j.afterSuffix result).early = false := by
  cases result with
  | ok a =>
    cases a
    simp only [Writing.afterSuffix]
    split <;> rfl
  | error e => rfl

/-- The stage after a check that passes is early only if the check is. -/
theorem early_nextCheck (j : Writing) (site : Site) (check : Check)
    (h : (j.nextCheck site check).early = true) : (Stage.permitted check site).early = true := by
  cases check with
  | require | running => cases site <;> first | rfl | exact h
  | lease =>
    cases site with
    | start => rfl
    | chunk | enter => exact h

theorem opening_nextCheck (h : j.nextCheck site check = .opening) : j.job.bracketed = true := by
  cases check with
  | require | running => cases h
  | lease =>
    cases site with
    | start =>
      simp only [Writing.nextCheck, Writing.onPassed] at h
      split at h
      · next hb => exact hb
      · cases h
    | chunk | enter => cases h

/-- A stage that is not early leaves the delimiters as they are. -/
theorem move (h : Staged j) (hs : stage.early = false) : Staged { j with stage } := by
  refine ⟨h.1, fun he => ?_, fun he => ?_, h.2.2.2⟩
  · exact absurd (hs.symm.trans he) Bool.false_ne_true
  · have hopening : stage = .opening := he
    rw [hopening] at hs
    cases hs

theorem action (h : Staged j) (ha : Writing.Action w j io fs u) (hu : u.pc = .writing j') :
    Staged j' := by
  cases ha with
  | denied check site e hs hc =>
    cases hu
    exact h.move (early_onDenied site e)
  | passed check site hs hc =>
    cases hu
    refine ⟨h.1, fun he => ?_, opening_nextCheck, h.2.2.2⟩
    apply h.2.1
    rw [hs]
    exact early_nextCheck j site check he
  | opened hs hio =>
    cases hu
    exact ⟨fun _ => h.2.2.1 hs, Bool.noConfusion, Stage.noConfusion, h.2.2.2⟩
  | wrote hs hio =>
    cases hu
    exact ⟨h.1, Bool.noConfusion, Stage.noConfusion, (List.drop_suffix ..).trans h.2.2.2⟩
  | unopened hs hio | last hs hr | next hs hr hb | unwritten hs hio | unclosed hs hp hio
  | entered hs =>
    cases hu
    exact h.move rfl
  | interrupted stop others hs hr hb hi =>
    cases hu
    exact ⟨h.1, Bool.noConfusion, Stage.noConfusion, h.2.2.2⟩
  | closed result hs hp | bare result hs hp =>
    cases hu
    exact h.move (early_afterSuffix j result)
  | finished result hs =>
    simp only at hu
    split at hu <;> cases hu

theorem opened_open (hp : j.prefixWritten = true) (hs : j.stage.past = false) :
    (WriterPc.writing j).opened = some j.job.reply := by
  simp only [WriterPc.opened, hp, hs, Bool.not_false, Bool.and_self, ↓reduceIte]

theorem opened_bare (hp : j.prefixWritten = false) : (WriterPc.writing j).opened = none := by
  simp only [WriterPc.opened, hp, Bool.false_and, Bool.false_eq_true, ↓reduceIte]

theorem opened_past (hs : j.stage.past = true) : (WriterPc.writing j).opened = none := by
  simp only [WriterPc.opened, hs, Bool.not_true, Bool.and_false, Bool.false_eq_true, ↓reduceIte]

theorem opened_same {stage : Stage} (hs : stage.past = j.stage.past) :
    (WriterPc.writing { j with stage }).opened = (WriterPc.writing j).opened := by
  simp only [WriterPc.opened, hs]

/-- What one action of `write_job` does to the open paste. -/
theorem shift (h : Staged j) (hplain : j.job.Plain) (ha : Writing.Action w j io fs u)
    (hok : ∀ x ∈ fs, x.failed = false) : Shift (WriterPc.writing j).opened fs u.pc.opened := by
  have hsucceeds {part : Part} {bytes : List UInt8} {ok : Bool}
      (hfs : fs = [.pty part j.queue j.job.reply bytes ok]) : ok = true := by
    have hx := hok _ (hfs ▸ List.mem_singleton_self _)
    simpa only [Event.failed, Bool.not_eq_false'] using hx
  have hkept {stage : Stage} (hfs : fs = []) (hpast : stage.past = j.stage.past) :
      Shift (WriterPc.writing j).opened fs (WriterPc.writing { j with stage }).opened := by
    rw [opened_same hpast, hfs]
    exact .none
  cases ha with
  | denied check site e hs hc =>
    apply hkept rfl
    rw [hs]
    exact Ending.past_onDenied site e
  | passed check site hs hc =>
    apply hkept rfl
    rw [hs]
    exact Ending.past_nextCheck j site check check
  | opened hs hio =>
    have hbare : j.prefixWritten = false := by
      apply h.2.1
      rw [hs]
      rfl
    exact (Shift.opens ..).of (opened_bare hbare) (opened_open rfl rfl)
  | last hs hr | next hs hr hb | interrupted stop others hs hr hb hi =>
    apply hkept rfl
    rw [hs]
    rfl
  | wrote hs hio =>
    rcases Bool.eq_false_or_eq_true j.prefixWritten with hp | hp
    · have htext : (j.rest.take CHUNK).all plain = true := by
        rw [List.all_eq_true]
        intro b hb
        apply List.all_eq_true.1 (hplain (h.1 hp)) b
        exact h.2.2.2.subset (List.mem_of_mem_take hb)
      have hopen : j.stage.past = false := by
        rw [hs]
        rfl
      exact (Shift.text _ _ _ _ htext).of (opened_open hp hopen) (opened_open hp rfl)
    · apply (Shift.other _ (fun _ => rfl) fun _ => rfl).of (opened_bare hp)
      exact opened_bare hp
  | unopened hs hio | unwritten hs hio | unclosed hs hp hio =>
    rw [hsucceeds rfl] at hio
    cases hio
  | closed result hs hp hio =>
    have hopen : j.stage.past = false := by
      rw [hs]
      rfl
    apply (Shift.closes ..).of (opened_open hp hopen)
    exact opened_past (Ending.past_afterSuffix j result)
  | bare result hs hp => exact Shift.none.of (opened_bare hp) (opened_bare hp)
  | entered hs =>
    apply (Shift.other _ (fun _ => rfl) fun _ => rfl).of (opened_past (by rw [hs]; rfl))
    exact opened_past rfl
  | finished result hs =>
    apply (Shift.quiet _ rfl).of (opened_past (by rw [hs]; rfl))
    simp only
    cases j.urgent with
    | some stop => rfl
    | none => rfl

end Staged

/-- What one step does to the open paste, when no write fails. -/
theorem Step.shift (hs : Step w e u) (hc : Checked w) (hj : ∀ j, w.pc = .writing j → Staged j)
    (hok : ∀ x ∈ e, x.failed = false) : Shift w.pc.opened e u.pc.opened := by
  cases hs with
  | write j io hp =>
    have hplain : j.job.Plain := by
      apply hc.2
      have hcurrent : w.delivery.current = some j.current := by
        simp only [World.delivery, hp]
        rfl
      exact Handed.current_mem hcurrent
    have ha := j.step_action w io
    rw [hp]
    exact (hj j hp).shift hplain ha hok
  | locked before after call hcalls =>
    rw [locked_pc]
    cases call with
    | acquire | renew | release => exact .none
    | enqueue | enqueuePaste =>
      simp only [World.locked, acceptEvents]
      split
      · exact .quiet _ rfl
      · exact .none
  | selectQuery bytes others io hp hq =>
    rw [hp]
    exact .other _ (fun _ => rfl) fun _ => rfl
  | selectLost job others hp hn ha | cancelQueued job pending held others hp hn =>
    exact .quiet _ rfl
  | loseInterrupt job held hp hn ha | drainNormal job others hp hn
  | drainInterrupt job others hp hi =>
    rw [hp]
    exact .quiet _ rfl
  | selectStop hp | selectInterrupt job others hp | selectNormal job others hp
  | startInterrupt job held hp | drainedNormal hp | drainedInterrupt hp | exit hp =>
    rw [hp]
    exact .none
  | tick | cancel | request | revokeConnection | revokeClient | revokeAll | stopRunning
  | signalStop | query | dropSession => exact .none

/-- The state against the paste that the history leaves open. -/
structure Pastes (es : List Event) (w : World) : Prop where
  checked : Checked w
  staged : ∀ j, w.pc = .writing j → Staged j
  pasting : (∀ x ∈ es, x.failed = false) → Pasting es w.pc.opened

theorem Pastes.init : Pastes [] World.init where
  checked := .init
  staged := fun _ hp => nomatch hp
  pasting := fun _ => .init

theorem Pastes.step (h : Pastes es w) (hs : Step w e u) : Pastes (es ++ e) u := by
  refine ⟨h.checked.step hs, ?_, fun hok => ?_⟩
  · intro j' hu
    cases hs.onward hu with
    | same hp hw => exact h.staged j' hp
    | action j io hp ha => exact (h.staged j hp).action ha hu
    | begun job queue hb hj he =>
      rw [hb]
      exact .begin job queue
  · have hold := h.pasting fun x hx => hok x (List.mem_append_left _ hx)
    exact hold.shift (hs.shift h.checked h.staged fun x hx => hok x (List.mem_append_right _ hx))

theorem Pastes.run (h : Run Step World.init es w) : Pastes es w := h.invariant .init Pastes.step

/-- While the writes succeed, only plain text comes between the delimiters of a paste, and no
other job and no query reply before the closing one; a paste is open only inside its own
`write_job`. -/
theorem paste_fenced (h : Run Step World.init es w) (hok : ∀ x ∈ es, x.failed = false) :
    Each Fenced es ∧ ∀ r, Opened r es → ∃ j, w.pc = .writing j ∧ j.job.reply = r := by
  obtain ⟨heach, hopen⟩ := (Pastes.run h).pasting hok
  refine ⟨heach, fun r hr => ?_⟩
  have hpc := (hopen r).1 hr
  unfold WriterPc.opened at hpc
  split at hpc
  · next j hj =>
    split at hpc
    · exact ⟨j, hj, Option.some.inj hpc⟩
    · cases hpc
  · cases hpc

theorem none_failed {es : List Event} (h : es.any Event.failed = false) :
    ∀ x ∈ es, x.failed = false := by
  intro x hx
  exact Bool.eq_false_of_not_eq_true (List.any_eq_false.1 h x hx)

/-- Ctrl+C stops a paste inside its delimiters. -/
theorem paste_fenced_interrupted : ∃ es w, Run Step World.init es w ∧
    writes 0 es = [⟨.opening, pasteOpening, true⟩, ⟨.closing, pasteClosing, true⟩] ∧
    Each Fenced es := by
  have hacquired := (Run.single (Step.request World.init
    (.acquire writingPrincipal (.fill 2) false) rfl ⟨writingPrincipal_require, rfl⟩)).snoc
    (.locked _ [] [] _ rfl)
  have haccepted := (hacquired.snoc (.request _
    (.enqueuePaste writingPrincipal (.fill 2) 1 (.fill 9) 1 [120, 10] true true 0) rfl
    ⟨writingPrincipal_require, rfl⟩)).snoc (.locked _ [] [] _ rfl)
  have hstarted := haccepted.snoc (.selectNormal _ _ _ rfl rfl rfl)
  have hopened := (((hstarted.snoc (.write _ _ true rfl)).snoc (.write _ _ true rfl)).snoc
    (.write _ _ true rfl)).snoc (.write _ _ true rfl)
  have hinterrupt := (hopened.snoc (.request _
    (.enqueue writingPrincipal (.fill 2) 1 (.fill 8) 2 [3] 0) rfl
    writingPrincipal_require)).snoc (.locked _ [] [] _ rfl)
  have hclosed := (hinterrupt.snoc (.write _ _ true rfl)).snoc (.write _ _ true rfl)
  exact ⟨_, _, hclosed, rfl, (paste_fenced hclosed (none_failed rfl)).1⟩

end RemoteCodex
