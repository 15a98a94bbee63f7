import RemoteCodex.Agent.TraceWriter

/-! The performance trace: record calls of any threads, the thread that finishes the trace, and the
writer, one step at a time. -/

namespace RemoteCodex
set_option autoImplicit true
namespace Perf

def queueCapacity : Nat := 8192

def closedBit : UInt64 := (1 : UInt64) <<< (63 : UInt64)

def producerMask : UInt64 := closedBit - 1

/-- Where a record call is. -/
inductive Call where
  | entered (e : Event)
  | turn (e : Event) (current : UInt64)
  | admitted (e : Event)
  | refused (e : Event)
  | releasing
  | returned
  deriving DecidableEq

namespace Call

/-- The call is admitted, and not released. -/
def inFlight : Call → Bool
  | .admitted _ | .refused _ | .releasing => true
  | _ => false

/-- The event of the call is neither sent nor dropped. -/
def pending : Call → Bool
  | .admitted _ | .refused _ => true
  | _ => false

end Call

/-- Where the thread is that finishes the trace; `ok` is the outcome of `close_producers`, `sent`
that of the shutdown signal. -/
inductive Finisher where
  | running
  | closing
  | closed (ok : Bool)
  | signalled (ok sent : Bool)
  | returned (ok result : Bool)
  deriving DecidableEq

namespace Finisher

/-- `close_producers` succeeded. -/
def closeOk : Finisher → Bool
  | .closed ok | .signalled ok _ | .returned ok _ => ok
  | _ => false

def hasSignalled : Finisher → Bool
  | .signalled .. | .returned .. => true
  | _ => false

end Finisher

/-- Where the writer is. Between `returned` and `gone` it drops its end of the queue. -/
inductive WriterAt where
  | polling
  | receiving
  | draining
  | finishing
  | returned (ok : Bool)
  | gone (ok : Bool)
  deriving DecidableEq

namespace WriterAt

/-- The writer has left its loop, and nothing failed. -/
def leaving : WriterAt → Bool
  | .draining | .finishing => true
  | .returned ok | .gone ok => ok
  | _ => false

/-- Nothing more is taken from the queue, and nothing failed. -/
def drained : WriterAt → Bool
  | .finishing => true
  | .returned ok | .gone ok => ok
  | _ => false

/-- The footer is written. -/
def succeeded : WriterAt → Bool
  | .returned ok | .gone ok => ok
  | _ => false

def failed : WriterAt → Bool
  | .returned ok | .gone ok => !ok
  | _ => false

end WriterAt

/-- `admittedCount` is what the accounts are about; the program has no such counter. -/
structure PerfTrace where
  admission : UInt64
  dropped : Nat
  queue : List Event
  calls : List Call
  finisher : Finisher
  shutdown : Bool
  sendersGone : Bool
  writerAt : WriterAt
  writer : TraceWriter
  footer : Option Summary
  admittedCount : Nat

/-- What happens next. `spurious` lets an exchange fail without a reason, `expired` is a deadline
that has passed, and `failure` how a write of the writer ends. -/
inductive Action where
  | record (sessionId : Uuid) (sequence bytes : UInt64) (micros : Nat)
  | load (i : Nat)
  | tryAdmit (i : Nat) (spurious : Bool)
  | send (i : Nat)
  | drop (i : Nat)
  | release (i : Nat)
  | close
  | poll (expired : Bool)
  | signal
  | wait (expired : Bool)
  | dropSenders
  | tryShutdown
  | receive (failure : Option Nat)
  | drain (failure : Option Nat)
  | finish (ok : Bool)
  | exit

/-- The step of a call that is not admitted: a new call, or one in `tryAdmit`. -/
def Action.entering : Action → Bool
  | .record .. | .load _ | .tryAdmit .. => true
  | _ => false

namespace PerfTrace

def init (rawLimit : Nat) : PerfTrace :=
  ⟨0, 0, [], [], .running, false, false, .polling, .new rawLimit, none, 0⟩

def setCall (t : PerfTrace) (i : Nat) (c : Call) : PerfTrace := { t with calls := t.calls.set i c }

/-- One turn of the loop of `tryAdmit`. -/
def tryAdmit (t : PerfTrace) (i : Nat) (e : Event) (current : UInt64) (spurious : Bool) :
    PerfTrace :=
  if current &&& closedBit ≠ 0 ∨ current &&& producerMask = producerMask then t.setCall i .returned
  else if spurious ∨ t.admission ≠ current then t.setCall i (.turn e t.admission)
  else
    { t.setCall i (.admitted e) with
      admission := current + 1, admittedCount := t.admittedCount + 1 }

/-- `try_send` -/
def send (t : PerfTrace) (i : Nat) (e : Event) : PerfTrace :=
  match t.writerAt with
  | .gone _ => t.setCall i (.refused e)
  | _ =>
    if t.queue.length < queueCapacity then
      { t.setCall i .releasing with queue := t.queue ++ [e] }
    else t.setCall i (.refused e)

/-- The writer takes an event; a failure ends it. -/
def observe (t : PerfTrace) (failure : Option Nat) (e : Event) (rest : List Event)
    (next : WriterAt) : PerfTrace :=
  let (writer, ok) := t.writer.observe failure e
  { t with queue := rest, writer, writerAt := if ok then next else .returned false }

def step (t : PerfTrace) : Action → Option PerfTrace
  | .record sessionId sequence bytes micros =>
    if t.sendersGone then none
    else some { t with calls := t.calls ++ [.entered (.of sessionId sequence bytes micros)] }
  | .load i =>
    match t.calls[i]? with
    | some (.entered e) => some (t.setCall i (.turn e t.admission))
    | _ => none
  | .tryAdmit i spurious =>
    match t.calls[i]? with
    | some (.turn e current) => some (t.tryAdmit i e current spurious)
    | _ => none
  | .send i =>
    match t.calls[i]? with
    | some (.admitted e) => some (t.send i e)
    | _ => none
  | .drop i =>
    match t.calls[i]? with
    | some (.refused _) => some { t.setCall i .releasing with dropped := t.dropped + 1 }
    | _ => none
  | .release i =>
    match t.calls[i]? with
    | some .releasing => some { t.setCall i .returned with admission := t.admission - 1 }
    | _ => none
  | .close =>
    match t.finisher with
    | .running => some { t with admission := t.admission ||| closedBit, finisher := .closing }
    | _ => none
  | .poll expired =>
    match t.finisher with
    | .closing =>
      if t.admission &&& producerMask = 0 then some { t with finisher := .closed true }
      else if expired then some { t with finisher := .closed false }
      else some t
    | _ => none
  | .signal =>
    match t.finisher, t.writerAt with
    | .closed ok, .gone _ => some { t with finisher := .signalled ok false }
    | .closed ok, _ => some { t with finisher := .signalled ok true, shutdown := true }
    | _, _ => none
  | .wait expired =>
    match t.finisher, t.writerAt with
    | .signalled ok sent, .gone written =>
      some { t with finisher := .returned ok (written && ok && sent) }
    | .signalled ok _, _ =>
      if expired then some { t with finisher := .returned ok false } else some t
    | _, _ => none
  | .dropSenders =>
    match t.finisher with
    | .returned .. =>
      if t.calls.all (· = .returned) then some { t with sendersGone := true } else none
    | _ => none
  | .tryShutdown =>
    match t.writerAt with
    | .polling =>
      if t.shutdown then some { t with shutdown := false, writerAt := .draining }
      else if t.sendersGone then some { t with writerAt := .draining }
      else some { t with writerAt := .receiving }
    | _ => none
  | .receive failure =>
    match t.writerAt, t.queue with
    | .receiving, e :: rest => some (t.observe failure e rest .polling)
    | .receiving, [] => some { t with writerAt := if t.sendersGone then .finishing else .polling }
    | _, _ => none
  | .drain failure =>
    match t.writerAt, t.queue with
    | .draining, e :: rest => some (t.observe failure e rest .draining)
    | .draining, [] => some { t with writerAt := .finishing }
    | _, _ => none
  | .finish ok =>
    match t.writerAt with
    | .finishing =>
      if ok then
        some { t with footer := some (t.writer.summary t.dropped), writerAt := .returned true }
      else some { t with writerAt := .returned false }
    | _ => none
  | .exit =>
    match t.writerAt with
    | .returned ok => some { t with writerAt := .gone ok }
    | _ => none

/-- What each action does where it is possible. -/
inductive Moves (t : PerfTrace) : Action → PerfTrace → Prop where
  | record (hopen : ¬ t.sendersGone = true) (sessionId : Uuid) (sequence bytes : UInt64)
      (micros : Nat) :
      Moves t (.record sessionId sequence bytes micros)
        { t with calls := t.calls ++ [.entered (.of sessionId sequence bytes micros)] }
  | load (hc : t.calls[i]? = some (.entered e)) :
      Moves t (.load i) (t.setCall i (.turn e t.admission))
  | tryAdmit (hc : t.calls[i]? = some (.turn e current)) (spurious : Bool) :
      Moves t (.tryAdmit i spurious) (t.tryAdmit i e current spurious)
  | send (hc : t.calls[i]? = some (.admitted e)) : Moves t (.send i) (t.send i e)
  | drop (hc : t.calls[i]? = some (.refused e)) :
      Moves t (.drop i) { t.setCall i .releasing with dropped := t.dropped + 1 }
  | release (hc : t.calls[i]? = some .releasing) :
      Moves t (.release i) { t.setCall i .returned with admission := t.admission - 1 }
  | close (hf : t.finisher = .running) :
      Moves t .close { t with admission := t.admission ||| closedBit, finisher := .closing }
  | emptied (hf : t.finisher = .closing) (hmask : t.admission &&& producerMask = 0)
      (expired : Bool) : Moves t (.poll expired) { t with finisher := .closed true }
  | gaveUp (hf : t.finisher = .closing) (hmask : ¬ t.admission &&& producerMask = 0) :
      Moves t (.poll true) { t with finisher := .closed false }
  | signalGone (hf : t.finisher = .closed ok) (hw : t.writerAt = .gone written) :
      Moves t .signal { t with finisher := .signalled ok false }
  | signal (hf : t.finisher = .closed ok) :
      Moves t .signal { t with finisher := .signalled ok true, shutdown := true }
  | joined (hf : t.finisher = .signalled ok sent) (hw : t.writerAt = .gone written)
      (expired : Bool) :
      Moves t (.wait expired) { t with finisher := .returned ok (written && ok && sent) }
  | leftAlone (hf : t.finisher = .signalled ok sent) :
      Moves t (.wait true) { t with finisher := .returned ok false }
  | stillPolling (hf : t.finisher = .closing) (hmask : ¬ t.admission &&& producerMask = 0) :
      Moves t (.poll false) t
  | stillWaiting (hf : t.finisher = .signalled ok sent) : Moves t (.wait false) t
  | dropSenders (hf : t.finisher = .returned ok result)
      (hreturned : t.calls.all (· = .returned) = true) :
      Moves t .dropSenders { t with sendersGone := true }
  | shutDown (hw : t.writerAt = .polling) (hshutdown : t.shutdown = true) :
      Moves t .tryShutdown { t with shutdown := false, writerAt := .draining }
  | disconnected (hw : t.writerAt = .polling) (hgone : t.sendersGone = true) :
      Moves t .tryShutdown { t with writerAt := .draining }
  | listen (hw : t.writerAt = .polling) : Moves t .tryShutdown { t with writerAt := .receiving }
  | receive (hw : t.writerAt = .receiving) (hq : t.queue = e :: rest) (failure : Option Nat) :
      Moves t (.receive failure) (t.observe failure e rest .polling)
  | receiveNone (hw : t.writerAt = .receiving) (hq : t.queue = []) (failure : Option Nat) :
      Moves t (.receive failure)
        { t with writerAt := if t.sendersGone then .finishing else .polling }
  | drain (hw : t.writerAt = .draining) (hq : t.queue = e :: rest) (failure : Option Nat) :
      Moves t (.drain failure) (t.observe failure e rest .draining)
  | drainNone (hw : t.writerAt = .draining) (hq : t.queue = []) (failure : Option Nat) :
      Moves t (.drain failure) { t with writerAt := .finishing }
  | finish (hw : t.writerAt = .finishing) :
      Moves t (.finish true)
        { t with footer := some (t.writer.summary t.dropped), writerAt := .returned true }
  | finishFailed (hw : t.writerAt = .finishing) :
      Moves t (.finish false) { t with writerAt := .returned false }
  | exit (hw : t.writerAt = .returned ok) : Moves t .exit { t with writerAt := .gone ok }

theorem step_moves {t t' : PerfTrace} (hs : t.step a = some t') : Moves t a t' := by
  cases a with
  | record sessionId sequence bytes micros =>
    simp only [step, Option.ite_none_left_eq_some, Option.some.injEq] at hs
    obtain ⟨hopen, rfl⟩ := hs
    exact .record hopen _ _ _ _
  | load i =>
    simp only [step] at hs
    split at hs
    · next hc =>
      cases hs
      exact .load hc
    · cases hs
  | tryAdmit i spurious =>
    simp only [step] at hs
    split at hs
    · next hc =>
      cases hs
      exact .tryAdmit hc spurious
    · cases hs
  | send i =>
    simp only [step] at hs
    split at hs
    · next hc =>
      cases hs
      exact .send hc
    · cases hs
  | drop i =>
    simp only [step] at hs
    split at hs
    · next hc =>
      cases hs
      exact .drop hc
    · cases hs
  | release i =>
    simp only [step] at hs
    split at hs
    · next hc =>
      cases hs
      exact .release hc
    · cases hs
  | close =>
    simp only [step] at hs
    split at hs
    · next hf =>
      cases hs
      exact .close hf
    · cases hs
  | poll expired =>
    simp only [step] at hs
    split at hs
    · next hf =>
      split at hs
      · next hmask =>
        cases hs
        exact .emptied hf hmask expired
      · next hmask =>
        cases expired with
        | false =>
          cases hs
          exact .stillPolling hf hmask
        | true =>
          cases hs
          exact .gaveUp hf hmask
    · cases hs
  | signal =>
    simp only [step] at hs
    split at hs
    · next hf hw =>
      cases hs
      exact .signalGone hf hw
    · next hf hw =>
      cases hs
      exact .signal hf
    · cases hs
  | wait expired =>
    simp only [step] at hs
    split at hs
    · next hf hw =>
      cases hs
      exact .joined hf hw expired
    · next hf hw =>
      cases expired with
      | false =>
        cases hs
        exact .stillWaiting hf
      | true =>
        cases hs
        exact .leftAlone hf
    · cases hs
  | dropSenders =>
    simp only [step] at hs
    split at hs
    · next hf =>
      split at hs
      · next hreturned =>
        cases hs
        exact .dropSenders hf hreturned
      · cases hs
    · cases hs
  | tryShutdown =>
    simp only [step] at hs
    split at hs
    · next hw =>
      split at hs
      · next hshutdown =>
        cases hs
        exact .shutDown hw hshutdown
      · split at hs
        · next hgone =>
          cases hs
          exact .disconnected hw hgone
        · cases hs
          exact .listen hw
    · cases hs
  | receive failure =>
    simp only [step] at hs
    split at hs
    · next hw hq =>
      cases hs
      exact .receive hw hq failure
    · next hw hq =>
      cases hs
      exact .receiveNone hw hq failure
    · cases hs
  | drain failure =>
    simp only [step] at hs
    split at hs
    · next hw hq =>
      cases hs
      exact .drain hw hq failure
    · next hw hq =>
      cases hs
      exact .drainNone hw hq failure
    · cases hs
  | finish ok =>
    simp only [step] at hs
    split at hs
    · next hw =>
      cases ok with
      | false =>
        cases hs
        exact .finishFailed hw
      | true =>
        cases hs
        exact .finish hw
    · cases hs
  | exit =>
    simp only [step] at hs
    split at hs
    · next hw =>
      cases hs
      exact .exit hw
    · cases hs

/-- Several steps. -/
def steps (t : PerfTrace) (actions : List Action) : Option PerfTrace := actions.foldlM step t

/-- A step, with the action that it is. -/
def Step (t : PerfTrace) (actions : List Action) (t' : PerfTrace) : Prop :=
  ∃ a, actions = [a] ∧ t.step a = some t'

end PerfTrace
end Perf
end RemoteCodex
