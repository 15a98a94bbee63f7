import RemoteCodex.Core.Input
import RemoteCodex.Core.Lease
import RemoteCodex.Agent.Principal

namespace RemoteCodex
set_option autoImplicit true

/-- An input on its way to the writer thread; `reply` names its one-shot channel. -/
structure InputJob where
  p : Principal
  connection : Uuid
  epoch : Nat
  id : Uuid
  data : List UInt8
  reply : Nat
  received : Nat
  bulk : Bool
  bracketed : Bool
  appendEnter : Bool
  deriving DecidableEq

structure InputState where
  lease : Lease
  ledger : InputLedger

/-- The part of a session that terminal input passes through: the locked input state, the
running flag, the two bounded queues to the writer thread and its stop signal. `closed` is set
once the writer thread has dropped its receivers. -/
structure Session where
  input : InputState
  running : Bool
  writer : List InputJob
  interrupt : List InputJob
  stop : Bool
  closed : Bool

namespace Session

def init : Session := ⟨⟨.default, .default⟩, true, [], [], false, false⟩

def WRITER_CAPACITY : Nat := 64
def INTERRUPT_CAPACITY : Nat := 8

def setLease (s : Session) (l : Lease) : Session := { s with input := { s.input with lease := l } }

def setLedger (s : Session) (l : InputLedger) : Session :=
  { s with input := { s.input with ledger := l } }

def finishId (s : Session) (id : Uuid) (status : String) : Session :=
  s.setLedger (s.input.ledger.finish id status)

/-- A send that never blocks fails on a full queue and on a dropped receiver. -/
def trySendWriter (s : Session) (job : InputJob) : Option Session :=
  if s.closed ∨ WRITER_CAPACITY ≤ s.writer.length then none
  else some { s with writer := s.writer ++ [job] }

def trySendInterrupt (s : Session) (job : InputJob) : Option Session :=
  if s.closed ∨ INTERRUPT_CAPACITY ≤ s.interrupt.length then none
  else some { s with interrupt := s.interrupt ++ [job] }

/-- The part of `enqueue` under the input lock, after `require`. -/
def enqueue (s : Session) (p : Principal) (c : Uuid) (lease : Nat) (id : Uuid) (seq : Nat)
    (data : List UInt8) (received now reply : Nat) : Except ErrorCode InputJob × Session :=
  match s.input.lease.verify p.clientId c lease now with
  | .error e => (.error e, s)
  | .ok () =>
    match s.input.ledger.accept c lease id seq data.length with
    | (.error e, ledger) => (.error e, s.setLedger ledger)
    | (.ok (), ledger) =>
      let s := s.setLedger ledger
      let priority := decide (data = [3])
      let job : InputJob :=
        { p, connection := c, epoch := lease, id, data, reply, received,
          bulk := false, bracketed := false, appendEnter := false }
      match if priority then s.trySendInterrupt job else s.trySendWriter job with
      | none => (.error .rateLimited, s.finishId id "rejected")
      | some s => (.ok job, s)

/-- `text.replace("\r\n", "\r")` on the bytes of the text. -/
def replaceCrLf : List UInt8 → List UInt8
  | 13 :: 10 :: rest => 13 :: replaceCrLf rest
  | b :: rest => b :: replaceCrLf rest
  | [] => []

def replaceLf (text : List UInt8) : List UInt8 := text.map fun b => if b = 10 then 13 else b

/-- The checks of `enqueue_paste` on the text. -/
def pasteAllowed (text : List UInt8) : Bool :=
  !text.isEmpty && decide (text.length ≤ MAX_PASTE) &&
    !text.any fun b => (decide (b < 32) && !(b == 9 || b == 10 || b == 13)) || b == 127

/-- The part of `enqueue_paste` under the input lock; `bracketed` was read from the terminal
model before. -/
def enqueuePaste (s : Session) (p : Principal) (c : Uuid) (lease : Nat) (id : Uuid) (seq : Nat)
    (text : List UInt8) (bracketed appendEnter : Bool) (received now reply : Nat) :
    Except ErrorCode InputJob × Session :=
  let data := replaceLf (replaceCrLf text)
  match s.input.lease.verify p.clientId c lease now with
  | .error e => (.error e, s)
  | .ok () =>
    match s.input.ledger.acceptPaste c lease id seq data.length with
    | (.error e, ledger) => (.error e, s.setLedger ledger)
    | (.ok (), ledger) =>
      let s := s.setLedger ledger
      let job : InputJob :=
        { p, connection := c, epoch := lease, id, data, reply, received,
          bulk := true, bracketed, appendEnter }
      match s.trySendWriter job with
      | none => (.error .rateLimited, s.finishId id "rejected")
      | some s => (.ok job, s)

@[simp] theorem setLease_input (s : Session) (l : Lease) :
    (s.setLease l).input = { s.input with lease := l } := rfl

@[simp] theorem setLease_writer (s : Session) (l : Lease) : (s.setLease l).writer = s.writer := rfl

@[simp] theorem setLease_interrupt (s : Session) (l : Lease) :
    (s.setLease l).interrupt = s.interrupt := rfl

@[simp] theorem setLedger_lease (s : Session) (l : InputLedger) :
    (s.setLedger l).input.lease = s.input.lease := rfl

@[simp] theorem setLedger_ledger (s : Session) (l : InputLedger) :
    (s.setLedger l).input.ledger = l := rfl

@[simp] theorem setLedger_writer (s : Session) (l : InputLedger) :
    (s.setLedger l).writer = s.writer := rfl

@[simp] theorem setLedger_interrupt (s : Session) (l : InputLedger) :
    (s.setLedger l).interrupt = s.interrupt := rfl

@[simp] theorem finishId_lease (s : Session) (id : Uuid) (status : String) :
    (s.finishId id status).input.lease = s.input.lease := rfl

@[simp] theorem finishId_highest (s : Session) (id : Uuid) (status : String) :
    (s.finishId id status).input.ledger.highest = s.input.ledger.highest :=
  InputLedger.finish_highest _ _ _

@[simp] theorem finishId_writer (s : Session) (id : Uuid) (status : String) :
    (s.finishId id status).writer = s.writer := rfl

@[simp] theorem finishId_interrupt (s : Session) (id : Uuid) (status : String) :
    (s.finishId id status).interrupt = s.interrupt := rfl

/-- The sequence check both enqueue paths share. -/
structure Admitted (s : Session) (c : Uuid) (lease seq : Nat) (s' : Session) : Prop where
  epoch : s.input.lease.epoch = lease
  owner : ∃ o, s.input.lease.owner = some o ∧ o.connection = c
  above : ∀ h, s.input.ledger.highest.lookup (c, lease) = some h → h < seq
  lease_eq : s'.input.lease = s.input.lease
  highest : s'.input.ledger.highest.lookup (c, lease) = some seq

/-- The ways an enqueue can end: refused without touching the queues, or accepted into exactly
one of them. In both cases the lease is left alone and the ledger's highest sequence is
either unchanged or moved up by an admitted sequence. -/
inductive Enqueued (s : Session) (c : Uuid) (lease seq reply : Nat) :
    Except ErrorCode InputJob → Session → Prop where
  | refused (e : ErrorCode) : Enqueued s c lease seq reply (.error e) s
  | full (s' : Session) (ha : Admitted s c lease seq s') (hw : s'.writer = s.writer)
      (hi : s'.interrupt = s.interrupt) :
      Enqueued s c lease seq reply (.error .rateLimited) s'
  | normal (s' : Session) (job : InputJob) (ha : Admitted s c lease seq s')
      (hj : job.reply = reply ∧ job.epoch = lease) (hw : s'.writer = s.writer ++ [job])
      (hi : s'.interrupt = s.interrupt) : Enqueued s c lease seq reply (.ok job) s'
  | priority (s' : Session) (job : InputJob) (ha : Admitted s c lease seq s')
      (hj : job.reply = reply ∧ job.epoch = lease) (hw : s'.writer = s.writer)
      (hi : s'.interrupt = s.interrupt ++ [job]) : Enqueued s c lease seq reply (.ok job) s'

theorem Admitted.of_accept {max : Nat} {id : Uuid}
    (hv : s.input.lease.verify client c lease now = .ok ())
    (ha : s.input.ledger.acceptLimit c lease id seq bytes max = (.ok (), ledger))
    (hl : s'.input.lease = s.input.lease)
    (hh : s'.input.ledger.highest = ledger.highest) : Admitted s c lease seq s' := by
  obtain ⟨o, ho, _, _, hc, he⟩ := (Lease.verify_eq_ok ..).1 hv
  rcases InputLedger.acceptLimit_cases ha with ⟨_, hr, _⟩ | ⟨_, _, _, _, _, habove, hset⟩
  · cases hr
  · exact ⟨he, ⟨o, ho, hc⟩, habove, hl, hh ▸ hset⟩

theorem enqueue_spec (s : Session) (p : Principal) (c : Uuid) (lease : Nat) (id : Uuid)
    (seq : Nat) (data : List UInt8) (received now reply : Nat) :
    Enqueued s c lease seq reply (s.enqueue p c lease id seq data received now reply).1
      (s.enqueue p c lease id seq data received now reply).2 := by
  unfold enqueue
  split
  · exact .refused _
  · next hv =>
    split
    · next e ledger ha =>
      have hl := InputLedger.acceptLimit_error ha
      subst ledger
      exact .refused e
    · next ledger ha =>
      simp only
      split
      · exact .full _ (.of_accept hv ha rfl (InputLedger.finish_highest _ _ _)) rfl rfl
      · next s' hs =>
        by_cases hp : data = [3]
        · simp only [hp, decide_true, ↓reduceIte, trySendInterrupt] at hs
          split at hs
          · cases hs
          · cases hs
            exact .priority _ _ (.of_accept hv ha rfl rfl) ⟨rfl, rfl⟩ rfl (by simp only [hp]; rfl)
        · simp only [hp, decide_false, Bool.false_eq_true, ↓reduceIte, trySendWriter] at hs
          split at hs
          · cases hs
          · cases hs
            exact .normal _ _ (.of_accept hv ha rfl rfl) ⟨rfl, rfl⟩ rfl rfl

theorem enqueuePaste_spec (s : Session) (p : Principal) (c : Uuid) (lease : Nat) (id : Uuid)
    (seq : Nat) (text : List UInt8) (bracketed appendEnter : Bool) (received now reply : Nat) :
    Enqueued s c lease seq reply
      (s.enqueuePaste p c lease id seq text bracketed appendEnter received now reply).1
      (s.enqueuePaste p c lease id seq text bracketed appendEnter received now reply).2 := by
  unfold enqueuePaste
  simp only
  split
  · exact .refused _
  · next hv =>
    split
    · next e ledger ha =>
      have hl := InputLedger.acceptLimit_error ha
      subst ledger
      exact .refused e
    · next ledger ha =>
      split
      · exact .full _ (.of_accept hv ha rfl (InputLedger.finish_highest _ _ _)) rfl rfl
      · next s' hs =>
        unfold trySendWriter at hs
        split at hs
        · cases hs
        · cases hs
          exact .normal _ _ (.of_accept hv ha rfl rfl) ⟨rfl, rfl⟩ rfl rfl

end Session
end RemoteCodex
