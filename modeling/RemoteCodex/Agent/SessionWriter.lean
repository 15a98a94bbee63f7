import RemoteCodex.Lib.Trace
import RemoteCodex.Agent.SessionInput

namespace RemoteCodex
set_option autoImplicit true

/-- Which of the two queues a job was taken from. -/
inductive Queue where
  | normal
  | interrupt
  deriving DecidableEq, Repr

/-- The kinds of bytes the writer thread hands to the PTY. -/
inductive Part where
  | opening
  | data
  | closing
  | enter
  deriving DecidableEq, Repr

/-- The three checks of the closure `permitted`, made one after the other. -/
inductive Check where
  | require
  | running
  | lease
  deriving DecidableEq, Repr

/-- Where `permitted()?` is called: before anything is written, before a chunk, before the
final carriage return. -/
inductive Site where
  | start
  | chunk
  | enter
  deriving DecidableEq, Repr

inductive Stage where
  | permitted (check : Check) (site : Site)
  | opening
  | chunk
  | write
  | suffix (result : Except ErrorCode Unit)
  | enter
  | finish (result : Except ErrorCode Unit)

/-- The local variables of `write_job`; `rest` is the data not yet handed to the PTY. -/
structure Writing where
  job : InputJob
  queue : Queue
  rest : List UInt8
  prefixWritten : Bool
  urgent : Option InputJob
  stage : Stage

/-- The writer thread between two of its atomic actions. -/
inductive WriterPc where
  | select
  /-- Cancelling the queued input before an interrupt is written; `held` when the caller is
  `write_job`, which still owns the session. -/
  | interrupted (job : InputJob) (held : Bool)
  | writing (j : Writing)
  | drainNormal
  | drainInterrupt
  | closing
  | exited

/-- A locked section that a caller of the session has reached after its checks. -/
inductive Call where
  | acquire (p : Principal) (c : Uuid) (takeover : Bool)
  | renew (p : Principal) (c : Uuid) (epoch : Nat)
  | release (p : Principal) (c : Uuid) (epoch : Nat)
  | enqueue (p : Principal) (c : Uuid) (lease : Nat) (id : Uuid) (seq : Nat)
      (data : List UInt8) (received : Nat)
  | enqueuePaste (p : Principal) (c : Uuid) (lease : Nat) (id : Uuid) (seq : Nat)
      (text : List UInt8) (bracketed appendEnter : Bool) (received : Nat)

/-- What an observer of a run sees. -/
inductive Event where
  | accepted (reply epoch seq : Nat) (data : List UInt8)
  | pty (part : Part) (queue : Queue) (reply : Nat) (bytes : List UInt8) (ok : Bool)
  | query (bytes : List UInt8) (ok : Bool)
  | replied (reply : Nat) (result : Except ErrorCode Unit)

/-- A session with its callers and its writer thread. -/
structure World where
  now : Nat
  cancelled : Finset CancellationToken
  s : Session
  alive : Bool
  queries : List (List UInt8)
  calls : List Call
  nextReply : Nat
  pc : WriterPc

def World.init : World := ⟨0, ∅, .init, true, [], [], 0, .select⟩

def QUERY_CAPACITY : Nat := 128

/-- The checks a call makes before it takes the input lock. -/
def Call.admitted (w : World) : Call → Prop
  | .acquire p _ _ =>
    p.require w.cancelled w.now .terminalWrite = .ok () ∧ w.s.running = true
  | .renew p _ _ | .release p _ _ | .enqueue p _ _ _ _ _ _ =>
    p.require w.cancelled w.now .terminalWrite = .ok ()
  | .enqueuePaste p _ _ _ _ text _ _ _ =>
    p.require w.cancelled w.now .terminalWrite = .ok () ∧ Session.pasteAllowed text = true

/-- The events of an enqueue: an accepted input is announced with its epoch and sequence. -/
def acceptEvents (reply lease seq : Nat) : Except ErrorCode InputJob → List Event
  | .ok job => [.accepted reply lease seq job.data]
  | .error _ => []

/-- The locked section of a call. Every enqueue opens a fresh one-shot channel. -/
def World.locked (w : World) : Call → World × List Event
  | .acquire p c takeover =>
    ({ w with s := w.s.setLease (w.s.input.lease.acquire p.clientId c takeover w.now).2 }, [])
  | .renew p c epoch =>
    ({ w with s := w.s.setLease (w.s.input.lease.renew p.clientId c epoch w.now).2 }, [])
  | .release p c epoch =>
    ({ w with s := w.s.setLease (w.s.input.lease.release p.clientId c epoch w.now).2 }, [])
  | .enqueue p c lease id seq data received =>
    let q := w.s.enqueue p c lease id seq data received w.now w.nextReply
    ({ w with s := q.2, nextReply := w.nextReply + 1 }, acceptEvents w.nextReply lease seq q.1)
  | .enqueuePaste p c lease id seq text bracketed appendEnter received =>
    let q := w.s.enqueuePaste p c lease id seq text bracketed appendEnter received w.now
      w.nextReply
    ({ w with s := q.2, nextReply := w.nextReply + 1 }, acceptEvents w.nextReply lease seq q.1)

/-- `ESC [ 2 0 0 ~` -/
def pasteOpening : List UInt8 := [27, 91, 50, 48, 48, 126]

/-- `ESC [ 2 0 1 ~` -/
def pasteClosing : List UInt8 := [27, 91, 50, 48, 49, 126]

def CHUNK : Nat := 8192

def beginWriting (job : InputJob) (queue : Queue) : Writing :=
  ⟨job, queue, job.data, false, none, .permitted .require .start⟩

namespace Writing

/-- One of the checks of `permitted`. -/
def check (j : Writing) (w : World) : Check → Except ErrorCode Unit
  | .require => j.job.p.require w.cancelled w.now .terminalWrite
  | .running => if w.s.running then .ok () else .error .sessionLost
  | .lease =>
    w.s.input.lease.verify j.job.p.clientId j.job.connection j.job.epoch w.now

/-- Where a failed check leads: `?` leaves the closure that writes the data, a failure before
the carriage return becomes the result. -/
def onDenied (e : ErrorCode) : Site → Stage
  | .start | .chunk => .suffix (.error e)
  | .enter => .finish (.error e)

def onPassed (j : Writing) : Site → Stage
  | .start => if j.job.bracketed then .opening else .chunk
  | .chunk => .write
  | .enter => .enter

def nextCheck (j : Writing) (site : Site) : Check → Stage
  | .require => .permitted .running site
  | .running => .permitted .lease site
  | .lease => j.onPassed site

/-- `result.and(suffix)` and the decision about the carriage return. -/
def afterSuffix (j : Writing) : Except ErrorCode Unit → Stage
  | .ok () => if j.job.appendEnter then .permitted .require .enter else .finish (.ok ())
  | .error e => .finish (.error e)

def finishStatus : Except ErrorCode Unit → String
  | .ok () => "written"
  | .error _ => "delivery_unknown"

/-- Continue `write_job` with other local variables. -/
def goto (w : World) (j : Writing) (stage : Stage) : World :=
  { w with pc := .writing { j with stage } }

/-- One atomic action of `write_job`; `io` tells whether a `write_all` made in it succeeds. -/
def step (w : World) (j : Writing) (io : Bool) : World × List Event :=
  match j.stage with
  | .permitted check site =>
    match j.check w check with
    | .error e => (goto w j (onDenied e site), [])
    | .ok () => (goto w j (j.nextCheck site check), [])
  | .opening =>
    let event := .pty .opening j.queue j.job.reply pasteOpening io
    if io then (goto w { j with prefixWritten := true } .chunk, [event])
    else (goto w j (.suffix (.error .inputDeliveryUnknown)), [event])
  | .chunk =>
    match j.rest with
    | [] => (goto w j (.suffix (.ok ())), [])
    | _ :: _ =>
      if j.job.bulk then
        match w.s.interrupt with
        | stop :: others =>
          (goto { w with s := { w.s with interrupt := others } } { j with urgent := some stop }
            (.suffix (.error .inputCanceled)), [])
        | [] => (goto w j (.permitted .require .chunk), [])
      else (goto w j (.permitted .require .chunk), [])
  | .write =>
    let event := .pty .data j.queue j.job.reply (j.rest.take CHUNK) io
    if io then (goto w { j with rest := j.rest.drop CHUNK } .chunk, [event])
    else (goto w j (.suffix (.error .inputDeliveryUnknown)), [event])
  | .suffix result =>
    if j.prefixWritten then
      let event := .pty .closing j.queue j.job.reply pasteClosing io
      match result, io with
      | .ok (), false => (goto w j (.finish (.error .inputDeliveryUnknown)), [event])
      | result, _ => (goto w j (j.afterSuffix result), [event])
    else (goto w j (j.afterSuffix result), [])
  | .enter =>
    (goto w j (.finish (if io then .ok () else .error .inputDeliveryUnknown)),
      [.pty .enter j.queue j.job.reply [13] io])
  | .finish result =>
    ({ w with
        s := w.s.finishId j.job.id (finishStatus result)
        pc := match j.urgent with
          | some stop => .interrupted stop true
          | none => .select },
      [.replied j.job.reply result])

end Writing

/-- The writer thread owns the session while it is inside `write_job`. -/
def WriterPc.owns : WriterPc → Bool
  | .writing _ => true
  | .interrupted _ held => held
  | _ => false

/-- The atomic actions of the environment and of the writer thread. The biased selection polls
its channels one by one and may also be woken by any of them, so each channel that holds a
message can be the one taken. -/
inductive Step : World → List Event → World → Prop where
  | tick (w : World) (d : Nat) : Step w [] { w with now := w.now + d }
  | cancel (w : World) (t : CancellationToken) :
      Step w [] { w with cancelled := insert t w.cancelled }
  | request (w : World) (call : Call) (hl : w.alive = true) (ha : call.admitted w) :
      Step w [] { w with calls := w.calls ++ [call] }
  | locked (w : World) (before after : List Call) (call : Call)
      (hc : w.calls = before ++ call :: after) :
      Step w ({ w with calls := before ++ after }.locked call).2
        ({ w with calls := before ++ after }.locked call).1
  | revokeConnection (w : World) (id : Uuid) :
      Step w [] { w with s := w.s.setLease (w.s.input.lease.revokeConnection id) }
  | revokeClient (w : World) (id : Uuid) :
      Step w [] { w with s := w.s.setLease (w.s.input.lease.revokeClient id) }
  | revokeAll (w : World) :
      Step w [] { w with s := w.s.setLease w.s.input.lease.revokeAll }
  | stopRunning (w : World) : Step w [] { w with s := { w.s with running := false } }
  | signalStop (w : World) (hr : w.s.running = false) :
      Step w [] { w with s := { w.s with stop := true } }
  | query (w : World) (bytes : List UInt8) (hq : w.queries.length < QUERY_CAPACITY) :
      Step w [] { w with queries := w.queries ++ [bytes] }
  | dropSession (w : World) (hc : w.calls = []) (ho : w.pc.owns = false) :
      Step w [] { w with alive := false, s := { w.s with stop := true } }
  | selectStop (w : World) (hp : w.pc = .select) (hs : w.s.stop = true ∨ w.alive = false) :
      Step w [] { w with pc := .drainNormal, s := { w.s with stop := false } }
  | selectInterrupt (w : World) (job : InputJob) (others : List InputJob)
      (hp : w.pc = .select) (hi : w.s.interrupt = job :: others) :
      Step w [] { w with pc := .interrupted job false, s := { w.s with interrupt := others } }
  | selectQuery (w : World) (bytes : List UInt8) (others : List (List UInt8)) (io : Bool)
      (hp : w.pc = .select) (hq : w.queries = bytes :: others) :
      Step w [.query bytes io] { w with queries := others }
  | selectNormal (w : World) (job : InputJob) (others : List InputJob)
      (hp : w.pc = .select) (hn : w.s.writer = job :: others) (ha : w.alive = true) :
      Step w [] { w with
        pc := .writing (beginWriting job .normal), s := { w.s with writer := others } }
  | selectLost (w : World) (job : InputJob) (others : List InputJob)
      (hp : w.pc = .select) (hn : w.s.writer = job :: others) (ha : w.alive = false) :
      Step w [.replied job.reply (.error .sessionLost)]
        { w with s := { w.s with writer := others } }
  | cancelQueued (w : World) (job pending : InputJob) (held : Bool) (others : List InputJob)
      (hp : w.pc = .interrupted job held) (hn : w.s.writer = pending :: others) :
      Step w [.replied pending.reply (.error .inputCanceled)]
        { w with s := if w.alive || held
          then { w.s with writer := others }.finishId pending.id "rejected"
          else { w.s with writer := others } }
  | startInterrupt (w : World) (job : InputJob) (held : Bool)
      (hp : w.pc = .interrupted job held) (hn : w.s.writer = [])
      (ha : (w.alive || held) = true) :
      Step w [] { w with pc := .writing (beginWriting job .interrupt) }
  | loseInterrupt (w : World) (job : InputJob) (held : Bool)
      (hp : w.pc = .interrupted job held) (hn : w.s.writer = [])
      (ha : (w.alive || held) = false) :
      Step w [.replied job.reply (.error .sessionLost)] { w with pc := .select }
  | write (w : World) (j : Writing) (io : Bool) (hp : w.pc = .writing j) :
      Step w (j.step w io).2 (j.step w io).1
  | drainNormal (w : World) (job : InputJob) (others : List InputJob)
      (hp : w.pc = .drainNormal) (hn : w.s.writer = job :: others) :
      Step w [.replied job.reply (.error .inputDeliveryUnknown)]
        { w with s := { w.s with writer := others } }
  | drainedNormal (w : World) (hp : w.pc = .drainNormal) (hn : w.s.writer = []) :
      Step w [] { w with pc := .drainInterrupt }
  | drainInterrupt (w : World) (job : InputJob) (others : List InputJob)
      (hp : w.pc = .drainInterrupt) (hi : w.s.interrupt = job :: others) :
      Step w [.replied job.reply (.error .inputDeliveryUnknown)]
        { w with s := { w.s with interrupt := others } }
  | drainedInterrupt (w : World) (hp : w.pc = .drainInterrupt) (hi : w.s.interrupt = []) :
      Step w [] { w with pc := .closing }
  /-- The receivers are dropped with whatever was sent after the last look at the queues. -/
  | exit (w : World) (hp : w.pc = .closing) :
      Step w [] { w with
        pc := .exited, s := { w.s with writer := [], interrupt := [], closed := true } }

end RemoteCodex
