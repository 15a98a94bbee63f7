import RemoteCodex.Lib.Trace
import RemoteCodex.Core.Ring
import RemoteCodex.Core.VtFence

namespace RemoteCodex
set_option autoImplicit true

structure Size where
  cols : UInt16
  rows : UInt16
  deriving DecidableEq

/-- The terminal state engine, from a library. -/
structure Engine (Term : Type) where
  advance : Term → List UInt8 → Term
  resize : Term → Size → Term
  paint : Term → List UInt8

structure TerminalModel (Term : Type) where
  term : Term
  size : Size
  warnings : List String

/-- What is done to the terminal model. -/
inductive ModelOp where
  | token (bytes : List UInt8)
  | resize (size : Size)
  deriving DecidableEq

namespace TerminalModel

variable {Term : Type}

def apply (E : Engine Term) (t : TerminalModel Term) (bytes : List UInt8) : TerminalModel Term :=
  { t with term := E.advance t.term bytes }

def resize (E : Engine Term) (t : TerminalModel Term) (size : Size) : TerminalModel Term :=
  { t with term := E.resize t.term size, size }

def snapshot (E : Engine Term) (t : TerminalModel Term) : List UInt8 := E.paint t.term

def perform (E : Engine Term) (t : TerminalModel Term) : ModelOp → TerminalModel Term
  | .token bytes => t.apply E bytes
  | .resize size => t.resize E size

/-- The model after a list of operations. -/
def replay (E : Engine Term) (t : TerminalModel Term) (ops : List ModelOp) : TerminalModel Term :=
  ops.foldl (perform E) t

end TerminalModel

/-- The fields of the session record that the output side uses. -/
structure SessionInfo where
  sessionId : Uuid
  agentEpoch : Uuid
  generation : UInt32
  cols : UInt16
  rows : UInt16

/-- `sequence` is sent as decimal text. -/
structure SnapshotMeta where
  cols : UInt16
  rows : UInt16
  sequence : UInt64
  generation : UInt32
  agentEpoch : Uuid
  fidelity : String
  warnings : List String
  bytes : Nat

/-- What an observer of the output side sees. -/
inductive OutputEvent where
  | applied (op : ModelOp)
  | published (frame : Frame)
  | subscribed (info : SnapshotMeta) (data : List UInt8)

structure OutputState (Term : Type) where
  model : TerminalModel Term
  fence : VtFence
  ring : EventRing
  seq : UInt64

/-- The local state of one turn of `reader_loop`, with what happened in it. -/
structure Turn (Term : Type) where
  o : OutputState Term
  batch : List UInt8
  log : List OutputEvent

section

variable {Term : Type} (E : Engine Term) (m : SessionInfo)

/-- Number a frame, store it in the ring and hand it to the subscribers. -/
def OutputState.publish (o : OutputState Term) (kind : UInt8) (payload : List UInt8) :
    OutputState Term × Frame :=
  let event : Frame := ⟨kind, m.sessionId, m.generation, o.seq + 1, payload⟩
  ({ o with seq := o.seq + 1, ring := o.ring.push event }, event)

namespace Turn

/-- `emit` with the batch collected so far. -/
def emit (c : Turn Term) : Turn Term :=
  let q := c.o.publish m Frame.OUTPUT c.batch
  ⟨q.1, [], c.log ++ [.published q.2]⟩

def applyToken (c : Turn Term) (token : List UInt8) : Turn Term :=
  let c : Turn Term :=
    { c with
      o := { c.o with model := c.o.model.apply E token }
      log := c.log ++ [.applied (.token token)] }
  let c := if MAX_PAYLOAD < c.batch.length + token.length ∧ c.batch ≠ [] then c.emit m else c
  { c with batch := c.batch ++ token }

end Turn

/-- What `reader_loop` does with one read, under the output lock. -/
def readChunk (o : OutputState Term) (bytes : List UInt8) :
    OutputState Term × List OutputEvent :=
  let q := o.fence.pushBytes bytes
  let c := q.2.foldl (Turn.applyToken E m) ⟨{ o with fence := q.1 }, [], []⟩
  let c := if c.batch = [] then c else c.emit m
  (c.o, c.log)

/-- The payload of a RESIZE frame. -/
def sizePayload (size : Size) : List UInt8 :=
  Frame.toBeBytes 2 size.cols.toNat ++ Frame.toBeBytes 2 size.rows.toNat

/-- `commit_resize`, under the output lock. -/
def commitResize (o : OutputState Term) (size : Size) : OutputState Term × List OutputEvent :=
  let q := { o with model := o.model.resize E size }.publish m Frame.RESIZE (sizePayload size)
  (q.1, [.applied (.resize size), .published q.2])

def MAX_SNAPSHOT : Nat := 4 * 1024 * 1024

/-- `subscribe_snapshot`, under the output lock; the receiver sees what is published later. -/
def subscribeSnapshot (o : OutputState Term) :
    Except ErrorCode (SnapshotMeta × List UInt8) :=
  let data := o.model.snapshot E
  if MAX_SNAPSHOT < data.length then .error .frameTooLarge
  else
    .ok
      (⟨o.model.size.cols, o.model.size.rows, o.seq, m.generation, m.agentEpoch,
        "experimental_vt_snapshot", o.model.warnings, data.length⟩, data)

end

/-- A call of `resize` between its locked sections; the calls are serialized. -/
inductive ResizePc where
  | idle
  | checked (old new : Size)
  | committed (old : Size)

structure OutputWorld (Term : Type) where
  o : OutputState Term
  m : SessionInfo
  resizing : ResizePc

namespace OutputWorld

variable {Term : Type}

def init (t : TerminalModel Term) (ringBytes : Nat) (m : SessionInfo) : OutputWorld Term :=
  ⟨⟨t, .default, .new ringBytes, 0⟩, m, .idle⟩

/-- The size is recorded in the session while the output lock is held. -/
def commit (E : Engine Term) (w : OutputWorld Term) (size : Size) (resizing : ResizePc) :
    OutputWorld Term :=
  ⟨(commitResize E w.m w.o size).1, { w.m with cols := size.cols, rows := size.rows }, resizing⟩

/-- The locked sections of the reader thread, of `resize` and of `subscribe_snapshot`. The PTY
accepts the new size (`resizeDone`) or refuses it (`resizeRollback`). -/
inductive Step (E : Engine Term) : OutputWorld Term → List OutputEvent → OutputWorld Term → Prop
    where
  | read (w : OutputWorld Term) (bytes : List UInt8) (hb : bytes.length ≤ MAX_PAYLOAD) :
      Step E w (readChunk E w.m w.o bytes).2 { w with o := (readChunk E w.m w.o bytes).1 }
  | resizeStart (w : OutputWorld Term) (new : Size) (hi : w.resizing = .idle)
      (hc : 2 ≤ new.cols.toNat ∧ new.cols.toNat ≤ MAX_COLS)
      (hr : 1 ≤ new.rows.toNat ∧ new.rows.toNat ≤ MAX_ROWS) (hn : new ≠ ⟨w.m.cols, w.m.rows⟩) :
      Step E w [] { w with resizing := .checked ⟨w.m.cols, w.m.rows⟩ new }
  /-- The pseudoconsole was closed in the meantime. -/
  | resizeLost (w : OutputWorld Term) (old new : Size) (hp : w.resizing = .checked old new) :
      Step E w [] { w with resizing := .idle }
  | resizeCommit (w : OutputWorld Term) (old new : Size) (hp : w.resizing = .checked old new) :
      Step E w (commitResize E w.m w.o new).2 (w.commit E new (.committed old))
  | resizeDone (w : OutputWorld Term) (old : Size) (hp : w.resizing = .committed old) :
      Step E w [] { w with resizing := .idle }
  | resizeRollback (w : OutputWorld Term) (old : Size) (hp : w.resizing = .committed old) :
      Step E w (commitResize E w.m w.o old).2 (w.commit E old .idle)
  | subscribe (w : OutputWorld Term) (info : SnapshotMeta) (data : List UInt8)
      (hs : subscribeSnapshot E w.m w.o = .ok (info, data)) : Step E w [.subscribed info data] w

end OutputWorld
end RemoteCodex
