import RemoteCodex.Lib.Js
import RemoteCodex.Lib.Numbered

namespace RemoteCodex
set_option autoImplicit true
namespace Client

/-- The built-in functions that read a snapshot's description. -/
structure Runtime where
  /-- `JSON.parse` of the decoded text; `none` is an exception -/
  parse : List UInt8 → Option Js.Value
  /-- the string of an array or an object -/
  toText : Js.Value → Option Js.Str

structure TerminalFrame where
  kind : Js.Number
  sessionId : Js.Str
  generation : Js.Number
  sequence : Int
  payload : List UInt8

namespace Kind

def Output : Js.Number := .finite 1
def Resize : Js.Number := .finite 2
def SnapshotMeta : Js.Number := .finite 3
def SnapshotChunk : Js.Number := .finite 4
def SnapshotEnd : Js.Number := .finite 5
def Exit : Js.Number := .finite 6

end Kind

/-- A snapshot's description, once it is validated. -/
structure SnapshotMeta where
  cols : Nat
  rows : Nat
  sequence : Int
  generation : Js.Number
  agentEpoch : Js.Str
  fidelity : Js.Str
  warnings : List Js.Value
  bytes : Nat

inductive Phase where
  | awaiting
  | snapshot
  | live
  | failed
  deriving DecidableEq

/-- The codes of `ProtocolError`, and the exceptions of the built-in functions. -/
inductive GuardError where
  | streamAlreadyFailed
  | wrongSession
  | unexpectedSnapshot
  | invalidSnapshot
  | snapshotSequence
  | snapshotTooLarge
  | incompleteSnapshot
  | outputGap
  | invalidResize
  | exception
  deriving DecidableEq

structure StreamGuard where
  phase : Phase
  sequence : Int
  snapshotMeta : Option SnapshotMeta
  received : Nat
  sessionId : Js.Str
  generation : Js.Number
  agentEpoch : Js.Str

/-- `DataView.getUint16` -/
def getUint16 (payload : List UInt8) (offset : Nat) : Nat :=
  256 * (payload.getD offset 0).toNat + (payload.getD (offset + 1) 0).toNat

namespace StreamGuard

def new (sessionId : Js.Str) (generation : Js.Number) (agentEpoch : Js.Str) : StreamGuard :=
  ⟨.awaiting, 0, none, 0, sessionId, generation, agentEpoch⟩

/-- The checks of a snapshot's description. They are made in this order, and `BigInt` throws. -/
def validateMeta (rt : Runtime) (g : StreamGuard) (f : TerminalFrame) :
    Js.Value → Except GuardError SnapshotMeta
  | .null => .error .exception
  | m =>
    match m.prop (Js.str "agent_epoch"), m.prop (Js.str "generation") with
    | some (.string agentEpoch), some (.number generation) =>
      if agentEpoch ≠ g.agentEpoch ∨ ¬ generation.strictEq g.generation then
        .error .invalidSnapshot
      else
        match Js.bigInt rt.toText (m.prop (Js.str "sequence")) with
        | none => .error .exception
        | some sequence =>
          if sequence ≠ f.sequence then .error .invalidSnapshot
          else
            match Js.integerIn 2 400 (m.prop (Js.str "cols")),
              Js.integerIn 1 150 (m.prop (Js.str "rows")),
              Js.integerIn 0 (4 * 1024 * 1024) (m.prop (Js.str "bytes")),
              m.prop (Js.str "fidelity"), m.prop (Js.str "warnings") with
            | some cols, some rows, some bytes, some (.string fidelity), some (.array warnings) =>
              .ok ⟨cols, rows, sequence, generation, agentEpoch, fidelity, warnings, bytes⟩
            | _, _, _, _, _ => .error .invalidSnapshot
    | _, _ => .error .invalidSnapshot

def validateStart (rt : Runtime) (g : StreamGuard) (f : TerminalFrame) :
    StreamGuard × Except GuardError Unit :=
  if g.phase ≠ .awaiting ∨ 16384 < f.payload.length then (g, .error .unexpectedSnapshot)
  else
    match rt.parse f.payload with
    | none => (g, .error .exception)
    | some m =>
      match validateMeta rt g f m with
      | .error e => (g, .error e)
      | .ok m =>
        ({ g with snapshotMeta := some m, sequence := f.sequence, phase := .snapshot }, .ok ())

/-- `this.meta?.bytes` -/
def expected (g : StreamGuard) : Option Nat := g.snapshotMeta.map SnapshotMeta.bytes

def validateSnapshot (g : StreamGuard) (f : TerminalFrame) :
    StreamGuard × Except GuardError Unit :=
  if f.sequence ≠ g.sequence then (g, .error .snapshotSequence)
  else if f.kind = Kind.SnapshotChunk then
    let g := { g with received := g.received + f.payload.length }
    if g.expected.getD 0 < g.received then (g, .error .snapshotTooLarge) else (g, .ok ())
  else if f.kind = Kind.SnapshotEnd ∧ f.payload.length = 0 ∧ g.expected = some g.received then
    ({ g with phase := .live }, .ok ())
  else (g, .error .incompleteSnapshot)

/-- The bounds of a resize. -/
def invalidSize (payload : List UInt8) : Bool :=
  getUint16 payload 0 < 2 || 400 < getUint16 payload 0 || getUint16 payload 2 < 1 ||
    150 < getUint16 payload 2

def validateLive (g : StreamGuard) (f : TerminalFrame) : StreamGuard × Except GuardError Unit :=
  if g.phase ≠ .live ∨ f.kind ∉ [Kind.Output, Kind.Resize, Kind.Exit] ∨
      f.sequence ≠ g.sequence + 1 then
    (g, .error .outputGap)
  else if f.kind = Kind.Resize ∧ f.payload.length ≠ 4 then (g, .error .invalidResize)
  else if f.kind = Kind.Resize ∧ invalidSize f.payload then (g, .error .invalidResize)
  else ({ g with sequence := f.sequence }, .ok ())

def validate (rt : Runtime) (g : StreamGuard) (f : TerminalFrame) :
    StreamGuard × Except GuardError Unit :=
  if g.phase = .failed then (g, .error .streamAlreadyFailed)
  else if f.sessionId ≠ g.sessionId ∨ ¬ f.generation.strictEq g.generation then
    (g, .error .wrongSession)
  else if f.kind = Kind.SnapshotMeta then g.validateStart rt f
  else if g.phase = .snapshot then g.validateSnapshot f
  else g.validateLive f

def accept (rt : Runtime) (g : StreamGuard) (f : TerminalFrame) :
    StreamGuard × Except GuardError Unit :=
  match g.validate rt f with
  | (g, .ok ()) => (g, .ok ())
  | (g, .error e) => ({ g with phase := .failed }, .error e)

/-- The guard after a list of frames. -/
def feed (rt : Runtime) (g : StreamGuard) (frames : List TerminalFrame) : StreamGuard :=
  frames.foldl (fun g f => (g.accept rt f).1) g

/-- No frame of the list is refused. -/
def Accepts (rt : Runtime) (g : StreamGuard) : List TerminalFrame → Prop
  | [] => True
  | f :: frames => (g.accept rt f).2 = .ok () ∧ Accepts rt (g.accept rt f).1 frames

end StreamGuard

/-- Whose frames a guard takes. -/
structure Stream where
  sessionId : Js.Str
  generation : Js.Number
  agentEpoch : Js.Str

namespace Stream

def guard (s : Stream) : StreamGuard := .new s.sessionId s.generation s.agentEpoch

/-- The frame carries the session and the generation. -/
def Owns (s : Stream) (f : TerminalFrame) : Prop :=
  f.sessionId = s.sessionId ∧ f.generation.strictEq s.generation = true

/-- A description of a snapshot of `n` bytes, sent with the frame. -/
structure Describes (rt : Runtime) (s : Stream) (f : TerminalFrame) (m : Js.Value) (n : Nat) :
    Prop where
  agentEpoch : m.prop (Js.str "agent_epoch") = some (.string s.agentEpoch)
  generation : ∃ generation, m.prop (Js.str "generation") = some (.number generation) ∧
    generation.strictEq s.generation = true
  sequence : Js.bigInt rt.toText (m.prop (Js.str "sequence")) = some f.sequence
  cols : ∃ cols : Nat, m.prop (Js.str "cols") = some (.number (.finite cols)) ∧
    2 ≤ cols ∧ cols ≤ 400
  rows : ∃ rows : Nat, m.prop (Js.str "rows") = some (.number (.finite rows)) ∧
    1 ≤ rows ∧ rows ≤ 150
  bytes : m.prop (Js.str "bytes") = some (.number (.finite n)) ∧ n ≤ 4 * 1024 * 1024
  fidelity : ∃ fidelity, m.prop (Js.str "fidelity") = some (.string fidelity)
  warnings : ∃ warnings, m.prop (Js.str "warnings") = some (.array warnings)

/-- The start of a snapshot of `n` bytes. -/
def Starts (rt : Runtime) (s : Stream) (f : TerminalFrame) (n : Nat) : Prop :=
  f.kind = Kind.SnapshotMeta ∧ f.payload.length ≤ 16384 ∧
    ∃ m, rt.parse f.payload = some m ∧ Describes rt s f m n

/-- A part of the snapshot with the number `S`. -/
def Chunk (S : Int) (f : TerminalFrame) : Prop := f.kind = Kind.SnapshotChunk ∧ f.sequence = S

def End (S : Int) (f : TerminalFrame) : Prop :=
  f.kind = Kind.SnapshotEnd ∧ f.sequence = S ∧ f.payload = []

/-- A frame that may follow the snapshot. -/
def Live (f : TerminalFrame) : Prop :=
  f.kind = Kind.Output ∨ f.kind = Kind.Exit ∨
    f.kind = Kind.Resize ∧ ∃ a b c d : UInt8, f.payload = [a, b, c, d] ∧
      2 ≤ 256 * a.toNat + b.toNat ∧ 256 * a.toNat + b.toNat ≤ 400 ∧
      1 ≤ 256 * c.toNat + d.toNat ∧ 256 * c.toNat + d.toNat ≤ 150

/-- The bytes of some parts. -/
def total (chunks : List TerminalFrame) : Nat := (chunks.map fun f => f.payload.length).sum

/-- The frames after the whole snapshot `S`. -/
def Tail (S : Int) (frames : List TerminalFrame) : Prop :=
  Numbered.Indexed (fun i f => f.sequence = S + i ∧ Live f) 0 frames

/-- A whole snapshot and what follows it. -/
inductive Whole (rt : Runtime) (s : Stream) : List TerminalFrame → Prop where
  | mk {f e : TerminalFrame} {chunks tail : List TerminalFrame} {n : Nat}
      (hs : Starts rt s f n) (hc : ∀ c ∈ chunks, Chunk f.sequence c) (ht : total chunks = n)
      (he : End f.sequence e) (hl : Tail f.sequence tail) : Whole rt s (f :: (chunks ++ e :: tail))

/-- The protocol, which may stop at any frame. -/
inductive Conforms (rt : Runtime) (s : Stream) : List TerminalFrame → Prop where
  | nothing : Conforms rt s []
  | part {f : TerminalFrame} {chunks : List TerminalFrame} {n : Nat} (hs : Starts rt s f n)
      (hc : ∀ c ∈ chunks, Chunk f.sequence c) (ht : total chunks ≤ n) :
      Conforms rt s (f :: chunks)
  | whole {frames : List TerminalFrame} (h : Whole rt s frames) : Conforms rt s frames

end Stream
end Client
end RemoteCodex
