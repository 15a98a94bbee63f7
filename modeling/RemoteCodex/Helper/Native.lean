import RemoteCodex.Lib.Table
import RemoteCodex.Core.MediaWire

namespace RemoteCodex
set_option autoImplicit true
namespace Helper

structure AdaptiveTarget where
  fps : UInt32
  bitrateKbps : UInt32
  adaptiveIdle : Bool
  deriving DecidableEq

structure AdaptivePolicy where
  requestedFps : UInt32
  requestedBitrateKbps : UInt32
  lastSourceMs : UInt64

def IDLE_AFTER_MS : UInt64 := 2000

namespace AdaptivePolicy

def observeSource (p : AdaptivePolicy) (nowMs : UInt64) : AdaptivePolicy :=
  { p with lastSourceMs := max p.lastSourceMs nowMs }

/-- `nowMs.saturating_sub(last_source_ms)` is small when the source is active. -/
def target (p : AdaptivePolicy) (nowMs : UInt64) : AdaptiveTarget :=
  if nowMs ≤ p.lastSourceMs ∨ nowMs - p.lastSourceMs < IDLE_AFTER_MS then
    ⟨p.requestedFps, p.requestedBitrateKbps, false⟩
  else ⟨min p.requestedFps 3, max (p.requestedBitrateKbps / 4) 256, true⟩

end AdaptivePolicy

inductive EncoderChoice where
  | hardware
  | softwareViewOnlySlow
  deriving DecidableEq

namespace EncoderChoice

def profile (choice : EncoderChoice) (requested : VideoProfile) (source : Rect)
    (scaled : UInt32 × UInt32) : Except String VideoProfile :=
  match choice with
  | .hardware => requested.fit source scaled
  | .softwareViewOnlySlow =>
    VideoProfile.fit
      { width := min requested.width 640
        height := min requested.height 360
        fps := min requested.fps 5
        bitrateKbps := min requested.bitrateKbps 768 } source scaled

def mode : EncoderChoice → MediaMode
  | .hardware => .hardware
  | .softwareViewOnlySlow => .softwareViewOnlySlow

def controlAllowed : EncoderChoice → Bool
  | .hardware => true
  | .softwareViewOnlySlow => false

end EncoderChoice

/-- In nanoseconds. -/
def frameInterval (fps : UInt32) : UInt64 := 1000000000 / (max fps 1).toUInt64

structure CapturedFrame where
  serial : UInt64
  capturedAtMs : UInt64
  deriving DecidableEq

structure PushedFrame where
  ptsNs : UInt64
  serial : UInt64
  capturedAtMs : UInt64
  deriving DecidableEq

def PushedFrame.captured (f : PushedFrame) : CapturedFrame := ⟨f.serial, f.capturedAtMs⟩

structure SourcePump where
  latest : Option CapturedFrame
  captureEnabled : Bool
  sourceSerial : UInt64
  nextPtsNs : UInt64

namespace SourcePump

def attach : SourcePump := ⟨none, true, 0, 0⟩

/-- The callback of `attach` for a new sample. -/
def newSample (p : SourcePump) (now : UInt64) : SourcePump × Option CapturedFrame :=
  if ¬ p.captureEnabled then (p, none)
  else
    ({ p with
        sourceSerial := p.sourceSerial + 1
        latest := some ⟨p.sourceSerial + 1, now⟩ }, some ⟨p.sourceSerial + 1, now⟩)

def pauseCapture (p : SourcePump) : SourcePump := { p with captureEnabled := false }

/-- `push_latest_with` up to its callback. -/
def pushLatest (p : SourcePump) (fps : UInt32) : Option (SourcePump × PushedFrame) :=
  p.latest.map fun captured =>
    ({ p with nextPtsNs := p.nextPtsNs + frameInterval fps },
      ⟨p.nextPtsNs, captured.serial, captured.capturedAtMs⟩)

end SourcePump

def MAX_PENDING_FRESH_PROOFS : Nat := 128

structure FreshProof where
  serial : UInt64
  capturedAtMs : UInt64
  deriving DecidableEq

structure FreshProofMap where
  entries : AList fun _ : UInt64 => FreshProof

namespace FreshProofMap

def insert (m : FreshProofMap) (ptsNs : UInt64) (proof : FreshProof) : FreshProofMap :=
  ⟨(Table.evict MAX_PENDING_FRESH_PROOFS (Table.size m.entries) m.entries).insert ptsNs proof⟩

def take (m : FreshProofMap) (ptsNs : UInt64) : FreshProofMap × Option FreshProof :=
  (⟨m.entries.erase ptsNs⟩, m.entries.lookup ptsNs)

end FreshProofMap

/-- What `run` has when its loop begins: the profile suits the encoder and the source. -/
structure Setup where
  choice : EncoderChoice
  requested : VideoProfile
  source : Rect
  scaled : UInt32 × UInt32
  profile : VideoProfile
  fits : choice.profile requested source scaled = .ok profile
  startedTick : UInt64
  began : UInt64

/-- Where an iteration of the loop is: before its push, with a frame before or after the callback
of `push_latest_with`, or out of the loop. -/
inductive Phase where
  | waiting
  | pushing (f : PushedFrame)
  | queued (f : PushedFrame)
  | ended

structure State where
  pump : SourcePump
  pending : FreshProofMap
  policy : AdaptivePolicy
  target : AdaptiveTarget
  lastSourceSerial : UInt64
  lastEnqueuedSerial : UInt64
  lastSourceTick : Option UInt64
  nextPush : Nat
  phase : Phase

inductive Event where
  | captured (f : CapturedFrame)
  | pushing (f : PushedFrame)
  | enqueued (f : PushedFrame)
  | encoded (ptsNs : Option UInt64) (out : Option HelperOut)
  | status (out : HelperOut)

namespace State

def start (s : Setup) : State :=
  let policy : AdaptivePolicy := ⟨s.profile.fps, s.profile.bitrateKbps, 0⟩
  { pump := .attach
    pending := ⟨∅⟩
    policy
    target := policy.target 0
    lastSourceSerial := 0
    lastEnqueuedSerial := 0
    lastSourceTick := none
    nextPush := s.began.toNat
    phase := .waiting }

/-- The callback that `run` gives to `push_latest_with`. -/
def enqueue (h : State) (f : PushedFrame) : State :=
  if h.lastEnqueuedSerial < f.serial then
    { h with pending := h.pending.insert f.ptsNs ⟨f.serial, f.capturedAtMs⟩ }
  else h

/-- What `run` notes of a frame that was pushed. -/
def pushed (s : Setup) (h : State) (f : PushedFrame) : State :=
  if h.lastSourceSerial < f.serial then
    { h with
      lastSourceSerial := f.serial
      lastSourceTick := some f.capturedAtMs
      policy := h.policy.observeSource
        (if f.capturedAtMs ≤ s.startedTick then 0 else f.capturedAtMs - s.startedTick)
      lastEnqueuedSerial := f.serial }
  else h

def captureState (h : State) (nowTick : UInt64) : CaptureState :=
  match h.lastSourceTick with
  | none => .starting
  | some tick => if tick ≤ nowTick ∧ nowTick - tick ≤ 500 then .live else .minimizedOrStalled

def status (s : Setup) (h : State) (nowTick : UInt64) : HelperOut :=
  .status s.choice.mode (h.captureState nowTick) h.target.fps h.target.bitrateKbps
    h.target.adaptiveIdle (s.choice.controlAllowed && h.captureState nowTick == .live)
    (h.captureState nowTick != .live)

/-- The proof that the probe takes for an encoded buffer. -/
def probe (h : State) (ptsNs : Option UInt64) : State × Option FreshProof :=
  match ptsNs with
  | none => (h, none)
  | some pts => ({ h with pending := (h.pending.take pts).1 }, (h.pending.take pts).2)

end State

/-- The event that the probe sends for a proof, when there is room for it. -/
def FreshProof.event (room : Bool) (proof : FreshProof) : Option HelperOut :=
  if room then some (.frame (toString proof.serial.toNat) proof.capturedAtMs) else none

/-- A capture, a step of the loop of `run`, or a buffer that the encoder puts out. `now` is an
`Instant` of the platform, which counts nanoseconds in 64 bits; the encoder may drop, repeat and
reorder buffers, so any timestamp may come. -/
inductive Step (s : Setup) : State → List Event → State → Prop where
  | capture (h : State) (now : UInt64) (pump : SourcePump) (f : CapturedFrame)
      (hp : h.pump.newSample now = (pump, some f)) : Step s h [.captured f] { h with pump }
  | pause (h : State) : Step s h [] { h with pump := h.pump.pauseCapture }
  | retarget (h : State) (nowMs : UInt64) (hw : h.phase = .waiting) :
      Step s h [] { h with target := h.policy.target nowMs }
  | empty (h : State) (now : UInt64) (hw : h.phase = .waiting) (hd : h.nextPush ≤ now.toNat)
      (hp : h.pump.pushLatest h.target.fps = none) :
      Step s h [] { h with nextPush := now.toNat + (frameInterval h.target.fps).toNat }
  | push (h : State) (now : UInt64) (pump : SourcePump) (f : PushedFrame)
      (hw : h.phase = .waiting) (hd : h.nextPush ≤ now.toNat)
      (hp : h.pump.pushLatest h.target.fps = some (pump, f)) :
      Step s h [.pushing f]
        { h with
          pump
          phase := .pushing f
          nextPush := now.toNat + (frameInterval h.target.fps).toNat }
  | enqueue (h : State) (f : PushedFrame) (hw : h.phase = .pushing f) :
      Step s h (if h.lastEnqueuedSerial < f.serial then [.enqueued f] else [])
        { h.enqueue f with phase := .queued f }
  | pushed (h : State) (f : PushedFrame) (hw : h.phase = .queued f) :
      Step s h [] { h.pushed s f with phase := .waiting }
  | failed (h : State) : Step s h [] { h with phase := .ended }
  | encode (h : State) (ptsNs : Option UInt64) (room : Bool) :
      Step s h [.encoded ptsNs ((h.probe ptsNs).2.bind (FreshProof.event room))] (h.probe ptsNs).1
  | status (h : State) (nowTick : UInt64) (hw : h.phase = .waiting) :
      Step s h [.status (h.status s nowTick)] h

end Helper
end RemoteCodex
