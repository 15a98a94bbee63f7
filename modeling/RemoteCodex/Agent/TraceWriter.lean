import RemoteCodex.Lib.Table
import RemoteCodex.Lib.Text
import RemoteCodex.Core.Protocol

/-! The writer of the performance trace. Its counters are unbounded here: no run is long enough to
fill the 64 bits they have. -/

namespace RemoteCodex
set_option autoImplicit true
namespace Perf

structure Histogram where
  count : Nat
  maxUs : UInt64
  sumUs : Nat
  buckets : List Nat
  deriving DecidableEq

namespace Histogram

def bucketWidth : Nat := 100

def bucketCount : Nat := 1001

def new : Histogram := ⟨0, 0, 0, List.replicate bucketCount 0⟩

def record (h : Histogram) (us : UInt64) : Histogram where
  count := h.count + 1
  maxUs := if h.maxUs < us then us else h.maxUs
  sumUs := h.sumUs + us.toNat
  buckets := h.buckets.modify (min (us.toNat / bucketWidth) (bucketCount - 1)) (· + 1)

@[simp] theorem count_record (h : Histogram) (us : UInt64) : (h.record us).count = h.count + 1 :=
  rfl

end Histogram

structure Event where
  sessionId : Uuid
  sequence : UInt64
  bytes : UInt64
  elapsedUs : UInt64
  deriving DecidableEq

namespace Event

/-- The event of a call; `micros` are those that passed. -/
def of (sessionId : Uuid) (sequence bytes : UInt64) (micros : Nat) : Event :=
  ⟨sessionId, sequence, bytes, UInt64.ofNat (min micros (2 ^ 64 - 1))⟩

/-- The JSON text. -/
def json (e : Event) : String :=
  "\x7b\"stage\":\"pty_output_receive_to_enqueue\",\"session_id\":\"" ++ e.sessionId.hyphenated ++
    "\",\"sequence\":\"" ++ toString e.sequence.toNat ++ "\",\"bytes\":" ++
    toString e.bytes.toNat ++ ",\"elapsed_us\":" ++ toString e.elapsedUs.toNat ++ "\x7d"

/-- The line of the trace. -/
def line (e : Event) : List UInt8 := Text.utf8 e.json ++ [0x0a]

end Event

/-- The footer, without its quantiles and constants. -/
structure Summary where
  samples : Nat
  dropped : Nat
  rawEvents : Nat
  rawBytes : Nat
  rawTruncated : Bool
  global : Histogram
  sessions : AList fun _ : Uuid => Histogram
  other : Histogram

/-- `raw` are the bytes of events that went to the file. -/
structure TraceWriter where
  raw : List UInt8
  rawLimit : Nat
  rawBytes : Nat
  rawEvents : Nat
  rawTruncated : Bool
  global : Histogram
  sessions : AList fun _ : Uuid => Histogram
  other : Histogram

namespace TraceWriter

def maxKeys : Nat := 64

def new (rawLimit : Nat) : TraceWriter :=
  ⟨[], min rawLimit (49 * 1024 * 1024), 0, 0, false, .new, ∅, .new⟩

/-- The histograms with an event: its session has one, unless there are too many. -/
def count (w : TraceWriter) (e : Event) : TraceWriter :=
  let w := { w with global := w.global.record e.elapsedUs }
  if e.sessionId ∉ w.sessions ∧ maxKeys ≤ Table.size w.sessions then
    { w with other := w.other.record e.elapsedUs }
  else
    let h := (w.sessions.lookup e.sessionId).getD .new
    { w with sessions := w.sessions.insert e.sessionId (h.record e.elapsedUs) }

/-- `write_all` of a line, which may fail after some of its bytes. -/
def writeAll (w : TraceWriter) (failure : Option Nat) (line : List UInt8) : TraceWriter × Bool :=
  match failure with
  | none => ({ w with raw := w.raw ++ line }, true)
  | some n => ({ w with raw := w.raw ++ line.take n }, false)

/-- The event is counted, and its line is written while the limit is not reached. The flag tells
that nothing failed. -/
def observe (w : TraceWriter) (failure : Option Nat) (e : Event) : TraceWriter × Bool :=
  let w := w.count e
  if w.rawTruncated then (w, true)
  else if w.rawLimit < w.rawBytes + e.line.length then ({ w with rawTruncated := true }, true)
  else
    match w.writeAll failure e.line with
    | (w, true) =>
      ({ w with rawBytes := w.rawBytes + e.line.length, rawEvents := w.rawEvents + 1 }, true)
    | (w, false) => (w, false)

def summary (w : TraceWriter) (dropped : Nat) : Summary where
  samples := w.global.count
  dropped := dropped
  rawEvents := w.rawEvents
  rawBytes := w.rawBytes
  rawTruncated := w.rawTruncated
  global := w.global
  sessions := w.sessions
  other := w.other

/-- Every sample is that of a session or another one, and what is written is within the limit. -/
structure Sound (w : TraceWriter) : Prop where
  counts : w.global.count = Table.total Histogram.count w.sessions + w.other.count
  keys : Table.size w.sessions ≤ maxKeys
  raw : w.raw.length ≤ w.rawLimit

/-- Until a write fails, all bytes that were written are counted. -/
def Exact (w : TraceWriter) : Prop := w.raw.length = w.rawBytes

theorem sound_new (rawLimit : Nat) : (new rawLimit).Sound := ⟨rfl, Nat.zero_le _, Nat.zero_le _⟩

theorem Sound.count {w : TraceWriter} (h : w.Sound) (e : Event) : (w.count e).Sound := by
  obtain ⟨hcounts, hkeys, hraw⟩ := h
  unfold TraceWriter.count
  simp only
  split
  · refine ⟨?_, hkeys, hraw⟩
    simp only [Histogram.count_record]
    omega
  · next hroom =>
    refine ⟨?_, ?_, hraw⟩
    · have htotal := Table.total_insert Histogram.count w.sessions e.sessionId
        (((w.sessions.lookup e.sessionId).getD .new).record e.elapsedUs)
      have hold : ((w.sessions.lookup e.sessionId).getD .new).count =
          (w.sessions.lookup e.sessionId).elim 0 Histogram.count := by
        cases w.sessions.lookup e.sessionId <;> rfl
      simp only [Histogram.count_record] at htotal ⊢
      omega
    · by_cases hmem : e.sessionId ∈ w.sessions
      · rw [Table.size_insert_of_mem hmem]
        exact hkeys
      · have hfree : Table.size w.sessions < maxKeys := by
          rw [not_and, not_le] at hroom
          exact hroom hmem
        exact Nat.le_trans (Table.size_insert_le ..) hfree

@[simp] theorem count_raw (w : TraceWriter) (e : Event) : (w.count e).raw = w.raw := by
  unfold count
  simp only
  split <;> rfl

@[simp] theorem count_rawLimit (w : TraceWriter) (e : Event) :
    (w.count e).rawLimit = w.rawLimit := by
  unfold count
  simp only
  split <;> rfl

@[simp] theorem count_rawBytes (w : TraceWriter) (e : Event) :
    (w.count e).rawBytes = w.rawBytes := by
  unfold count
  simp only
  split <;> rfl

@[simp] theorem count_global (w : TraceWriter) (e : Event) :
    (w.count e).global = w.global.record e.elapsedUs := by
  unfold count
  simp only
  split <;> rfl

/-- An event is one sample, whether or not it is written. -/
theorem observe_global (w : TraceWriter) (failure : Option Nat) (e : Event) :
    (w.observe failure e).1.global = w.global.record e.elapsedUs := by
  unfold observe
  simp only
  split
  · exact count_global w e
  · split
    · exact count_global w e
    · cases failure with
      | none => exact count_global w e
      | some n => exact count_global w e

theorem observe_rawLimit (w : TraceWriter) (failure : Option Nat) (e : Event) :
    (w.observe failure e).1.rawLimit = w.rawLimit := by
  unfold observe
  simp only
  split
  · exact count_rawLimit w e
  · split
    · exact count_rawLimit w e
    · cases failure with
      | none => exact count_rawLimit w e
      | some n => exact count_rawLimit w e

/-- What is written stays within the limit, also when a write fails. -/
theorem Sound.observe {w : TraceWriter} (h : w.Sound) (hexact : w.Exact) (failure : Option Nat)
    (e : Event) : (w.observe failure e).1.Sound ∧
      ((w.observe failure e).2 = true → (w.observe failure e).1.Exact) := by
  have hcount := h.count e
  have hbytes : (w.count e).raw.length = (w.count e).rawBytes := by
    rw [count_raw, count_rawBytes]
    exact hexact
  unfold TraceWriter.observe
  simp only
  split
  · exact ⟨hcount, fun _ => hbytes⟩
  · split
    · exact ⟨⟨hcount.counts, hcount.keys, hcount.raw⟩, fun _ => hbytes⟩
    · cases failure with
      | none =>
        have hraw : ((w.count e).raw ++ e.line).length =
            (w.count e).rawBytes + e.line.length := by
          rw [List.length_append, hbytes]
        refine ⟨⟨hcount.counts, hcount.keys, ?_⟩, fun _ => hraw⟩
        show ((w.count e).raw ++ e.line).length ≤ (w.count e).rawLimit
        omega
      | some n =>
        refine ⟨⟨hcount.counts, hcount.keys, ?_⟩, fun h => by cases h⟩
        have htake := List.length_take_le' n e.line
        show ((w.count e).raw ++ e.line.take n).length ≤ (w.count e).rawLimit
        rw [List.length_append, hbytes]
        omega

end TraceWriter
end Perf
end RemoteCodex
