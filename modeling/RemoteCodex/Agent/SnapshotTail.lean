import RemoteCodex.Core.VtFenceTokens
import RemoteCodex.Agent.SessionOutput

namespace RemoteCodex
set_option autoImplicit true
open Trace

def OutputEvent.applied? : OutputEvent → Option ModelOp
  | .applied op => some op
  | _ => none

def OutputEvent.published? : OutputEvent → Option Frame
  | .published f => some f
  | _ => none

/-- What was done to the terminal model, in order. -/
def applied (es : List OutputEvent) : List ModelOp := es.filterMap OutputEvent.applied?

/-- The frames published, in order. -/
def published (es : List OutputEvent) : List Frame := es.filterMap OutputEvent.published?

@[simp] theorem applied_append (es fs : List OutputEvent) :
    applied (es ++ fs) = applied es ++ applied fs := List.filterMap_append

@[simp] theorem published_append (es fs : List OutputEvent) :
    published (es ++ fs) = published es ++ published fs := List.filterMap_append

/-- The frames carry the operations: each one a group of tokens, in one OUTPUT payload, or one
resize. -/
inductive Carries : List ModelOp → List Frame → Prop where
  | nil : Carries [] []
  | output (tokens : List (List UInt8)) (f : Frame) (hk : f.kind = Frame.OUTPUT)
      (hne : tokens ≠ []) (hp : f.payload = tokens.flatten) (h : Carries ops fs) :
      Carries (ops ++ tokens.map .token) (fs ++ [f])
  | resize (size : Size) (f : Frame) (hk : f.kind = Frame.RESIZE)
      (hp : f.payload = sizePayload size) (h : Carries ops fs) :
      Carries (ops ++ [.resize size]) (fs ++ [f])

theorem Carries.append (h : Carries ops fs) (h' : Carries ops' fs') :
    Carries (ops ++ ops') (fs ++ fs') := by
  induction h' with
  | nil => simpa only [List.append_nil] using h
  | output tokens f hk hne hp _ ih =>
    rw [← List.append_assoc, ← List.append_assoc]
    exact ih.output tokens f hk hne hp
  | resize size f hk hp _ ih =>
    rw [← List.append_assoc, ← List.append_assoc]
    exact ih.resize size f hk hp

/-- Frames numbered consecutively after the first `n`; the counter is 64 bits wide. -/
def Counted (n : Nat) (fs : List Frame) : Prop :=
  Numbered.Indexed (fun i f => f.sequence = UInt64.ofNat i) n fs

theorem Counted.append (h : Counted n fs) (h' : Counted (n + fs.length) gs) :
    Counted n (fs ++ gs) :=
  (Numbered.indexed_append n fs gs).2 ⟨h, h'⟩

variable {Term : Type} {E : Engine Term} {m : SessionInfo}

/-- The output state after some events, counted from a state `t` whose number is `n`. -/
structure Follows (E : Engine Term) (n : Nat) (t : OutputState Term) (es : List OutputEvent)
    (o : OutputState Term) : Prop where
  seq : o.seq = UInt64.ofNat (n + (published es).length)
  model : o.model = t.model.replay E (applied es)
  ring : o.ring = t.ring.pushAll (published es)
  counted : Counted n (published es)
  fence : o.fence.Represented

/-- Publishing takes the next number. -/
theorem Follows.publish (h : Follows E n t es o) (kind : UInt8) (payload : List UInt8)
    (e : OutputEvent) (he : e = .published (o.publish m kind payload).2) :
    Follows E n t (es ++ [e]) (o.publish m kind payload).1 := by
  have hpub : published [e] = [(o.publish m kind payload).2] := by
    rw [he]
    rfl
  have happ : applied [e] = [] := by
    rw [he]
    rfl
  have hseq : o.seq + 1 = UInt64.ofNat (n + (published es).length + 1) := by
    rw [h.seq, UInt64.ofNat_add _ 1]
    rfl
  constructor
  · rw [published_append, hpub, List.length_append, List.length_singleton, ← Nat.add_assoc]
    exact hseq
  · rw [applied_append, happ, List.append_nil]
    exact h.model
  · simp only [published_append, hpub, EventRing.pushAll, List.foldl_append, List.foldl_cons,
      List.foldl_nil]
    exact congrArg (EventRing.push · _) h.ring
  · rw [published_append, hpub]
    exact h.counted.append ⟨hseq, trivial⟩
  · exact h.fence

theorem Follows.perform (h : Follows E n t es o) (op : ModelOp) :
    Follows E n t (es ++ [.applied op]) { o with model := o.model.perform E op } := by
  have hpub : published (es ++ [.applied op]) = published es := by
    rw [published_append]
    exact List.append_nil _
  constructor
  · rw [hpub]
    exact h.seq
  · rw [applied_append, h.model]
    simp only [TerminalModel.replay, List.foldl_append]
    rfl
  · rw [hpub]
    exact h.ring
  · rw [hpub]
    exact h.counted
  · exact h.fence

/-- A turn of the reader: the batch is the tokens applied since the last frame, up to the late
ones, which are still to be added. -/
structure InTurn (E : Engine Term) (n : Nat) (t : OutputState Term) (es : List OutputEvent)
    (late : List (List UInt8)) (c : Turn Term) : Prop where
  follows : Follows E n t (es ++ c.log) c.o
  carries : ∃ (ops : List ModelOp) (tokens : List (List UInt8)),
    applied c.log = ops ++ (tokens ++ late).map .token ∧ Carries ops (published c.log) ∧
      c.batch = tokens.flatten ∧ ∀ b ∈ tokens, b ≠ []

/-- Emitting a batch starts an empty one. -/
theorem InTurn.emit {late : List (List UInt8)} (h : InTurn E n t es late c)
    (hne : c.batch ≠ []) : InTurn E n t es late (c.emit m) := by
  obtain ⟨ops, tokens, happ, hcar, hbatch, _⟩ := h.carries
  have hlog : es ++ (c.emit m).log =
      es ++ c.log ++ [.published (c.o.publish m Frame.OUTPUT c.batch).2] :=
    (List.append_assoc es c.log _).symm
  have htokens : tokens ≠ [] := by
    intro hnil
    rw [hnil] at hbatch
    exact hne hbatch
  constructor
  · rw [hlog]
    exact h.follows.publish Frame.OUTPUT c.batch _ rfl
  · refine ⟨ops ++ tokens.map .token, [], ?_, ?_, rfl, by simp⟩
    · have happ' : applied (c.emit m).log = applied c.log := by
        simp only [Turn.emit, applied_append]
        exact List.append_nil _
      rw [happ', happ, List.map_append, List.nil_append, List.append_assoc]
    · have hpub : published (c.emit m).log =
          published c.log ++ [(c.o.publish m Frame.OUTPUT c.batch).2] := by
        simp only [Turn.emit, published_append]
        rfl
      rw [hpub]
      exact hcar.output tokens _ rfl htokens hbatch

/-- A token is applied to the model before it is added to the batch. -/
theorem InTurn.perform (h : InTurn E n t es [] c) (token : List UInt8) :
    InTurn E n t es [token]
      { c with
        o := { c.o with model := c.o.model.apply E token }
        log := c.log ++ [.applied (.token token)] } := by
  obtain ⟨ops, tokens, happ, hcar, hbatch, hne⟩ := h.carries
  constructor
  · rw [← List.append_assoc]
    exact h.follows.perform (.token token)
  · refine ⟨ops, tokens, ?_, ?_, hbatch, hne⟩
    · rw [applied_append, happ, List.append_nil, List.map_append, List.append_assoc]
      rfl
    · rw [published_append]
      simpa only [published, List.filterMap_cons, List.filterMap_nil, OutputEvent.published?,
        List.append_nil] using hcar

theorem InTurn.extend {token : List UInt8} (h : InTurn E n t es [token] c) (hne : token ≠ []) :
    InTurn E n t es [] { c with batch := c.batch ++ token } := by
  obtain ⟨ops, tokens, happ, hcar, hbatch, hall⟩ := h.carries
  constructor
  · exact h.follows
  · refine ⟨ops, tokens ++ [token], by simpa only [List.append_nil] using happ, hcar, ?_, ?_⟩
    · simp only [hbatch, List.flatten_append, List.flatten_cons, List.flatten_nil, List.append_nil]
    · intro b hb
      rcases List.mem_append.1 hb with hb | hb
      · exact hall b hb
      · rw [List.mem_singleton.1 hb]
        exact hne

theorem InTurn.applyToken (h : InTurn E n t es [] c) {token : List UInt8} (hne : token ≠ []) :
    InTurn E n t es [] (c.applyToken E m token) := by
  have hperform := h.perform token
  simp only [Turn.applyToken]
  split
  · next hfull => exact (hperform.emit hfull.2).extend hne
  · exact hperform.extend hne

/-- What a locked section of the output side keeps: the counts, and that its frames carry what
it did to the model. -/
structure Recorded (E : Engine Term) (n : Nat) (t : OutputState Term) (es e : List OutputEvent)
    (o : OutputState Term) : Prop where
  follows : Follows E n t (es ++ e) o
  carries : Carries (applied e) (published e)

theorem InTurn.recorded (h : InTurn E n t es [] c) (hb : c.batch = []) :
    Recorded E n t es c.log c.o := by
  obtain ⟨ops, tokens, happ, hcar, hbatch, hne⟩ := h.carries
  have htokens : tokens = [] := by
    cases tokens with
    | nil => rfl
    | cons b tokens =>
      rw [hb, List.flatten_cons] at hbatch
      exact absurd (List.append_eq_nil_iff.1 hbatch.symm).1 (hne b (List.mem_cons_self ..))
  rw [htokens] at happ
  exact ⟨h.follows, by simpa only [happ, List.append_nil, List.map_nil] using hcar⟩

/-- The rule for a turn of the reader: what its tokens and its frames preserve holds at its end,
when the batch is empty. -/
theorem readChunk_invariant (E : Engine Term) (m : SessionInfo) (o : OutputState Term)
    (bytes : List UInt8) {P : Turn Term → Prop}
    (hstart : P ⟨{ o with fence := (o.fence.pushBytes bytes).1 }, [], []⟩)
    (htoken : ∀ c, ∀ token ∈ (o.fence.pushBytes bytes).2, P c → P (c.applyToken E m token))
    (hemit : ∀ c, c.batch ≠ [] → P c → P (c.emit m)) :
    ∃ c, P c ∧ c.batch = [] ∧ readChunk E m o bytes = (c.o, c.log) := by
  let c₀ : Turn Term := ⟨{ o with fence := (o.fence.pushBytes bytes).1 }, [], []⟩
  let c := (o.fence.pushBytes bytes).2.foldl (Turn.applyToken E m) c₀
  have hc : P c := List.foldlRecOn _ _ hstart fun c hc token ht => htoken c token ht hc
  by_cases hb : c.batch = []
  · exact ⟨c, hc, hb, by simp only [readChunk, c, c₀, if_pos hb]⟩
  · exact ⟨c.emit m, hemit c hb hc, rfl, by simp only [readChunk, c, c₀, if_neg hb]⟩

/-- One read: the tokens it releases are in the frames it publishes. -/
theorem Follows.readChunk (h : Follows E n t es o) (bytes : List UInt8) :
    Recorded E n t es (readChunk E m o bytes).2 (readChunk E m o bytes).1 := by
  obtain ⟨hf, hne⟩ := h.fence.pushBytes bytes
  have hstart : InTurn E n t es [] ⟨{ o with fence := (o.fence.pushBytes bytes).1 }, [], []⟩ := by
    constructor
    · rw [List.append_nil]
      exact ⟨h.seq, h.model, h.ring, h.counted, hf⟩
    · exact ⟨[], [], rfl, .nil, rfl, by simp⟩
  obtain ⟨c, hc, hb, he⟩ := readChunk_invariant E m o bytes hstart
    (fun _ token ht hc => hc.applyToken (hne token ht)) (fun _ hb hc => hc.emit hb)
  rw [he]
  exact hc.recorded hb

theorem Follows.commitResize (h : Follows E n t es o) (size : Size) :
    Recorded E n t es (commitResize E m o size).2 (commitResize E m o size).1 := by
  constructor
  · have hperform := h.perform (.resize size)
    have hpublish := hperform.publish (m := m) Frame.RESIZE (sizePayload size) _ rfl
    rw [List.append_assoc] at hpublish
    exact hpublish
  · exact Carries.nil.resize size _ rfl rfl

namespace OutputWorld

/-- Every locked section records what it does. -/
theorem Step.recorded {w w' : OutputWorld Term} (hs : Step E w e w')
    (h : Follows E n t es w.o) : Recorded E n t es e w'.o := by
  have hidle : Recorded E n t es [] w.o := ⟨by rw [List.append_nil]; exact h, .nil⟩
  cases hs with
  | read bytes => exact h.readChunk bytes
  | resizeStart => exact hidle
  | resizeLost => exact hidle
  | resizeCommit old new => exact h.commitResize new
  | resizeDone => exact hidle
  | resizeRollback old => exact h.commitResize old
  | subscribe info data =>
    have happ : applied (es ++ [.subscribed info data]) = applied es := by
      rw [applied_append]
      exact List.append_nil _
    have hpub : published (es ++ [.subscribed info data]) = published es := by
      rw [published_append]
      exact List.append_nil _
    refine ⟨⟨?_, ?_, ?_, ?_, h.fence⟩, .nil⟩
    · rw [hpub]
      exact h.seq
    · rw [happ]
      exact h.model
    · rw [hpub]
      exact h.ring
    · rw [hpub]
      exact h.counted

theorem run_recorded {w w' : OutputWorld Term} (hr : Run (Step E) w es w')
    (h : Follows E n t [] w.o) : Recorded E n t [] es w'.o := by
  induction hr with
  | nil => exact ⟨h, .nil⟩
  | snoc _ hs ih =>
    have hnext := hs.recorded ih.follows
    refine ⟨hnext.follows, ?_⟩
    rw [applied_append, published_append]
    exact ih.carries.append hnext.carries

theorem follows_init (t : TerminalModel Term) (ringBytes : Nat) (m : SessionInfo) :
    Follows E 0 (init t ringBytes m).o [] (init t ringBytes m).o :=
  ⟨rfl, rfl, rfl, trivial, VtFence.represented_default⟩

end OutputWorld

/-- The counter does not wrap as long as fewer than 2^64 frames are published. -/
theorem Counted.numbered (h : Counted n fs) (hn : n + fs.length < 2 ^ 64) :
    Numbered.From Frame.number n fs := by
  induction fs generalizing n with
  | nil => trivial
  | cons f fs ih =>
    rw [List.length_cons] at hn
    have hf : f.sequence.toNat = n + 1 := by
      rw [h.1, UInt64.toNat_ofNat', Nat.mod_eq_of_lt (by omega)]
    exact ⟨hf, ih h.2 (by omega)⟩

theorem subscribeSnapshot_ok {o : OutputState Term} {info : SnapshotMeta} {data : List UInt8}
    (h : subscribeSnapshot E m o = .ok (info, data)) :
    info.sequence = o.seq ∧ data = o.model.snapshot E := by
  simp only [subscribeSnapshot] at h
  split at h
  · cases h
  · injection h with hpair
    cases hpair
    exact ⟨rfl, rfl⟩

namespace OutputWorld

/-- A snapshot and the frames numbered above it are the whole history of the terminal. -/
theorem snapshot_tail (t : TerminalModel Term) (ringBytes : Nat) (m : SessionInfo)
    {w w' : OutputWorld Term} {info : SnapshotMeta} {data : List UInt8}
    (hbefore : Run (Step E) (init t ringBytes m) es w)
    (hsub : subscribeSnapshot E w.m w.o = .ok (info, data)) (hafter : Run (Step E) w fs w') :
    info.sequence = UInt64.ofNat (published es).length ∧
      data = (t.replay E (applied es)).snapshot E ∧
      Carries (applied es) (published es) ∧ Counted 0 (published es) ∧
      Carries (applied fs) (published fs) ∧ Counted (published es).length (published fs) ∧
      w'.o.ring = (EventRing.new ringBytes).pushAll (published es ++ published fs) ∧
      ((published es).length + (published fs).length < 2 ^ 64 →
        Numbered.From Frame.number 0 (published es) ∧
          Numbered.From Frame.number info.sequence.toNat (published fs)) := by
  obtain ⟨⟨hseq, hmodel, hring, hcounted, hfence⟩, hcarries⟩ :=
    run_recorded hbefore (follows_init t ringBytes m)
  simp only [List.nil_append, Nat.zero_add] at hseq hmodel hring hcounted
  have htail : Follows E (published es).length w.o [] w.o := ⟨hseq, rfl, rfl, trivial, hfence⟩
  obtain ⟨⟨_, _, hring', hcounted', _⟩, hcarries'⟩ := run_recorded hafter htail
  simp only [List.nil_append] at hring' hcounted'
  obtain ⟨hinfo, hdata⟩ := subscribeSnapshot_ok hsub
  refine ⟨hinfo.trans hseq, ?_, hcarries, hcounted, hcarries', hcounted', ?_, ?_⟩
  · rw [hdata, hmodel]
    rfl
  · rw [hring', hring]
    simp only [EventRing.pushAll, List.foldl_append]
    rfl
  · intro hlen
    refine ⟨hcounted.numbered (by omega), ?_⟩
    have hS : info.sequence.toNat = (published es).length := by
      rw [hinfo, hseq, UInt64.toNat_ofNat', Nat.mod_eq_of_lt (by omega)]
    rw [hS]
    exact hcounted'.numbered (by omega)

/-- A terminal that shows what it was sent. -/
def echo : Engine (List UInt8) := ⟨fun term bytes => term ++ bytes, fun term _ => term, id⟩

def shell : SessionInfo := ⟨.fill 1, .fill 2, 1, 80, 24⟩

/-- One token, a snapshot, and a resize that the PTY refuses. -/
theorem snapshot_tail_refused :
    ∃ (es fs : List OutputEvent) (info : SnapshotMeta) (data : List UInt8),
      applied es = [.token [65]] ∧ applied fs = [.resize ⟨100, 24⟩, .resize ⟨80, 24⟩] ∧
        data = [65] ∧ info.sequence = UInt64.ofNat (published es).length ∧
        Carries (applied es) (published es) ∧ Carries (applied fs) (published fs) ∧
        Counted (published es).length (published fs) := by
  let w₀ : OutputWorld (List UInt8) := init ⟨[], ⟨80, 24⟩, []⟩ 32768 shell
  let w₁ := { w₀ with o := (readChunk echo shell w₀.o [65]).1 }
  have hread : Run (Step echo) w₀ (readChunk echo shell w₀.o [65]).2 w₁ :=
    .single (.read w₀ [65] (by decide))
  let w₂ : OutputWorld (List UInt8) := { w₁ with resizing := .checked ⟨80, 24⟩ ⟨100, 24⟩ }
  have hstart : Run (Step echo) w₁ [] w₂ :=
    .single (.resizeStart w₁ ⟨100, 24⟩ rfl (by decide) (by decide) (by decide))
  let w₃ := w₂.commit echo ⟨100, 24⟩ (.committed ⟨80, 24⟩)
  have hcommit : Run (Step echo) w₂ (commitResize echo shell w₂.o ⟨100, 24⟩).2 w₃ :=
    .single (.resizeCommit w₂ ⟨80, 24⟩ ⟨100, 24⟩ rfl)
  have hrollback := Run.single (Step.resizeRollback (E := echo) w₃ ⟨80, 24⟩ rfl)
  obtain ⟨hseq, hdata, hcar, _, hcar', hcount, _, _⟩ :=
    snapshot_tail ⟨[], ⟨80, 24⟩, []⟩ 32768 shell hread (w := w₁) rfl
      (hstart.trans (hcommit.trans hrollback))
  exact ⟨_, _, _, _, rfl, rfl, hdata, hseq, hcar, hcar', hcount⟩

end OutputWorld
end RemoteCodex
