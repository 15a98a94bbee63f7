import RemoteCodex.Agent.SnapshotTail

namespace RemoteCodex
set_option autoImplicit true
open Trace

/-- The sizes that `create` and `resize` let through. -/
structure Size.Valid (s : Size) : Prop where
  cols : 2 ≤ s.cols.toNat ∧ s.cols.toNat ≤ MAX_COLS
  rows : 1 ≤ s.rows.toNat ∧ s.rows.toNat ≤ MAX_ROWS

def SessionInfo.size (m : SessionInfo) : Size := ⟨m.cols, m.rows⟩

/-- The frames a session publishes. -/
structure Emitted (m : SessionInfo) (f : Frame) : Prop where
  sessionId : f.sessionId = m.sessionId
  generation : f.generation = m.generation
  kind : f.kind = Frame.OUTPUT ∨
    f.kind = Frame.RESIZE ∧ ∃ size : Size, size.Valid ∧ f.payload = sizePayload size

variable {Term : Type} {E : Engine Term} {m : SessionInfo}

namespace OutputWorld

/-- Every size the session holds is valid. -/
structure Sized (w : OutputWorld Term) : Prop where
  model : w.o.model.size.Valid
  info : w.m.size.Valid
  resizing : match w.resizing with
    | .idle => True
    | .checked old new => old.Valid ∧ new.Valid
    | .committed old => old.Valid

/-- The session itself, which no step changes. -/
structure SameSession (w w' : OutputWorld Term) : Prop where
  sessionId : w'.m.sessionId = w.m.sessionId
  generation : w'.m.generation = w.m.generation
  agentEpoch : w'.m.agentEpoch = w.m.agentEpoch

end OutputWorld

/-- A turn of the reader publishes output, and does not change the size. -/
structure Turn.Emitting (m : SessionInfo) (size : Size) (c : Turn Term) : Prop where
  frames : ∀ f ∈ published c.log, Emitted m f
  size : c.o.model.size = size

theorem Turn.Emitting.emit {size : Size} {c : Turn Term} (h : c.Emitting m size) :
    (c.emit m).Emitting m size := by
  refine ⟨?_, h.size⟩
  intro f hf
  simp only [Turn.emit, published_append] at hf
  rcases List.mem_append.1 hf with hf | hf
  · exact h.frames f hf
  · rw [List.mem_singleton.1 hf]
    exact ⟨rfl, rfl, .inl rfl⟩

theorem Turn.Emitting.applyToken {size : Size} {c : Turn Term} (h : c.Emitting m size)
    (token : List UInt8) :
    (c.applyToken E m token).Emitting m size := by
  have hperform : Turn.Emitting m size
      { c with
        o := { c.o with model := c.o.model.apply E token }
        log := c.log ++ [.applied (.token token)] } := by
    refine ⟨?_, h.size⟩
    intro f hf
    rw [published_append] at hf
    rcases List.mem_append.1 hf with hf | hf
    · exact h.frames f hf
    · cases hf
  simp only [Turn.applyToken]
  split
  · exact ⟨hperform.emit.frames, hperform.emit.size⟩
  · exact ⟨hperform.frames, hperform.size⟩

theorem readChunk_emitted (o : OutputState Term) (bytes : List UInt8) :
    (∀ f ∈ published (readChunk E m o bytes).2, Emitted m f) ∧
      (readChunk E m o bytes).1.model.size = o.model.size := by
  obtain ⟨c, hc, _, he⟩ := readChunk_invariant E m o bytes (P := Turn.Emitting m o.model.size)
    ⟨fun _ h => absurd h List.not_mem_nil, rfl⟩ (fun _ token _ hc => hc.applyToken token)
    (fun _ _ hc => hc.emit)
  rw [he]
  exact ⟨hc.frames, hc.size⟩

theorem commitResize_emitted (o : OutputState Term) {size : Size} (hs : size.Valid) :
    ∀ f ∈ published (commitResize E m o size).2, Emitted m f := by
  intro f hf
  rw [List.mem_singleton.1 hf]
  exact ⟨rfl, rfl, .inr ⟨rfl, size, hs, rfl⟩⟩

namespace OutputWorld

theorem SameSession.refl (w : OutputWorld Term) : SameSession w w := ⟨rfl, rfl, rfl⟩

theorem SameSession.trans {w w' w'' : OutputWorld Term} (h : SameSession w w')
    (h' : SameSession w' w'') : SameSession w w'' :=
  ⟨h'.sessionId.trans h.sessionId, h'.generation.trans h.generation,
    h'.agentEpoch.trans h.agentEpoch⟩

/-- A locked section keeps the session and its sizes valid, and publishes frames of it. -/
theorem Step.sized {w w' : OutputWorld Term} (hs : Step E w e w') (h : Sized w) :
    Sized w' ∧ SameSession w w' ∧ ∀ f ∈ published e, Emitted w.m f := by
  have hnone : ∀ f ∈ published [], Emitted w.m f := fun _ h => absurd h List.not_mem_nil
  have hsizes := h.resizing
  cases hs with
  | read bytes =>
    obtain ⟨hframes, hsize⟩ := readChunk_emitted (E := E) (m := w.m) w.o bytes
    exact ⟨⟨by rw [hsize]; exact h.model, h.info, hsizes⟩, ⟨rfl, rfl, rfl⟩, hframes⟩
  | resizeStart new hi hc hr =>
    exact ⟨⟨h.model, h.info, h.info, hc, hr⟩, ⟨rfl, rfl, rfl⟩, hnone⟩
  | resizeLost => exact ⟨⟨h.model, h.info, trivial⟩, ⟨rfl, rfl, rfl⟩, hnone⟩
  | resizeCommit old new hp =>
    rw [hp] at hsizes
    exact ⟨⟨hsizes.2, hsizes.2, hsizes.1⟩, ⟨rfl, rfl, rfl⟩, commitResize_emitted w.o hsizes.2⟩
  | resizeDone => exact ⟨⟨h.model, h.info, trivial⟩, ⟨rfl, rfl, rfl⟩, hnone⟩
  | resizeRollback old hp =>
    rw [hp] at hsizes
    exact ⟨⟨hsizes, hsizes, trivial⟩, ⟨rfl, rfl, rfl⟩, commitResize_emitted w.o hsizes⟩
  | subscribe info data => exact ⟨h, ⟨rfl, rfl, rfl⟩, hnone⟩

theorem run_sized {w w' : OutputWorld Term} (hr : Run (Step E) w es w') (h : Sized w) :
    Sized w' ∧ SameSession w w' ∧ ∀ f ∈ published es, Emitted w.m f := by
  induction hr with
  | nil => exact ⟨h, .refl w, fun _ h => absurd h List.not_mem_nil⟩
  | snoc _ hs ih =>
    obtain ⟨hsized, hsame, hframes⟩ := ih
    obtain ⟨hsized', hsame', hframes'⟩ := hs.sized hsized
    refine ⟨hsized', hsame.trans hsame', ?_⟩
    intro f hf
    rw [published_append] at hf
    rcases List.mem_append.1 hf with hf | hf
    · exact hframes f hf
    · have he := hframes' f hf
      exact ⟨he.sessionId.trans hsame.sessionId, he.generation.trans hsame.generation, he.kind⟩

end OutputWorld

/-- What every new terminal warns of. -/
def experimental : String :=
  "VT snapshot adapter is experimental; Codex/IME/full-state golden verification is not yet " ++
    "complete"

/-- The terminal model of a new session. -/
def TerminalModel.new (term : Term) (size : Size) : TerminalModel Term :=
  ⟨term, size, [experimental]⟩

theorem TerminalModel.replay_warnings (t : TerminalModel Term) (ops : List ModelOp) :
    (t.replay E ops).warnings = t.warnings := by
  induction ops generalizing t with
  | nil => rfl
  | cons op ops ih =>
    rw [replay, List.foldl_cons]
    refine (ih (t.perform E op)).trans ?_
    cases op with
    | token bytes => rfl
    | resize size => rfl

/-- The parts of a snapshot are the snapshot. -/
theorem flatten_toChunks {α : Type} (n : Nat) (l : List α) : (l.toChunks n).flatten = l := by
  have hgo (n : Nat) (l : List α) (part : Array α) (parts : Array (List α)) :
      (List.toChunks.go n l part parts).flatten = parts.toList.flatten ++ (part.toList ++ l) := by
    induction l generalizing part parts with
    | nil =>
      simp only [List.toChunks.go, Array.toList_push, List.flatten_append, List.flatten_singleton,
        List.append_nil]
    | cons a l ih =>
      simp only [List.toChunks.go]
      split
      · rw [ih]
        simp
      · rw [ih]
        simp
  cases l with
  | nil => rw [List.toChunks, List.flatten_nil]
  | cons a l =>
    cases n with
    | zero => rw [List.toChunks, List.flatten_singleton]; simp
    | succ n => rw [List.toChunks, hgo]; simp; simp

/-- What a snapshot says of itself. -/
theorem subscribeSnapshot_info {o : OutputState Term} {info : SnapshotMeta} {data : List UInt8}
    (h : subscribeSnapshot E m o = .ok (info, data)) :
    info = ⟨o.model.size.cols, o.model.size.rows, o.seq, m.generation, m.agentEpoch,
      "experimental_vt_snapshot", o.model.warnings, data.length⟩ ∧ data.length ≤ MAX_SNAPSHOT := by
  simp only [subscribeSnapshot] at h
  split at h
  · cases h
  · next hsize =>
    injection h with hpair
    injection hpair with hinfo hdata
    subst hdata
    exact ⟨hinfo.symm, Nat.le_of_not_lt hsize⟩

end RemoteCodex
