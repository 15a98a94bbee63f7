import RemoteCodex.Agent.SnapshotTail

namespace RemoteCodex
set_option autoImplicit true

variable {Term : Type}

/-- The turns of `reader_loop` over a list of reads. -/
def readAll (E : Engine Term) (m : SessionInfo) (o : OutputState Term) :
    List (List UInt8) → OutputState Term × List OutputEvent
  | [] => (o, [])
  | bytes :: reads =>
    let q := readChunk E m o bytes
    let r := readAll E m q.1 reads
    (r.1, q.2 ++ r.2)

/-- Every stretch of text in the reads fits into a frame, counted with what is carried over and
with U+FFFD for what is malformed. -/
def ReadsNarrow (s : VtFence.State) (carry : List UInt8) : List (List UInt8) → Prop
  | [] => True
  | bytes :: reads =>
    (∀ n ∈ VtFence.textWidths s carry 0 bytes, n ≤ MAX_PAYLOAD) ∧
      ReadsNarrow (VtFence.scan s carry bytes).1 (VtFence.scan s carry bytes).2 reads

/-- A frame of terminal output that `send_frame` can encode. -/
def Sendable (f : Frame) : Prop := f.payload.length ≤ MAX_PAYLOAD ∧ f.Encodes

theorem sendable_iff (hk : f.kind = Frame.OUTPUT) :
    Sendable f ↔ f.payload.length ≤ MAX_PAYLOAD := by
  constructor
  · exact And.left
  · intro h
    refine ⟨h, f.encodes_iff.2 ⟨h, ?_⟩⟩
    rw [hk]
    decide

variable {E : Engine Term} {m : SessionInfo}

/-- A turn whose frames and batch fit. -/
structure Fitting (c : Turn Term) : Prop where
  batch : c.batch.length ≤ MAX_PAYLOAD
  frames : ∀ f ∈ published c.log, f.payload.length ≤ MAX_PAYLOAD

theorem mem_published_emit {f : Frame} {c : Turn Term} (hf : f ∈ published (c.emit m).log) :
    f ∈ published c.log ∨ f.payload = c.batch ∧ f.kind = Frame.OUTPUT := by
  simp only [Turn.emit, published_append, List.mem_append] at hf
  rcases hf with hf | hf
  · exact .inl hf
  · rw [List.mem_singleton.1 hf]
    exact .inr ⟨rfl, rfl⟩

theorem Fitting.emit (h : Fitting c) : Fitting (c.emit m) where
  batch := Nat.zero_le _
  frames := by
    intro f hf
    rcases mem_published_emit hf with hf | ⟨hp, _⟩
    · exact h.frames f hf
    · rw [hp]
      exact h.batch

/-- A batch that a short token would overflow is emitted first. -/
theorem Fitting.applyToken (h : Fitting c) {token : List UInt8}
    (ht : token.length ≤ MAX_PAYLOAD) : Fitting (c.applyToken E m token) := by
  have hperform : Fitting
      { c with
        o := { c.o with model := c.o.model.apply E token }
        log := c.log ++ [.applied (.token token)] } := by
    refine ⟨h.batch, ?_⟩
    intro f hf
    rw [published_append] at hf
    rcases List.mem_append.1 hf with hf | hf
    · exact h.frames f hf
    · cases hf
  simp only [Turn.applyToken]
  split
  · next hfull => exact ⟨ht, (hperform.emit (m := m)).frames⟩
  · next hroom =>
    refine ⟨?_, hperform.frames⟩
    rw [List.length_append]
    by_cases hb : c.batch = []
    · rw [hb]
      simpa using ht
    · exact Nat.le_of_not_lt fun hlt => hroom ⟨hlt, hb⟩

/-- The tokens of a turn are applied in order. -/
theorem applied_applyTokens (c : Turn Term) (tokens : List (List UInt8)) :
    applied (tokens.foldl (Turn.applyToken E m) c).log =
      applied c.log ++ tokens.map .token := by
  induction tokens generalizing c with
  | nil => exact (List.append_nil _).symm
  | cons token tokens ih =>
    have hstep : applied (c.applyToken E m token).log = applied c.log ++ [.token token] := by
      simp only [Turn.applyToken]
      split
      · simp only [Turn.emit, applied_append, List.append_assoc]
        rfl
      · rw [applied_append]
        rfl
    rw [List.foldl_cons, ih, hstep, List.append_assoc]
    rfl

/-- Only the emitted batches are published. -/
theorem mem_published_applyToken {f : Frame} {c : Turn Term} {token : List UInt8}
    (hf : f ∈ published (c.applyToken E m token).log) :
    f ∈ published c.log ∨ f.kind = Frame.OUTPUT := by
  have hperform (op : ModelOp) : published (c.log ++ [.applied op]) = published c.log := by
    rw [published_append]
    exact List.append_nil _
  simp only [Turn.applyToken] at hf
  split at hf
  · rcases mem_published_emit hf with hf | ⟨_, hk⟩
    · rw [hperform] at hf
      exact .inl hf
    · exact .inr hk
  · rw [hperform] at hf
    exact .inl hf

theorem applied_readChunk (o : OutputState Term) (bytes : List UInt8) :
    applied (readChunk E m o bytes).2 = (o.fence.pushBytes bytes).2.map .token := by
  have hemit (c : Turn Term) : applied (c.emit m).log = applied c.log := by
    simp only [Turn.emit, applied_append]
    exact List.append_nil _
  unfold readChunk
  simp only
  split
  · rw [applied_applyTokens]
    rfl
  · rw [hemit, applied_applyTokens]
    rfl

/-- A turn publishes OUTPUT frames only. -/
theorem published_readChunk (o : OutputState Term) (bytes : List UInt8) :
    ∀ f ∈ published (readChunk E m o bytes).2, f.kind = Frame.OUTPUT := by
  obtain ⟨c, hc, _, he⟩ := readChunk_invariant E m o bytes
    (P := fun c => ∀ f ∈ published c.log, f.kind = Frame.OUTPUT) (by simp [published])
    (fun c _ _ hc f hf => (mem_published_applyToken hf).elim (hc f) id)
    (fun c _ hc f hf => (mem_published_emit hf).elim (hc f) And.right)
  rw [he]
  exact hc

theorem readChunk_fence (o : OutputState Term) (bytes : List UInt8) :
    (readChunk E m o bytes).1.fence = (o.fence.pushBytes bytes).1 := by
  have htoken (c : Turn Term) (token : List UInt8) :
      (c.applyToken E m token).o.fence = c.o.fence := by
    simp only [Turn.applyToken]
    split <;> rfl
  obtain ⟨c, hc, _, he⟩ := readChunk_invariant E m o bytes
    (P := fun c => c.o.fence = (o.fence.pushBytes bytes).1) rfl
    (fun c token _ hc => (htoken c token).trans hc) (fun _ _ hc => hc)
  rw [he]
  exact hc

/-- A token is no longer than the frame that carries it. -/
theorem Carries.token_le (h : Carries ops fs) (hb : ModelOp.token b ∈ ops) :
    ∃ f ∈ fs, b.length ≤ f.payload.length := by
  induction h with
  | nil => cases hb
  | output tokens f _ _ hp _ ih =>
    rcases List.mem_append.1 hb with hb | hb
    · obtain ⟨g, hg, hle⟩ := ih hb
      exact ⟨g, List.mem_append_left _ hg, hle⟩
    · obtain ⟨token, ht, he⟩ := List.mem_map.1 hb
      cases he
      refine ⟨f, List.mem_append_right _ (List.mem_singleton.2 rfl), ?_⟩
      rw [hp]
      exact (List.sublist_flatten_of_mem ht).length_le
  | resize size f _ _ _ ih =>
    rcases List.mem_append.1 hb with hb | hb
    · obtain ⟨g, hg, hle⟩ := ih hb
      exact ⟨g, List.mem_append_left _ hg, hle⟩
    · cases List.mem_singleton.1 hb

/-- The frames of one read are short exactly when its tokens are. -/
theorem readChunk_short_iff {o : OutputState Term} (h : o.fence.Represented)
    (bytes : List UInt8) :
    (∀ f ∈ published (readChunk E m o bytes).2, f.payload.length ≤ MAX_PAYLOAD) ↔
      ∀ n ∈ VtFence.textWidths o.fence.state o.fence.utf8 0 bytes, n ≤ MAX_PAYLOAD := by
  rw [← h.pushBytes_le (by decide)]
  constructor
  · intro hframes token ht
    have hself : Follows E o.seq.toNat o [] o := ⟨by simp [published], rfl, rfl, trivial, h⟩
    have hcarries := (hself.readChunk (m := m) bytes).carries
    obtain ⟨f, hf, hle⟩ := hcarries.token_le (b := token)
      (by rw [applied_readChunk]; exact List.mem_map_of_mem ht)
    exact Nat.le_trans hle (hframes f hf)
  · intro htokens
    let c₀ : Turn Term := ⟨{ o with fence := (o.fence.pushBytes bytes).1 }, [], []⟩
    have hstart : Fitting c₀ := by
      refine ⟨Nat.zero_le _, ?_⟩
      intro f hf
      cases hf
    obtain ⟨c, hc, _, he⟩ := readChunk_invariant E m o bytes hstart
      (fun _ token ht hc => hc.applyToken (htokens token ht)) (fun _ _ hc => hc.emit)
    rw [he]
    exact hc.frames

theorem readChunk_sendable_iff {o : OutputState Term} (h : o.fence.Represented)
    (bytes : List UInt8) :
    (∀ f ∈ published (readChunk E m o bytes).2, Sendable f) ↔
      ∀ n ∈ VtFence.textWidths o.fence.state o.fence.utf8 0 bytes, n ≤ MAX_PAYLOAD := by
  rw [← readChunk_short_iff (E := E) (m := m) h]
  have hkind := published_readChunk (E := E) (m := m) o bytes
  constructor
  · intro hs f hf
    exact (hs f hf).1
  · intro hs f hf
    exact (sendable_iff (hkind f hf)).2 (hs f hf)

theorem readAll_sendable_iff {o : OutputState Term} (h : o.fence.Represented)
    (reads : List (List UInt8)) :
    (∀ f ∈ published (readAll E m o reads).2, Sendable f) ↔
      ReadsNarrow o.fence.state o.fence.utf8 reads := by
  induction reads generalizing o with
  | nil => simp [readAll, ReadsNarrow, published]
  | cons bytes reads ih =>
    have hfence := readChunk_fence (E := E) (m := m) o bytes
    have hnext : (readChunk E m o bytes).1.fence.Represented := by
      rw [hfence]
      exact (h.pushBytes bytes).1
    have hscan := h.pushBytes_scan bytes
    rw [← hfence] at hscan
    have htail := ih hnext
    simp only [readAll, published_append, List.mem_append, or_imp, forall_and, ReadsNarrow,
      ← hscan]
    rw [readChunk_sendable_iff h, htail]

/-- Every frame of terminal output can be encoded exactly when every stretch of text between
escape sequences fits into a frame. -/
theorem output_sendable_iff (E : Engine Term) (m : SessionInfo) (t : TerminalModel Term)
    (ring : EventRing) (seq : UInt64) (reads : List (List UInt8)) :
    (∀ f ∈ published (readAll E m ⟨t, .default, ring, seq⟩ reads).2, Sendable f) ↔
      ReadsNarrow .ground [] reads :=
  readAll_sendable_iff VtFence.represented_default reads

/-- Letters are one stretch of text. -/
theorem textWidths_letters (n count : Nat) :
    VtFence.textWidths .ground [] n (List.replicate count 0x41) = [n + count] := by
  induction count generalizing n with
  | zero => rfl
  | succ count ih =>
    rw [List.replicate_succ, Nat.add_comm count 1, ← Nat.add_assoc]
    exact ih (n + 1)

/-- A character split between two reads, the second of which is full. -/
def splitReads : List (List UInt8) :=
  [[0xf0, 0x9f, 0x98], 0x80 :: List.replicate (MAX_PAYLOAD - 1) 0x41]

/-- The carried bytes push a full read over the limit. -/
theorem output_not_sendable :
    ¬ ∀ (Term : Type) (E : Engine Term) (m : SessionInfo) (t : TerminalModel Term)
      (ring : EventRing) (seq : UInt64) (reads : List (List UInt8)),
      (∀ bytes ∈ reads, bytes.length ≤ MAX_PAYLOAD) →
        ∀ f ∈ published (readAll E m ⟨t, .default, ring, seq⟩ reads).2, Sendable f := by
  intro h
  have hreads : ∀ bytes ∈ splitReads, bytes.length ≤ MAX_PAYLOAD := by
    intro bytes hb
    simp only [splitReads, List.mem_cons, List.not_mem_nil, or_false] at hb
    rcases hb with hb | hb
    · rw [hb]
      decide
    · rw [hb, List.length_cons, List.length_replicate]
      decide
  have hbad := h Unit ⟨fun _ _ => (), fun _ _ => (), fun _ => []⟩
    ⟨.fill 0, .fill 0, 1, 80, 24⟩ ⟨(), ⟨80, 24⟩, []⟩ (.new 32768) 0 splitReads hreads
  rw [readAll_sendable_iff VtFence.represented_default] at hbad
  have hscan : VtFence.scan .ground [] [0xf0, 0x9f, 0x98] = (.ground, [0xf0, 0x9f, 0x98]) := by
    decide
  have hfirst (bytes : List UInt8) :
      VtFence.textWidths .ground [0xf0, 0x9f, 0x98] 0 (0x80 :: bytes) =
        VtFence.textWidths .ground [] 4 bytes := rfl
  obtain ⟨_, hsecond, _⟩ := hbad
  simp only [VtFence.default, hscan, hfirst, textWidths_letters] at hsecond
  exact absurd (hsecond _ (List.mem_singleton.2 rfl)) (by decide)

end RemoteCodex
