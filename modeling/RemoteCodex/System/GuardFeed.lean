import RemoteCodex.System.TerminalLink

namespace RemoteCodex
set_option autoImplicit true
open Client

namespace Client

variable {rt : Runtime} {s : Stream} {g g' : StreamGuard} {f : TerminalFrame}

/-- A frame that does not make the guard fail was taken. -/
theorem accept_of_phase (h : (g.accept rt f).1.phase ≠ .failed) :
    g.accept rt f = ((g.accept rt f).1, .ok ()) := by
  cases he : (g.accept rt f).2 with
  | ok => exact Prod.ext rfl he
  | error e => exact absurd (StreamGuard.accept_fst_of_error he) h

/-- A live guard stays live and counts. -/
theorem accept_live (hl : g.phase = .live) (h : g.accept rt f = (g', .ok ())) :
    g'.phase = .live ∧ g'.sequence = g.sequence + 1 := by
  have hp : g.phase ≠ .failed := by
    rw [hl]
    exact Phase.noConfusion
  have hsnap : ¬ g.phase = .snapshot := by
    rw [hl]
    exact Phase.noConfusion
  rw [StreamGuard.accept_eq_ok, StreamGuard.validate_eq_ok hp, if_neg hsnap] at h
  obtain ⟨_, h⟩ := h
  split at h
  · have hstart : g.phase ≠ .awaiting := by
      rw [hl]
      exact Phase.noConfusion
    rw [StreamGuard.validateStart, if_pos (.inl hstart)] at h
    cases h
  · rw [StreamGuard.validateLive] at h
    split at h
    · cases h
    · next hnext =>
      rw [not_or, not_or, not_not, not_not, not_not] at hnext
      split at h
      · cases h
      · split at h
        · cases h
        · cases h
          exact ⟨hl, hnext.2.2⟩

theorem feed_append (g : StreamGuard) (fs gs : List TerminalFrame) :
    g.feed rt (fs ++ gs) = (g.feed rt fs).feed rt gs := by
  rw [StreamGuard.feed, List.foldl_append]
  rfl

theorem feed_cons (h : g.accept rt f = (g', .ok ())) (fs : List TerminalFrame) :
    g.feed rt (f :: fs) = g'.feed rt fs := by
  rw [StreamGuard.feed, List.foldl_cons, h]
  rfl

namespace Stream

/-- The parts of a snapshot, as long as they are not too many. -/
theorem reading_feed {S : Int} {m : SnapshotMeta} {received : Nat} {chunks : List TerminalFrame}
    (ho : ∀ c ∈ chunks, s.Owns c ∧ Chunk S c) (hn : received + total chunks ≤ m.bytes) :
    (s.reading S m received).feed rt chunks = s.reading S m (received + total chunks) := by
  induction chunks generalizing received with
  | nil => rfl
  | cons c chunks ih =>
    obtain ⟨howns, hchunk⟩ := ho c (List.mem_cons_self ..)
    simp only [total, List.map_cons, List.sum_cons] at hn ⊢
    have hle : received + c.payload.length ≤ m.bytes := by omega
    have hc : (s.reading S m received).accept rt c =
        (s.reading S m (received + c.payload.length), .ok ()) :=
      reading_accept.2 ⟨howns, .inl ⟨hchunk, hle, rfl⟩⟩
    rw [← Nat.add_assoc] at hn
    rw [feed_cons hc, ih (fun c hc => ho c (List.mem_cons_of_mem _ hc)) hn, ← Nat.add_assoc]
    rfl

/-- What follows a snapshot is counted. -/
theorem living_feed {S : Int} {m : SnapshotMeta} {received : Nat} {frames : List TerminalFrame}
    (ho : ∀ f ∈ frames, s.Owns f) (ht : Tail S frames) :
    (s.living S m received).feed rt frames = s.living (S + frames.length) m received := by
  induction frames generalizing S with
  | nil =>
    rw [List.length_nil, Int.natCast_zero, Int.add_zero]
    rfl
  | cons f frames ih =>
    obtain ⟨hf, hrest⟩ := tail_cons.1 ht
    have hc : (s.living S m received).accept rt f = (s.living (S + 1) m received, .ok ()) :=
      living_accept.2 ⟨ho f (List.mem_cons_self ..), hf, rfl⟩
    rw [feed_cons hc, ih (fun f hf => ho f (List.mem_cons_of_mem _ hf)) hrest, List.length_cons,
      Int.natCast_add, Int.add_assoc, Int.add_comm 1]
    rfl

end Stream
end Client
/-- A snapshot that a session announces to a client. -/
structure StreamStart.Opens (rt : Runtime) (m : SessionInfo) (t : StreamStart) : Prop where
  id : t.id = m.sessionId
  generation : t.info.generation = m.generation
  agentEpoch : t.info.agentEpoch = m.agentEpoch
  described : t.info.Described
  bytes : t.info.bytes = t.snapshot.length
  json : JsonText rt t.json t.info

variable {rt : Runtime} {m : SessionInfo} {t : StreamStart} {f : Frame}

theorem SessionInfo.owns (hid : f.sessionId = m.sessionId) (hg : f.generation = m.generation) :
    m.stream.Owns f.toClient := by
  refine ⟨?_, ?_⟩
  · rw [Frame.toClient, hid]
    rfl
  · rw [Frame.toClient, hg]
    exact decide_eq_true rfl

theorem Frame.toClient_kind {k : UInt8} (h : f.kind = k) :
    f.toClient.kind = .finite k.toNat := by
  rw [toClient, h]

/-- A resize that the session publishes is within the bounds of the client. -/
theorem Emitted.live (h : Emitted m f) : Stream.Live f.toClient := by
  have hbytes (n : Nat) : Frame.toBeBytes 2 n = [UInt8.ofNat (n / 256), UInt8.ofNat n] := rfl
  have hvalue {n : Nat} (hn : n ≤ 400) :
      256 * (UInt8.ofNat (n / 256)).toNat + (UInt8.ofNat n).toNat = n := by
    rw [UInt8.toNat_ofNat', UInt8.toNat_ofNat']
    omega
  rcases h.kind with hk | ⟨hk, size, hs, hp⟩
  · exact .inl ((Frame.toClient_kind hk).trans (by decide))
  · obtain ⟨⟨hc, hcols⟩, hr, hrows⟩ := hs
    simp only [MAX_COLS] at hcols
    simp only [MAX_ROWS] at hrows
    refine .inr (.inr ⟨(Frame.toClient_kind hk).trans (by decide), _, _, _, _, hp, ?_⟩)
    simp only [hvalue hcols, hvalue (Nat.le_trans hrows (by decide))]
    exact ⟨hc, hcols, hr, hrows⟩

namespace StreamStart

theorem Opens.owns (h : t.Opens rt m) (kind : UInt8) (payload : List UInt8) :
    m.stream.Owns (t.frame kind payload).toClient :=
  SessionInfo.owns h.id h.generation

theorem Opens.starts (h : t.Opens rt m) :
    m.stream.Starts rt t.metaFrame.toClient t.snapshot.length := by
  have hplain := h.described.plainTexts
  have hpayload : t.metaFrame.toClient.payload = t.info.compact := h.json.writes hplain
  have hkind : t.metaFrame.toClient.kind = Kind.SnapshotMeta :=
    (Frame.toClient_kind (k := Frame.SNAPSHOT_META) rfl).trans (by decide)
  refine ⟨hkind, ?_, t.info.toJs, ?_, ?_⟩
  · rw [hpayload]
    exact h.described.compact_length
  · rw [hpayload]
    exact h.json.reads hplain
  · have hg : m.stream.generation = .finite t.info.generation.toNat := by
      rw [h.generation, SessionInfo.stream]
    have he : m.stream.agentEpoch = Js.str t.info.agentEpoch.hyphenated := by
      rw [h.agentEpoch, SessionInfo.stream]
    have hf : t.metaFrame.toClient.sequence = t.info.sequence.toNat := rfl
    rw [← h.bytes]
    exact h.described.describes hg he hf

theorem Opens.chunks (h : t.Opens rt m) :
    ∀ c ∈ (t.chunks.map t.chunkFrame).map Frame.toClient,
      m.stream.Owns c ∧ Stream.Chunk t.info.sequence.toNat c := by
  intro c hc
  rw [List.map_map] at hc
  obtain ⟨chunk, _, rfl⟩ := List.mem_map.1 hc
  have hkind := Frame.toClient_kind (f := t.chunkFrame chunk) (k := Frame.SNAPSHOT_CHUNK) rfl
  exact ⟨h.owns _ _, hkind.trans (by decide), rfl⟩

theorem total_chunks (t : StreamStart) :
    Stream.total ((t.chunks.map t.chunkFrame).map Frame.toClient) = t.snapshot.length := by
  have hflat : t.chunks.flatten = t.snapshot := flatten_toChunks MAX_PAYLOAD t.snapshot
  rw [← hflat, List.length_flatten, Stream.total, List.map_map, List.map_map]
  rfl

/-- What a session publishes after the snapshot. -/
structure Continued (m : SessionInfo) (t : StreamStart) (tail : List Frame) : Prop where
  numbered : Numbered.From Frame.number t.info.sequence.toNat tail
  emitted : ∀ f ∈ tail, Emitted m f

theorem Continued.append {fs gs : List Frame} (h : t.Continued m (fs ++ gs)) :
    t.Continued m fs :=
  ⟨((Numbered.from_append _ fs gs).1 h.numbered).1, fun f hf =>
    h.emitted f (List.mem_append_left gs hf)⟩

theorem Continued.tail {tail : List Frame} (h : t.Continued m tail) :
    Stream.Tail t.info.sequence.toNat (tail.map Frame.toClient) := by
  obtain ⟨hn, he⟩ := h
  generalize t.info.sequence.toNat = n at hn
  induction tail generalizing n with
  | nil => trivial
  | cons f tail ih =>
    have hf : f.toClient.sequence = (n : Int) + 1 := by
      rw [Frame.toClient, ← Int.natCast_succ]
      exact congrArg Int.ofNat hn.1
    rw [List.map_cons, Stream.tail_cons]
    refine ⟨⟨hf, (he f (List.mem_cons_self ..)).live⟩, ?_⟩
    have hrest := ih (fun f hf => he f (List.mem_cons_of_mem _ hf)) (n + 1) hn.2
    rwa [Int.natCast_succ] at hrest

theorem Continued.owns {tail : List Frame} (h : t.Continued m tail) :
    ∀ f ∈ tail.map Frame.toClient, m.stream.Owns f := by
  intro c hc
  obtain ⟨f, hf, rfl⟩ := List.mem_map.1 hc
  exact SessionInfo.owns (h.emitted f hf).sessionId (h.emitted f hf).generation

/-- The guard after a part of the snapshot and of what follows it. -/
theorem Opens.feed_prefix (h : t.Opens rt m) {received rest tail : List Frame}
    (hr : received ++ rest = t.frames ++ tail) (ht : t.Continued m tail) :
    (m.stream.guard.feed rt (received.map Frame.toClient)).phase ≠ .failed ∧
      ((m.stream.guard.feed rt (received.map Frame.toClient)).phase = .live →
        ∃ shown, received = t.frames ++ shown ∧
          (m.stream.guard.feed rt (received.map Frame.toClient)).sequence =
            t.info.sequence.toNat + shown.length) := by
  cases received with
  | nil => exact ⟨Phase.noConfusion, fun hl => by cases hl⟩
  | cons f received =>
    rw [frames, List.cons_append, List.cons_append, List.append_assoc] at hr
    injection hr with hf hr
    subst hf
    have howns : m.stream.Owns t.metaFrame.toClient := h.owns _ _
    obtain ⟨d, hd, hmeta⟩ := Stream.guard_accept_start howns h.starts
    have hseq : t.metaFrame.toClient.sequence = t.info.sequence.toNat := rfl
    have htotal := total_chunks t
    rw [hseq] at hmeta
    rw [List.map_cons, feed_cons hmeta]
    rcases List.append_eq_append_iff.1 hr with ⟨more, hc, _⟩ | ⟨after, hc, hrest⟩
    · -- in the middle of the snapshot
      have hall := h.chunks
      rw [hc, List.map_append] at hall htotal
      have hle : 0 + Stream.total (received.map Frame.toClient) ≤ d.bytes := by
        simp only [Stream.total, List.map_append, List.sum_append] at htotal ⊢
        omega
      rw [Stream.reading_feed (fun c hc => hall c (List.mem_append_left _ hc)) hle]
      exact ⟨Phase.noConfusion, fun hl => by cases hl⟩
    · have hle : 0 + Stream.total ((t.chunks.map t.chunkFrame).map Frame.toClient) ≤ d.bytes := by
        omega
      rw [hc, List.map_append, feed_append, Stream.reading_feed h.chunks hle]
      cases after with
      | nil => exact ⟨Phase.noConfusion, fun hl => by cases hl⟩
      | cons e shown =>
        rw [List.singleton_append, List.cons_append] at hrest
        injection hrest with he htail
        subst he
        have hkind := Frame.toClient_kind (f := t.endFrame) (k := Frame.SNAPSHOT_END) rfl
        have hend : (m.stream.reading t.info.sequence.toNat d
            (0 + Stream.total ((t.chunks.map t.chunkFrame).map Frame.toClient))).accept rt
              t.endFrame.toClient = (m.stream.living t.info.sequence.toNat d
                (0 + Stream.total ((t.chunks.map t.chunkFrame).map Frame.toClient)), .ok ()) :=
          Stream.reading_accept.2 ⟨h.owns _ _, .inr ⟨⟨hkind.trans (by decide), rfl, rfl⟩,
            by omega, rfl⟩⟩
        rw [htail] at ht
        have hshown := ht.append
        rw [List.map_cons, feed_cons hend, Stream.living_feed hshown.owns hshown.tail]
        refine ⟨Phase.noConfusion, fun _ => ⟨shown, ?_, ?_⟩⟩
        · rw [frames, List.cons_append, List.append_assoc, List.singleton_append]
        · rw [List.length_map]
          rfl

end StreamStart
end RemoteCodex
