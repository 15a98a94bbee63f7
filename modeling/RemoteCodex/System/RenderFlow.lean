import RemoteCodex.System.LinkSafety

namespace RemoteCodex
set_option autoImplicit true
open Client Trace

/-! What the agent sends and the client has not rendered stays within the budget of the client. -/

namespace StreamWorld

variable {C : Crypto} {t : StreamStart} {w w' : StreamWorld} {S : Nat} {tail : List Frame}
  {l : TerminalLoop}

/-- What stays in `inflight` are the frames after the last one that was acknowledged. -/
structure Settled (S : Nat) (tail : List Frame) (l : TerminalLoop) : Prop where
  low : S ≤ l.applied.toNat
  high : l.applied.toNat ≤ S + tail.length
  inflight : l.inflight =
    (tail.drop (l.applied.toNat - S)).map fun f => (f.sequence, f.size)

theorem settled_loop (h : t.info.sequence.toNat = S) (deadline : Nat) :
    Settled S [] (t.loop deadline) := by
  refine ⟨Nat.le_of_eq h.symm, Nat.le_of_eq h, ?_⟩
  rw [List.drop_nil]
  rfl

theorem Settled.delivered (h : Settled S tail w.l) (f : Frame) (rest : List Frame) :
    Settled S (tail ++ [f]) (w.delivered f rest).l := by
  have hhigh := h.high
  refine ⟨h.low, ?_, ?_⟩
  · rw [List.length_append, ← Nat.add_assoc]
    exact Nat.le_add_right_of_le hhigh
  · show w.l.inflight ++ [(f.sequence, f.size)] =
      ((tail ++ [f]).drop (w.l.applied.toNat - S)).map fun f => (f.sequence, f.size)
    rw [h.inflight, List.drop_append_of_le_length (by omega), List.map_append]
    rfl

/-- Draining numbered frames takes those up to the number. -/
theorem drain_numbered (seq : UInt64) {frames : List Frame} {n : Nat}
    (hn : Numbered.From Frame.number n frames) (hseq : n ≤ seq.toNat) (advanced : Bool)
    {inflight : List (UInt64 × Nat)} {unacked : Nat} {advanced' : Bool}
    (h : drain seq (frames.map fun f => (f.sequence, f.size)) unacked advanced =
      some (inflight, unacked', advanced')) :
    inflight = (frames.drop (seq.toNat - n)).map fun f => (f.sequence, f.size) := by
  induction frames generalizing n unacked advanced with
  | nil =>
    cases h
    rw [List.drop_nil]
    rfl
  | cons f frames ih =>
    have hf : f.sequence.toNat = n + 1 := hn.1
    rw [List.map_cons, drain] at h
    by_cases hle : f.sequence ≤ seq
    · rw [if_pos hle] at h
      split at h
      · cases h
      · rw [UInt64.le_iff_toNat_le] at hle
        rw [ih hn.2 (by omega) true h, show seq.toNat - n = seq.toNat - (n + 1) + 1 by omega,
          List.drop_succ_cons]
    · rw [if_neg hle] at h
      rw [UInt64.le_iff_toNat_le] at hle
      cases h
      rw [show seq.toNat - n = 0 by omega]
      rfl

theorem Settled.onMessage (h : Settled S tail w.l) (ha : Account S tail w.history w.l)
    (hn : Numbered.From Frame.number S tail) (id : Uuid) (m : Option StreamMessage) :
    Settled S tail (w.onMessage C id m).l := by
  cases m with
  | none => exact h
  | some m =>
    cases m with
    | ping => exact h
    | refreshAuth ticket =>
      simp only [StreamWorld.onMessage]
      split
      · split
        · exact h
        · exact h
      · exact h
    | applied sequence bytes =>
      simp only [StreamWorld.onMessage]
      split
      · exact h
      · next seq _ =>
        split
        · exact h
        · next hseq =>
          rw [not_or, UInt64.lt_iff_toNat_lt, UInt64.lt_iff_toNat_lt] at hseq
          have hlow := h.low
          have hhigh := h.high
          have hsent := ha.sent
          have hdrop := (Numbered.from_append S (tail.take (w.l.applied.toNat - S))
            (tail.drop (w.l.applied.toNat - S))).1 (by rwa [List.take_append_drop])
          rw [List.length_take, Nat.min_eq_left (by omega), Nat.add_sub_cancel' hlow] at hdrop
          split
          · next hnone =>
            obtain ⟨_, _, hd, _⟩ := drain_spec seq w.l.inflight false
            rw [← ha.unacked, hnone] at hd
            cases hd
          · next hsome =>
            rw [h.inflight] at hsome
            refine ⟨by simp only; omega, by simp only; omega, ?_⟩
            rw [drain_numbered seq hdrop.2 (by omega) false hsome, List.drop_drop]
            simp only
            rw [show w.l.applied.toNat - S + (seq.toNat - w.l.applied.toNat) = seq.toNat - S by
              omega]

theorem Settled.of_eq {l' : TerminalLoop} (h : Settled S tail l) (ha : l'.applied = l.applied)
    (hi : l'.inflight = l.inflight) : Settled S tail l' := by
  refine ⟨?_, ?_, ?_⟩
  · rw [ha]
    exact h.low
  · rw [ha]
    exact h.high
  · rw [ha, hi]
    exact h.inflight

theorem replay_settled (h : Settled S tail w.l) (next : TerminalPc) :
    Settled S tail (w.replay next).l := by
  rcases replay_cases w next with he | ⟨v, _, he⟩
  · rw [he]
    exact h
  · rw [he]
    exact h.of_eq rfl rfl

/-- A step of the loop. -/
theorem Step.settled (hs : Step C t w e w') (hsh : Shared S w) (h : Streaming S tail w)
    (hset : Settled S tail w.l) : Settled S (tail ++ e) w'.l := by
  obtain ⟨hinitial, hchunks, _⟩ := h.entered
  have hnone : Settled S (tail ++ []) w.l := by
    rw [List.append_nil]
    exact hset
  cases hs with
  | publish | lag | auth | tick | shutdown | sendFailed | gap | stop | wait => exact hnone
  | sendMeta hp => exact absurd hp hinitial
  | sendChunk chunk rest hp => exact absurd hp (hchunks _)
  | refuseChunk chunk rest hp => exact absurd hp (hchunks _)
  | sendEnd hp => exact absurd hp (hchunks _)
  | guard hp =>
    rcases guard_cases w with he | he
    · rw [he]
      exact hnone
    · rw [he]
      exact hnone
  | fill hp =>
    rcases fill_cases w with he | ⟨_, he⟩
    · rw [he]
      exact hnone
    · rw [he]
      exact replay_settled hnone .flow
  | send f rest hp hw hq hseq he => exact hset.delivered f rest
  | message m hp =>
    rw [List.append_nil] at hnone ⊢
    exact hset.onMessage h.account (h.account.numbered hsh.started hsh.numbered).1 t.id m
  | event r events hp hw hr =>
    rcases onEvent_cases { w with events } r with ⟨pc, _, he⟩ | he | ⟨f, _, _, _, he⟩
    · rw [he]
      exact hnone
    · rw [he]
      exact replay_settled (w := { w with events }) hnone .check
    · rw [he]
      exact hnone.of_eq rfl rfl
  | check hp =>
    rcases check_cases w with he | he
    · rw [he]
      exact hnone
    · rw [he]
      exact hnone

/-- Where the snapshot is finished, nothing is acknowledged yet. -/
theorem Step.finished {sent : List Frame} (hs : Step C t w e w') (h : Snapshotting t sent w)
    (hS : t.info.sequence.toNat = S) (hframes : sent ++ e = t.frames) : Settled S [] w'.l := by
  have hsilent (hempty : e = []) : False := by
    obtain ⟨rest, hne, hrest, _⟩ := h.part
    rw [hempty, List.append_nil] at hframes
    rw [hframes] at hrest
    exact hne (List.append_right_eq_self.1 hrest)
  cases hs with
  | sendMeta hp =>
    have hrest : sent ++ t.frames = t.frames := h.rest hp rfl
    rw [List.append_left_eq_self.1 hrest, List.nil_append, StreamStart.frames,
      List.cons.injEq] at hframes
    exact absurd hframes.2.symm (List.append_ne_nil_of_right_ne_nil _ (List.cons_ne_nil _ _))
  | sendChunk chunk rest hp =>
    have hrest : sent ++ t.chunkFrame chunk :: (rest.map t.chunkFrame ++ [t.endFrame]) = t.frames :=
      h.rest hp rfl
    rw [← hframes] at hrest
    have hsame := List.append_cancel_left hrest
    rw [List.cons.injEq] at hsame
    exact absurd hsame.2 (List.append_ne_nil_of_right_ne_nil _ (List.cons_ne_nil _ _))
  | sendEnd hp => exact settled_loop hS _
  | send f rest hp => exact (h.not_loop hp rfl TerminalPc.noConfusion).elim
  | _ => exact (hsilent rfl).elim

/-- What is not acknowledged, along a run. -/
theorem run_settled (hr : Run (Step C t) w es w') (hsh : Shared S w)
    (hS : t.info.sequence.toNat = S) (hp : w.pc = .initial) :
    Snapshotting t es w' ∨
      ∃ tail, es = t.frames ++ tail ∧ Streaming S tail w' ∧ Settled S tail w'.l := by
  induction hr with
  | nil =>
    refine .inl ⟨t.frames, List.cons_ne_nil _ _, rfl, .inl ?_⟩
    rw [hp]
    rfl
  | snoc hbefore hs ih =>
    have hsh' := (run_cases hbefore hsh hS hp).1
    rcases ih with hsnap | ⟨tail, htail, hstream, hset⟩
    · rcases hs.snapshotting hsnap hS with hsnap' | ⟨hframes, hstream⟩
      · exact .inl hsnap'
      · exact .inr ⟨[], by rw [hframes, List.append_nil], hstream, hs.finished hsnap hS hframes⟩
    · refine .inr ⟨tail ++ _, ?_, hs.streaming hsh' hstream, hs.settled hsh' hstream hset⟩
      rw [htail, List.append_assoc]

end StreamWorld

/-- A list is cut into few parts. -/
theorem length_toChunks {α : Type} {n : Nat} (hn : 0 < n) (l : List α) :
    (l.toChunks n).length * n ≤ l.length + n := by
  have hgo (n : Nat) (l : List α) (part : Array α) (parts : Array (List α)) :
      (List.toChunks.go n l part parts).length * n ≤
        parts.size * n + part.size + l.length + n := by
    induction l generalizing part parts with
    | nil =>
      simp only [List.toChunks.go, Array.toList_push, List.length_append, List.length_singleton,
        Array.length_toList, Nat.add_mul, Nat.one_mul, List.length_nil]
      omega
    | cons a l ih =>
      simp only [List.toChunks.go]
      split
      · next hfull =>
        have hsize : part.size = n := by simpa using hfull
        refine Nat.le_trans (ih _ _) ?_
        have hempty : (Array.mkEmpty n : Array α).size = 0 := rfl
        simp only [Array.size_push, hempty, Nat.add_mul, Nat.one_mul, List.length_cons]
        omega
      · refine Nat.le_trans (ih _ _) ?_
        simp only [Array.size_push, List.length_cons]
        omega
  cases l with
  | nil => simp [List.toChunks]
  | cons a l =>
    cases n with
    | zero => exact absurd hn (Nat.lt_irrefl 0)
    | succ n =>
      rw [List.toChunks]
      · refine Nat.le_trans (hgo (n + 1) l #[a] #[]) ?_
        simp only [List.size_toArray, List.length_nil, List.length_cons]
        omega
      · exact Nat.succ_ne_zero n

/-- What frames take on the wire. -/
def wireBytes (fs : List Frame) : Nat := (fs.map Frame.size).sum

theorem wireBytes_append (fs gs : List Frame) :
    wireBytes (fs ++ gs) = wireBytes fs + wireBytes gs := by
  rw [wireBytes, List.map_append, List.sum_append]
  rfl

namespace StreamStart

variable {rt : Runtime} {m : SessionInfo} {t : StreamStart}

theorem wireBytes_chunks (chunks : List (List UInt8)) :
    wireBytes (chunks.map t.chunkFrame) = chunks.flatten.length + chunks.length * HEADER_LEN := by
  induction chunks with
  | nil => rfl
  | cons chunk chunks ih =>
    have hcons : wireBytes ((chunk :: chunks).map t.chunkFrame) =
        chunk.length + HEADER_LEN + wireBytes (chunks.map t.chunkFrame) := rfl
    rw [hcons, ih, List.flatten_cons, List.length_append, List.length_cons, Nat.add_mul]
    omega

/-- A whole snapshot is not much longer than its data. -/
theorem Opens.wireBytes_le (h : t.Opens rt m) :
    wireBytes t.frames ≤ MAX_SNAPSHOT + 16384 + 131 * HEADER_LEN := by
  have hmeta : t.metaFrame.size ≤ 16384 + HEADER_LEN := by
    have hlen := h.described.compact_length
    rw [← h.json.writes h.described.plainTexts] at hlen
    exact Nat.add_le_add_right hlen _
  have hsnapshot : t.snapshot.length ≤ MAX_SNAPSHOT := by
    rw [← h.bytes]
    exact h.described.bytes
  have hcount : t.chunks.length * MAX_PAYLOAD ≤ t.snapshot.length + MAX_PAYLOAD :=
    length_toChunks (by decide) t.snapshot
  have hflat : t.chunks.flatten = t.snapshot := flatten_toChunks MAX_PAYLOAD t.snapshot
  have hsum : wireBytes t.frames =
      t.metaFrame.size + (wireBytes (t.chunks.map t.chunkFrame) + HEADER_LEN) := by
    rw [frames, show t.metaFrame :: (t.chunks.map t.chunkFrame ++ [t.endFrame]) =
      [t.metaFrame] ++ (t.chunks.map t.chunkFrame ++ [t.endFrame]) from rfl, wireBytes_append,
      wireBytes_append]
    rfl
  rw [hsum, wireBytes_chunks, hflat]
  simp only [MAX_PAYLOAD, MAX_SNAPSHOT, HEADER_LEN] at *
  omega

end StreamStart

namespace LinkWorld

variable {Term : Type} {E : Engine Term} {C : Crypto} {rt : Runtime} {m : SessionInfo}
  {t : StreamStart} {s₀ : StreamWorld} {es : List Frame} {w w' : LinkWorld Term}

theorem Carries.length {fs : List Frame} {parts : List (List UInt8)} (h : Carries fs parts) :
    (parts.map List.length).sum = wireBytes fs := by
  induction h with
  | nil => rfl
  | cons hf _ ih =>
    rw [List.map_cons, List.sum_cons, ih, (Frame.encode_eq_ok.1 hf).2, Frame.wire_length]
    rfl

section

variable {S : Nat} (hsh : s₀.Shared S) (hS : t.info.sequence.toNat = S) (hp : s₀.pc = .initial)
include hsh hS hp

/-- What the client has not taken is a part of the snapshot and of what is not acknowledged. -/
theorem Served.outstanding (h : Served E C m t s₀ es w) (ho : t.Opens rt m)
    (ha : Acknowledged S w) {taken late : List Frame} (hes : es = taken ++ late)
    (hguard : w.viewer.guard = m.stream.guard.feed rt (taken.map Frame.toClient)) :
    wireBytes late ≤ wireBytes t.frames + (WINDOW + (HEADER_LEN + MAX_PAYLOAD)) := by
  rcases StreamWorld.run_settled h.run hsh hS hp with hsnap | ⟨tail, htail, hstream, hset⟩
  · obtain ⟨rest, _, hrest, _⟩ := hsnap.part
    rw [← hrest, hes, wireBytes_append, wireBytes_append]
    omega
  · have hunacked := hstream.account.window
    rw [hstream.account.unacked, hset.inflight, List.map_map] at hunacked
    have hopen : wireBytes (tail.drop (w.server.l.applied.toNat - S)) <
        WINDOW + (HEADER_LEN + MAX_PAYLOAD) := hunacked
    by_cases hlive : w.viewer.guard.phase = .live
    · obtain ⟨rest, tail', hrest, hcontinued⟩ := h.continued hsh hS hp
      rw [hes, List.append_assoc] at hrest
      have hfeed := (ho.feed_prefix hrest hcontinued).2
      rw [← hguard] at hfeed
      obtain ⟨shown, hshown, hseq⟩ := hfeed hlive
      rw [hshown, htail, List.append_assoc] at hes
      have hsplit := List.append_cancel_left hes
      have hlow : w.server.l.applied.toNat - S ≤ shown.length := by
        rcases ha.applied with h | ⟨_, hle⟩
        · omega
        · omega
      rw [hsplit, List.drop_append_of_le_length hlow, wireBytes_append] at hopen
      omega
    · have happlied : w.server.l.applied.toNat = S := by
        rcases ha.applied with h | ⟨hl, _⟩
        · exact h
        · exact absurd hl hlive
      rw [happlied, Nat.sub_self, List.drop_zero] at hopen
      have hall : wireBytes es = wireBytes t.frames + wireBytes tail := by
        rw [htail, wireBytes_append]
      rw [hes, wireBytes_append] at hall
      omega

end

/-- A connection to a session, after what the session has published. -/
theorem linked_of_session {term : Term} {ringBytes now : Nat} {auth : Auth} {p : Principal}
    {log : List OutputEvent} {session : OutputWorld Term} {info : SnapshotMeta} {data : List UInt8}
    {json : SnapshotMeta → List UInt8} (hm : m.size.Valid)
    (hbefore : Run (OutputWorld.Step E) (.init (.new term m.size) ringBytes m) log session)
    (hlog : (published log).length < 2 ^ 64)
    (hsub : subscribeSnapshot E session.m session.o = .ok (info, data))
    (hjson : JsonText rt json info)
    (hr : Run (Step E C rt ⟨m.sessionId, info, data, json⟩)
      (start ⟨m.sessionId, info, data, json⟩ session ringBytes (published log) auth p now) es w) :
    ∃ s₀ S, StreamWorld.Shared S s₀ ∧ info.sequence.toNat = S ∧ s₀.pc = .initial ∧
      StreamStart.Opens rt m ⟨m.sessionId, info, data, json⟩ ∧
      Served E C m ⟨m.sessionId, info, data, json⟩ s₀ es w ∧ Received rt m es w ∧
      Acknowledged S w := by
  let t : StreamStart := ⟨m.sessionId, info, data, json⟩
  obtain ⟨ho, hseq⟩ := opens_of_session hm hbefore hsub hjson
  obtain ⟨hfollows, _⟩ := OutputWorld.run_recorded hbefore (OutputWorld.follows_init _ _ _)
  obtain ⟨hsized, hsame, hemitted⟩ := OutputWorld.run_sized hbefore ⟨hm, hm, trivial⟩
  rw [List.nil_append] at hfollows
  have hnumbered := hfollows.counted.numbered (by omega)
  have hsh := StreamWorld.shared_subscribed (t := t) ringBytes auth p now hnumbered
  have hS : t.info.sequence.toNat = (published log).length := by
    rw [show t.info.sequence = _ from hseq, UInt64.toNat_ofNat_of_lt' hlog]
  have hstream : session.m.stream = m.stream := by
    simp only [SessionInfo.stream, hsame.sessionId, hsame.generation, hsame.agentEpoch]
    rfl
  refine ⟨_, _, hsh, hS, rfl, ho, run_linked hsh hS rfl hr ho ⟨?_, ?_, ?_⟩⟩
  · exact ⟨.nil, ⟨log, _, hfollows, rfl⟩, hsized, hsame.sessionId, hsame.generation, hemitted⟩
  · refine ⟨⟨[], [], [], rfl, ?_, .nil, fun _ => .nil⟩, rfl, rfl⟩
    simp only [start, Viewer.new, hstream]
    rfl
  · exact ⟨⟨[], rfl, .nil, fun _ h => absurd h List.not_mem_nil⟩, .inl hS⟩

/-- Only the network closes the client's socket. -/
theorem Step.isOpen {e : List Frame} (hs : Step E C rt t w e w')
    (hroom : ∀ bytes wire, w.wire = bytes :: wire → w.viewer.isOpen = true →
      w.viewer.budget + bytes.length ≤ RENDER_BUDGET)
    (hturn : ∀ bytes queue, w.viewer.queue = bytes :: queue →
      ({ w.viewer with queue }.turn rt bytes).1.isOpen = w.viewer.isOpen) :
    w'.viewer.isOpen = w.viewer.isOpen ∨
      w' = { w with viewer := { w.viewer with isOpen := false } } := by
  cases hs with
  | session | agent | acknowledge => exact .inl rfl
  | receive bytes wire hq ho =>
    left
    simp only [Viewer.onMessage]
    rw [if_neg (Nat.not_lt.2 (hroom bytes wire hq ho))]
  | turn bytes queue hq => exact .inl (hturn bytes queue hq)
  | disconnect => exact .inr rfl

/-- Whatever the client has yet to receive and to render fits its budget: the window that the agent
keeps, with a whole snapshot, is below it. So the client never gives a connection up. -/
theorem render_budget_suffices {term : Term} {ringBytes now : Nat} {auth : Auth} {p : Principal}
    {log : List OutputEvent} {session : OutputWorld Term} {info : SnapshotMeta} {data : List UInt8}
    {json : SnapshotMeta → List UInt8} (hm : m.size.Valid)
    (hbefore : Run (OutputWorld.Step E) (.init (.new term m.size) ringBytes m) log session)
    (hlog : (published log).length < 2 ^ 64)
    (hsub : subscribeSnapshot E session.m session.o = .ok (info, data))
    (hjson : JsonText rt json info)
    (hr : Run (Step E C rt ⟨m.sessionId, info, data, json⟩)
      (start ⟨m.sessionId, info, data, json⟩ session ringBytes (published log) auth p now) es w) :
    (w.viewer.isOpen = true →
      w.viewer.budget + (w.wire.map List.length).sum ≤ RENDER_BUDGET) ∧
      ∀ e w', Step E C rt ⟨m.sessionId, info, data, json⟩ w e w' →
        w'.viewer.isOpen = w.viewer.isOpen ∨
          w' = { w with viewer := { w.viewer with isOpen := false } } := by
  obtain ⟨s₀, S, hsh, hS, hp, ho, hserved, hreceived, hacked⟩ :=
    linked_of_session hm hbefore hlog hsub hjson hr
  have hfits : w.viewer.isOpen = true →
      w.viewer.budget + (w.wire.map List.length).sum ≤ RENDER_BUDGET := by
    intro hopen
    obtain ⟨taken, queued, late, hes, hguard, hqueued, hlate⟩ := hreceived.frames
    have hbound := hserved.outstanding hsh hS hp ho hacked hes hguard
    have hsnapshot := ho.wireBytes_le
    rw [wireBytes_append] at hbound
    rw [hreceived.budget, hqueued.length, (hlate hopen).length]
    simp only [WINDOW, HEADER_LEN, MAX_PAYLOAD, MAX_SNAPSHOT, RENDER_BUDGET] at *
    omega
  refine ⟨hfits, fun e w' hs => hs.isOpen ?_ ?_⟩
  · intro bytes wire hq hopen
    have hsum := hfits hopen
    rw [hq, List.map_cons, List.sum_cons] at hsum
    omega
  · intro bytes queue hq
    obtain ⟨f, guard, budget, _, hturn, _⟩ := hreceived.turn hsh hS hp hserved ho hq
    rw [hturn]

/-- The client of a new session has room. -/
theorem render_budget_suffices_first :
    ∃ w : LinkWorld (List UInt8), w.viewer.guard.phase = .live ∧ (w.viewer.isOpen = true →
      w.viewer.budget + (w.wire.map List.length).sum ≤ RENDER_BUDGET) := by
  let C : Crypto := ⟨fun _ => [], fun _ => none, fun _ => false, fun _ => false, fun _ _ _ => false⟩
  let m := OutputWorld.shell
  let session : OutputWorld (List UInt8) := .init (.new [] m.size) 32768 m
  have hm : m.size.Valid := ⟨by decide, by decide⟩
  have hsub : subscribeSnapshot OutputWorld.echo session.m session.o = .ok (firstInfo, []) := rfl
  obtain ⟨ho, _⟩ := opens_of_session hm .nil hsub firstRuntime_json
  obtain ⟨w, es, bytes, hrun, _, hlive⟩ := run_empty OutputWorld.echo C session 32768 ho rfl rfl
    [] (.new ⟨∅, false⟩ "host" 0) ⟨.fill 3, [.terminalRead], fromSecs 60, 0⟩ 0
  have hfits := render_budget_suffices hm .nil (by decide) hsub firstRuntime_json hrun
  exact ⟨w, hlive, hfits.1⟩

end LinkWorld
end RemoteCodex
