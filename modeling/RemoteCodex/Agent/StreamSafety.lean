import RemoteCodex.Agent.TerminalStream

namespace RemoteCodex
set_option autoImplicit true

/-- The places of the loop where nothing is known about its variables. -/
def TerminalPc.plain : TerminalPc → Bool
  | .top | .fill | .flow | .check | .closed => true
  | _ => false

theorem Receiver.Recv.suffix {events events' : Receiver} (h : events.Recv r events') :
    events'.queue <:+ events.queue := by
  cases h with
  | frame f queue => exact List.suffix_cons f queue
  | lagged queue => exact List.suffix_refl queue
  | closed => exact List.suffix_refl []

theorem Receiver.Recv.mem {events events' : Receiver} (h : events.Recv (.ok f) events') :
    f ∈ events.queue := by
  cases h with
  | frame f queue => exact List.mem_cons_self ..

namespace StreamWorld

/-- What `terminal` shares with the rest of the agent: the ring and the subscription carry the
frames of the history. -/
structure Shared (S : Nat) (w : StreamWorld) : Prop where
  started : S ≤ w.history.length
  numbered : Numbered.From Frame.number 0 w.history
  ring : ∃ limit, w.ring.Holds limit w.history
  events : w.events.queue <:+ w.history

/-- The account of the loop: the frames sent since the snapshot and the pending ones are the next
of the history, and what is not acknowledged is counted. -/
structure Account (S : Nat) (tail history : List Frame) (l : TerminalLoop) : Prop where
  sent : l.sent.toNat = S + tail.length
  queue : tail ++ l.pending <+: history.drop S
  inflight : l.inflight <:+ tail.map fun f => (f.sequence, f.size)
  unacked : l.unacked = (l.inflight.map Prod.snd).sum
  window : l.unacked < WINDOW + (HEADER_LEN + MAX_PAYLOAD)

/-- `select!` is reached without pending frames or with a full window. -/
def Waiting (w : StreamWorld) : Prop :=
  w.pc.plain = true ∨ w.pc = .select ∧ (w.l.pending = [] ∨ WINDOW ≤ w.l.unacked)

variable {S : Nat} {C : Crypto} {t : StreamStart} {w w' : StreamWorld} {history tail : List Frame}
  {l : TerminalLoop}

theorem Shared.publish (h : Shared S w) {f : Frame} (hn : f.number = w.history.length + 1) :
    Shared S (w.publish f) := by
  obtain ⟨limit, hring⟩ := h.ring
  constructor
  · have hs := h.started
    simp only [StreamWorld.publish, List.length_append]
    omega
  · apply (Numbered.from_append 0 w.history [f]).2
    have hnum : f.number = 0 + w.history.length + 1 := by rw [hn, Nat.zero_add]
    exact ⟨h.numbered, hnum, trivial⟩
  · exact ⟨limit, hring.push f⟩
  · obtain ⟨lost, hl⟩ := h.events
    refine ⟨lost, ?_⟩
    simp only [StreamWorld.publish, ← hl, List.append_assoc]

theorem Account.publish (h : Account S tail history l) (hs : S ≤ history.length) (f : Frame) :
    Account S tail (history ++ [f]) l := by
  refine ⟨h.sent, ?_, h.inflight, h.unacked, h.window⟩
  rw [List.drop_append_of_le_length hs]
  exact h.queue.trans (List.prefix_append _ _)

/-- The loop starts with nothing sent after the snapshot. -/
theorem account_loop (history : List Frame) {deadline : Nat} (hs : t.info.sequence.toNat = S) :
    Account S [] history (t.loop deadline) := by
  refine ⟨hs, List.nil_prefix, List.suffix_refl [], rfl, ?_⟩
  change 0 < WINDOW + (HEADER_LEN + MAX_PAYLOAD)
  decide

/-- Frames that come next in the history can be appended. -/
theorem Account.extend {v : List Frame} (h : Account S tail history l) (hp : l.pending = [])
    (hv : v <+: history.drop l.sent.toNat) :
    Account S tail history { l with pending := l.pending ++ v } := by
  refine ⟨h.sent, ?_, h.inflight, h.unacked, h.window⟩
  have hq := h.queue
  rw [hp, List.append_nil] at hq
  obtain ⟨rest, hr⟩ := hq
  have hrest : history.drop l.sent.toNat = rest := by
    rw [h.sent, ← List.drop_drop, ← hr, List.drop_left]
  rw [hrest] at hv
  rw [hp, List.nil_append, ← hr]
  exact (List.prefix_append_right_inj tail).2 hv

/-- The frames sent and pending carry consecutive numbers. -/
theorem Account.numbered (h : Account S tail history l) (hs : S ≤ history.length)
    (hn : Numbered.From Frame.number 0 history) :
    Numbered.From Frame.number S tail ∧ Numbered.From Frame.number l.sent.toNat l.pending := by
  have hdrop := hn.suffix (List.drop_suffix S history)
  have hlen : 0 + (history.length - (history.drop S).length) = S := by
    rw [List.length_drop]
    omega
  rw [hlen] at hdrop
  obtain ⟨rest, hr⟩ := h.queue
  rw [← hr] at hdrop
  have hboth := ((Numbered.from_append S (tail ++ l.pending) rest).1 hdrop).1
  rw [h.sent]
  exact (Numbered.from_append S tail l.pending).1 hboth

theorem Account.delivered (h : Account S tail w.history w.l) (hs : S ≤ w.history.length)
    (hn : Numbered.From Frame.number 0 w.history) (hw : w.l.unacked < WINDOW)
    (hq : w.l.pending = f :: rest) (he : f.Encodes) :
    Account S (tail ++ [f]) w.history (w.delivered f rest).l := by
  have hnum := (h.numbered hs hn).2
  rw [hq] at hnum
  have hlen := (f.encodes_iff.1 he).1
  constructor
  · have hf : f.sequence.toNat = w.l.sent.toNat + 1 := hnum.1
    rw [List.length_append, List.length_singleton, ← Nat.add_assoc, ← h.sent]
    exact hf
  · have hqueue := h.queue
    rw [hq] at hqueue
    simpa only [StreamWorld.delivered, List.append_assoc, List.singleton_append] using hqueue
  · obtain ⟨acked, ha⟩ := h.inflight
    refine ⟨acked, ?_⟩
    rw [List.map_append, ← ha, List.append_assoc]
    rfl
  · simp only [StreamWorld.delivered, List.map_append, List.sum_append, h.unacked]
    rfl
  · simp only [StreamWorld.delivered, Frame.size]
    omega

/-- Acknowledging never takes more than is counted. -/
theorem drain_spec (seq : UInt64) (inflight : List (UInt64 × Nat)) (advanced : Bool) :
    ∃ inflight' advanced',
      drain seq inflight (inflight.map Prod.snd).sum advanced =
        some (inflight', (inflight'.map Prod.snd).sum, advanced') ∧ inflight' <:+ inflight := by
  induction inflight generalizing advanced with
  | nil => exact ⟨[], advanced, rfl, List.suffix_refl []⟩
  | cons e inflight ih =>
    obtain ⟨s, n⟩ := e
    have hsum : (((s, n) :: inflight).map Prod.snd).sum = n + (inflight.map Prod.snd).sum := by
      rw [List.map_cons, List.sum_cons]
    by_cases hs : s ≤ seq
    · obtain ⟨inflight', advanced', hd, hsuf⟩ := ih true
      refine ⟨inflight', advanced', ?_, hsuf.trans (List.suffix_cons _ _)⟩
      rw [hsum, drain, if_pos hs, if_neg (by omega), Nat.add_sub_cancel_left, hd]
    · exact ⟨_, advanced, by rw [drain, if_neg hs], List.suffix_refl _⟩

theorem guard_cases (w : StreamWorld) : w.guard = w.close ∨ w.guard = { w with pc := .fill } := by
  unfold guard
  split
  · exact .inl rfl
  · split
    · exact .inl rfl
    · exact .inr rfl

theorem check_cases (w : StreamWorld) : w.check = w.close ∨ w.check = { w with pc := .top } := by
  unfold check
  split
  · exact .inl rfl
  · exact .inr rfl

theorem replay_cases (w : StreamWorld) (next : TerminalPc) :
    w.replay next = w.close ∨
      ∃ v, w.ring.after w.l.sent = .ok v ∧
        w.replay next = { w with l := { w.l with pending := w.l.pending ++ v }, pc := next } := by
  unfold replay
  split
  · next v hv => exact .inr ⟨v, hv, rfl⟩
  · exact .inl rfl

theorem fill_cases (w : StreamWorld) :
    w.fill = { w with pc := .flow } ∨ w.l.pending = [] ∧ w.fill = w.replay .flow := by
  unfold fill
  split
  · next hp => exact .inr ⟨hp, rfl⟩
  · exact .inl rfl

theorem onEvent_cases (w : StreamWorld) (r : Except RecvError Frame) :
    (∃ pc, pc.plain = true ∧ w.onEvent r = { w with pc }) ∨ w.onEvent r = w.replay .check ∨
      ∃ f, r = .ok f ∧ w.l.sent < f.sequence ∧ f.sequence = w.l.sent + 1 ∧
        w.onEvent r = { w with l := { w.l with pending := w.l.pending ++ [f] }, pc := .check } := by
  cases r with
  | error e =>
    cases e with
    | lagged => exact .inr (.inl rfl)
    | closed => exact .inl ⟨.closed, rfl, rfl⟩
  | ok f =>
    simp only [onEvent]
    by_cases hlt : w.l.sent < f.sequence
    · by_cases hnext : f.sequence = w.l.sent + 1
      · exact .inr (.inr ⟨f, rfl, hlt, hnext, by rw [if_pos hlt, if_pos hnext]⟩)
      · exact .inr (.inl (by rw [if_pos hlt, if_neg hnext]))
    · exact .inl ⟨.check, rfl, by rw [if_neg hlt]⟩

/-- A message ends the loop, changes the principal, or acknowledges frames. -/
theorem onMessage_cases (C : Crypto) (id : Uuid) (w : StreamWorld) (m : Option StreamMessage) :
    (∃ auth p pc, pc.plain = true ∧ w.onMessage C id m = { w with auth, p, pc }) ∨
      ∃ seq, w.onMessage C id m =
        match drain seq w.l.inflight w.l.unacked false with
        | none => { w with l := { w.l with applied := seq }, pc := .panicked }
        | some (inflight, unacked, advanced) =>
          let deadline := if advanced then w.deadline else w.l.deadline
          { w with
            l := { w.l with applied := seq, inflight, unacked, deadline }, pc := .check } := by
  cases m with
  | none => exact .inl ⟨w.auth, w.p, .closed, rfl, rfl⟩
  | some m =>
    cases m with
    | ping => exact .inl ⟨w.auth, w.p, .check, rfl, rfl⟩
    | refreshAuth ticket =>
      left
      simp only [onMessage]
      split
      · split
        · exact ⟨_, _, .check, rfl, rfl⟩
        · exact ⟨_, w.p, .closed, rfl, rfl⟩
      · exact ⟨_, w.p, .closed, rfl, rfl⟩
    | applied sequence bytes =>
      simp only [onMessage]
      split
      · exact .inl ⟨w.auth, w.p, .closed, rfl, rfl⟩
      · next seq _ =>
        split
        · exact .inl ⟨w.auth, w.p, .closed, rfl, rfl⟩
        · exact .inr ⟨seq, rfl⟩

theorem Shared.of_eq (h : Shared S w) (hh : w'.history = w.history) (hr : w'.ring = w.ring)
    (he : w'.events = w.events) : Shared S w' := by
  constructor
  · rw [hh]
    exact h.started
  · rw [hh]
    exact h.numbered
  · rw [hh, hr]
    exact h.ring
  · rw [hh, he]
    exact h.events

theorem Shared.replay (h : Shared S w) (next : TerminalPc) : Shared S (w.replay next) := by
  rcases replay_cases w next with he | ⟨v, _, he⟩
  · rw [he]
    exact h.of_eq rfl rfl rfl
  · rw [he]
    exact h.of_eq rfl rfl rfl

theorem Shared.onEvent (h : Shared S w) (r : Except RecvError Frame) : Shared S (w.onEvent r) := by
  rcases onEvent_cases w r with ⟨pc, _, he⟩ | he | ⟨f, _, _, _, he⟩
  · rw [he]
    exact h.of_eq rfl rfl rfl
  · rw [he]
    exact h.replay .check
  · rw [he]
    exact h.of_eq rfl rfl rfl

theorem Shared.onMessage (h : Shared S w) (id : Uuid) (m : Option StreamMessage) :
    Shared S (w.onMessage C id m) := by
  rcases onMessage_cases C id w m with ⟨auth, p, pc, _, he⟩ | ⟨seq, he⟩
  · rw [he]
    exact h.of_eq rfl rfl rfl
  · rw [he]
    split
    · exact h.of_eq rfl rfl rfl
    · exact h.of_eq rfl rfl rfl

theorem Step.shared (hs : Step C t w e w') (h : Shared S w) : Shared S w' := by
  cases hs with
  | publish f hn => exact h.publish hn
  | lag lost kept hq =>
    refine ⟨h.started, h.numbered, h.ring, ?_⟩
    have hkept : kept <:+ w.events.queue := by
      rw [hq]
      exact List.suffix_append lost kept
    exact hkept.trans h.events
  | event r events hp hw hr =>
    have hnext : Shared S { w with events } :=
      ⟨h.started, h.numbered, h.ring, hr.suffix.trans h.events⟩
    exact hnext.onEvent r
  | message m hp => exact h.onMessage t.id m
  | fill hp =>
    rcases fill_cases w with he | ⟨_, he⟩
    · rw [he]
      exact h.of_eq rfl rfl rfl
    · rw [he]
      exact h.replay .flow
  | guard hp =>
    rcases guard_cases w with he | he
    · rw [he]
      exact h.of_eq rfl rfl rfl
    · rw [he]
      exact h.of_eq rfl rfl rfl
  | check hp =>
    rcases check_cases w with he | he
    · rw [he]
      exact h.of_eq rfl rfl rfl
    · rw [he]
      exact h.of_eq rfl rfl rfl
  | auth | tick | shutdown | sendMeta | sendChunk | refuseChunk | sendEnd | sendFailed | send | gap
  | wait | stop => exact h.of_eq rfl rfl rfl

/-- What holds in the loop, after it sent `tail`. -/
structure Streaming (S : Nat) (tail : List Frame) (w : StreamWorld) : Prop where
  account : Account S tail w.history w.l
  waiting : w.Waiting

theorem Streaming.entered (h : Streaming S tail w) :
    w.pc ≠ .initial ∧ (∀ rest, w.pc ≠ .chunks rest) ∧ w.pc ≠ .panicked := by
  rcases h.waiting with hp | ⟨hp, _⟩
  · refine ⟨?_, ?_, ?_⟩
    · intro he
      rw [he] at hp
      cases hp
    · intro rest he
      rw [he] at hp
      cases hp
    · intro he
      rw [he] at hp
      cases hp
  · rw [hp]
    exact ⟨TerminalPc.noConfusion, fun _ => TerminalPc.noConfusion, TerminalPc.noConfusion⟩

/-- A replay into an empty queue. -/
theorem Streaming.replay (h : Streaming S tail w) (hsh : Shared S w) (hp : w.l.pending = [])
    {next : TerminalPc} (hn : next.plain = true) : Streaming S tail (w.replay next) := by
  obtain ⟨limit, hring⟩ := hsh.ring
  rcases replay_cases w next with he | ⟨v, hv, he⟩
  · rw [he]
    exact ⟨h.account, .inl rfl⟩
  · rw [he]
    exact ⟨h.account.extend hp (hring.after_prefix hsh.numbered hv), .inl hn⟩

theorem Streaming.onEvent (h : Streaming S tail w) (hsh : Shared S w) (hp : w.l.pending = [])
    {r : Except RecvError Frame} (hr : ∀ f, r = .ok f → f ∈ w.history) :
    Streaming S tail (w.onEvent r) := by
  rcases onEvent_cases w r with ⟨pc, hpc, he⟩ | he | ⟨f, hf, hlt, hnext, he⟩
  · rw [he]
    exact ⟨h.account, .inl hpc⟩
  · rw [he]
    exact h.replay hsh hp rfl
  · rw [he]
    have hnum : f.number = w.l.sent.toNat + 1 := by
      rw [hnext, UInt64.lt_iff_toNat_lt, UInt64.toNat_add] at hlt
      rw [Frame.number, hnext, UInt64.toNat_add]
      have h64 := w.l.sent.toNat_lt
      rw [UInt64.toNat_one] at hlt ⊢
      omega
    have hdrop := hsh.numbered.prefix_drop (hr f hf)
    rw [hnum, Nat.zero_add, Nat.add_sub_cancel] at hdrop
    exact ⟨h.account.extend hp hdrop, .inl rfl⟩

theorem Streaming.onMessage (h : Streaming S tail w) (id : Uuid) (m : Option StreamMessage) :
    Streaming S tail (w.onMessage C id m) := by
  rcases onMessage_cases C id w m with ⟨auth, p, pc, hpc, he⟩ | ⟨seq, he⟩
  · rw [he]
    exact ⟨h.account, .inl hpc⟩
  · obtain ⟨inflight, advanced, hd, hsuf⟩ := drain_spec seq w.l.inflight false
    have ha := h.account
    rw [he, ha.unacked, hd]
    refine ⟨⟨ha.sent, ha.queue, hsuf.trans ha.inflight, rfl, ?_⟩, .inl rfl⟩
    obtain ⟨acked, hacked⟩ := hsuf
    have hw := ha.window
    rw [ha.unacked, ← hacked, List.map_append, List.sum_append] at hw
    simp only
    omega

/-- A step of the loop sends the next frames of the history. -/
theorem Step.streaming (hs : Step C t w e w') (hsh : Shared S w) (h : Streaming S tail w) :
    Streaming S (tail ++ e) w' := by
  obtain ⟨hinitial, hchunks, _⟩ := h.entered
  have hnone : Streaming S (tail ++ []) w := by
    rw [List.append_nil]
    exact h
  cases hs with
  | publish f hn => exact ⟨hnone.account.publish hsh.started f, hnone.waiting⟩
  | lag | auth | tick | shutdown => exact ⟨hnone.account, hnone.waiting⟩
  | sendMeta hp => exact absurd hp hinitial
  | sendChunk chunk rest hp => exact absurd hp (hchunks _)
  | refuseChunk chunk rest hp => exact absurd hp (hchunks _)
  | sendEnd hp => exact absurd hp (hchunks _)
  | sendFailed | gap | stop => exact ⟨hnone.account, .inl rfl⟩
  | guard hp =>
    rcases guard_cases w with he | he
    · rw [he]
      exact ⟨hnone.account, .inl rfl⟩
    · rw [he]
      exact ⟨hnone.account, .inl rfl⟩
  | fill hp =>
    rcases fill_cases w with he | ⟨hpending, he⟩
    · rw [he]
      exact ⟨hnone.account, .inl rfl⟩
    · rw [he]
      exact hnone.replay hsh hpending rfl
  | send f rest hp hw hq hseq he =>
    exact ⟨h.account.delivered hsh.started hsh.numbered hw hq he, .inl rfl⟩
  | wait hp hw => exact ⟨hnone.account, .inr ⟨rfl, hw⟩⟩
  | message m hp => exact hnone.onMessage t.id m
  | event r events hp hw hr =>
    have hpending : w.l.pending = [] := by
      rcases h.waiting with hplain | ⟨_, hempty | hfull⟩
      · rw [hp] at hplain
        cases hplain
      · exact hempty
      · omega
    have hnext : Streaming S (tail ++ []) { w with events } := ⟨hnone.account, hnone.waiting⟩
    have hsh' : Shared S { w with events } :=
      ⟨hsh.started, hsh.numbered, hsh.ring, hr.suffix.trans hsh.events⟩
    refine hnext.onEvent hsh' hpending ?_
    intro f hf
    subst hf
    exact hsh.events.subset hr.mem
  | check hp =>
    rcases check_cases w with he | he
    · rw [he]
      exact ⟨hnone.account, .inl rfl⟩
    · rw [he]
      exact ⟨hnone.account, .inl rfl⟩

/-- The frames of the snapshot that are still to be sent. -/
def remaining (t : StreamStart) : TerminalPc → Option (List Frame)
  | .initial => some t.frames
  | .chunks rest => some (rest.map t.chunkFrame ++ [t.endFrame])
  | _ => none

/-- The snapshot is not finished. -/
structure Snapshotting (t : StreamStart) (sent : List Frame) (w : StreamWorld) : Prop where
  part : ∃ rest, rest ≠ [] ∧ sent ++ rest = t.frames ∧
    (remaining t w.pc = some rest ∨ w.pc = .closed)

theorem Snapshotting.close (h : Snapshotting t sent w) : Snapshotting t sent w.close := by
  obtain ⟨rest, hne, hrest, _⟩ := h.part
  exact ⟨rest, hne, hrest, .inr rfl⟩

/-- While the snapshot is sent the loop has not been entered. -/
theorem Snapshotting.not_loop {pc : TerminalPc} (h : Snapshotting t sent w) (hp : w.pc = pc)
    (hn : remaining t pc = none) (hc : pc ≠ .closed) : False := by
  obtain ⟨rest, _, _, hr | hr⟩ := h.part
  · rw [hp, hn] at hr
    cases hr
  · exact hc (hp.symm.trans hr)

theorem Snapshotting.rest {pc : TerminalPc} {rest : List Frame} (h : Snapshotting t sent w)
    (hp : w.pc = pc) (hr : remaining t pc = some rest) : sent ++ rest = t.frames := by
  obtain ⟨rest', _, hrest, hsome | hclosed⟩ := h.part
  · rw [hp, hr] at hsome
    cases hsome
    exact hrest
  · rw [hp] at hclosed
    rw [hclosed] at hr
    cases hr

/-- A step before the end of the snapshot sends the next of its frames. -/
theorem Step.snapshotting (hs : Step C t w e w') (h : Snapshotting t sent w)
    (hS : t.info.sequence.toNat = S) :
    Snapshotting t (sent ++ e) w' ∨ sent ++ e = t.frames ∧ Streaming S [] w' := by
  have hnone : Snapshotting t (sent ++ []) w := by
    rw [List.append_nil]
    exact h
  cases hs with
  | publish | lag | auth | tick | shutdown => exact .inl ⟨hnone.part⟩
  | sendMeta hp =>
    have hrest : sent ++ t.frames = t.frames := h.rest hp rfl
    left
    refine ⟨t.chunks.map t.chunkFrame ++ [t.endFrame], ?_, ?_, .inl rfl⟩
    · exact List.append_ne_nil_of_right_ne_nil _ (List.cons_ne_nil _ _)
    · rw [List.append_assoc]
      exact hrest
  | sendChunk chunk rest hp =>
    have hrest : sent ++ t.chunkFrame chunk :: (rest.map t.chunkFrame ++ [t.endFrame]) = t.frames :=
      h.rest hp rfl
    left
    refine ⟨rest.map t.chunkFrame ++ [t.endFrame], ?_, ?_, .inl rfl⟩
    · exact List.append_ne_nil_of_right_ne_nil _ (List.cons_ne_nil _ _)
    · rw [List.append_assoc]
      exact hrest
  | refuseChunk => exact .inl hnone.close
  | sendEnd hp => exact .inr ⟨h.rest hp rfl, account_loop _ hS, .inl rfl⟩
  | sendFailed => exact .inl hnone.close
  | guard hp => exact (h.not_loop hp rfl TerminalPc.noConfusion).elim
  | fill hp => exact (h.not_loop hp rfl TerminalPc.noConfusion).elim
  | send f rest hp => exact (h.not_loop hp rfl TerminalPc.noConfusion).elim
  | gap f rest hp => exact (h.not_loop hp rfl TerminalPc.noConfusion).elim
  | wait hp => exact (h.not_loop hp rfl TerminalPc.noConfusion).elim
  | stop hp => exact (h.not_loop hp rfl TerminalPc.noConfusion).elim
  | message m hp => exact (h.not_loop hp rfl TerminalPc.noConfusion).elim
  | event r events hp => exact (h.not_loop hp rfl TerminalPc.noConfusion).elim
  | check hp => exact (h.not_loop hp rfl TerminalPc.noConfusion).elim

/-- A numbered history is shorter than the counter is wide. -/
theorem history_length_lt (hn : Numbered.From Frame.number 0 history) :
    history.length < 2 ^ 64 := by
  rcases List.eq_nil_or_concat history with hnil | ⟨init, last, hlast⟩
  · rw [hnil]
    decide
  · rw [List.concat_eq_append] at hlast
    rw [hlast] at hn ⊢
    have hnum : last.sequence.toNat = 0 + init.length + 1 :=
      ((Numbered.from_append 0 init [last]).1 hn).2.1
    have h64 := last.sequence.toNat_lt
    rw [List.length_append, List.length_singleton]
    omega

theorem shared_subscribed (ringBytes : Nat) (auth : Auth) (p : Principal) (now : Nat)
    (hn : Numbered.From Frame.number 0 history) :
    Shared history.length (subscribed t ringBytes history auth p now) := by
  refine ⟨Nat.le_refl _, hn, ⟨ringBytes, ?_⟩, List.nil_suffix⟩
  have hring := (EventRing.Holds.new ringBytes).pushAll history
  rwa [List.nil_append] at hring

/-- The snapshot is sent first, and then what follows it in the history. -/
theorem run_cases (hr : Trace.Run (Step C t) w es w') (hsh : Shared S w)
    (hS : t.info.sequence.toNat = S) (hp : w.pc = .initial) :
    Shared S w' ∧
      (Snapshotting t es w' ∨ ∃ tail, es = t.frames ++ tail ∧ Streaming S tail w') := by
  induction hr with
  | nil =>
    refine ⟨hsh, .inl ⟨t.frames, List.cons_ne_nil _ _, rfl, .inl ?_⟩⟩
    rw [hp]
    rfl
  | snoc _ hs ih =>
    obtain ⟨hsh', hcase⟩ := ih
    refine ⟨hs.shared hsh', ?_⟩
    rcases hcase with hsnap | ⟨tail, htail, hstream⟩
    · rcases hs.snapshotting hsnap hS with hsnap' | ⟨hframes, hstream⟩
      · exact .inl hsnap'
      · exact .inr ⟨[], by rw [hframes, List.append_nil], hstream⟩
    · refine .inr ⟨tail ++ _, ?_, hs.streaming hsh' hstream⟩
      rw [htail, List.append_assoc]

/-- A viewer receives the snapshot and then every frame that follows it, in order; the queue
goes on where it stands, and the window bounds what is not acknowledged. -/
theorem terminal_stream {ringBytes now : Nat} {auth : Auth} {p : Principal} {es : List Frame}
    (hn : Numbered.From Frame.number 0 history)
    (hs : t.info.sequence = UInt64.ofNat history.length)
    (hr : Trace.Run (Step C t) (subscribed t ringBytes history auth p now) es w) :
    w.pc ≠ .panicked ∧ (es <+: t.frames ∨ t.frames <+: es) ∧
      ∀ tail, es = t.frames ++ tail →
        Numbered.From Frame.number t.info.sequence.toNat tail ∧
          tail <+: w.history.drop history.length ∧
          Numbered.From Frame.number w.l.sent.toNat w.l.pending ∧
          w.l.inflight <:+ tail.map (fun f => (f.sequence, f.size)) ∧
          w.l.unacked = (w.l.inflight.map Prod.snd).sum ∧
          w.l.unacked < WINDOW + (HEADER_LEN + MAX_PAYLOAD) := by
  have hS : t.info.sequence.toNat = history.length := by
    rw [hs, UInt64.toNat_ofNat', Nat.mod_eq_of_lt (history_length_lt hn)]
  obtain ⟨hsh, hcase⟩ := run_cases hr (shared_subscribed ringBytes auth p now hn) hS rfl
  rcases hcase with ⟨rest, hne, hrest, hpc⟩ | ⟨tail, htail, hstream⟩
  · refine ⟨?_, .inl ⟨rest, hrest⟩, ?_⟩
    · intro hp
      rw [hp] at hpc
      rcases hpc with h | h
      · cases h
      · cases h
    · intro tail htail
      rw [htail, List.append_assoc] at hrest
      have hnil := List.append_right_eq_self.1 hrest
      exact absurd (List.append_eq_nil_iff.1 hnil).2 hne
  · refine ⟨hstream.entered.2.2, .inr ⟨tail, htail.symm⟩, ?_⟩
    intro tail' htail'
    rw [htail] at htail'
    have he := List.append_cancel_left htail'
    subst he
    have ha := hstream.account
    obtain ⟨hnum, hpending⟩ := ha.numbered hsh.started hsh.numbered
    rw [hS]
    exact ⟨hnum, (List.prefix_append _ _).trans ha.queue, hpending, ha.inflight, ha.unacked,
      ha.window⟩

/-- An empty terminal that is 80 by 24. -/
def emptyStart : StreamStart where
  id := .fill 1
  info := ⟨80, 24, 0, 1, .fill 2, "experimental_vt_snapshot", [], 0⟩
  snapshot := []
  json _ :=
    ("\x7b\"cols\":80,\"rows\":24,\"sequence\":\"0\",\"generation\":1," ++
      "\"agent_epoch\":\"02020202-0202-0202-0202-020202020202\"," ++
      "\"fidelity\":\"experimental_vt_snapshot\",\"warnings\":[],\"bytes\":0\x7d").toList.map
      fun c => UInt8.ofNat c.toNat

def letter : Frame := ⟨Frame.OUTPUT, .fill 1, 1, 1, [65]⟩

/-- A viewer of an empty terminal is sent the first letter. -/
theorem terminal_stream_letter :
    ∃ (es : List Frame) (w : StreamWorld), es = emptyStart.frames ++ [letter] ∧
      w.pc ≠ .panicked ∧ Numbered.From Frame.number 0 [letter] ∧ w.l.unacked = 41 ∧
      w.l.unacked < WINDOW + (HEADER_LEN + MAX_PAYLOAD) := by
  let C : Crypto := ⟨fun _ => [], fun _ => none, fun _ => false, fun _ => false, fun _ _ _ => false⟩
  let auth := Auth.new ⟨∅, false⟩ "host" 0
  let p : Principal := ⟨.fill 3, [.terminalRead], fromSecs 60, 0⟩
  let w₀ := subscribed emptyStart 32768 [] auth p 0
  let w₁ : StreamWorld := { w₀ with pc := .chunks [] }
  have h₁ : Trace.Run (Step C emptyStart) w₀ [emptyStart.metaFrame] w₁ :=
    .single (.sendMeta w₀ rfl ((Frame.encodes_iff _).2 (by decide +kernel)))
  let w₂ : StreamWorld := { w₁ with pc := .top, l := emptyStart.loop w₁.deadline }
  have h₂ : Trace.Run (Step C emptyStart) w₁ [emptyStart.endFrame] w₂ :=
    .single (.sendEnd w₁ rfl ((Frame.encodes_iff _).2 (by decide)))
  let w₃ := w₂.publish letter
  have h₃ : Trace.Run (Step C emptyStart) w₂ [] w₃ := .single (.publish w₂ letter rfl)
  have h₄ : Trace.Run (Step C emptyStart) w₃ [] w₃.guard := .single (.guard w₃ rfl)
  have h₅ : Trace.Run (Step C emptyStart) w₃.guard [] w₃.guard.fill := .single (.fill _ rfl)
  have h₆ : Trace.Run (Step C emptyStart) w₃.guard.fill [letter]
      (w₃.guard.fill.delivered letter []) :=
    .single (.send _ letter [] rfl (by decide) rfl rfl ((Frame.encodes_iff _).2 (by decide)))
  have hrun := h₁.trans (h₂.trans (h₃.trans (h₄.trans (h₅.trans h₆))))
  obtain ⟨hpc, _, htail⟩ := terminal_stream (Numbered.from_nil 0) rfl hrun
  obtain ⟨hnum, _, _, _, _, hwindow⟩ := htail [letter] rfl
  exact ⟨_, _, rfl, hpc, hnum, rfl, hwindow⟩

end StreamWorld
end RemoteCodex
