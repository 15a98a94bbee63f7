import RemoteCodex.System.GuardFeed

namespace RemoteCodex
set_option autoImplicit true
open Client Trace

namespace StreamWorld

variable {C : Crypto} {t : StreamStart} {w : StreamWorld} {S : Nat} {tail : List Frame}

theorem publishAll_cons (w : StreamWorld) (f : Frame) (fs : List Frame) :
    w.publishAll (f :: fs) = (w.publish f).publishAll fs := rfl

theorem publishAll_history (w : StreamWorld) (fs : List Frame) :
    (w.publishAll fs).history = w.history ++ fs := by
  induction fs generalizing w with
  | nil => rw [List.append_nil]; rfl
  | cons f fs ih =>
    rw [publishAll_cons, ih, publish, List.append_assoc]
    rfl

theorem publishAll_l (w : StreamWorld) (fs : List Frame) : (w.publishAll fs).l = w.l := by
  induction fs generalizing w with
  | nil => rfl
  | cons f fs ih => rw [publishAll_cons, ih, publish]

/-- Publishing the next frames is a run. -/
theorem publishAll_run {fs : List Frame} (h : Numbered.From Frame.number w.history.length fs) :
    Run (Step C t) w [] (w.publishAll fs) := by
  induction fs generalizing w with
  | nil => exact .nil
  | cons f fs ih =>
    have hrest : Numbered.From Frame.number (w.publish f).history.length fs := by
      rw [publish, List.length_append]
      exact h.2
    exact (Run.single (Step.publish w f h.1)).trans (ih hrest)

/-- An acknowledgement between what was acknowledged and what was sent is counted. -/
theorem Streaming.acknowledge (h : Streaming S tail w) {n : Nat} (id : Uuid) (bytes : UInt32)
    (ha : w.l.applied.toNat ≤ n) (hs : n ≤ w.l.sent.toNat) :
    ∃ inflight unacked deadline,
      w.onMessage C id (some (.applied (toString n) bytes)) =
        { w with
          l := { w.l with applied := UInt64.ofNat n, inflight, unacked, deadline }
          pc := .check } := by
  have h64 := w.l.sent.toNat_lt
  have hlt : n < 2 ^ 64 := by omega
  have hn : (UInt64.ofNat n).toNat = n := UInt64.toNat_ofNat_of_lt' hlt
  have htest : ¬ (UInt64.ofNat n < w.l.applied ∨ w.l.sent < UInt64.ofNat n) := by
    rw [UInt64.lt_iff_toNat_lt, UInt64.lt_iff_toNat_lt, hn]
    omega
  obtain ⟨inflight, advanced, hd, _⟩ := drain_spec (UInt64.ofNat n) w.l.inflight false
  rw [← h.account.unacked] at hd
  have hparse := parseU64_toString hlt
  refine ⟨inflight, (inflight.map Prod.snd).sum, if advanced then w.deadline else w.l.deadline, ?_⟩
  simp only [StreamWorld.onMessage, hparse]
  rw [if_neg htest, hd]

end StreamWorld
namespace LinkWorld

variable {Term : Type} {E : Engine Term} {C : Crypto} {rt : Runtime} {m : SessionInfo}
  {t : StreamStart} {s₀ : StreamWorld} {es : List Frame} {w w' : LinkWorld Term}

/-- A message of one frame. -/
abbrev Carries : List Frame → List (List UInt8) → Prop :=
  List.Forall₂ fun f bytes => f.encode = .ok bytes

/-- The client took the oldest of the frames sent; the next wait in its queue, and the rest is
under way as long as its socket is open. -/
structure Received (rt : Runtime) (m : SessionInfo) (es : List Frame) (w : LinkWorld Term) :
    Prop where
  frames : ∃ taken queued late, es = taken ++ (queued ++ late) ∧
    w.viewer.guard = m.stream.guard.feed rt (taken.map Frame.toClient) ∧
    Carries queued w.viewer.queue ∧ (w.viewer.isOpen = true → Carries late w.wire)
  budget : w.viewer.budget = (w.viewer.queue.map List.length).sum
  healthy : w.viewer.failed = false

/-- The acknowledgements under way grow from what the agent knows to what the client took. -/
structure Acknowledged (S : Nat) (w : LinkWorld Term) : Prop where
  acks : ∃ numbers : List (Nat × UInt32),
    w.acks = numbers.map (fun n => .applied (toString n.1) n.2) ∧
    numbers.Pairwise (fun a b => a.1 ≤ b.1) ∧
    ∀ n ∈ numbers, w.server.l.applied.toNat ≤ n.1 ∧ w.viewer.guard.phase = .live ∧
      (n.1 : Int) ≤ w.viewer.guard.sequence
  applied : w.server.l.applied.toNat = S ∨
    w.viewer.guard.phase = .live ∧ (w.server.l.applied.toNat : Int) ≤ w.viewer.guard.sequence

/-- The agent's side: a run of `terminal` over what the session publishes. -/
structure Served (E : Engine Term) (C : Crypto) (m : SessionInfo) (t : StreamStart)
    (s₀ : StreamWorld) (es : List Frame) (w : LinkWorld Term) : Prop where
  run : Run (StreamWorld.Step C t) s₀ es w.server
  recorded : ∃ log o₀, Follows E 0 o₀ log w.session.o ∧ published log = w.server.history
  sized : w.session.Sized
  sessionId : w.session.m.sessionId = m.sessionId
  generation : w.session.m.generation = m.generation
  emitted : ∀ f ∈ w.server.history, Emitted m f

theorem Step.served {e : List Frame} (hs : Step E C rt t w e w') (h : Served E C m t s₀ es w) :
    Served E C m t s₀ (es ++ e) w' := by
  cases hs with
  | session log' session hs hn =>
    obtain ⟨log, o₀, hfollows, hpub⟩ := h.recorded
    have hrec := hs.recorded hfollows
    have hall : published (log ++ log') = w.server.history ++ published log' := by
      rw [published_append, hpub]
    obtain ⟨hsized, hsame, hframes⟩ := hs.sized h.sized
    have hnumbered : Numbered.From Frame.number w.server.history.length (published log') := by
      have hcounted := hrec.follows.counted
      rw [hall] at hcounted
      have hfrom := hcounted.numbered (by rw [List.length_append]; omega)
      have hlast := ((Numbered.from_append 0 w.server.history (published log')).1 hfrom).2
      rwa [Nat.zero_add] at hlast
    constructor
    · exact h.run.trans (StreamWorld.publishAll_run hnumbered)
    · exact ⟨_, o₀, hrec.follows, by rw [hall, StreamWorld.publishAll_history]⟩
    · exact hsized
    · exact hsame.sessionId.trans h.sessionId
    · exact hsame.generation.trans h.generation
    · intro f hf
      rw [StreamWorld.publishAll_history] at hf
      rcases List.mem_append.1 hf with hf | hf
      · exact h.emitted f hf
      · have he := hframes f hf
        exact ⟨he.sessionId.trans h.sessionId, he.generation.trans h.generation, he.kind⟩
  | agent _ parts server hs hh ha hp =>
    refine ⟨h.run.snoc hs, ?_, h.sized, h.sessionId, h.generation, ?_⟩
    · rw [hh]
      exact h.recorded
    · rw [hh]
      exact h.emitted
  | acknowledge message acks hq hp =>
    have hshared : (w.server.onMessage C t.id (some message)).history = w.server.history := by
      rcases StreamWorld.onMessage_cases C t.id w.server (some message) with
        ⟨auth, p, pc, _, he⟩ | ⟨seq, he⟩
      · rw [he]
      · rw [he]
        split
        · rfl
        · rfl
    refine ⟨h.run.snoc (.message w.server (some message) hp), ?_, h.sized, h.sessionId,
      h.generation, ?_⟩
    · rw [hshared]
      exact h.recorded
    · rw [hshared]
      exact h.emitted
  | receive | turn | disconnect =>
    rw [List.append_nil]
    exact ⟨h.run, h.recorded, h.sized, h.sessionId, h.generation, h.emitted⟩

/-- The guard goes on, and what it reached is sent back. -/
theorem Acknowledged.turn {S : Nat} (ha : Acknowledged S w) {guard : StreamGuard} {f : Frame}
    {queue : List (List UInt8)} {budget n : Nat}
    (haccept : w.viewer.guard.accept rt f.toClient = (guard, .ok ()))
    (hn : guard.phase = .live → guard.sequence = n ∧ S ≤ n) :
    Acknowledged S
      { w with
        viewer := { w.viewer with guard, queue, budget }
        acks := w.acks ++
          if guard.phase = .live ∧ w.viewer.isOpen then [Viewer.applied guard f.toClient]
          else [] } := by
  have hstays : w.viewer.guard.phase = .live →
      guard.phase = .live ∧ w.viewer.guard.sequence ≤ guard.sequence := by
    intro hl
    obtain ⟨hlive, hseq⟩ := accept_live hl haccept
    exact ⟨hlive, by omega⟩
  obtain ⟨numbers, hacks, hsorted, hall⟩ := ha.acks
  have hold : ∀ n ∈ numbers, w.server.l.applied.toNat ≤ n.1 ∧ guard.phase = .live ∧
      (n.1 : Int) ≤ guard.sequence := by
    intro n hn
    obtain ⟨hlow, hl, hhigh⟩ := hall n hn
    obtain ⟨hlive, hle⟩ := hstays hl
    exact ⟨hlow, hlive, by omega⟩
  have happlied : w.server.l.applied.toNat = S ∨
      guard.phase = .live ∧ (w.server.l.applied.toNat : Int) ≤ guard.sequence := by
    rcases ha.applied with h | ⟨hl, hle⟩
    · exact .inl h
    · obtain ⟨hlive, hle'⟩ := hstays hl
      exact .inr ⟨hlive, by omega⟩
  split
  · next hsend =>
    obtain ⟨hlive, _⟩ := hsend
    obtain ⟨hseq, hSn⟩ := hn hlive
    have hlow : w.server.l.applied.toNat ≤ n := by
      rcases happlied with h | ⟨_, hle⟩
      · omega
      · omega
    have htext : Viewer.applied guard f.toClient =
        .applied (toString n) (UInt32.ofNat (f.payload.length + 40)) := by
      rw [Viewer.applied, hseq]
      rfl
    refine ⟨⟨numbers ++ [(n, UInt32.ofNat (f.payload.length + 40))], ?_, ?_, ?_⟩, happlied⟩
    · rw [hacks, htext, List.map_append]
      rfl
    · refine List.pairwise_append.2 ⟨hsorted, List.pairwise_singleton .., ?_⟩
      intro a ha b hb
      rw [List.mem_singleton.1 hb]
      have hle := (hold a ha).2.2
      simp only
      omega
    · intro a ha
      rcases List.mem_append.1 ha with ha | ha
      · exact hold a ha
      · rw [List.mem_singleton.1 ha]
        exact ⟨hlow, hlive, by rw [hseq]⟩
  · rw [List.append_nil]
    exact ⟨⟨numbers, hacks, hsorted, hold⟩, happlied⟩

section

variable {S : Nat} (hsh : s₀.Shared S) (hS : t.info.sequence.toNat = S) (hp : s₀.pc = .initial)
include hsh hS hp

/-- What was sent is a part of the snapshot and of what the session published after it. -/
theorem Served.continued (h : Served E C m t s₀ es w) :
    ∃ rest tail, es ++ rest = t.frames ++ tail ∧ t.Continued m tail := by
  obtain ⟨hshared, hcase⟩ := StreamWorld.run_cases h.run hsh hS hp
  rcases hcase with ⟨rest, _, hrest, _⟩ | ⟨tail, htail, hstream⟩
  · refine ⟨rest, [], ?_, trivial, fun _ hf => absurd hf List.not_mem_nil⟩
    rw [hrest, List.append_nil]
  · obtain ⟨hnum, _⟩ := hstream.account.numbered hshared.started hshared.numbered
    rw [← hS] at hnum
    refine ⟨[], tail, by rw [List.append_nil, htail], hnum, ?_⟩
    intro f hf
    have hprefix := hstream.account.queue.subset (List.mem_append_left _ hf)
    exact h.emitted f (List.mem_of_mem_drop hprefix)

/-- A live client took the whole snapshot, and the agent streams. -/
theorem Served.live (h : Served E C m t s₀ es w) (ho : t.Opens rt m) (hr : Received rt m es w)
    (hl : w.viewer.guard.phase = .live) :
    ∃ shown later, es = t.frames ++ (shown ++ later) ∧
      w.viewer.guard.sequence = S + shown.length ∧ w.server.Streaming S (shown ++ later) := by
  obtain ⟨rest, tail, hrest, hcontinued⟩ := h.continued hsh hS hp
  obtain ⟨taken, queued, late, hes, hguard, _⟩ := hr.frames
  rw [hes, List.append_assoc] at hrest
  obtain ⟨_, hlive⟩ := ho.feed_prefix hrest hcontinued
  rw [← hguard] at hlive
  obtain ⟨shown, hshown, hseq⟩ := hlive hl
  rw [hshown, List.append_assoc] at hes
  rw [hS] at hseq
  refine ⟨shown, queued ++ late, hes, hseq, ?_⟩
  obtain ⟨_, ⟨more, hne, hmore, _⟩ | ⟨tail', htail', hstream⟩⟩ :=
    StreamWorld.run_cases h.run hsh hS hp
  · rw [hes, List.append_assoc] at hmore
    have hnil := List.append_right_eq_self.1 hmore
    exact absurd (List.append_eq_nil_iff.1 hnil).2 hne
  · rw [hes] at htail'
    rw [List.append_cancel_left htail']
    exact hstream

/-- A turn of the queue: the guard takes one frame more. -/
theorem Received.turn (hr : Received rt m es w) (h : Served E C m t s₀ es w) (ho : t.Opens rt m)
    {bytes : List UInt8} {queue : List (List UInt8)} (hq : w.viewer.queue = bytes :: queue) :
    ∃ (f : Frame) (guard : StreamGuard) (budget : Nat),
      w.viewer.guard.accept rt f.toClient = (guard, .ok ()) ∧
        { w.viewer with queue }.turn rt bytes = ({ w.viewer with guard, queue, budget },
          if guard.phase = .live ∧ w.viewer.isOpen then [Viewer.applied guard f.toClient] else []) ∧
        ∀ acks,
          Received rt m es { w with viewer := { w.viewer with guard, queue, budget }, acks } := by
  obtain ⟨rest, tail, hrest, hcontinued⟩ := h.continued hsh hS hp
  obtain ⟨taken, queued, late, hes, hguard, hqueued, hlate⟩ := hr.frames
  rw [hq] at hqueued
  cases hqueued with
  | @cons f _ queued _ hf hqueued =>
    have hnext : (taken ++ [f]) ++ ((queued ++ late) ++ rest) = t.frames ++ tail := by
      rw [← hrest, hes]
      simp only [List.append_assoc, List.cons_append, List.nil_append]
    have hphase := (ho.feed_prefix hnext hcontinued).1
    have hfeed : m.stream.guard.feed rt ((taken ++ [f]).map Frame.toClient) =
        (w.viewer.guard.accept rt f.toClient).1 := by
      rw [List.map_append, feed_append, ← hguard]
      rfl
    rw [hfeed] at hphase
    have haccept := accept_of_phase hphase
    have hsum := hr.budget
    rw [hq, List.map_cons, List.sum_cons] at hsum
    have hbudget : bytes.length ≤ w.viewer.budget := by omega
    refine ⟨f, _, w.viewer.budget - bytes.length, haccept, ?_, ?_⟩
    · exact Viewer.turn_single (v := { w.viewer with queue }) hf hbudget haccept
    · intro acks
      refine ⟨⟨taken ++ [f], queued, late, ?_, hfeed.symm, hqueued, hlate⟩, ?_, hr.healthy⟩
      · rw [hes]
        simp only [List.append_assoc, List.cons_append, List.nil_append]
      · simp only
        omega

theorem Step.received {e : List Frame} (hs : Step E C rt t w e w') (h : Served E C m t s₀ es w)
    (ho : t.Opens rt m) (hr : Received rt m es w) : Received rt m (es ++ e) w' := by
  obtain ⟨taken, queued, late, hes, hguard, hqueued, hlate⟩ := hr.frames
  cases hs with
  | session =>
    rw [List.append_nil]
    exact ⟨hr.frames, hr.budget, hr.healthy⟩
  | acknowledge =>
    rw [List.append_nil]
    exact ⟨hr.frames, hr.budget, hr.healthy⟩
  | agent _ parts server _ _ _ hparts =>
    refine ⟨⟨taken, queued, late ++ e, ?_, hguard, hqueued, ?_⟩, hr.budget, hr.healthy⟩
    · rw [hes]
      simp only [List.append_assoc]
    · intro hopen
      exact List.rel_append (hlate hopen) hparts
  | receive bytes wire hq hopen =>
    rw [List.append_nil]
    have hwire := hlate hopen
    rw [hq] at hwire
    simp only [Viewer.onMessage]
    split
    · refine ⟨⟨taken, queued, late, hes, hguard, hqueued, ?_⟩, hr.budget, hr.healthy⟩
      intro hclosed
      cases hclosed
    · cases hwire with
      | @cons f _ late _ hf hlate =>
        refine ⟨⟨taken, queued ++ [f], late, ?_, hguard, ?_, fun _ => hlate⟩, ?_, hr.healthy⟩
        · rw [hes]
          simp only [List.append_assoc, List.cons_append, List.nil_append]
        · exact List.rel_append hqueued (.cons hf .nil)
        · have hsum := hr.budget
          simp only [List.map_append, List.sum_append, List.map_cons, List.map_nil, List.sum_cons,
            List.sum_nil]
          omega
  | turn bytes queue hq =>
    rw [List.append_nil]
    obtain ⟨f, guard, budget, _, hturn, hnext⟩ := hr.turn hsh hS hp h ho hq
    rw [hturn]
    exact hnext _
  | disconnect =>
    rw [List.append_nil]
    refine ⟨⟨taken, queued, late, hes, hguard, hqueued, ?_⟩, hr.budget, hr.healthy⟩
    intro hclosed
    cases hclosed

/-- The oldest acknowledgement is between what was acknowledged and what was sent, and the others
are not below it. -/
theorem Acknowledged.oldest (ha : Acknowledged S w) (h : Served E C m t s₀ es w)
    (ho : t.Opens rt m) (hr : Received rt m es w) {message : StreamMessage}
    {acks : List StreamMessage} (hq : w.acks = message :: acks) :
    ∃ (n : Nat) (bytes : UInt32) (numbers : List (Nat × UInt32)) (tail : List Frame),
      message = .applied (toString n) bytes ∧ w.server.l.applied.toNat ≤ n ∧
        n ≤ w.server.l.sent.toNat ∧ w.server.Streaming S tail ∧
        acks = numbers.map (fun n => .applied (toString n.1) n.2) ∧
        numbers.Pairwise (fun a b => a.1 ≤ b.1) ∧ w.viewer.guard.phase = .live ∧
        (n : Int) ≤ w.viewer.guard.sequence ∧
        ∀ k ∈ numbers, n ≤ k.1 ∧ (k.1 : Int) ≤ w.viewer.guard.sequence := by
  obtain ⟨numbers, hacks, hsorted, hall⟩ := ha.acks
  rw [hq] at hacks
  cases numbers with
  | nil => cases hacks
  | cons n numbers =>
    injection hacks with hmessage hrest
    obtain ⟨hlow, hlive, hhigh⟩ := hall n (List.mem_cons_self ..)
    obtain ⟨shown, later, _, hseq, hstream⟩ := h.live hsh hS hp ho hr hlive
    rw [List.pairwise_cons] at hsorted
    refine ⟨n.1, n.2, numbers, shown ++ later, hmessage, hlow, ?_, hstream, hrest, hsorted.2,
      hlive, hhigh, ?_⟩
    · have hsent := hstream.account.sent
      rw [List.length_append] at hsent
      omega
    · intro k hk
      exact ⟨hsorted.1 k hk, (hall k (List.mem_cons_of_mem _ hk)).2.2⟩

theorem Step.acknowledged {e : List Frame} (hs : Step E C rt t w e w')
    (h : Served E C m t s₀ es w) (ho : t.Opens rt m) (hr : Received rt m es w)
    (ha : Acknowledged S w) : Acknowledged S w' := by
  have hnext := hs.served h
  have hrnext := hs.received hsh hS hp h ho hr
  cases hs with
  | session log session =>
    have hl := StreamWorld.publishAll_l w.server (published log)
    constructor
    · rw [hl]
      exact ha.acks
    · rw [hl]
      exact ha.applied
  | agent _ parts server _ _ hl =>
    constructor
    · rw [hl]
      exact ha.acks
    · rw [hl]
      exact ha.applied
  | acknowledge message acks hq =>
    obtain ⟨n, bytes, numbers, tail, hmessage, hlow, hhigh, hstream, hacks, hsorted, hlive, hle,
      hall⟩ := ha.oldest hsh hS hp h ho hr hq
    obtain ⟨inflight, unacked, deadline, hserver⟩ :=
      hstream.acknowledge (C := C) t.id bytes hlow hhigh
    have h64 := w.server.l.sent.toNat_lt
    have hn : (UInt64.ofNat n).toNat = n := UInt64.toNat_ofNat_of_lt' (Nat.lt_of_le_of_lt hhigh h64)
    rw [hmessage, hserver]
    refine ⟨⟨numbers, hacks, hsorted, ?_⟩, .inr ⟨hlive, ?_⟩⟩
    · intro k hk
      obtain ⟨hlow', hhigh'⟩ := hall k hk
      exact ⟨by simp only [hn]; exact hlow', hlive, hhigh'⟩
    · simp only [hn]
      exact hle
  | receive bytes wire hq hopen =>
    simp only [Viewer.onMessage]
    split
    · exact ⟨ha.acks, ha.applied⟩
    · exact ⟨ha.acks, ha.applied⟩
  | turn bytes queue hq =>
    obtain ⟨f, guard, budget, haccept, hturn, _⟩ := hr.turn hsh hS hp h ho hq
    rw [hturn] at hnext hrnext ⊢
    have hreached : guard.phase = .live → ∃ n : Nat, guard.sequence = n ∧ S ≤ n := by
      intro hl
      obtain ⟨shown, later, _, hseq, _⟩ := hnext.live hsh hS hp ho hrnext hl
      exact ⟨S + shown.length, hseq, Nat.le_add_right ..⟩
    by_cases hl : guard.phase = .live
    · obtain ⟨n, hn⟩ := hreached hl
      exact ha.turn haccept fun _ => hn
    · exact ha.turn (n := 0) haccept fun h => absurd h hl
  | disconnect => exact ⟨ha.acks, ha.applied⟩

/-- The invariant of a connection, along a run. -/
theorem run_linked {w₀ : LinkWorld Term} {e : List Frame} (hr : Run (Step E C rt t) w₀ e w)
    (ho : t.Opens rt m) (h : Served E C m t s₀ [] w₀ ∧ Received rt m [] w₀ ∧ Acknowledged S w₀) :
    Served E C m t s₀ e w ∧ Received rt m e w ∧ Acknowledged S w := by
  induction hr with
  | nil => exact h
  | snoc _ hs ih =>
    obtain ⟨hserved, hreceived, hacked⟩ := ih
    exact ⟨hs.served hserved, hs.received hsh hS hp hserved ho hreceived,
      hs.acknowledged hsh hS hp hserved ho hreceived hacked⟩

end

/-- The snapshot of a session is announced as the client expects it. -/
theorem opens_of_session {term : Term} {ringBytes : Nat} {log : List OutputEvent}
    {session : OutputWorld Term} {info : SnapshotMeta} {data : List UInt8}
    {json : SnapshotMeta → List UInt8} (hm : m.size.Valid)
    (hbefore : Run (OutputWorld.Step E) (.init (.new term m.size) ringBytes m) log session)
    (hsub : subscribeSnapshot E session.m session.o = .ok (info, data))
    (hjson : JsonText rt json info) :
    StreamStart.Opens rt m ⟨m.sessionId, info, data, json⟩ ∧
      info.sequence = UInt64.ofNat (published log).length := by
  obtain ⟨⟨hseq, hmodel, _, _, _⟩, _⟩ :=
    OutputWorld.run_recorded hbefore (OutputWorld.follows_init _ _ _)
  obtain ⟨hsized, hsame, _⟩ := OutputWorld.run_sized hbefore ⟨hm, hm, trivial⟩
  obtain ⟨hinfo, hbytes⟩ := subscribeSnapshot_info hsub
  have hwarnings : session.o.model.warnings = [experimental] := by
    rw [hmodel, TerminalModel.replay_warnings]
    rfl
  rw [List.nil_append, Nat.zero_add] at hseq
  subst hinfo
  exact ⟨⟨rfl, hsame.generation, hsame.agentEpoch, ⟨hsized.model, rfl, hwarnings, hbytes⟩, rfl,
    hjson⟩, hseq⟩

/-- The guard of the client never fails, and the agent counts every acknowledgement. -/
theorem link_safe {term : Term} {ringBytes now : Nat} {auth : Auth} {p : Principal}
    {log : List OutputEvent} {session : OutputWorld Term} {info : SnapshotMeta} {data : List UInt8}
    {json : SnapshotMeta → List UInt8} (hm : m.size.Valid)
    (hbefore : Run (OutputWorld.Step E) (.init (.new term m.size) ringBytes m) log session)
    (hlog : (published log).length < 2 ^ 64)
    (hsub : subscribeSnapshot E session.m session.o = .ok (info, data))
    (hjson : JsonText rt json info)
    (hr : Run (Step E C rt ⟨m.sessionId, info, data, json⟩)
      (start ⟨m.sessionId, info, data, json⟩ session ringBytes (published log) auth p now) es w) :
    w.viewer.failed = false ∧ w.viewer.guard.phase ≠ .failed ∧
      ∀ message acks, w.acks = message :: acks →
        ∃ sequence bytes seq, message = .applied sequence bytes ∧ parseU64 sequence = some seq ∧
          w.server.l.applied ≤ seq ∧ seq ≤ w.server.l.sent ∧
          (w.server.onMessage C m.sessionId (some message)).pc = .check := by
  let t : StreamStart := ⟨m.sessionId, info, data, json⟩
  obtain ⟨ho, hseq⟩ := opens_of_session hm hbefore hsub hjson
  obtain ⟨hfollows, _⟩ := OutputWorld.run_recorded hbefore (OutputWorld.follows_init _ _ _)
  obtain ⟨hsized, hsame, hemitted⟩ := OutputWorld.run_sized hbefore ⟨hm, hm, trivial⟩
  rw [List.nil_append] at hfollows
  have hnumbered := hfollows.counted.numbered (by omega)
  have hsh := StreamWorld.shared_subscribed (t := t) ringBytes auth p now hnumbered
  have hS : t.info.sequence.toNat = (published log).length := by
    rw [show t.info.sequence = _ from hseq, UInt64.toNat_ofNat_of_lt' hlog]
  have hstream : session.m.stream = m.stream := by
    simp only [SessionInfo.stream, hsame.sessionId, hsame.generation, hsame.agentEpoch]
    rfl
  have hstart : Served E C m t (.subscribed t ringBytes (published log) auth p now) []
        (start t session ringBytes (published log) auth p now) ∧
      Received rt m [] (start t session ringBytes (published log) auth p now) ∧
      Acknowledged (published log).length
        (start t session ringBytes (published log) auth p now) := by
    refine ⟨⟨.nil, ⟨log, _, hfollows, rfl⟩, hsized, hsame.sessionId, hsame.generation, hemitted⟩,
      ⟨⟨[], [], [], rfl, ?_, .nil, fun _ => .nil⟩, rfl, rfl⟩,
      ⟨[], rfl, .nil, fun _ h => absurd h List.not_mem_nil⟩, .inl hS⟩
    simp only [start, Viewer.new, hstream]
    rfl
  obtain ⟨hserved, hreceived, hacked⟩ := run_linked hsh hS rfl hr ho hstart
  obtain ⟨rest, tail, hrest, hcontinued⟩ := hserved.continued hsh hS rfl
  obtain ⟨taken, queued, late, hes, hguard, _⟩ := hreceived.frames
  refine ⟨hreceived.healthy, ?_, ?_⟩
  · rw [hes, List.append_assoc] at hrest
    rw [hguard]
    exact (ho.feed_prefix hrest hcontinued).1
  · intro message acks hq
    obtain ⟨n, bytes, _, _, hmessage, hlow, hhigh, hstreaming, _⟩ :=
      hacked.oldest hsh hS rfl hserved ho hreceived hq
    have hlt : n < 2 ^ 64 := Nat.lt_of_le_of_lt hhigh w.server.l.sent.toNat_lt
    have hn : (UInt64.ofNat n).toNat = n := UInt64.toNat_ofNat_of_lt' hlt
    obtain ⟨inflight, unacked, deadline, hserver⟩ :=
      hstreaming.acknowledge (C := C) m.sessionId bytes hlow hhigh
    refine ⟨toString n, bytes, UInt64.ofNat n, hmessage, parseU64_toString hlt, ?_, ?_, ?_⟩
    · rw [UInt64.le_iff_toNat_le, hn]
      exact hlow
    · rw [UInt64.le_iff_toNat_le, hn]
      exact hhigh
    · rw [hmessage, hserver]

/-- A client with nothing to do receives a frame and takes it. -/
theorem run_delivered {f : Frame} {bytes : List UInt8} {wire : List (List UInt8)}
    {guard guard' : StreamGuard} (hq : w.wire = bytes :: wire)
    (hv : w.viewer = ⟨guard, [], 0, true, false⟩) (hf : f.encode = .ok bytes)
    (ha : guard.accept rt f.toClient = (guard', .ok ())) :
    Run (Step E C rt t) w []
      { w with
        wire
        viewer := ⟨guard', [], 0, true, false⟩
        acks := w.acks ++
          if guard'.phase = .live then [Viewer.applied guard' f.toClient] else [] } := by
  have hsize : bytes.length ≤ MAX_MESSAGE := by
    obtain ⟨he, hbytes⟩ := Frame.encode_eq_ok.1 hf
    rw [hbytes, Frame.wire_length]
    exact Frame.size_le he
  have hroom : ¬ RENDER_BUDGET < 0 + bytes.length := by
    simp only [MAX_MESSAGE] at hsize
    simp only [RENDER_BUDGET]
    omega
  have hreceive : w.viewer.onMessage bytes = ⟨guard, [bytes], 0 + bytes.length, true, false⟩ := by
    rw [hv, Viewer.onMessage, if_neg hroom]
    rfl
  have hturn := Viewer.turn_single (v := ⟨guard, [], 0 + bytes.length, true, false⟩) hf
    (Nat.le_of_eq (Nat.zero_add _).symm) ha
  have h₁ : Run (Step E C rt t) w _ _ := .single (.receive w bytes wire hq (by rw [hv]))
  rw [hreceive] at h₁
  have h₂ := h₁.trans (Run.single (Step.turn _ bytes [] rfl))
  simp only [hturn, and_true, Nat.add_sub_cancel] at h₂
  exact h₂

variable (E C) in
/-- A client takes an empty snapshot and acknowledges it. -/
theorem run_empty (session : OutputWorld Term) (ringBytes : Nat) (ho : t.Opens rt m)
    (hempty : t.snapshot = []) (hstream : session.m.stream = m.stream) (history : List Frame)
    (auth : Auth) (p : Principal) (now : Nat) :
    ∃ (w : LinkWorld Term) (es : List Frame) (bytes : UInt32),
      Run (Step E C rt t) (start t session ringBytes history auth p now) es w ∧
        w.acks = [.applied (toString (t.info.sequence.toNat : Int)) bytes] ∧
        w.viewer.guard.phase = .live := by
  have hmeta : (t.json t.info).length ≤ MAX_PAYLOAD := by
    have hlen := ho.described.compact_length
    rw [← ho.json.writes ho.described.plainTexts] at hlen
    exact Nat.le_trans hlen (by decide)
  have hencodes (kind : UInt8) (payload : List UInt8) (hl : payload.length ≤ MAX_PAYLOAD)
      (hk : 1 ≤ kind ∧ kind ≤ 6) : (t.frame kind payload).Encodes :=
    (Frame.encodes_iff _).2 ⟨hl, hk⟩
  obtain ⟨first, hfirst⟩ := hencodes Frame.SNAPSHOT_META _ hmeta (by decide)
  obtain ⟨last, hlast⟩ := hencodes Frame.SNAPSHOT_END [] (Nat.zero_le _) (by decide)
  have hchunks : t.chunks = [] := by
    rw [StreamStart.chunks, hempty]
    rfl
  obtain ⟨d, hd, haccept⟩ := Stream.guard_accept_start (ho.owns _ _) ho.starts
  have hkind := Frame.toClient_kind (f := t.endFrame) (k := Frame.SNAPSHOT_END) rfl
  rw [hempty, List.length_nil] at hd
  have hlive : (m.stream.reading t.info.sequence.toNat d 0).accept rt t.endFrame.toClient =
      (m.stream.living t.info.sequence.toNat d 0, .ok ()) :=
    Stream.reading_accept.2 ⟨ho.owns _ _, .inr ⟨⟨hkind.trans (by decide), rfl, rfl⟩, hd.symm, rfl⟩⟩
  have hv : (start t session ringBytes history auth p now).viewer =
      ⟨m.stream.guard, [], 0, true, false⟩ := by
    rw [start, Viewer.new, hstream]
  have hopen : Run (Step E C rt t) (start t session ringBytes history auth p now) _ _ :=
    .single (.agent _ _ [first] _ (.sendMeta _ rfl ⟨first, hfirst⟩) rfl rfl (.cons hfirst .nil))
  have hopened := hopen.trans (run_delivered rfl hv hfirst haccept)
  have hclose := hopened.trans (Run.single (Step.agent _ _ [last] _
    (.sendEnd _ (congrArg TerminalPc.chunks hchunks) ⟨last, hlast⟩) rfl rfl (.cons hlast .nil)))
  have hclosed := hclose.trans (run_delivered rfl rfl hlast hlive)
  exact ⟨_, _, _, hclosed, rfl, rfl⟩

/-- The snapshot of a new session. -/
def firstInfo : SnapshotMeta :=
  ⟨80, 24, 0, 1, .fill 2, "experimental_vt_snapshot", [experimental], 0⟩

def firstRuntime : Runtime where
  parse payload := if payload = firstInfo.compact then some firstInfo.toJs else none
  toText _ := none

theorem firstRuntime_json : JsonText firstRuntime SnapshotMeta.compact firstInfo :=
  ⟨fun _ => rfl, fun _ => by simp only [firstRuntime, ↓reduceIte]⟩

/-- The client acknowledges the snapshot of a new session. -/
theorem link_safe_first :
    ∃ (C : Crypto) (w : LinkWorld (List UInt8)) (bytes : UInt32) (acks : List StreamMessage),
      w.acks = .applied "0" bytes :: acks ∧ w.viewer.guard.phase = .live ∧
        w.viewer.failed = false ∧
        (w.server.onMessage C OutputWorld.shell.sessionId (some (.applied "0" bytes))).pc =
          .check := by
  let C : Crypto := ⟨fun _ => [], fun _ => none, fun _ => false, fun _ => false, fun _ _ _ => false⟩
  let m := OutputWorld.shell
  let session : OutputWorld (List UInt8) := .init (.new [] m.size) 32768 m
  have hm : m.size.Valid := ⟨by decide, by decide⟩
  have hsub : subscribeSnapshot OutputWorld.echo session.m session.o = .ok (firstInfo, []) := rfl
  obtain ⟨ho, _⟩ := opens_of_session hm .nil hsub firstRuntime_json
  obtain ⟨w, es, bytes, hrun, hacks, hlive⟩ := run_empty OutputWorld.echo C session 32768 ho rfl rfl
    [] (.new ⟨∅, false⟩ "host" 0) ⟨.fill 3, [.terminalRead], fromSecs 60, 0⟩ 0
  obtain ⟨hhealthy, _, hcheck⟩ :=
    link_safe hm .nil (by decide) hsub firstRuntime_json hrun
  obtain ⟨_, _, _, _, _, _, _, hpc⟩ := hcheck _ _ hacks
  have hzero : toString (firstInfo.sequence.toNat : Int) = "0" := by decide
  rw [hzero] at hacks hpc
  exact ⟨C, w, bytes, [], hacks, hlive, hhealthy, hpc⟩

end LinkWorld
end RemoteCodex
