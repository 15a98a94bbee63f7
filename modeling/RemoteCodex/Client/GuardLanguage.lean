import RemoteCodex.Client.StreamGuard

namespace RemoteCodex
set_option autoImplicit true
namespace Client

namespace Stream

/-- The guard in the middle of the snapshot `S`. -/
def reading (s : Stream) (S : Int) (m : SnapshotMeta) (received : Nat) : StreamGuard :=
  ⟨.snapshot, S, some m, received, s.sessionId, s.generation, s.agentEpoch⟩

/-- The guard after the frame numbered `S`, which follows the snapshot. -/
def living (s : Stream) (S : Int) (m : SnapshotMeta) (received : Nat) : StreamGuard :=
  ⟨.live, S, some m, received, s.sessionId, s.generation, s.agentEpoch⟩

variable {rt : Runtime} {s : Stream} {m : SnapshotMeta} {f : TerminalFrame} {g g' : StreamGuard}

/-- The checks of the description are the clauses of `Describes`. -/
theorem validateMeta_ok {v : Js.Value} (h : StreamGuard.validateMeta rt s.guard f v = .ok m) :
    Describes rt s f v m.bytes := by
  unfold StreamGuard.validateMeta at h
  split at h
  · cases h
  · split at h
    · next agentEpoch generation hepoch hgeneration =>
      split at h
      · cases h
      · next hsame =>
        rw [not_or, not_not, not_not] at hsame
        split at h
        · cases h
        · next sequence hsequence =>
          split at h
          · cases h
          · next hnumber =>
            rw [not_not] at hnumber
            split at h
            · next cols rows bytes fidelity warnings hcols hrows hbytes hfidelity hwarnings =>
              rw [Js.integerIn_eq_some] at hcols hrows hbytes
              cases h
              constructor
              · rw [hepoch, hsame.1]
                rfl
              · exact ⟨generation, hgeneration, hsame.2⟩
              · rw [hsequence, hnumber]
              · exact ⟨cols, hcols⟩
              · exact ⟨rows, hrows⟩
              · exact ⟨hbytes.1, hbytes.2.2⟩
              · exact ⟨fidelity, hfidelity⟩
              · exact ⟨warnings, hwarnings⟩
            · cases h
    · cases h

theorem validateMeta_of_describes {v : Js.Value} (h : Describes rt s f v n) :
    ∃ m, StreamGuard.validateMeta rt s.guard f v = .ok m ∧ m.bytes = n := by
  obtain ⟨generation, hgeneration, hsame⟩ := h.generation
  obtain ⟨cols, hcols⟩ := h.cols
  obtain ⟨rows, hrows⟩ := h.rows
  obtain ⟨fidelity, hfidelity⟩ := h.fidelity
  obtain ⟨warnings, hwarnings⟩ := h.warnings
  have hbytes : Js.integerIn 0 (4 * 1024 * 1024) (v.prop (Js.str "bytes")) = some n :=
    Js.integerIn_eq_some.2 ⟨h.bytes.1, Nat.zero_le _, h.bytes.2⟩
  rw [← Js.integerIn_eq_some] at hcols hrows
  have hepoch := h.agentEpoch
  cases v with
  | null => cases hepoch
  | bool | number | string | array => cases hepoch
  | object entries =>
    simp only [StreamGuard.validateMeta, hepoch, hgeneration]
    rw [if_neg (by rw [not_or, not_not, not_not]; exact ⟨rfl, hsame⟩)]
    simp only [h.sequence, ne_eq, not_true_eq_false, ↓reduceIte, hcols, hrows, hbytes, hfidelity,
      hwarnings]
    exact ⟨_, rfl, rfl⟩

end Stream

namespace StreamGuard

variable {rt : Runtime} {f : TerminalFrame} {g g' : StreamGuard}

theorem accept_eq_ok : g.accept rt f = (g', .ok ()) ↔ g.validate rt f = (g', .ok ()) := by
  unfold accept
  split
  · next h => rw [h]
  · next h =>
    rw [h]
    constructor
    · intro he
      cases he
    · intro he
      cases he

theorem accept_fst_of_error {e : GuardError} (h : (g.accept rt f).2 = .error e) :
    (g.accept rt f).1.phase = .failed := by
  unfold accept at h ⊢
  split at h
  · cases h
  · rfl

/-- A frame of a guard that has not failed goes to the check of its kind and phase. -/
theorem validate_eq_ok (hp : g.phase ≠ .failed) :
    g.validate rt f = (g', .ok ()) ↔
      (f.sessionId = g.sessionId ∧ f.generation.strictEq g.generation = true) ∧
        (if f.kind = Kind.SnapshotMeta then g.validateStart rt f
          else if g.phase = .snapshot then g.validateSnapshot f
          else g.validateLive f) = (g', .ok ()) := by
  unfold validate
  rw [if_neg hp]
  split
  · next h =>
    constructor
    · intro he
      cases he
    · rintro ⟨⟨hid, hgen⟩, _⟩
      rcases h with h | h
      · exact absurd hid h
      · exact absurd hgen h
  · next h =>
    rw [not_or, not_not, not_not] at h
    exact ⟨fun he => ⟨h, he⟩, And.right⟩

end StreamGuard

namespace Stream

variable {rt : Runtime} {s : Stream} {m : SnapshotMeta} {f : TerminalFrame} {g g' : StreamGuard}

/-- A new guard takes the start of a snapshot only. -/
theorem guard_accept (h : s.guard.accept rt f = (g', .ok ())) :
    s.Owns f ∧ ∃ m, Starts rt s f m.bytes ∧ g' = s.reading f.sequence m 0 := by
  rw [StreamGuard.accept_eq_ok, StreamGuard.validate_eq_ok Phase.noConfusion] at h
  obtain ⟨howns, h⟩ := h
  refine ⟨howns, ?_⟩
  split at h
  · next hkind =>
    unfold StreamGuard.validateStart at h
    split at h
    · cases h
    · next hshort =>
      rw [not_or, Nat.not_lt] at hshort
      split at h
      · cases h
      · next v hparse =>
        split at h
        · cases h
        · next m hmeta =>
          cases h
          exact ⟨m, ⟨hkind, hshort.2, v, hparse, validateMeta_ok hmeta⟩, rfl⟩
  · rw [if_neg Phase.noConfusion, StreamGuard.validateLive, if_pos (.inl Phase.noConfusion)] at h
    cases h

theorem guard_accept_start (howns : s.Owns f) (h : Starts rt s f n) :
    ∃ m, m.bytes = n ∧ s.guard.accept rt f = (s.reading f.sequence m 0, .ok ()) := by
  obtain ⟨hkind, hshort, v, hparse, hdesc⟩ := h
  obtain ⟨m, hm, hn⟩ := validateMeta_of_describes hdesc
  refine ⟨m, hn, ?_⟩
  rw [StreamGuard.accept_eq_ok, StreamGuard.validate_eq_ok Phase.noConfusion]
  refine ⟨howns, ?_⟩
  have hopen : ¬ (s.guard.phase ≠ .awaiting ∨ 16384 < f.payload.length) := by
    rw [not_or, not_not, Nat.not_lt]
    exact ⟨rfl, hshort⟩
  rw [if_pos hkind, StreamGuard.validateStart, if_neg hopen]
  simp only [hparse, hm]
  rfl

theorem validateSnapshot_reading {S : Int} {received : Nat} :
    (s.reading S m received).validateSnapshot f =
      if f.sequence ≠ S then (s.reading S m received, .error .snapshotSequence)
      else if f.kind = Kind.SnapshotChunk then
        if m.bytes < received + f.payload.length then
          (s.reading S m (received + f.payload.length), .error .snapshotTooLarge)
        else (s.reading S m (received + f.payload.length), .ok ())
      else if f.kind = Kind.SnapshotEnd ∧ f.payload.length = 0 ∧ some m.bytes = some received then
        (s.living S m received, .ok ())
      else (s.reading S m received, .error .incompleteSnapshot) := rfl

theorem validateSnapshot_eq_ok {S : Int} {received : Nat} :
    (s.reading S m received).validateSnapshot f = (g', .ok ()) ↔
      Chunk S f ∧ received + f.payload.length ≤ m.bytes ∧
          g' = s.reading S m (received + f.payload.length) ∨
        End S f ∧ received = m.bytes ∧ g' = s.living S m received := by
  rw [validateSnapshot_reading]
  constructor
  · intro h
    by_cases hS : f.sequence = S
    · rw [if_neg (not_not.2 hS)] at h
      split at h
      · next hk =>
        split at h
        · cases h
        · next hle =>
          cases h
          exact .inl ⟨⟨hk, hS⟩, Nat.le_of_not_lt hle, rfl⟩
      · split at h
        · next hend =>
          obtain ⟨hk, hnil, hall⟩ := hend
          cases h
          injection hall with hall
          exact .inr ⟨⟨hk, hS, List.length_eq_zero_iff.1 hnil⟩, hall.symm, rfl⟩
        · cases h
    · rw [if_pos hS] at h
      cases h
  · rintro (⟨⟨hk, hS⟩, hle, rfl⟩ | ⟨⟨hk, hS, hnil⟩, hall, rfl⟩)
    · rw [if_neg (not_not.2 hS), if_pos hk, if_neg (Nat.not_lt.2 hle)]
    · have hother : f.kind ≠ Kind.SnapshotChunk := by
        rw [hk]
        decide
      rw [if_neg (not_not.2 hS), if_neg hother, if_pos ⟨hk, by rw [hnil]; rfl, by rw [hall]⟩]

/-- Within a snapshot a guard takes a part that does not exceed the description, or the end when
all of it was received. -/
theorem reading_accept {S : Int} {received : Nat} :
    (s.reading S m received).accept rt f = (g', .ok ()) ↔
      s.Owns f ∧
        (Chunk S f ∧ received + f.payload.length ≤ m.bytes ∧
            g' = s.reading S m (received + f.payload.length) ∨
          End S f ∧ received = m.bytes ∧ g' = s.living S m received) := by
  have hphase : (s.reading S m received).phase = .snapshot := rfl
  rw [StreamGuard.accept_eq_ok, StreamGuard.validate_eq_ok Phase.noConfusion]
  refine and_congr Iff.rfl ?_
  rw [← validateSnapshot_eq_ok]
  by_cases hstart : f.kind = Kind.SnapshotMeta
  · rw [if_pos hstart, StreamGuard.validateStart, if_pos (.inl Phase.noConfusion),
      validateSnapshot_eq_ok]
    constructor
    · intro h
      cases h
    · rintro (⟨⟨hk, _⟩, _⟩ | ⟨⟨hk, _⟩, _⟩)
      · rw [hstart] at hk
        exact absurd hk (by decide)
      · rw [hstart] at hk
        exact absurd hk (by decide)
  · rw [if_neg hstart, if_pos hphase]

/-- The four bytes of a resize within the bounds. -/
theorem size_valid {payload : List UInt8} :
    (payload.length = 4 ∧ StreamGuard.invalidSize payload = false) ↔
      ∃ a b c d : UInt8, payload = [a, b, c, d] ∧
        2 ≤ 256 * a.toNat + b.toNat ∧ 256 * a.toNat + b.toNat ≤ 400 ∧
        1 ≤ 256 * c.toNat + d.toNat ∧ 256 * c.toNat + d.toNat ≤ 150 := by
  have hbytes (a b c d : UInt8) : StreamGuard.invalidSize [a, b, c, d] = false ↔
      2 ≤ 256 * a.toNat + b.toNat ∧ 256 * a.toNat + b.toNat ≤ 400 ∧
        1 ≤ 256 * c.toNat + d.toNat ∧ 256 * c.toNat + d.toNat ≤ 150 := by
    have hcols : getUint16 [a, b, c, d] 0 = 256 * a.toNat + b.toNat := rfl
    have hrows : getUint16 [a, b, c, d] 2 = 256 * c.toNat + d.toNat := rfl
    simp only [StreamGuard.invalidSize, hcols, hrows, Bool.or_eq_false_iff, decide_eq_false_iff_not]
    omega
  constructor
  · rintro ⟨hlen, hvalid⟩
    obtain ⟨a, b, c, d, rfl⟩ := List.length_eq_four.1 hlen
    exact ⟨a, b, c, d, rfl, (hbytes a b c d).1 hvalid⟩
  · rintro ⟨a, b, c, d, rfl, h⟩
    exact ⟨rfl, (hbytes a b c d).2 h⟩

/-- The frames that are not part of a snapshot. -/
theorem live_iff :
    Live f ↔ f.kind ∈ [Kind.Output, Kind.Resize, Kind.Exit] ∧
      ¬ (f.kind = Kind.Resize ∧ f.payload.length ≠ 4) ∧
        ¬ (f.kind = Kind.Resize ∧ StreamGuard.invalidSize f.payload = true) := by
  simp only [Live, ← size_valid, List.mem_cons, List.not_mem_nil, or_false]
  constructor
  · rintro (hk | hk | ⟨hk, hlen, hvalid⟩)
    · have hother : f.kind ≠ Kind.Resize := by
        rw [hk]
        decide
      exact ⟨.inl hk, fun h => hother h.1, fun h => hother h.1⟩
    · have hother : f.kind ≠ Kind.Resize := by
        rw [hk]
        decide
      exact ⟨.inr (.inr hk), fun h => hother h.1, fun h => hother h.1⟩
    · refine ⟨.inr (.inl hk), fun h => h.2 hlen, fun h => ?_⟩
      rw [hvalid] at h
      cases h.2
  · rintro ⟨hk | hk | hk, hlen, hvalid⟩
    · exact .inl hk
    · refine .inr (.inr ⟨hk, ?_, ?_⟩)
      · exact Classical.not_not.1 fun h => hlen ⟨hk, h⟩
      · exact Bool.eq_false_iff.2 fun h => hvalid ⟨hk, h⟩
    · exact .inr (.inl hk)

theorem validateLive_living {S : Int} {received : Nat} :
    (s.living S m received).validateLive f = (g', .ok ()) ↔
      (f.sequence = S + 1 ∧ Live f) ∧ g' = s.living (S + 1) m received := by
  have hstate : { s.living S m received with sequence := f.sequence } =
      s.living f.sequence m received := rfl
  have hseq : (s.living S m received).sequence = S := rfl
  rw [live_iff, StreamGuard.validateLive, hseq, hstate]
  constructor
  · intro h
    split at h
    · cases h
    · next hnext =>
      rw [not_or, not_or, not_not, not_not, not_not] at hnext
      obtain ⟨_, hkind, hnumber⟩ := hnext
      split at h
      · cases h
      · next hlen =>
        split at h
        · cases h
        · next hvalid =>
          cases h
          exact ⟨⟨hnumber, hkind, hlen, hvalid⟩, by rw [hnumber]⟩
  · rintro ⟨⟨hnumber, hkind, hlen, hvalid⟩, rfl⟩
    have hnext : ¬ ((s.living S m received).phase ≠ .live ∨
        f.kind ∉ [Kind.Output, Kind.Resize, Kind.Exit] ∨ f.sequence ≠ S + 1) := by
      rw [not_or, not_or, not_not, not_not, not_not]
      exact ⟨rfl, hkind, hnumber⟩
    rw [if_neg hnext, if_neg hlen, if_neg hvalid, hnumber]

/-- After a snapshot a guard takes the next frame of output, exit or size. -/
theorem living_accept {S : Int} {received : Nat} :
    (s.living S m received).accept rt f = (g', .ok ()) ↔
      s.Owns f ∧ (f.sequence = S + 1 ∧ Live f) ∧ g' = s.living (S + 1) m received := by
  have hphase : (s.living S m received).phase ≠ .snapshot := Phase.noConfusion
  rw [StreamGuard.accept_eq_ok, StreamGuard.validate_eq_ok Phase.noConfusion]
  refine and_congr Iff.rfl ?_
  by_cases hstart : f.kind = Kind.SnapshotMeta
  · rw [if_pos hstart, StreamGuard.validateStart, if_pos (.inl Phase.noConfusion)]
    constructor
    · intro h
      cases h
    · rintro ⟨⟨_, hlive⟩, _⟩
      have hkind := (live_iff.1 hlive).1
      rw [hstart] at hkind
      exact absurd hkind (by decide)
  · rw [if_neg hstart, if_neg hphase, validateLive_living]

/-- A first frame that is accepted, and the rest. -/
theorem accepts_cons {frames : List TerminalFrame} :
    g.Accepts rt (f :: frames) ↔ ∃ g', g.accept rt f = (g', .ok ()) ∧ g'.Accepts rt frames := by
  constructor
  · rintro ⟨hok, hrest⟩
    exact ⟨_, Prod.ext rfl hok, hrest⟩
  · rintro ⟨g', hg, hrest⟩
    refine ⟨by rw [hg], ?_⟩
    rw [hg]
    exact hrest

theorem tail_cons {S : Int} {frames : List TerminalFrame} :
    Tail S (f :: frames) ↔ (f.sequence = S + 1 ∧ Live f) ∧ Tail (S + 1) frames := by
  have hshift : (fun (i : Nat) (f : TerminalFrame) => f.sequence = S + (i + 1 : Nat) ∧ Live f) =
      fun (i : Nat) f => f.sequence = S + 1 + i ∧ Live f := by
    funext i f
    rw [Nat.cast_add, Nat.cast_one, Int.add_comm (i : Int) 1, Int.add_assoc]
  rw [Tail, Numbered.indexed_cons, Numbered.indexed_succ, hshift]
  exact Iff.rfl

/-- What is accepted after a snapshot. -/
theorem living_accepts {S : Int} {received : Nat} (frames : List TerminalFrame) :
    (s.living S m received).Accepts rt frames ↔ (∀ f ∈ frames, s.Owns f) ∧ Tail S frames := by
  induction frames generalizing S with
  | nil => exact iff_of_true trivial ⟨fun _ h => absurd h List.not_mem_nil, trivial⟩
  | cons f frames ih =>
    rw [accepts_cons, tail_cons, List.forall_mem_cons]
    constructor
    · rintro ⟨g', hg, hrest⟩
      obtain ⟨howns, hnext, rfl⟩ := living_accept.1 hg
      obtain ⟨hall, htail⟩ := ih.1 hrest
      exact ⟨⟨howns, hall⟩, hnext, htail⟩
    · rintro ⟨⟨howns, hall⟩, hnext, htail⟩
      exact ⟨_, living_accept.2 ⟨howns, hnext, rfl⟩, ih.2 ⟨hall, htail⟩⟩

/-- The rest of a snapshot of `n` bytes, and what follows it. -/
def Finishes (S : Int) (n : Nat) (frames : List TerminalFrame) : Prop :=
  ∃ chunks e tail, frames = chunks ++ e :: tail ∧ (∀ c ∈ chunks, Chunk S c) ∧ total chunks = n ∧
    End S e ∧ Tail S tail

/-- A part of the rest of a snapshot of `n` bytes. -/
def Continues (S : Int) (n : Nat) (frames : List TerminalFrame) : Prop :=
  (∀ c ∈ frames, Chunk S c) ∧ total frames ≤ n

theorem continues_cons {S : Int} {n : Nat} {frames : List TerminalFrame} :
    Continues S n (f :: frames) ↔
      Chunk S f ∧ f.payload.length ≤ n ∧ Continues S (n - f.payload.length) frames := by
  simp only [Continues, List.forall_mem_cons, total, List.map_cons, List.sum_cons]
  constructor
  · rintro ⟨⟨hf, hall⟩, hle⟩
    exact ⟨hf, by omega, hall, by omega⟩
  · rintro ⟨hf, hle, hall, hrest⟩
    exact ⟨⟨hf, hall⟩, by omega⟩

theorem finishes_cons {S : Int} {n : Nat} {frames : List TerminalFrame} :
    Finishes S n (f :: frames) ↔
      Chunk S f ∧ f.payload.length ≤ n ∧ Finishes S (n - f.payload.length) frames ∨
        End S f ∧ n = 0 ∧ Tail S frames := by
  constructor
  · rintro ⟨chunks, e, tail, heq, hchunks, htotal, hend, htail⟩
    cases chunks with
    | nil =>
      injection heq with hf hrest
      subst hf hrest
      exact .inr ⟨hend, htotal.symm, htail⟩
    | cons c chunks =>
      injection heq with hf hrest
      subst hf
      rw [List.forall_mem_cons] at hchunks
      simp only [total, List.map_cons, List.sum_cons] at htotal
      have hrest' : total chunks = n - f.payload.length := by
        rw [total]
        omega
      exact .inl ⟨hchunks.1, by omega, chunks, e, tail, hrest, hchunks.2, hrest', hend, htail⟩
  · rintro (⟨hf, hle, chunks, e, tail, rfl, hchunks, htotal, hend, htail⟩ | ⟨hend, hn, htail⟩)
    · refine ⟨f :: chunks, e, tail, rfl, List.forall_mem_cons.2 ⟨hf, hchunks⟩, ?_, hend, htail⟩
      simp only [total, List.map_cons, List.sum_cons] at htotal ⊢
      omega
    · exact ⟨[], f, frames, rfl, fun _ h => absurd h List.not_mem_nil, hn.symm, hend, htail⟩

/-- What is accepted within a snapshot. -/
theorem reading_accepts {S : Int} {received : Nat} (hr : received ≤ m.bytes)
    (frames : List TerminalFrame) :
    (s.reading S m received).Accepts rt frames ↔
      (∀ f ∈ frames, s.Owns f) ∧
        (Continues S (m.bytes - received) frames ∨ Finishes S (m.bytes - received) frames) := by
  induction frames generalizing received with
  | nil =>
    exact iff_of_true trivial ⟨fun _ h => absurd h List.not_mem_nil,
      .inl ⟨fun _ h => absurd h List.not_mem_nil, Nat.zero_le _⟩⟩
  | cons f frames ih =>
    rw [accepts_cons, continues_cons, finishes_cons, List.forall_mem_cons]
    constructor
    · rintro ⟨g', hg, hrest⟩
      obtain ⟨howns, ⟨hchunk, hle, rfl⟩ | ⟨hend, hall, rfl⟩⟩ := reading_accept.1 hg
      · obtain ⟨hmem, hcase⟩ := (ih hle).1 hrest
        rw [Nat.sub_add_eq] at hcase
        have hroom : f.payload.length ≤ m.bytes - received := by omega
        refine ⟨⟨howns, hmem⟩, ?_⟩
        rcases hcase with hc | hf
        · exact .inl ⟨hchunk, hroom, hc⟩
        · exact .inr (.inl ⟨hchunk, hroom, hf⟩)
      · obtain ⟨hmem, htail⟩ := (living_accepts frames).1 hrest
        exact ⟨⟨howns, hmem⟩, .inr (.inr ⟨hend, by omega, htail⟩)⟩
    · rintro ⟨⟨howns, hmem⟩, hcase⟩
      have hchunk (hc : Chunk S f) (hroom : f.payload.length ≤ m.bytes - received)
          (hrest : Continues S (m.bytes - received - f.payload.length) frames ∨
            Finishes S (m.bytes - received - f.payload.length) frames) :
          ∃ g', (s.reading S m received).accept rt f = (g', .ok ()) ∧ g'.Accepts rt frames := by
        have hle : received + f.payload.length ≤ m.bytes := by omega
        rw [← Nat.sub_add_eq] at hrest
        exact ⟨_, reading_accept.2 ⟨howns, .inl ⟨hc, hle, rfl⟩⟩, (ih hle).2 ⟨hmem, hrest⟩⟩
      rcases hcase with ⟨hc, hroom, hrest⟩ | ⟨hc, hroom, hrest⟩ | ⟨hend, hn, htail⟩
      · exact hchunk hc hroom (.inl hrest)
      · exact hchunk hc hroom (.inr hrest)
      · have hall : received = m.bytes := by omega
        exact ⟨_, reading_accept.2 ⟨howns, .inr ⟨hend, hall, rfl⟩⟩,
          (living_accepts frames).2 ⟨hmem, htail⟩⟩

/-- The guard accepts the frames of its stream in the order of the protocol. -/
theorem guard_accepts (frames : List TerminalFrame) :
    s.guard.Accepts rt frames ↔ (∀ f ∈ frames, s.Owns f) ∧ Conforms rt s frames := by
  cases frames with
  | nil => exact iff_of_true trivial ⟨fun _ h => absurd h List.not_mem_nil, .nothing⟩
  | cons f frames =>
    rw [accepts_cons, List.forall_mem_cons]
    constructor
    · rintro ⟨g', hg, hrest⟩
      obtain ⟨howns, m, hstart, rfl⟩ := guard_accept hg
      obtain ⟨hmem, hcase⟩ := (reading_accepts (Nat.zero_le _) frames).1 hrest
      refine ⟨⟨howns, hmem⟩, ?_⟩
      rcases hcase with ⟨hchunks, hle⟩ | ⟨chunks, e, tail, rfl, hchunks, htotal, hend, htail⟩
      · exact .part hstart hchunks hle
      · exact .whole ⟨hstart, hchunks, htotal, hend, htail⟩
    · rintro ⟨⟨howns, hmem⟩, hconf⟩
      cases hconf with
      | part hstart hchunks hle =>
        obtain ⟨m, rfl, hg⟩ := guard_accept_start howns hstart
        exact ⟨_, hg, (reading_accepts (Nat.zero_le _) _).2 ⟨hmem, .inl ⟨hchunks, hle⟩⟩⟩
      | whole h =>
        obtain ⟨hstart, hchunks, htotal, hend, htail⟩ := h
        obtain ⟨m, rfl, hg⟩ := guard_accept_start howns hstart
        exact ⟨_, hg, (reading_accepts (Nat.zero_le _) _).2
          ⟨hmem, .inr ⟨_, _, _, rfl, hchunks, htotal, hend, htail⟩⟩⟩

end Stream

namespace StreamGuard

variable {rt : Runtime} {f : TerminalFrame} {g g' : StreamGuard}

/-- A guard that has failed refuses every frame. -/
theorem accept_failed (hp : g.phase = .failed) :
    g.accept rt f = ({ g with phase := .failed }, .error .streamAlreadyFailed) := by
  rw [accept, validate, if_pos hp]

theorem feed_failed (hp : g.phase = .failed) (frames : List TerminalFrame) :
    (g.feed rt frames).phase = .failed := by
  induction frames generalizing g with
  | nil => exact hp
  | cons f frames ih =>
    rw [feed, List.foldl_cons, accept_failed hp]
    exact ih rfl

/-- A guard that has not failed accepted everything. -/
theorem accepts_of_feed {frames : List TerminalFrame} (h : (g.feed rt frames).phase ≠ .failed) :
    g.Accepts rt frames := by
  induction frames generalizing g with
  | nil => trivial
  | cons f frames ih =>
    cases hf : (g.accept rt f).2 with
    | ok => exact ⟨hf, ih h⟩
    | error e => exact absurd (feed_failed (accept_fst_of_error hf) frames) h

end StreamGuard

namespace Stream

variable {rt : Runtime} {s : Stream} {m : SnapshotMeta}

/-- Live output is reached through the end of the snapshot. -/
theorem reading_live {S : Int} {received : Nat} (hr : received ≤ m.bytes)
    {frames : List TerminalFrame}
    (h : ((s.reading S m received).feed rt frames).phase = .live) :
    Finishes S (m.bytes - received) frames := by
  induction frames generalizing received with
  | nil => cases h
  | cons f frames ih =>
    have hlive : ((s.reading S m received).feed rt (f :: frames)).phase ≠ .failed := by
      rw [h]
      exact Phase.noConfusion
    obtain ⟨g', hg, hrest⟩ := accepts_cons.1 (StreamGuard.accepts_of_feed hlive)
    have hfeed : (g'.feed rt frames).phase = .live := by
      rw [StreamGuard.feed, List.foldl_cons, hg] at h
      exact h
    rw [finishes_cons]
    obtain ⟨_, ⟨hchunk, hle, rfl⟩ | ⟨hend, hall, rfl⟩⟩ := reading_accept.1 hg
    · have hf := ih hle hfeed
      rw [Nat.sub_add_eq] at hf
      exact .inl ⟨hchunk, by omega, hf⟩
    · exact .inr ⟨hend, by omega, ((living_accepts frames).1 hrest).2⟩

theorem guard_live {frames : List TerminalFrame} (h : (s.guard.feed rt frames).phase = .live) :
    Whole rt s frames := by
  cases frames with
  | nil => cases h
  | cons f frames =>
    have hlive : (s.guard.feed rt (f :: frames)).phase ≠ .failed := by
      rw [h]
      exact Phase.noConfusion
    obtain ⟨g', hg, _⟩ := accepts_cons.1 (StreamGuard.accepts_of_feed hlive)
    obtain ⟨_, m, hstart, rfl⟩ := guard_accept hg
    rw [StreamGuard.feed, List.foldl_cons, hg] at h
    obtain ⟨chunks, e, tail, rfl, hchunks, htotal, hend, htail⟩ :=
      reading_live (Nat.zero_le _) h
    exact ⟨hstart, hchunks, htotal, hend, htail⟩

/-- The guard accepts exactly the protocol, is live after whole snapshots only, and never accepts
a frame again once it refused one. -/
theorem stream_guard (rt : Runtime) (s : Stream) :
    (∀ frames, s.guard.Accepts rt frames ↔ (∀ f ∈ frames, s.Owns f) ∧ Conforms rt s frames) ∧
      (∀ frames, (s.guard.feed rt frames).phase = .live → Whole rt s frames) ∧
      ∀ frames later f, ¬ s.guard.Accepts rt frames →
        ((s.guard.feed rt (frames ++ later)).accept rt f).2 ≠ .ok () := by
  refine ⟨guard_accepts, fun _ => guard_live, ?_⟩
  intro frames later f hrefused
  have hfailed : (s.guard.feed rt frames).phase = .failed := by
    by_contra hp
    exact hrefused (StreamGuard.accepts_of_feed hp)
  have hlater : (s.guard.feed rt (frames ++ later)).phase = .failed := by
    rw [StreamGuard.feed, List.foldl_append]
    exact StreamGuard.feed_failed hfailed later
  rw [StreamGuard.accept_failed hlater]
  exact fun h => by cases h

/-- The description of a snapshot of one byte, as text. -/
def oneByteText : List UInt8 :=
  ("\x7b\"cols\":80,\"rows\":24,\"sequence\":\"4\",\"generation\":1,\"agent_epoch\":\"e\"," ++
    "\"fidelity\":\"test\",\"warnings\":[],\"bytes\":1\x7d").toList.map fun c =>
      UInt8.ofNat c.toNat

/-- The same, parsed. -/
def oneByte : Js.Value :=
  .object
    [(Js.str "cols", .number (.finite 80)), (Js.str "rows", .number (.finite 24)),
      (Js.str "sequence", .string (Js.str "4")), (Js.str "generation", .number (.finite 1)),
      (Js.str "agent_epoch", .string (Js.str "e")), (Js.str "fidelity", .string (Js.str "test")),
      (Js.str "warnings", .array []), (Js.str "bytes", .number (.finite 1))]

def oneByteRuntime : Runtime where
  parse payload := if payload = oneByteText then some oneByte else none
  toText _ := none

def home : Stream := ⟨Js.str "s", .finite 1, Js.str "e"⟩

def homeFrame (kind : Js.Number) (sequence : Int) (payload : List UInt8) : TerminalFrame :=
  ⟨kind, Js.str "s", .finite 1, sequence, payload⟩

/-- A snapshot of one byte, output, and a size. -/
def homeFrames : List TerminalFrame :=
  [homeFrame Kind.SnapshotMeta 4 oneByteText, homeFrame Kind.SnapshotChunk 4 [65],
    homeFrame Kind.SnapshotEnd 4 [], homeFrame Kind.Output 5 [66],
    homeFrame Kind.Resize 6 [0, 80, 0, 24]]

theorem stream_guard_home :
    home.guard.Accepts oneByteRuntime homeFrames ∧ Whole oneByteRuntime home homeFrames ∧
      ((home.guard.feed oneByteRuntime ([homeFrame Kind.Output 1 [66]] ++ homeFrames)).accept
        oneByteRuntime (homeFrame Kind.Output 7 [])).2 ≠ .ok () := by
  obtain ⟨haccepts, hlive, hfailed⟩ := stream_guard oneByteRuntime home
  have hwhole := hlive homeFrames (by decide +kernel)
  refine ⟨(haccepts homeFrames).2 ⟨?_, .whole hwhole⟩, hwhole, hfailed _ _ _ ?_⟩
  · intro f hf
    simp only [homeFrames, List.mem_cons, List.not_mem_nil, or_false] at hf
    rcases hf with rfl | rfl | rfl | rfl | rfl <;> exact ⟨rfl, rfl⟩
  · intro h
    exact absurd h.1 (by decide)

end Stream
end Client
end RemoteCodex
