import RemoteCodex.Lib.Numbered
import RemoteCodex.Lib.Window
import RemoteCodex.Core.Frame

namespace RemoteCodex
set_option autoImplicit true

structure EventRing where
  limit : Nat
  bytes : Nat
  events : List Frame

namespace EventRing

def new (limit : Nat) : EventRing := ⟨limit, 0, []⟩

/-- The loop that pops events from the front while they are too many or too large. -/
def evict (limit : Nat) : Nat → List Frame → Nat × List Frame
  | bytes, [] => (bytes, [])
  | bytes, old :: events =>
    if limit < bytes ∨ 4096 < (old :: events).length then
      evict limit (bytes - (old.payload.length + 40)) events
    else (bytes, old :: events)

def push (r : EventRing) (event : Frame) : EventRing :=
  let kept := evict r.limit (r.bytes + (event.payload.length + 40)) (r.events ++ [event])
  { r with bytes := kept.1, events := kept.2 }

/-- `u64::saturating_add(1)` -/
def saturatingSucc (seq : UInt64) : UInt64 := if seq = 0xFFFFFFFFFFFFFFFF then seq else seq + 1

def after (r : EventRing) (seq : UInt64) : Except ErrorCode (List Frame) :=
  if r.events.head?.any (fun f => decide (saturatingSucc seq < f.sequence)) then
    .error .resyncRequired
  else .ok (r.events.filter fun e => decide (seq < e.sequence))

/-- The bytes that events are accounted for. -/
def total (l : List Frame) : Nat := (l.map fun e => e.payload.length + 40).sum

/-- What a ring can hold. -/
def Fits (limit : Nat) (l : List Frame) : Prop := total l ≤ limit ∧ l.length ≤ 4096

instance (limit : Nat) : DecidablePred (Fits limit) :=
  fun l => inferInstanceAs (Decidable (total l ≤ limit ∧ l.length ≤ 4096))

@[simp] theorem total_nil : total [] = 0 := rfl

@[simp] theorem total_cons (e : Frame) (l : List Frame) :
    total (e :: l) = e.payload.length + 40 + total l := rfl

@[simp] theorem total_append (l m : List Frame) : total (l ++ m) = total l + total m := by
  simp only [total, List.map_append, List.sum_append]

theorem fits_nil (limit : Nat) : Fits limit [] := ⟨Nat.zero_le _, Nat.zero_le _⟩

variable {limit : Nat}

theorem Fits.init (h : Fits limit (l ++ [e])) : Fits limit l := by
  obtain ⟨htotal, hlength⟩ := h
  simp only [total_append, List.length_append] at htotal hlength
  exact ⟨by omega, by omega⟩

/-- The eviction keeps the longest suffix that fits, and counts its bytes. -/
theorem evict_eq (limit : Nat) (l : List Frame) :
    evict limit (total l) l = (total (Window.keep (Fits limit) l), Window.keep (Fits limit) l) := by
  induction l with
  | nil => rfl
  | cons e l ih =>
    have hrest : total (e :: l) - (e.payload.length + 40) = total l := by
      rw [total_cons]
      omega
    by_cases h : Fits limit (e :: l)
    · have hkeep : ¬ (limit < total (e :: l) ∨ 4096 < (e :: l).length) := by
        rw [not_or, Nat.not_lt, Nat.not_lt]
        exact h
      rw [evict, if_neg hkeep, Window.keep_eq_self h]
    · have hdrop : limit < total (e :: l) ∨ 4096 < (e :: l).length := by
        rcases Nat.lt_or_ge limit (total (e :: l)) with hlt | hle
        · exact .inl hlt
        · exact .inr (Nat.lt_of_not_le fun hlen => h ⟨hle, hlen⟩)
      rw [evict, if_pos hdrop, hrest, ih, Window.keep, if_neg h]

/-- Push a list of events, the first one first. -/
def pushAll (r : EventRing) (events : List Frame) : EventRing := events.foldl push r

/-- The ring after some pushes. -/
structure Holds (r : EventRing) (limit : Nat) (pushed : List Frame) : Prop where
  limit_eq : r.limit = limit
  events_eq : r.events = Window.keep (Fits limit) pushed
  bytes_eq : r.bytes = total r.events

theorem Holds.new (limit : Nat) : Holds (.new limit) limit [] := ⟨rfl, rfl, rfl⟩

theorem Holds.bytes_push (h : Holds r limit pushed) (e : Frame) :
    r.bytes + (e.payload.length + 40) = total (r.events ++ [e]) := by
  rw [h.bytes_eq, total_append, total_cons, total_nil, Nat.add_zero]

theorem Holds.push (h : Holds r limit pushed) (e : Frame) :
    Holds (r.push e) limit (pushed ++ [e]) := by
  have hev : evict r.limit (r.bytes + (e.payload.length + 40)) (r.events ++ [e]) =
      (total (Window.keep (Fits limit) (pushed ++ [e])),
        Window.keep (Fits limit) (pushed ++ [e])) := by
    rw [h.bytes_push, evict_eq, h.limit_eq, h.events_eq,
      Window.keep_keep_append (fits_nil limit) (fun _ _ hf => hf.init)]
  constructor
  · exact h.limit_eq
  · simp only [EventRing.push, hev]
  · simp only [EventRing.push, hev]

theorem Holds.pushAll (h : Holds r limit pushed) (events : List Frame) :
    Holds (r.pushAll events) limit (pushed ++ events) := by
  induction events generalizing r pushed with
  | nil =>
    rw [List.append_nil]
    exact h
  | cons e events ih =>
    have ht := ih (h.push e)
    rwa [List.append_assoc] at ht

/-- The eviction with its subtraction checked: nothing is left when the counter underflows. -/
def evictChecked (limit : Nat) : Nat → List Frame → Option (Nat × List Frame)
  | bytes, [] => some (bytes, [])
  | bytes, old :: events =>
    if limit < bytes ∨ 4096 < (old :: events).length then
      if bytes < old.payload.length + 40 then none
      else evictChecked limit (bytes - (old.payload.length + 40)) events
    else some (bytes, old :: events)

def pushChecked (r : EventRing) (event : Frame) : Option EventRing :=
  (evictChecked r.limit (r.bytes + (event.payload.length + 40)) (r.events ++ [event])).map
    fun kept => { r with bytes := kept.1, events := kept.2 }

/-- While the counter covers the events, the check never fails. -/
theorem evictChecked_eq (limit : Nat) {bytes : Nat} {l : List Frame} (h : total l ≤ bytes) :
    evictChecked limit bytes l = some (evict limit bytes l) := by
  induction l generalizing bytes with
  | nil => rfl
  | cons e l ih =>
    rw [total_cons] at h
    unfold evictChecked evict
    split
    · rw [if_neg (by omega)]
      exact ih (by omega)
    · rfl

theorem Holds.pushChecked (h : Holds r limit pushed) (e : Frame) :
    r.pushChecked e = some (r.push e) := by
  unfold EventRing.pushChecked
  rw [evictChecked_eq r.limit (Nat.le_of_eq (h.bytes_push e).symm)]
  rfl

theorem Holds.pushAllChecked (h : Holds r limit pushed) (events : List Frame) :
    events.foldlM EventRing.pushChecked r = some (r.pushAll events) := by
  induction events generalizing r pushed with
  | nil => rfl
  | cons e events ih =>
    rw [List.foldlM_cons, h.pushChecked e]
    exact ih (h.push e)

/-- A new ring after some pushes. -/
def filled (limit : Nat) (events : List Frame) : EventRing := (new limit).pushAll events

/-- After any pushes the ring holds the longest suffix that fits and counts its bytes, and the
counter has never been less than what was taken from it. -/
theorem holds_longest (limit : Nat) (events : List Frame) :
    ((filled limit events).events <:+ events ∧ total (filled limit events).events ≤ limit ∧
        (filled limit events).events.length ≤ 4096) ∧
      (∀ s, s <:+ events → total s ≤ limit → s.length ≤ 4096 →
        s.length ≤ (filled limit events).events.length) ∧
      (filled limit events).bytes = total (filled limit events).events ∧
      events.foldlM pushChecked (new limit) = some (filled limit events) := by
  have h : Holds (filled limit events) limit events := (Holds.new limit).pushAll events
  refine ⟨?_, ?_, h.bytes_eq, (Holds.new limit).pushAllChecked events⟩
  · rw [h.events_eq]
    exact ⟨Window.keep_suffix _ _, Window.keep_ok _ (fits_nil limit) events⟩
  · intro s hs htotal hlength
    rw [h.events_eq]
    exact (Window.suffix_keep hs ⟨htotal, hlength⟩).length_le

theorem saturatingSucc_lt (seq n : UInt64) :
    saturatingSucc seq < n ↔ seq.toNat + 1 < n.toNat := by
  have hn := n.toNat_lt
  unfold saturatingSucc
  split
  · next h =>
    subst h
    rw [UInt64.lt_iff_toNat_lt]
    have hmax : UInt64.toNat 0xFFFFFFFFFFFFFFFF = 18446744073709551615 := rfl
    omega
  · next h =>
    have hne : seq.toNat ≠ 18446744073709551615 := by
      intro he
      exact h (UInt64.toNat_inj.1 he)
    have hs := seq.toNat_lt
    rw [UInt64.lt_iff_toNat_lt, UInt64.toNat_add, UInt64.toNat_one, Nat.mod_eq_of_lt (by omega)]

/-- The events numbered above a sequence number. -/
def above (seq : UInt64) (l : List Frame) : List Frame :=
  l.filter fun e => decide (seq.toNat < e.number)

theorem after_eq (r : EventRing) (seq : UInt64) :
    r.after seq = if r.events.head?.any (fun f => decide (seq.toNat + 1 < f.number)) then
      .error .resyncRequired else .ok (above seq r.events) := by
  simp only [after, saturatingSucc_lt]
  simp only [above, Frame.number, UInt64.lt_iff_toNat_lt]
  rfl

/-- A ring that still holds an event answers with everything above a number, or not at all. -/
theorem after_suffix (r : EventRing) {events : List Frame} {n : Nat} {seq : UInt64}
    (hs : r.events <:+ events) (hne : r.events ≠ []) (hn : Numbered.From Frame.number n events) :
    r.after seq = .ok (above seq events) ∨ r.after seq = .error .resyncRequired := by
  rw [after_eq]
  split
  · exact .inr rfl
  · next h =>
    left
    obtain ⟨f, rest, hf⟩ := List.exists_cons_of_ne_nil hne
    have hfront := hn.suffix hs
    rw [hf] at h hfront
    simp only [List.head?_cons, Option.any_some, decide_eq_true_eq] at h
    have hnum := hfront.1
    have hreach : n + (events.length - r.events.length) ≤ seq.toNat := by
      rw [hf]
      omega
    exact congrArg Except.ok (hn.filter_gt_suffix hs hreach)

/-- What a ring replays is what comes next, or nothing. -/
theorem Holds.after_prefix (h : Holds r limit pushed) (hn : Numbered.From Frame.number 0 pushed)
    {seq : UInt64} {v : List Frame} (ha : r.after seq = .ok v) : v <+: pushed.drop seq.toNat := by
  by_cases hnil : r.events = []
  · rw [after_eq, hnil] at ha
    cases ha
    exact List.nil_prefix
  · have hs : r.events <:+ pushed := by
      rw [h.events_eq]
      exact Window.keep_suffix _ _
    rcases after_suffix r hs hnil hn with hok | herr
    · have hv : v = above seq pushed := by
        rw [ha] at hok
        injection hok
      have hdrop := hn.filter_gt (k := seq.toNat) (Nat.zero_le _)
      rw [hv, above, hdrop, Nat.sub_zero]
    · rw [ha] at herr
      cases herr

/-- An event that does not fit by itself leaves nothing in the ring. -/
theorem keep_oversized (h : limit < e.payload.length + 40) (l : List Frame) :
    Window.keep (Fits limit) (l ++ [e]) = [] := by
  have hok := Window.keep_ok (Fits limit) (fits_nil limit) (l ++ [e])
  rcases List.suffix_concat_iff.1 (Window.keep_suffix (Fits limit) (l ++ [e])) with hn | ⟨s, hs, _⟩
  · exact hn
  · have htotal := hok.1
    rw [hs, total_append, total_cons, total_nil] at htotal
    omega

/-- An event that fits by itself stays in the ring when it is pushed. -/
theorem keep_fitting (h : e.payload.length + 40 ≤ limit) (l : List Frame) :
    Window.keep (Fits limit) (l ++ [e]) ≠ [] := by
  have hone : Fits limit [e] := ⟨by simpa using h, by simp⟩
  intro hnil
  have hs := Window.suffix_keep (List.suffix_append l [e]) hone
  rw [hnil] at hs
  exact absurd (List.suffix_nil.1 hs) (List.cons_ne_nil e [])

/-- After an oversized event the ring has nothing to replay and does not say so. -/
theorem after_oversized (h : limit < e.payload.length + 40) (init : List Frame)
    (seq : UInt64) : ((new limit).pushAll (init ++ [e])).after seq = .ok [] := by
  have hempty : ((new limit).pushAll (init ++ [e])).events = [] := by
    rw [((Holds.new limit).pushAll (init ++ [e])).events_eq, List.nil_append]
    exact keep_oversized h init
  rw [after_eq, hempty]
  rfl

/-- Replay loses nothing silently exactly when the last event pushed fits into the ring by
itself, or nothing above the requested number was pushed. -/
theorem replay_complete_iff (limit n : Nat) (events : List Frame) (seq : UInt64)
    (hn : Numbered.From Frame.number n events) (hlo : n ≤ seq.toNat)
    (hhi : seq.toNat ≤ n + events.length) :
    (((new limit).pushAll events).after seq = .ok (above seq events) ∨
      ((new limit).pushAll events).after seq = .error .resyncRequired) ↔
    (seq.toNat = n + events.length ∨
      ∃ last, events.getLast? = some last ∧ last.payload.length + 40 ≤ limit) := by
  obtain ⟨_, hevents, _⟩ := (Holds.new limit).pushAll events
  rw [List.nil_append] at hevents
  rcases List.eq_nil_or_concat events with hnil | ⟨init, last, hlast⟩
  · subst hnil
    have hseq : seq.toNat = n := by
      simp only [List.length_nil] at hhi
      omega
    refine iff_of_true (.inl ?_) (.inl hseq)
    rfl
  · rw [List.concat_eq_append] at hlast
    have hget : events.getLast? = some last := by rw [hlast, List.getLast?_concat]
    have hnone (he : seq.toNat = n + events.length) : above seq events = [] := by
      apply List.filter_eq_nil_iff.2
      intro f hf
      have hm := (hn.mem hf).2
      simp only [decide_eq_true_eq]
      omega
    by_cases hfit : last.payload.length + 40 ≤ limit
    · refine iff_of_true ?_ (.inr ⟨last, hget, hfit⟩)
      apply after_suffix _ _ _ hn
      · rw [hevents]
        exact Window.keep_suffix _ _
      · rw [hevents, hlast]
        exact keep_fitting hfit init
    · have hafter : ((new limit).pushAll events).after seq = .ok [] := by
        rw [hlast]
        exact after_oversized (Nat.lt_of_not_le hfit) init seq
      rw [hafter]
      constructor
      · intro h
        left
        rcases h with h | h
        · injection h with h
          have hnum : last.number = n + events.length := by
            rw [hlast] at hn ⊢
            have htail := ((Numbered.from_append n init [last]).1 hn).2.1
            simpa only [List.length_append, List.length_singleton, Nat.add_assoc] using htail
          have hlow : ¬ seq.toNat < last.number := by
            intro hlt
            have hmem : last ∈ above seq events :=
              List.mem_filter.2 ⟨List.mem_of_getLast? hget, by simpa using hlt⟩
            rw [← h] at hmem
            cases hmem
          omega
        · cases h
      · intro h
        rcases h with h | ⟨last', hl, hf⟩
        · rw [hnone h]
          exact .inl rfl
        · rw [hget] at hl
          cases hl
          exact absurd hf hfit

/-- Two events that fit. -/
theorem replay_complete_iff_small :
    ((new 32768).pushAll [⟨1, .fill 0, 1, 1, [65]⟩, ⟨1, .fill 0, 1, 2, [66]⟩]).after 1 =
        .ok (above 1 [⟨1, .fill 0, 1, 1, [65]⟩, ⟨1, .fill 0, 1, 2, [66]⟩]) ∨
      ((new 32768).pushAll [⟨1, .fill 0, 1, 1, [65]⟩, ⟨1, .fill 0, 1, 2, [66]⟩]).after 1 =
        .error .resyncRequired :=
  (replay_complete_iff 32768 0 [⟨1, .fill 0, 1, 1, [65]⟩, ⟨1, .fill 0, 1, 2, [66]⟩] 1
    ⟨rfl, rfl, trivial⟩ (by decide) (by decide)).2 (.inr ⟨_, rfl, by decide⟩)

/-- The bound on `ring_bytes` in `Config::validate`. -/
def ringBytesAllowed (ringBytes : Nat) : Bool :=
  !(decide (ringBytes < 32768) || decide (8 * 1024 * 1024 < ringBytes))

/-- A full frame does not fit into the smallest ring that the configuration allows. -/
theorem replay_incomplete :
    ¬ ∀ (limit n : Nat) (events : List Frame) (seq : UInt64), ringBytesAllowed limit = true →
      Numbered.From Frame.number n events → (∀ e ∈ events, e.payload.length ≤ MAX_PAYLOAD) →
      n ≤ seq.toNat → seq.toNat ≤ n + events.length →
      ((new limit).pushAll events).after seq = .ok (above seq events) ∨
        ((new limit).pushAll events).after seq = .error .resyncRequired := by
  intro h
  have hlen : (List.replicate 32768 (0 : UInt8)).length = 32768 := List.length_replicate
  have hbad := h 32768 0 [⟨Frame.OUTPUT, .fill 0, 1, 1, List.replicate 32768 0⟩] 0 (by decide)
    ⟨rfl, trivial⟩ (by
      intro e he
      rw [List.mem_singleton.1 he]
      exact Nat.le_of_eq hlen) (by decide) (by decide)
  let event : Frame := ⟨Frame.OUTPUT, .fill 0, 1, 1, List.replicate 32768 0⟩
  have hlarge : 32768 < event.payload.length + 40 := by
    rw [hlen]
    decide
  have hafter := after_oversized hlarge [] 0
  rw [List.nil_append] at hafter
  rw [hafter] at hbad
  rcases hbad with hok | herr
  · injection hok with hok
    cases hok
  · cases herr

end EventRing
end RemoteCodex
