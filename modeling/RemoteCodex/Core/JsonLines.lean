import RemoteCodex.Lib.Buffered

namespace RemoteCodex
set_option autoImplicit true
open Buffered

def MAX_SIGNAL : Nat := 96 * 1024

abbrev Bytes := List UInt8

def newline : UInt8 := 0x0a

/-- `serde_json::to_vec` and `serde_json::from_slice` for a type of messages. -/
structure Json (T : Type) where
  toVec : T → Except String Bytes
  fromSlice : Bytes → Except String T

/-- What is written is read back, also with the end of the line after it. -/
structure Json.Faithful (json : Json T) : Prop where
  inverse : json.toVec m = .ok b → json.fromSlice b = .ok m
  whitespace : json.fromSlice b = .ok m → json.fromSlice (b ++ [newline]) = .ok m

/-- `std::io::Error` -/
inductive IoError where
  | interrupted
  | invalidData (message : String)
  | other (message : String)
  deriving DecidableEq

abbrev Source := List (Delivery UInt8 IoError)

def interrupted (e : IoError) : Bool := e == .interrupted

/-- The line that a call takes from its reader. -/
def limitedLine (again : IoError → Bool) (r : Source) : Read UInt8 IoError :=
  readUntil again newline (MAX_SIGNAL + 1) r

def readJsonLine (json : Json T) (r : Source) : Except IoError (Option T) × Source :=
  let read := limitedLine interrupted r
  let n := read.line.length
  let result :=
    match read.failure with
    | some e => .error e
    | none =>
      if n = 0 then .ok none
      else if MAX_SIGNAL < n ∨ read.line.getLast? ≠ some newline then
        .error (.invalidData "Oversized/partial media frame")
      else
        match json.fromSlice read.line with
        | .ok m => .ok (some m)
        | .error e => .error (.invalidData e)
  (result, read.rest)

/-- The results of repeated calls. -/
def reads (json : Json T) : Nat → Source → List (Except IoError (Option T))
  | 0, _ => []
  | n + 1, r => (readJsonLine json r).1 :: reads json n (readJsonLine json r).2

/-- A line of at most `MAX_SIGNAL` bytes, with its end. -/
structure Line (l : Bytes) : Prop where
  size : l.length ≤ MAX_SIGNAL
  ended : ∃ b, newline ∉ b ∧ l = b ++ [newline]

/-- It begins with a line that is too long, or that is the last one and has no end. -/
structure Broken (s : Bytes) : Prop where
  nonempty : s ≠ []
  long : newline ∈ s → MAX_SIGNAL < (firstLine newline s).length

theorem limitedLine_length (again : IoError → Bool) (r : Source) :
    (limitedLine again r).line.length ≤ MAX_SIGNAL + 1 :=
  readUntil_length ..

theorem Line.accepted (h : Line l) :
    l.length ≠ 0 ∧ ¬ (MAX_SIGNAL < l.length ∨ l.getLast? ≠ some newline) := by
  obtain ⟨b, -, rfl⟩ := h.ended
  refine ⟨?_, ?_⟩
  · rw [List.length_append]
    exact Nat.succ_ne_zero _
  · rw [not_or, not_not, Nat.not_lt, List.getLast?_concat]
    exact ⟨h.size, rfl⟩

theorem Broken.refused (h : Broken s) :
    ((firstLine newline s).take (MAX_SIGNAL + 1)).length ≠ 0 ∧
      (MAX_SIGNAL < ((firstLine newline s).take (MAX_SIGNAL + 1)).length ∨
        ((firstLine newline s).take (MAX_SIGNAL + 1)).getLast? ≠ some newline) := by
  have hne : firstLine newline s ≠ [] := by
    cases s with
    | nil => exact absurd rfl h.nonempty
    | cons x s =>
      rw [firstLine]
      split <;> exact List.cons_ne_nil _ _
  refine ⟨fun hzero => ?_, ?_⟩
  · rw [List.length_take] at hzero
    have := List.length_pos_iff.2 hne
    omega
  · by_cases hlong : MAX_SIGNAL < (firstLine newline s).length
    · left
      rw [List.length_take]
      omega
    · right
      have hend : newline ∉ s := fun hmem => hlong (h.long hmem)
      rw [firstLine_unended hend] at hlong ⊢
      rw [List.take_of_length_le (Nat.le_succ_of_le (Nat.le_of_not_lt hlong))]
      exact fun hlast => hend (List.mem_of_getLast? hlast)

variable {again : IoError → Bool} {r : Source} {l s : Bytes}

theorem limitedLine_line (h : Steady again r) (hl : Line l) (hc : contents r = l ++ s) :
    (limitedLine again r).failure = none ∧ (limitedLine again r).line = l ∧
      contents (limitedLine again r).rest = s ∧ Steady again (limitedLine again r).rest := by
  obtain ⟨hline, hfail, hrest⟩ := h.readUntil (d := newline) (MAX_SIGNAL + 1)
  have htaken : (firstLine newline (contents r)).take (MAX_SIGNAL + 1) = l := by
    obtain ⟨b, hb, rfl⟩ := hl.ended
    rw [hc, List.append_assoc, List.singleton_append, firstLine_ended hb]
    exact List.take_of_length_le (Nat.le_succ_of_le hl.size)
  refine ⟨hfail, hline.trans htaken, ?_, hrest⟩
  rw [limitedLine, h.read_contents, htaken, hc, List.drop_left]

theorem limitedLine_end (h : Steady again r) (hc : contents r = []) :
    (limitedLine again r).failure = none ∧ (limitedLine again r).line = [] ∧
      contents (limitedLine again r).rest = [] ∧ Steady again (limitedLine again r).rest := by
  obtain ⟨hline, hfail, hrest⟩ := h.readUntil (d := newline) (MAX_SIGNAL + 1)
  refine ⟨hfail, ?_, ?_, hrest⟩
  · rw [limitedLine, hline, hc]
    rfl
  · rw [limitedLine, h.read_contents, hc, List.drop_nil]

theorem limitedLine_broken (h : Steady again r) (hb : Broken (contents r)) :
    (limitedLine again r).failure = none ∧ (limitedLine again r).line.length ≠ 0 ∧
      (MAX_SIGNAL < (limitedLine again r).line.length ∨
        (limitedLine again r).line.getLast? ≠ some newline) := by
  obtain ⟨hline, hfail, -⟩ := h.readUntil (d := newline) (MAX_SIGNAL + 1)
  rw [limitedLine, hline]
  exact ⟨hfail, hb.refused⟩

/-- Nothing, or bytes with a line end as the last one. -/
def Ended (p : Bytes) : Prop := p = [] ∨ p.getLast? = some newline

theorem Ended.right {p q : Bytes} (h : Ended (p ++ q)) : Ended q := by
  by_cases hq : q = []
  · exact .inl hq
  · right
    rcases h with h | h
    · exact absurd (List.append_eq_nil_iff.1 h).2 hq
    · rwa [List.getLast?_append_of_ne_nil p hq] at h

/-- A call stays within what ends with a line end. -/
theorem limitedLine_ended {p : Bytes} (h : Steady again r) (hp : Ended p) (hne : p ≠ [])
    (hc : contents r = p ++ s) : ∃ q, p = (limitedLine again r).line ++ q ∧ Ended q ∧
      q.length < p.length ∧ (limitedLine again r).failure = none ∧
        contents (limitedLine again r).rest = q ++ s ∧ Steady again (limitedLine again r).rest := by
  obtain ⟨hline, hfail, hrest⟩ := h.readUntil (d := newline) (MAX_SIGNAL + 1)
  have hmem : newline ∈ p := List.mem_of_getLast? (hp.resolve_left hne)
  obtain ⟨b, c, rfl, hb⟩ := List.eq_append_cons_of_mem hmem
  have hfirst : firstLine newline (contents r) = b ++ [newline] := by
    rw [hc, List.append_assoc, List.cons_append, firstLine_ended hb]
  have htaken : (b ++ [newline]).take (MAX_SIGNAL + 1) <+: b ++ newline :: c := by
    refine (List.take_prefix ..).trans ⟨c, ?_⟩
    rw [List.append_assoc, List.singleton_append]
  have hpos : 0 < ((b ++ [newline]).take (MAX_SIGNAL + 1)).length := by
    rw [List.length_take, List.length_append]
    exact Nat.lt_min.2 ⟨Nat.succ_pos _, Nat.succ_pos _⟩
  have hcontents := h.read_contents (d := newline) (MAX_SIGNAL + 1)
  rw [hfirst] at hline hcontents
  obtain ⟨q, hq⟩ := htaken
  rw [← hq] at hp hc ⊢
  rw [hc, List.append_assoc, List.drop_left] at hcontents
  refine ⟨q, congrArg (· ++ q) hline.symm, hp.right, ?_, hfail, hcontents, hrest⟩
  rw [List.length_append]
  omega

variable {json : Json T}

theorem readJsonLine_message (hj : json.Faithful) (h : Steady interrupted r)
    (hm : json.toVec m = .ok b) (hl : Line (b ++ [newline]))
    (hc : contents r = b ++ [newline] ++ s) :
    (readJsonLine json r).1 = .ok (some m) ∧ contents (readJsonLine json r).2 = s ∧
      Steady interrupted (readJsonLine json r).2 := by
  obtain ⟨hfail, hline, hrest, hsteady⟩ := limitedLine_line h hl hc
  refine ⟨?_, hrest, hsteady⟩
  rw [readJsonLine]
  simp only [hfail, hline]
  rw [if_neg hl.accepted.1, if_neg hl.accepted.2, hj.whitespace (hj.inverse hm)]

theorem readJsonLine_end (h : Steady interrupted r) (hc : contents r = []) :
    (readJsonLine json r).1 = .ok none ∧ contents (readJsonLine json r).2 = [] ∧
      Steady interrupted (readJsonLine json r).2 := by
  obtain ⟨hfail, hline, hrest, hsteady⟩ := limitedLine_end h hc
  refine ⟨?_, hrest, hsteady⟩
  rw [readJsonLine]
  simp only [hfail, hline, List.length_nil, if_true]

theorem readJsonLine_broken (h : Steady interrupted r) (hb : Broken (contents r)) :
    (readJsonLine json r).1 = .error (.invalidData "Oversized/partial media frame") := by
  obtain ⟨hfail, hne, hbad⟩ := limitedLine_broken h hb
  rw [readJsonLine]
  simp only [hfail]
  rw [if_neg hne, if_pos hbad]

theorem reads_end (h : Steady interrupted r) (hc : contents r = []) (k : Nat) :
    reads json k r = List.replicate k (.ok none) := by
  induction k generalizing r with
  | zero => rfl
  | succ k ih =>
    have hend : (readJsonLine json r).1 = .ok none ∧ _ ∧ _ := readJsonLine_end h hc
    obtain ⟨hnone, hrest, hsteady⟩ := hend
    rw [reads, hnone, ih hsteady hrest, List.replicate_succ]

/-- Among the calls there is one that begins where the broken line does. -/
theorem reads_broken {p : Bytes} (h : Steady interrupted r) (hp : Ended p) (hb : Broken s)
    (hc : contents r = p ++ s) : ∃ n, (reads json (n + 1) r).getLast? =
      some (.error (.invalidData "Oversized/partial media frame")) := by
  induction hlen : p.length using Nat.strongRecOn generalizing p r with
  | ind len ih =>
    by_cases hne : p = []
    · refine ⟨0, ?_⟩
      rw [hne, List.nil_append] at hc
      rw [reads, readJsonLine_broken h (hc ▸ hb)]
      rfl
    · obtain ⟨q, -, hq, hlt, -, hrest, hsteady⟩ := limitedLine_ended h hp hne hc
      obtain ⟨n, hn⟩ := ih q.length (hlen ▸ hlt) hsteady hq hrest rfl
      refine ⟨n + 1, ?_⟩
      rw [reads, reads, List.getLast?_cons_cons]
      exact hn

end RemoteCodex
