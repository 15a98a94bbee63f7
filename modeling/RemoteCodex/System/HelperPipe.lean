import RemoteCodex.Core.JsonLines
import RemoteCodex.Core.MediaWire

namespace RemoteCodex
set_option autoImplicit true
open Buffered

namespace Helper

/-- `w` is what was written before. -/
def writeEvent (json : Json T) (w : Bytes) (e : T) : Except String Bytes := do
  let bytes ← json.toVec e
  if MAX_SIGNAL - 1 < bytes.length then .error "Oversized signaling output"
  else .ok (w ++ bytes ++ [newline])

end Helper

namespace Media

/-- The pipe takes all of the message within the 500 ms that a write may last. -/
def helperSend (json : Json T) (input : Bytes) (message : T) : Except String Bytes := do
  let b ← json.toVec message
  if MAX_SIGNAL - 1 < b.length then .error "Signaling too large"
  else .ok (input ++ (b ++ [newline]))

def never (_ : IoError) : Bool := false

/-- The reader task: what it has sent to the loop, and how it has ended, if it has. `gone` tells at
which message the receiver is gone. -/
def readerTask (json : Json T) (gone : Nat → Bool) :
    Nat → Source → List T × Option (Except IoError Unit)
  | 0, _ => ([], none)
  | fuel + 1, output =>
    let read := limitedLine never output
    let n := read.line.length
    match read.failure with
    | some e => ([], some (.error e))
    | none =>
      if n = 0 then ([], some (.ok ()))
      else if MAX_SIGNAL < n ∨ read.line.getLast? ≠ some newline then
        ([], some (.error (.other "Helper frame size exceeded")))
      else
        match json.fromSlice read.line with
        | .error e => ([], some (.error (.other e)))
        | .ok event =>
          if gone 0 then ([], some (.ok ()))
          else
            let (sent, ended) := readerTask json (fun k => gone (k + 1)) fuel read.rest
            (event :: sent, ended)

end Media

/-- A message that is written as one line within the bound. -/
def Fits (json : Json T) (m : T) : Prop :=
  ∃ b, json.toVec m = .ok b ∧ b.length ≤ MAX_SIGNAL - 1 ∧ newline ∉ b

variable {json : Json T}

theorem Fits.line (h : Fits json m) : ∃ b, json.toVec m = .ok b ∧ Line (b ++ [newline]) ∧
    (∀ w, Helper.writeEvent json w m = .ok (w ++ (b ++ [newline]))) ∧
      ∀ w, Media.helperSend json w m = .ok (w ++ (b ++ [newline])) := by
  obtain ⟨b, hb, hsize, hend⟩ := h
  have hline : Line (b ++ [newline]) := by
    refine ⟨?_, b, hend, rfl⟩
    rw [List.length_append, List.length_singleton]
    exact Nat.add_le_of_le_sub (by decide) hsize
  refine ⟨b, hb, hline, fun w => ?_, fun w => ?_⟩
  · rw [← List.append_assoc, Helper.writeEvent, hb]
    exact if_neg (Nat.not_lt.2 hsize)
  · rw [Media.helperSend, hb]
    exact if_neg (Nat.not_lt.2 hsize)

/-- The bytes of the messages are a line for each. -/
inductive Lines (json : Json T) : List T → Bytes → Prop where
  | nil : Lines json [] []
  | cons (hm : json.toVec m = .ok b) (hl : Line (b ++ [newline])) (h : Lines json ms s) :
      Lines json (m :: ms) (b ++ [newline] ++ s)

/-- Both writers write the same lines. -/
theorem writers_lines {ms : List T} (h : ∀ m ∈ ms, Fits json m) : ∃ s, Lines json ms s ∧
    (∀ w, ms.foldlM (Helper.writeEvent json) w = .ok (w ++ s)) ∧
      ∀ w, ms.foldlM (Media.helperSend json) w = .ok (w ++ s) := by
  induction ms with
  | nil => exact ⟨[], .nil, fun w => by rw [List.append_nil]; rfl, fun w => by
      rw [List.append_nil]; rfl⟩
  | cons m ms ih =>
    obtain ⟨hm, hms⟩ := List.forall_mem_cons.1 h
    obtain ⟨b, hb, hl, hwrite, hsend⟩ := hm.line
    obtain ⟨s, hs, hwrites, hsends⟩ := ih hms
    refine ⟨b ++ [newline] ++ s, .cons hb hl hs, fun w => ?_, fun w => ?_⟩
    · rw [List.foldlM_cons, hwrite]
      exact (hwrites _).trans (congrArg Except.ok (List.append_assoc ..))
    · rw [List.foldlM_cons, hsend]
      exact (hsends _).trans (congrArg Except.ok (List.append_assoc ..))

theorem Lines.reads (hj : json.Faithful) {ms : List T} {s : Bytes} (hl : Lines json ms s)
    {r : Source} (h : Steady interrupted r) (hc : contents r = s) (k : Nat) :
    reads json (ms.length + k) r =
      ms.map (fun m => .ok (some m)) ++ List.replicate k (.ok none) := by
  induction hl generalizing r with
  | nil => rw [List.length_nil, Nat.zero_add]; exact reads_end h hc k
  | cons hm hline _ ih =>
    obtain ⟨hmessage, hrest, hsteady⟩ := readJsonLine_message hj h hm hline hc
    rw [List.length_cons, Nat.succ_add, RemoteCodex.reads, hmessage, ih hsteady hrest,
      List.map_cons, List.cons_append]

namespace Media

theorem Lines.readerTask (hj : json.Faithful) {ms : List T} {s : Bytes} (hl : Lines json ms s)
    {r : Source} (h : Steady never r) (hc : contents r = s) (hfuel : ms.length < fuel) :
    readerTask json (fun _ => false) fuel r = (ms, some (.ok ())) := by
  induction hl generalizing r fuel with
  | nil =>
    obtain ⟨fuel, rfl⟩ := Nat.exists_eq_add_one_of_ne_zero (Nat.ne_of_gt hfuel)
    obtain ⟨hfail, hline, -, -⟩ := limitedLine_end h hc
    rw [Media.readerTask]
    simp only [hfail, hline, List.length_nil, if_true]
  | cons hm hline _ ih =>
    obtain ⟨fuel, rfl⟩ := Nat.exists_eq_add_one_of_ne_zero (Nat.ne_of_gt (Nat.zero_lt_of_lt hfuel))
    obtain ⟨hfail, hread, hrest, hsteady⟩ := limitedLine_line h hline hc
    rw [Media.readerTask]
    simp only [hfail, hread]
    rw [if_neg hline.accepted.1, if_neg hline.accepted.2, hj.whitespace (hj.inverse hm)]
    simp only [Bool.false_eq_true, if_false]
    rw [ih hsteady hrest (Nat.lt_of_succ_lt_succ hfuel)]

/-- The task ends with an error at a broken line, if not before. -/
theorem readerTask_broken {p s : Bytes} {r : Source} (h : Steady never r) (hp : Ended p)
    (hb : Broken s) (hc : contents r = p ++ s) (hfuel : p.length < fuel) :
    ∃ sent e, readerTask json (fun _ => false) fuel r = (sent, some (.error e)) := by
  induction fuel generalizing p r with
  | zero => exact absurd hfuel (Nat.not_lt_zero _)
  | succ fuel ih =>
    rw [readerTask]
    by_cases hne : p = []
    · rw [hne, List.nil_append] at hc
      obtain ⟨hfail, hpos, hbad⟩ := limitedLine_broken h (hc ▸ hb)
      simp only [hfail]
      rw [if_neg hpos, if_pos hbad]
      exact ⟨[], _, rfl⟩
    · obtain ⟨q, hq, hended, hlt, hfail, hrest, hsteady⟩ := limitedLine_ended h hp hne hc
      have hpos : (limitedLine never r).line.length ≠ 0 := by
        have hlen := congrArg List.length hq
        rw [List.length_append] at hlen
        omega
      simp only [hfail]
      rw [if_neg hpos]
      split
      · exact ⟨[], _, rfl⟩
      · split
        · exact ⟨[], _, rfl⟩
        · next event _ =>
          obtain ⟨sent, e, hrun⟩ := ih hsteady hended hrest (by omega)
          refine ⟨event :: sent, e, ?_⟩
          simp only [Bool.false_eq_true, if_false, hrun]

end Media

/-- Messages pass the pipe between agent and helper in both directions, however the bytes are cut; a
line that is too long or has no end is an error; and no call takes more than a byte over the
bound. -/
theorem helper_lines {json : Json T} (hj : json.Faithful) :
    (∀ ms : List T, (∀ m ∈ ms, Fits json m) → ∃ bytes,
      ms.foldlM (Helper.writeEvent json) [] = .ok bytes ∧
      ms.foldlM (Media.helperSend json) [] = .ok bytes ∧
      (∀ r, Steady interrupted r → contents r = bytes → ∀ k, reads json (ms.length + k) r =
        ms.map (fun m => .ok (some m)) ++ List.replicate k (.ok none)) ∧
      ∀ r, Steady Media.never r → contents r = bytes → ∀ fuel, ms.length < fuel →
        Media.readerTask json (fun _ => false) fuel r = (ms, some (.ok ()))) ∧
    (∀ p s r, Ended p → Broken s → contents r = p ++ s →
      (Steady interrupted r → ∃ n, (reads json (n + 1) r).getLast? =
        some (.error (.invalidData "Oversized/partial media frame"))) ∧
      (Steady Media.never r → ∀ fuel, p.length < fuel → ∃ sent e,
        Media.readerTask json (fun _ => false) fuel r = (sent, some (.error e)))) ∧
    ∀ again r, (limitedLine again r).line.length ≤ MAX_SIGNAL + 1 := by
  refine ⟨fun ms hms => ?_, fun p s r hp hb hc => ⟨fun h => ?_, fun h fuel hfuel => ?_⟩,
    limitedLine_length⟩
  · obtain ⟨bytes, hl, hwrite, hsend⟩ := writers_lines hms
    exact ⟨bytes, hwrite [], hsend [], fun r h hc => hl.reads hj h hc,
      fun r h hc fuel => Media.Lines.readerTask hj hl h hc⟩
  · exact reads_broken h hp hb hc
  · exact Media.readerTask_broken h hp hb hc hfuel

def stoppedText : Bytes :=
  "\x7b\"type\":\"stopped\"\x7d".toList.map fun c => UInt8.ofNat c.toNat

/-- The text of one message only. -/
def stoppedJson : Json HelperOut where
  toVec
    | .stopped => .ok stoppedText
    | _ => .error "not written here"
  fromSlice b :=
    if (b.reverse.dropWhile (· == newline)).reverse = stoppedText then .ok .stopped
    else .error "expected value"

theorem stoppedJson_faithful : stoppedJson.Faithful := by
  constructor
  · intro m b h
    cases m with
    | stopped =>
      cases h
      decide +kernel
    | _ => cases h
  · intro b m h
    have hdrop : (b ++ [newline]).reverse.dropWhile (· == newline) =
        b.reverse.dropWhile (· == newline) := by
      rw [List.reverse_append]
      rfl
    rw [stoppedJson] at h ⊢
    simp only [hdrop]
    exact h

theorem helper_lines_stopped : ∃ bytes,
    [HelperOut.stopped].foldlM (Helper.writeEvent stoppedJson) [] = .ok bytes ∧
      ∀ r, Steady interrupted r → contents r = bytes → ∀ k, reads stoppedJson (1 + k) r =
        .ok (some .stopped) :: List.replicate k (.ok none) := by
  have hfits : ∀ m ∈ [HelperOut.stopped], Fits stoppedJson m :=
    List.forall_mem_singleton.2 ⟨stoppedText, rfl, by decide +kernel, by decide +kernel⟩
  obtain ⟨bytes, hwrite, -, hreads, -⟩ := (helper_lines stoppedJson_faithful).1 _ hfits
  exact ⟨bytes, hwrite, hreads⟩

end RemoteCodex
