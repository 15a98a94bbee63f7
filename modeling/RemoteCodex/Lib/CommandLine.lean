import Mathlib.Data.List.Basic

/-! Command lines of Windows, and the arguments that they are split into. -/

namespace CommandLine
set_option autoImplicit true

def isBlank (c : Char) : Bool := c == ' ' || c == '\t'

/-- The name of the program and what follows it. It knows quotes but no escapes. -/
def program (quoted : Bool) : List Char → List Char × List Char
  | [] => ([], [])
  | c :: rest =>
    if c = '"' then program (!quoted) rest
    else if quoted = false ∧ isBlank c then ([], rest)
    else (c :: (program quoted rest).1, (program quoted rest).2)

/-- How far an argument has been read: whether blanks before it are skipped, whether it is in
quotes, its characters and the backslashes after them. -/
structure Reading where
  skipping : Bool
  quoted : Bool
  text : List Char
  backslashes : Nat

/-- An argument without what it may end with. -/
def Reading.full (r : Reading) : List Char := r.text ++ List.replicate r.backslashes '\\'

/-- The arguments after the program. Backslashes before a quote are halved, and an odd one escapes
it; so does a quote before a quote in quotes. -/
def arguments (r : Reading) : List Char → List (List Char)
  | [] => if r.full = [] ∧ r.quoted = false then [] else [r.full]
  | c :: rest =>
    if r.skipping ∧ isBlank c then arguments r rest
    else if c = '\\' then
      arguments { r with skipping := false, backslashes := r.backslashes + 1 } rest
    else if c = '"' then
      let text := r.text ++ List.replicate (r.backslashes / 2) '\\'
      if r.backslashes % 2 = 1 then arguments ⟨false, r.quoted, text ++ ['"'], 0⟩ rest
      else if r.quoted then
        match rest with
        | [] => [text]
        | d :: rest' =>
          if d = '"' then arguments ⟨false, true, text ++ ['"'], 0⟩ rest'
          else arguments ⟨false, false, text, 0⟩ (d :: rest')
      else arguments ⟨false, true, text, 0⟩ rest
    else if r.quoted = false ∧ isBlank c then r.full :: arguments ⟨true, false, [], 0⟩ rest
    else arguments ⟨false, r.quoted, r.full ++ [c], 0⟩ rest

def argv (line : List Char) : List (List Char) :=
  (program false line).1 :: arguments ⟨true, false, [], 0⟩ (program false line).2

theorem program_quoted {name : List Char} (h : '"' ∉ name) (rest : List Char) :
    program true (name ++ '"' :: rest) =
      (name ++ (program false rest).1, (program false rest).2) := by
  induction name with
  | nil => rw [List.nil_append, List.nil_append, program, if_pos rfl, Bool.not_true]
  | cons c name ih =>
    rw [List.mem_cons, not_or] at h
    rw [List.cons_append, program, if_neg fun he => h.1 he.symm, if_neg fun hb => nomatch hb.1]
    simp only [ih h.2, List.cons_append]

/-- A character of an argument in quotes that is not one itself. -/
def Reading.next (r : Reading) (c : Char) : Reading :=
  if c = '\\' then { r with skipping := false, backslashes := r.backslashes + 1 }
  else ⟨false, r.quoted, r.full ++ [c], 0⟩

theorem Reading.next_full (r : Reading) (c : Char) : (r.next c).full = r.full ++ [c] := by
  unfold next
  split
  · next hc =>
    rw [hc, full, full, List.replicate_succ', List.append_assoc]
  · simp only [full, List.replicate_zero, List.append_nil]

theorem Reading.next_quoted (r : Reading) (c : Char) : (r.next c).quoted = r.quoted := by
  unfold next
  split <;> rfl

theorem Reading.next_skipping (r : Reading) (c : Char) : (r.next c).skipping = false := by
  unfold next
  split <;> rfl

/-- The backslashes are those that the argument ends with. -/
theorem Reading.next_backslashes (r : Reading) (c : Char) :
    (r.next c).backslashes = 0 ↔ c ≠ '\\' := by
  unfold next
  split
  · next hc => exact iff_of_false (Nat.succ_ne_zero _) fun hne => hne hc
  · next hc => exact iff_of_true rfl hc

theorem arguments_next {r : Reading} (hq : r.quoted = true) (hs : r.skipping = false)
    {c : Char} (hc : c ≠ '"') (rest : List Char) :
    arguments r (c :: rest) = arguments (r.next c) rest := by
  rw [arguments, if_neg fun h => by rw [hs] at h; exact Bool.false_ne_true h.1, Reading.next]
  split
  · rfl
  · rw [if_neg fun h => by rw [hq] at h; exact Bool.false_ne_true h.1.symm]

/-- A text without quotes is read as it is. -/
theorem arguments_text {text : List Char} (h : '"' ∉ text) {r : Reading} (hq : r.quoted = true)
    (hs : r.skipping = false) (rest : List Char) :
    ∃ r', arguments r (text ++ rest) = arguments r' rest ∧ r'.quoted = true ∧
      r'.skipping = false ∧ r'.full = r.full ++ text ∧
      (text ≠ [] → (r'.backslashes = 0 ↔ text.getLast? ≠ some '\\')) ∧
      (text = [] → r' = r) := by
  induction text generalizing r with
  | nil => exact ⟨r, rfl, hq, hs, (List.append_nil _).symm, fun hne => absurd rfl hne, fun _ => rfl⟩
  | cons c text ih =>
    rw [List.mem_cons, not_or] at h
    obtain ⟨r', he, hq', hs', hfull, hlast, hnil⟩ :=
      ih h.2 ((r.next_quoted c).trans hq) (r.next_skipping c)
    refine ⟨r', ?_, hq', hs', ?_, fun _ => ?_, nofun⟩
    · rw [List.cons_append, arguments_next hq hs (Ne.symm h.1), he]
    · rw [hfull, r.next_full, List.append_assoc, List.singleton_append]
    · cases text with
      | nil =>
        rw [hnil rfl, r.next_backslashes, List.getLast?_singleton]
        exact not_congr (Option.some_inj).symm
      | cons d text => rw [hlast (List.cons_ne_nil _ _), List.getLast?_cons_cons]

/-- What has been read of an argument is its beginning. -/
theorem arguments_starts {r : Reading} (hs : r.skipping = false) (ht : r.text ≠ [])
    (line : List Char) : ∃ first others, arguments r line = (r.text ++ first) :: others := by
  have hmore (text e first : List Char) {out others : List (List Char)}
      (h : out = (text ++ e ++ first) :: others) :
      ∃ first others, out = (text ++ first) :: others :=
    ⟨e ++ first, others, by rw [h, List.append_assoc]⟩
  fun_induction arguments r line with
  | case1 r h => exact absurd (List.append_eq_nil_iff.1 h.1).1 ht
  | case2 r h => exact ⟨_, _, rfl⟩
  | case3 r c rest h ih => exact absurd (hs.symm.trans h.1) Bool.false_ne_true
  | case4 r rest h ih => exact ih rfl ht
  | case5 r rest text hodd h hne ih =>
    obtain ⟨first, others, he⟩ := ih rfl (by simp)
    exact hmore r.text _ (['"'] ++ first) (by rw [he, List.append_assoc])
  | case6 r hodd hq h hne => exact ⟨_, _, rfl⟩
  | case7 r text hodd hq rest h hne ih =>
    obtain ⟨first, others, he⟩ := ih rfl (by simp)
    exact hmore r.text _ (['"'] ++ first) (by rw [he, List.append_assoc])
  | case8 r text hodd hq c rest hc h hne ih =>
    obtain ⟨first, others, he⟩ := ih rfl (by simp [text, ht])
    exact hmore r.text _ first he
  | case9 r rest text hodd hq h hne ih =>
    obtain ⟨first, others, he⟩ := ih rfl (by simp [text, ht])
    exact hmore r.text _ first he
  | case10 r c rest h hne hq hb ih => exact ⟨_, _, rfl⟩
  | case11 r c rest h hne hq hb ih =>
    obtain ⟨first, others, he⟩ := ih rfl (by simp)
    exact ⟨_, _, by rw [he, Reading.full, List.append_assoc, List.append_assoc]⟩

/-- A text that needs no quotes. -/
def Bare (text : List Char) : Prop := ∀ c ∈ text, c ≠ '"' ∧ c ≠ '\\' ∧ isBlank c = false

instance (text : List Char) : Decidable (Bare text) :=
  List.decidableBAll (fun c => c ≠ '"' ∧ c ≠ '\\' ∧ isBlank c = false) text

theorem arguments_bare {text : List Char} (h : Bare text) (hne : text ≠ []) (skipping : Bool)
    (read rest : List Char) : arguments ⟨skipping, false, read, 0⟩ (text ++ rest) =
      arguments ⟨false, false, read ++ text, 0⟩ rest := by
  induction text generalizing skipping read with
  | nil => exact absurd rfl hne
  | cons c text ih =>
    obtain ⟨⟨hquote, hback, hblank⟩, htext⟩ := List.forall_mem_cons.1 h
    have hno (p : Prop) : ¬ (p ∧ isBlank c = true) :=
      fun hb => Bool.false_ne_true (hblank.symm.trans hb.2)
    rw [List.cons_append, arguments, if_neg (hno _), if_neg hback, if_neg hquote, if_neg (hno _),
      Reading.full, List.replicate_zero, List.append_nil]
    rcases eq_or_ne text [] with rfl | hmore
    · rfl
    · rw [ih htext hmore, List.append_assoc, List.singleton_append]

theorem arguments_blank (read rest : List Char) :
    arguments ⟨false, false, read, 0⟩ (' ' :: rest) =
      read :: arguments ⟨true, false, [], 0⟩ rest := by
  rw [arguments, if_neg fun h => Bool.false_ne_true h.1, if_neg (by decide), if_neg (by decide),
    if_pos ⟨rfl, rfl⟩, Reading.full, List.replicate_zero, List.append_nil]

theorem arguments_open (rest : List Char) :
    arguments ⟨true, false, [], 0⟩ ('"' :: rest) = arguments ⟨false, true, [], 0⟩ rest := by
  rw [arguments, if_neg (by decide), if_neg (by decide), if_pos rfl]
  rfl

/-- The quote ends the argument, whose backslashes are halved. -/
theorem arguments_quote {r : Reading} (hs : r.skipping = false) (hq : r.quoted = true)
    (heven : r.backslashes % 2 ≠ 1) (rest : List Char) :
    arguments r ('"' :: ' ' :: rest) =
      (r.text ++ List.replicate (r.backslashes / 2) '\\') ::
        arguments ⟨true, false, [], 0⟩ rest := by
  rw [arguments, if_neg fun h => by rw [hs] at h; exact Bool.false_ne_true h.1,
    if_neg (by decide), if_pos rfl]
  simp only [if_neg heven, if_pos hq]
  rw [if_neg (by decide), arguments_blank]

/-- An argument in quotes that another one follows. -/
theorem arguments_quoted {text : List Char} (h : '"' ∉ text) (rest : List Char) :
    (text.getLast? ≠ some '\\' ∧ arguments ⟨false, true, [], 0⟩ (text ++ '"' :: ' ' :: rest) =
      text :: arguments ⟨true, false, [], 0⟩ rest) ∨
    (text.getLast? = some '\\' ∧ ∃ first others, first ≠ text ∧
      arguments ⟨false, true, [], 0⟩ (text ++ '"' :: ' ' :: rest) = first :: others) := by
  obtain ⟨r, he, hq, hs, hfull, hlast, hnil⟩ :=
    arguments_text h (r := ⟨false, true, [], 0⟩) rfl rfl ('"' :: ' ' :: rest)
  have hstart : (Reading.mk false true [] 0).full ++ text = text := rfl
  rw [hstart, Reading.full] at hfull
  have hzero : r.backslashes = 0 ↔ text.getLast? ≠ some '\\' := by
    rcases eq_or_ne text [] with rfl | hne
    · rw [hnil rfl]
      exact iff_of_true rfl nofun
    · exact hlast hne
  rw [he]
  by_cases h0 : r.backslashes = 0
  · refine .inl ⟨hzero.1 h0, ?_⟩
    rw [arguments_quote hs hq (by omega), ← hfull, h0]
  refine .inr ⟨Classical.not_not.1 fun hne => h0 (hzero.2 hne), ?_⟩
  by_cases hodd : r.backslashes % 2 = 1
  · -- the quote is taken for a part of the argument
    let t := r.text ++ List.replicate (r.backslashes / 2) '\\' ++ ['"']
    have hescaped : arguments r ('"' :: ' ' :: rest) =
        arguments ⟨false, r.quoted, t, 0⟩ (' ' :: rest) := by
      rw [arguments, if_neg fun h => by rw [hs] at h; exact Bool.false_ne_true h.1,
        if_neg (by decide), if_pos rfl]
      exact if_pos hodd
    have hne : t ≠ [] := List.append_ne_nil_of_right_ne_nil _ (List.cons_ne_nil _ _)
    obtain ⟨first, others, hstarts⟩ :=
      arguments_starts (r := ⟨false, r.quoted, t, 0⟩) rfl hne (' ' :: rest)
    refine ⟨_, others, ?_, hescaped.trans hstarts⟩
    rintro rfl
    exact h (List.mem_append_left _ (List.mem_append_right _ (List.mem_singleton_self _)))
  · refine ⟨_, _, fun hsame => ?_, arguments_quote hs hq hodd rest⟩
    rw [← hfull, List.append_cancel_left_eq, List.replicate_inj] at hsame
    omega

end CommandLine
