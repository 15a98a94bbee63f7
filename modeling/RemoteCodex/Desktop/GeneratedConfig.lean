import RemoteCodex.Lib.Toml

namespace RemoteCodex
set_option autoImplicit true
open Toml
namespace Desktop

/-- A character of the path, as it is written. -/
def escapeConfig (character : Char) : List Char :=
  if character = '\\' then ['\\', '\\']
  else if character = '"' then ['\\', '"']
  else if character = '\n' then ['\\', 'n']
  else if character = '\r' then ['\\', 'r']
  else if character = '\t' then ['\\', 't']
  else [character]

/-- What comes before the path: the key and the opening quote. -/
def configStart : List Char := "web_dir = \"".toList

/-- `value` is the path as text; a path that is not Unicode has none. -/
def renderConfig (value : Option (List Char)) : Except String (List Char) :=
  match value with
  | none => .error "The web asset path is not valid Unicode"
  | some value => .ok (configStart ++ value.flatMap escapeConfig ++ ['"', '\n'])

/-- The control characters that are written as they are. -/
def RawControl (c : Char) : Prop :=
  c.toNat < 0x20 ∧ c ≠ '\t' ∧ c ≠ '\n' ∧ c ≠ '\r' ∨ c.toNat = 0x7f

instance (c : Char) : Decidable (RawControl c) :=
  inferInstanceAs (Decidable (_ ∨ _))

theorem escapeConfig_written (h : ¬ RawControl c) : Written c (escapeConfig c) := by
  unfold escapeConfig
  split_ifs with hslash hquote hlf hcr htab
  · subst hslash
    exact .escaped rfl
  · subst hquote
    exact .escaped rfl
  · exact .escaped (hlf ▸ rfl)
  · exact .escaped (hcr ▸ rfl)
  · exact .escaped (htab ▸ rfl)
  · refine .plain ?_
    have hne22 : c.toNat ≠ 0x22 := fun hn => hquote (Char.toNat_inj.1 hn)
    have hne5c : c.toNat ≠ 0x5c := fun hn => hslash (Char.toNat_inj.1 hn)
    have hraw : ¬ (c.toNat < 0x20 ∨ c.toNat = 0x7f) := by
      rintro (hc | hc)
      · exact h (.inl ⟨hc, htab, hlf, hcr⟩)
      · exact h (.inr hc)
    by_cases hspace : c.toNat = 0x20
    · have hc : c = ' ' := Char.toNat_inj.1 hspace
      rw [hc]
      rfl
    · simp only [basicUnescaped, nonAscii, Bool.or_eq_true, Bool.and_eq_true, decide_eq_true_eq,
        beq_iff_eq]
      omega

/-- A raw control character is written as it is, and no basic string has it. -/
theorem rawControl_refused (c : Char) (h : RawControl c) : escapeConfig c = [c] ∧ Refused c := by
  have hrange : c.toNat < 0x20 ∨ c.toNat = 0x7f := h.imp_left And.left
  have hne (d : Char) (hd : 0x20 ≤ d.toNat ∧ d.toNat ≠ 0x7f) : c ≠ d := by
    rintro rfl
    omega
  have hlf : c ≠ '\n' := by
    rintro rfl
    exact absurd h (by decide)
  have hcr : c ≠ '\r' := by
    rintro rfl
    exact absurd h (by decide)
  have htab : c ≠ '\t' := by
    rintro rfl
    exact absurd h (by decide)
  have hquote := hne '"' (by decide)
  have hslash := hne '\\' (by decide)
  refine ⟨?_, ?_, hquote, hslash⟩
  · rw [escapeConfig, if_neg hslash, if_neg hquote, if_neg hlf, if_neg hcr, if_neg htab]
  · simp only [basicUnescaped, wschar, nonAscii, Bool.or_eq_false_iff, Bool.and_eq_false_iff,
      decide_eq_false_iff_not, beq_eq_false_iff_ne]
    exact ⟨⟨⟨⟨⟨hne ' ' (by decide), htab⟩, by omega⟩, by omega⟩, by omega⟩, by omega⟩

/-- The line of the key is read by the string that follows. -/
theorem expression_web_dir (text : List Char) :
    expression (configStart ++ text) =
      (basicString text).bind fun (value, rest) =>
        if lineEnd rest then some [("web_dir".toList, value)] else none := by
  rfl

theorem newline_not_escaped (c : Char) : '\n' ∉ escapeConfig c := by
  unfold escapeConfig
  split_ifs with hslash hquote hlf hcr htab
  · decide
  · decide
  · decide
  · decide
  · decide
  · exact fun h => hlf (List.mem_singleton.1 h).symm

/-- The rendered text is read as the path, unless it has a raw control character: then it is no
document. -/
theorem renderConfig_parse (path : List Char) :
    ∃ text, renderConfig (some path) = .ok text ∧
      ((∀ c ∈ path, ¬ RawControl c) → parse text = some [("web_dir".toList, path)]) ∧
      ((∃ c ∈ path, RawControl c) → parse text = none) := by
  obtain ⟨line, hline⟩ : ∃ line, line = configStart ++ (path.flatMap escapeConfig ++ ['"']) :=
    ⟨_, rfl⟩
  have hlf : '\n' ∉ line := by
    rw [hline, List.mem_append, List.mem_append, not_or, not_or, List.mem_flatMap]
    refine ⟨by decide, ?_, by decide⟩
    rintro ⟨c, -, hc⟩
    exact newline_not_escaped c hc
  have hcr : line.getLast? ≠ some '\r' := by
    rw [hline, ← List.append_assoc, List.getLast?_concat]
    decide
  obtain ⟨hgood, hbad⟩ := parse_line hlf hcr ("web_dir".toList, path)
  refine ⟨line ++ ['\n'], ?_, fun h => hgood ?_, fun h => hbad ?_⟩
  · rw [renderConfig, hline]
    simp only [List.append_assoc, List.cons_append, List.nil_append]
  · rw [hline, expression_web_dir, basicString_written fun c hc => escapeConfig_written (h c hc)]
    rfl
  · rw [hline, expression_web_dir,
      basicString_refused (fun c _ => escapeConfig_written) rawControl_refused h]
    rfl

/-- The configuration that the desktop generates parses back to the path exactly when the path has
no control characters but tabs, line feeds and carriage returns. -/
theorem generated_config_parses (path : List Char) :
    (∃ text, renderConfig (some path) = .ok text ∧
        parse text = some [("web_dir".toList, path)]) ↔
      ∀ c ∈ path, ¬ RawControl c := by
  obtain ⟨text, htext, hgood, hbad⟩ := renderConfig_parse path
  constructor
  · rintro ⟨text', htext', hparse⟩ c hc hraw
    cases htext.symm.trans htext'
    rw [hbad ⟨c, hc, hraw⟩] at hparse
    cases hparse
  · exact fun h => ⟨text, htext, hgood h⟩

/-- A delete character, which a Windows path may have, makes it no document. -/
theorem generated_config_unreadable :
    ¬ ∀ path : List Char, ∃ text, renderConfig (some path) = .ok text ∧
      parse text = some [("web_dir".toList, path)] := by
  intro h
  obtain ⟨text, htext, hparse⟩ := h ['C', ':', '\\', '\x7f']
  cases htext
  exact absurd hparse (by decide)

end Desktop
end RemoteCodex
