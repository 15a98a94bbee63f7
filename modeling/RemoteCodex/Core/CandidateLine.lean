import RemoteCodex.Lib.Words
import RemoteCodex.Core.TailnetAddress

namespace RemoteCodex
set_option autoImplicit true
open Words

/-- The fields of a host candidate of the first component. -/
structure CandidateLine where
  foundation : List Char
  transport : List Char
  priority : List Char
  address : List Char
  port : List Char
  attributes : List (List Char)

namespace CandidateLine

def fields (l : CandidateLine) : List (List Char) :=
  ("candidate:".toList ++ l.foundation) :: ['1'] :: l.transport :: l.priority :: l.address ::
    l.port :: "typ".toList :: "host".toList :: l.attributes

/-- The numbers are read as Rust reads them. -/
structure Valid (l : CandidateLine) : Prop where
  foundation : l.foundation ≠ []
  transport : l.transport.map Char.toLower = ['u', 'd', 'p']
  priority : ∃ n, parseUnsigned 4294967295 l.priority = some n
  address : tailnetIp l.address = true
  port : ∃ n, parseUnsigned 65535 l.port = some n ∧ 0 < n

/-- No further colon in the first field, and no sign before a number. -/
structure Strict (l : CandidateLine) : Prop where
  foundation : ':' ∉ l.foundation
  priority : l.priority.head? ≠ some '+'
  port : l.port.head? ≠ some '+'

theorem fields_inj {l m : CandidateLine} (h : l.fields = m.fields) : l = m := by
  simp only [fields, List.cons.injEq, List.append_cancel_left_eq, true_and] at h
  obtain ⟨h₀, h₂, h₃, h₄, h₅, h₈⟩ := h
  cases l
  cases m
  cases h₀
  cases h₂
  cases h₃
  cases h₄
  cases h₅
  cases h₈
  rfl

end CandidateLine

/-- At most 2048 bytes, and no line ends or NUL. -/
structure SingleLine (s : List Char) : Prop where
  short : utf8Length s ≤ 2048
  plain : ∀ c ∈ s, c ≠ '\r' ∧ c ≠ '\n' ∧ c ≠ Char.ofNat 0

theorem splitWhitespace_words (s : List Char) : splitWhitespace s = words isWhitespace s := by
  refine List.filter_congr fun w _ => ?_
  cases w <;> rfl

theorem utf8Length_append (s t : List Char) :
    utf8Length (s ++ t) = utf8Length s + utf8Length t := by
  rw [utf8Length, List.map_append, List.sum_append]
  rfl

theorem utf8Length_pos {s : List Char} : 0 < utf8Length s ↔ s ≠ [] := by
  cases s with
  | nil => exact iff_of_false (Nat.lt_irrefl 0) fun h => h rfl
  | cons c s =>
    refine iff_of_true ?_ (List.cons_ne_nil c s)
    exact Nat.add_pos_left (Char.utf8Size_pos c) _

theorem singleLine_iff {s : List Char} : SingleLine s ↔
    ¬ (2048 < utf8Length s ∨ (s.any fun c => c = '\r' ∨ c = '\n' ∨ c = Char.ofNat 0) = true) := by
  simp only [not_or, Nat.not_lt, Bool.not_eq_true, List.any_eq_false, decide_eq_true_eq]
  exact ⟨fun h => ⟨h.short, h.plain⟩, fun h => ⟨h.1, h.2⟩⟩

theorem foundation_length {f : List Char} :
    10 < utf8Length ("candidate:".toList ++ f) ↔ f ≠ [] := by
  have hmark : utf8Length "candidate:".toList = 10 := by decide
  rw [utf8Length_append, hmark, ← utf8Length_pos]
  omega

/-- What the agent accepts. -/
theorem candidateAllowed_iff {s : String} : candidateAllowed s none = true ↔
    SingleLine s.toList ∧ ∃ l : CandidateLine, splitWhitespace s.toList = l.fields ∧ l.Valid := by
  unfold candidateAllowed
  simp only
  constructor
  · intro h
    split at h
    · cases h
    · next hline =>
      refine ⟨singleLine_iff.2 hline, ?_⟩
      split at h
      · next p₀ p₁ p₂ p₃ p₄ p₅ p₆ p₇ rest hwords =>
        simp only [Bool.and_eq_true, beq_iff_eq, decide_eq_true_eq, Option.all_none,
          Option.any_eq_true, Option.isSome_iff_exists, List.isPrefixOf_iff_prefix] at h
        obtain ⟨⟨⟨⟨⟨⟨⟨⟨⟨⟨f, rfl⟩, hf⟩, rfl⟩, ht⟩, hprio⟩, hip⟩, -⟩, hport⟩, rfl⟩, rfl⟩ := h
        exact ⟨⟨f, p₂, p₃, p₄, p₅, rest⟩, hwords, foundation_length.1 hf, ht, hprio, hip, hport⟩
      · cases h
  · rintro ⟨hs, l, hl, hv⟩
    rw [if_neg (singleLine_iff.1 hs), hl]
    simp only [CandidateLine.fields, Bool.and_eq_true, beq_iff_eq, decide_eq_true_eq,
      Option.all_none, Option.any_eq_true, Option.isSome_iff_exists, List.isPrefixOf_iff_prefix,
      foundation_length, and_true]
    exact ⟨⟨⟨⟨⟨List.prefix_append _ _, hv.foundation⟩, hv.transport⟩, hv.priority⟩, hv.address⟩,
      hv.port⟩

end RemoteCodex
