import Mathlib.Algebra.GroupWithZero.Nat
import RemoteCodex.Lib.Words

/-! Texts read line by line, where CR, LF and CRLF each end a line. -/

namespace Newlines
set_option autoImplicit true
open Words

def isEol (c : Char) : Bool := c == '\r' || c == '\n'

/-- The lines of a text; `cr` tells that a carriage return has just ended one. -/
def readLines : Bool → List Char → List (List Char)
  | _, [] => [[]]
  | cr, c :: l =>
    if c = '\n' then if cr then readLines false l else [] :: readLines false l
    else if c = '\r' then [] :: readLines true l
    else (readLines false l).modifyHead (c :: ·)

example : readLines false "a\r\nb\rc\n\rd".toList =
    ["a".toList, "b".toList, "c".toList, [], "d".toList] := by decide

/-- The lines differ from the parts between single line ends only by empty ones. -/
theorem readLines_spec (l : List Char) :
    (∀ cr, ((readLines cr l).filter fun w => !w.isEmpty) = words isEol l) ∧
      ∃ w r r', readLines false l = w :: r ∧ l.splitOnP isEol = w :: r' ∧
        (r.filter fun w => !w.isEmpty) = r'.filter fun w => !w.isEmpty := by
  induction l with
  | nil => exact ⟨fun _ => rfl, [], [], [], rfl, List.splitOnP_nil, rfl⟩
  | cons c l ih =>
    obtain ⟨hwords, w, r, r', hw, hw', hr⟩ := ih
    by_cases hlf : c = '\n'
    · have hc : isEol c = true := by rw [hlf]; rfl
      refine ⟨fun cr => ?_, [], readLines false l, l.splitOnP isEol, ?_, ?_, hwords false⟩
      · rw [readLines, if_pos hlf, words_cons hc]
        cases cr <;> exact hwords false
      · rw [readLines, if_pos hlf, if_neg Bool.false_ne_true]
      · rw [List.splitOnP_cons_eq_if_modifyHead, if_pos hc]
    by_cases hcr : c = '\r'
    · have hc : isEol c = true := by rw [hcr]; rfl
      have hread (b : Bool) : readLines b (c :: l) = [] :: readLines true l := by
        rw [readLines, if_neg hlf, if_pos hcr]
      refine ⟨fun cr => ?_, [], readLines true l, l.splitOnP isEol, hread false, ?_, hwords true⟩
      · rw [hread, words_cons hc]
        exact hwords true
      · rw [List.splitOnP_cons_eq_if_modifyHead, if_pos hc]
    · have hc : ¬ isEol c = true := by
        rw [isEol, Bool.or_eq_true, beq_iff_eq, beq_iff_eq]
        exact fun h => h.elim hcr hlf
      have hread (b : Bool) : readLines b (c :: l) = (c :: w) :: r := by
        rw [readLines, if_neg hlf, if_neg hcr, hw, List.modifyHead_cons]
      have hsplit : (c :: l).splitOnP isEol = (c :: w) :: r' := by
        rw [List.splitOnP_cons_eq_if_modifyHead, if_neg hc, hw', List.modifyHead_cons]
      refine ⟨fun cr => ?_, c :: w, r, r', hread false, hsplit, hr⟩
      rw [hread, words, hsplit, List.filter_cons, List.filter_cons, hr]

/-- The lines with a start of their own are the words with that start. -/
theorem filter_readLines {m : List Char} (hm : m ≠ []) (l : List Char) :
    ((readLines false l).filter fun w => m.isPrefixOf w) =
      (words isEol l).filter fun w => m.isPrefixOf w := by
  rw [← (readLines_spec l).1 false, List.filter_filter]
  refine List.filter_congr fun w _ => ?_
  cases w with
  | nil =>
    cases m with
    | nil => exact absurd rfl hm
    | cons d m => rfl
  | cons c w => exact (Bool.and_true _).symm

/-- The lines, each with the same end. -/
def ended (e : List Char) (ls : List (List Char)) : List Char := ls.flatMap (· ++ e)

def crlf (ls : List (List Char)) : List Char := ended ['\r', '\n'] ls

@[simp] theorem ended_cons (e l : List Char) (ls : List (List Char)) :
    ended e (l :: ls) = l ++ e ++ ended e ls := rfl

theorem intercalate_ended (e : List Char) {ls : List (List Char)} (h : ls ≠ []) :
    e.intercalate ls ++ e = ended e ls := by
  induction ls with
  | nil => exact absurd rfl h
  | cons l ls ih =>
    cases ls with
    | nil => rw [List.intercalate_singleton, ended, List.flatMap_singleton]
    | cons l' ls =>
      rw [List.intercalate_cons_cons, List.append_assoc, ih (List.cons_ne_nil _ _), ended_cons e l]

/-- A line end inside the end of the lines is a separator of the text. -/
theorem ended_eq_intercalate (e : List Char) (c : Char) (ls : List (List Char)) :
    ended (e ++ [c]) ls = [c].intercalate (ls.map (· ++ e) ++ [[]]) := by
  induction ls with
  | nil => rfl
  | cons l ls ih =>
    rw [ended_cons, ih, List.map_cons, List.cons_append, ← List.append_assoc]
    cases ls.map (· ++ e) with
    | nil => exact (List.intercalate_cons_cons ..).symm
    | cons l' ls' => exact (List.intercalate_cons_cons ..).symm

theorem words_crlf (ls : List (List Char)) :
    words isEol (crlf ls) = ls.flatMap (words isEol) := by
  induction ls with
  | nil => rfl
  | cons l ls ih =>
    have hcons : crlf (l :: ls) = l ++ '\r' :: '\n' :: crlf ls := List.append_assoc ..
    rw [hcons, words_append_cons l _ rfl, words_cons rfl, ih, List.flatMap_cons]

/-- The pieces after the first one that begin with a given start. -/
def inner (m l : List Char) : Nat := (l.splitOnP isEol).tail.countP fun w => m.isPrefixOf w

theorem inner_pos {m l : List Char} (hm : ∀ c ∈ m, isEol c = false) :
    0 < inner m l ↔ ∃ c, isEol c = true ∧ (c :: m) <:+: l := by
  obtain ⟨w, r, hl⟩ := List.exists_cons_of_ne_nil (List.splitOnP_ne_nil isEol l)
  rw [inner, hl, List.tail_cons, List.countP_pos_iff, ← Pieces.prefix_later hm hl]
  exact exists_congr fun q => and_congr_right fun _ => List.isPrefixOf_iff_prefix

theorem words_count {m l : List Char} (hne : m ≠ []) (hm : ∀ c ∈ m, isEol c = false) :
    ((words isEol l).countP fun w => m.isPrefixOf w) =
      (if m.isPrefixOf l then 1 else 0) + inner m l := by
  obtain ⟨w, r, hl⟩ := List.exists_cons_of_ne_nil (List.splitOnP_ne_nil isEol l)
  have hnil : ∀ v : List Char, (m.isPrefixOf v && !v.isEmpty) = m.isPrefixOf v := by
    intro v
    cases v with
    | nil =>
      cases m with
      | nil => exact absurd rfl hne
      | cons d m => rfl
    | cons c v => exact Bool.and_true _
  have hfirst : m.isPrefixOf w = m.isPrefixOf l := by
    rw [Bool.eq_iff_iff, List.isPrefixOf_iff_prefix, List.isPrefixOf_iff_prefix]
    exact Pieces.prefix_first hm hl
  rw [words, List.countP_filter, hl, inner, hl, List.tail_cons, List.countP_cons]
  simp only [hnil]
  rw [hfirst, Nat.add_comm]

/-- The lines with a start of their own: those that were written as lines, and those that a
further line end makes. -/
theorem count_crlf {m : List Char} (hne : m ≠ []) (hm : ∀ c ∈ m, isEol c = false)
    (ls : List (List Char)) : ((readLines false (crlf ls)).countP fun w => m.isPrefixOf w) =
      (ls.countP fun w => m.isPrefixOf w) + (ls.map (inner m)).sum := by
  rw [List.countP_eq_length_filter, filter_readLines hne, ← List.countP_eq_length_filter,
    words_crlf]
  induction ls with
  | nil => rfl
  | cons l ls ih =>
    rw [List.flatMap_cons, List.countP_append, words_count hne hm, ih, List.countP_cons,
      List.map_cons, List.sum_cons]
    omega

end Newlines
