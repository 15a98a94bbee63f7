import RemoteCodex.Lib.Pieces

/-! The words of a text, separated by runs of blanks. -/

namespace Words
set_option autoImplicit true
open Pieces

/-- The words between blanks. -/
def words (p : α → Bool) (l : List α) : List (List α) :=
  (l.splitOnP p).filter fun w => !w.isEmpty

/-- The pieces between runs of blanks; `skip` tells that a run goes on. -/
def split (p : α → Bool) : Bool → List α → List (List α)
  | _, [] => [[]]
  | skip, c :: l =>
    if p c then if skip then split p true l else [] :: split p true l
    else (split p false l).modifyHead (c :: ·)

variable {p : α → Bool}

theorem words_append_cons (l m : List α) (h : p c = true) :
    words p (l ++ c :: m) = words p l ++ words p m := by
  rw [words, List.splitOnP_append_cons l m h, List.filter_append]
  rfl

theorem words_cons (h : p c = true) : words p (c :: l) = words p l :=
  words_append_cons [] l h

theorem words_blank (h : ∀ c ∈ b, p c = true) : words p b = [] := by
  induction b with
  | nil => rfl
  | cons c b ih =>
    rw [words_cons (h c (List.mem_cons_self ..))]
    exact ih fun d hd => h d (List.mem_cons_of_mem c hd)

/-- Blanks at the ends do not count. -/
theorem words_blanks (ha : ∀ c ∈ a, p c = true) (hb : ∀ c ∈ b, p c = true) :
    words p (a ++ l ++ b) = words p l := by
  have hend : words p (l ++ b) = words p l := by
    cases b with
    | nil => rw [List.append_nil]
    | cons c b =>
      rw [words_append_cons l b (hb c (List.mem_cons_self ..)),
        words_blank fun d hd => hb d (List.mem_cons_of_mem c hd), List.append_nil]
  rw [List.append_assoc]
  induction a with
  | nil => exact hend
  | cons c a ih =>
    rw [List.cons_append, words_cons (ha c (List.mem_cons_self ..))]
    exact ih fun d hd => ha d (List.mem_cons_of_mem c hd)

theorem words_strip (l : List α) : words p (strip p l) = words p l := by
  have hmem {m : List α} {c : α} (hc : c ∈ m.takeWhile p) : p c = true :=
    List.all_eq_true.1 List.all_takeWhile c hc
  have hl : l = l.takeWhile p ++ strip p l ++ ((l.dropWhile p).reverse.takeWhile p).reverse := by
    rw [strip, List.append_assoc, ← List.reverse_append, List.takeWhile_append_dropWhile,
      List.reverse_reverse, List.takeWhile_append_dropWhile]
  calc words p (strip p l)
      = words p (l.takeWhile p ++ strip p l ++
          ((l.dropWhile p).reverse.takeWhile p).reverse) :=
        (words_blanks (fun _ => hmem) fun c hc => hmem (List.mem_reverse.1 hc)).symm
    _ = words p l := congrArg (words p) hl.symm

/-- The pieces differ from the parts between single blanks only by empty ones. -/
theorem split_spec (l : List α) :
    ((split p true l).filter fun w => !w.isEmpty) = words p l ∧
      ∃ w r r', split p false l = w :: r ∧ l.splitOnP p = w :: r' ∧
        (r.filter fun w => !w.isEmpty) = r'.filter fun w => !w.isEmpty := by
  induction l with
  | nil => exact ⟨rfl, [], [], [], rfl, List.splitOnP_nil, rfl⟩
  | cons c l ih =>
    obtain ⟨htrue, w, r, r', hw, hw', hr⟩ := ih
    cases hc : p c with
    | true =>
      have hsplit : (c :: l).splitOnP p = [] :: l.splitOnP p := by
        rw [List.splitOnP_cons_eq_if_modifyHead, if_pos hc]
      refine ⟨?_, [], split p true l, l.splitOnP p, ?_, hsplit, htrue⟩
      · rw [split, if_pos hc, if_pos rfl, words_cons hc]
        exact htrue
      · rw [split, if_pos hc, if_neg Bool.false_ne_true]
    | false =>
      have hneg : ¬ p c = true := Bool.eq_false_iff.1 hc
      have hsplit : (c :: l).splitOnP p = (c :: w) :: r' := by
        rw [List.splitOnP_cons_eq_if_modifyHead, if_neg hneg, hw', List.modifyHead_cons]
      have hpieces (skip : Bool) : split p skip (c :: l) = (c :: w) :: r := by
        rw [split, if_neg hneg, hw, List.modifyHead_cons]
      refine ⟨?_, c :: w, r, r', hpieces false, hsplit, hr⟩
      rw [hpieces, words, hsplit, List.filter_cons, List.filter_cons, hr]

/-- No piece is empty but the first, when the last character is not a blank. -/
theorem split_full {l : List α} (h : ∃ c ∈ l.getLast?, p c = false) :
    (∀ w ∈ split p true l, w ≠ []) ∧ ∀ w ∈ (split p false l).tail, w ≠ [] := by
  induction l with
  | nil =>
    obtain ⟨c, hc, -⟩ := h
    cases hc
  | cons c l ih =>
    cases hc : p c with
    | true =>
      have hl : ∃ d ∈ l.getLast?, p d = false := by
        obtain ⟨d, hd, hp⟩ := h
        cases l with
        | nil =>
          have hlast : c = d := Option.some.inj hd
          rw [← hlast, hc] at hp
          cases hp
        | cons e l => exact ⟨d, by rwa [List.getLast?_cons_cons] at hd, hp⟩
      rw [split, split, if_pos hc, if_pos hc, if_pos rfl, if_neg Bool.false_ne_true]
      exact ⟨(ih hl).1, (ih hl).1⟩
    | false =>
      have hneg : ¬ p c = true := Bool.eq_false_iff.1 hc
      have htail : ∀ w ∈ (split p false l).tail, w ≠ [] := by
        cases l with
        | nil => exact fun w hw => absurd hw List.not_mem_nil
        | cons e l =>
          obtain ⟨d, hd, hp⟩ := h
          exact (ih ⟨d, by rwa [List.getLast?_cons_cons] at hd, hp⟩).2
      rw [split, split, if_neg hneg, if_neg hneg]
      obtain ⟨-, w, r, -, hw, -⟩ := split_spec (p := p) l
      rw [hw] at htail ⊢
      exact ⟨List.forall_mem_cons.2 ⟨List.cons_ne_nil _ _, htail⟩, htail⟩

/-- Of a text without blanks at its ends, the pieces are the words. -/
theorem split_bare {l : List α} (h : Bare p l) (hne : l ≠ []) : split p false l = words p l := by
  obtain ⟨-, w, r, r', hw, hw', hr⟩ := split_spec (p := p) l
  obtain ⟨c, hc⟩ := Option.isSome_iff_exists.1 (List.getLast?_isSome.2 hne)
  have htail := (split_full ⟨c, hc, h.2 c hc⟩).2
  have hfirst : w ≠ [] := by
    cases l with
    | nil => exact absurd rfl hne
    | cons d l =>
      have hd : ¬ p d = true := Bool.eq_false_iff.1 (h.1 d rfl)
      obtain ⟨-, v, s, -, hv, -⟩ := split_spec (p := p) l
      rw [split, if_neg hd, hv, List.modifyHead_cons] at hw
      rw [← (List.cons.inj hw).1]
      exact List.cons_ne_nil d v
  rw [hw] at htail ⊢
  have hall : ∀ v ∈ w :: r, (!v.isEmpty) = true := by
    intro v hv
    have hv' : v ≠ [] := by
      rcases List.mem_cons.1 hv with rfl | hv
      · exact hfirst
      · exact htail v hv
    rw [Bool.not_eq_true', ← Bool.not_eq_true, List.isEmpty_iff]
    exact hv'
  calc w :: r
      = (w :: r).filter fun v => !v.isEmpty := (List.filter_eq_self.2 hall).symm
    _ = (w :: r').filter fun v => !v.isEmpty := by rw [List.filter_cons, List.filter_cons, hr]
    _ = words p l := by rw [words, hw']

theorem splitOnP_map (f : α → β) (q : β → Bool) (l : List α) :
    (l.map f).splitOnP q = (l.splitOnP fun a => q (f a)).map (List.map f) := by
  induction l with
  | nil => rfl
  | cons a l ih =>
    rw [List.map_cons, List.splitOnP_cons_eq_if_modifyHead, List.splitOnP_cons_eq_if_modifyHead, ih]
    split
    · rfl
    · cases l.splitOnP fun a => q (f a) <;> rfl

theorem splitOnP_congr {q : α → Bool} {l : List α} (h : ∀ c ∈ l, p c = q c) :
    l.splitOnP p = l.splitOnP q := by
  induction l with
  | nil => rfl
  | cons c l ih =>
    rw [List.splitOnP_cons_eq_if_modifyHead, List.splitOnP_cons_eq_if_modifyHead,
      h c (List.mem_cons_self ..), ih fun d hd => h d (List.mem_cons_of_mem c hd)]

/-- The words of a text in other characters. -/
theorem words_map {f : α → β} {q : β → Bool} {l : List α} (h : ∀ c ∈ l, q (f c) = p c) :
    words q (l.map f) = (words p l).map (List.map f) := by
  rw [words, words, splitOnP_map, splitOnP_congr h, List.filter_map]
  refine congrArg (List.map _) (List.filter_congr fun w _ => ?_)
  cases w <;> rfl

/-- A word has characters of the text, none of them a blank. -/
theorem mem_words (hw : w ∈ words p l) : w ≠ [] ∧ ∀ c ∈ w, c ∈ l ∧ p c = false := by
  obtain ⟨hmem, hne⟩ := List.mem_filter.1 hw
  refine ⟨?_, fun c => mem_splitOnP hmem⟩
  rintro rfl
  cases hne

end Words
