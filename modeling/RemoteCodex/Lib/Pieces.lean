import Mathlib.Data.List.Basic

/-! Texts that are split at a separator into pieces, and stripped at their ends. -/

namespace Pieces
set_option autoImplicit true

/-- The list without the elements at its ends that satisfy the predicate. -/
def strip (p : α → Bool) (l : List α) : List α := ((l.dropWhile p).reverse.dropWhile p).reverse

theorem dropWhile_congr {p q : α → Bool} {l : List α} (h : ∀ x ∈ l, p x = q x) :
    l.dropWhile p = l.dropWhile q := by
  induction l with
  | nil => rfl
  | cons x l ih =>
    rw [List.dropWhile_cons, List.dropWhile_cons, h x (List.mem_cons_self ..),
      ih fun y hy => h y (List.mem_cons_of_mem _ hy)]

theorem strip_congr {p q : α → Bool} {l : List α} (h : ∀ x ∈ l, p x = q x) :
    strip p l = strip q l := by
  rw [strip, strip, dropWhile_congr h, dropWhile_congr]
  intro x hx
  exact h x ((List.dropWhile_suffix q).subset (List.mem_reverse.1 hx))

theorem strip_subset (p : α → Bool) (l : List α) : strip p l ⊆ l := by
  intro x hx
  have hdrop := (List.dropWhile_suffix p).subset (List.mem_reverse.1 hx)
  exact (List.dropWhile_suffix p).subset (List.mem_reverse.1 hdrop)

/-- Neither end satisfies the predicate. -/
def Bare (p : α → Bool) (l : List α) : Prop :=
  (∀ x ∈ l.head?, p x = false) ∧ ∀ x ∈ l.getLast?, p x = false

theorem dropWhile_of_head {l : List α} (h : ∀ x ∈ l.head?, p x = false) :
    l.dropWhile p = l := by
  cases l with
  | nil => rfl
  | cons x l => exact List.dropWhile_cons_of_neg (Bool.eq_false_iff.1 (h x rfl))

theorem head_dropWhile (p : α → Bool) (l : List α) :
    ∀ x ∈ (l.dropWhile p).head?, p x = false := by
  intro x hx
  have hnot := List.head?_dropWhile_not p l
  rw [Option.mem_def.1 hx] at hnot
  exact hnot

theorem Bare.strip_eq (h : Bare p l) : strip p l = l := by
  rw [strip, dropWhile_of_head h.1, dropWhile_of_head, List.reverse_reverse]
  rw [List.head?_reverse]
  exact h.2

theorem strip_bare (p : α → Bool) (l : List α) : Bare p (strip p l) := by
  constructor
  · have hpre : strip p l <+: l.dropWhile p := by
      have hsuf := List.dropWhile_suffix (l := (l.dropWhile p).reverse) p
      rw [← List.reverse_prefix, List.reverse_reverse] at hsuf
      exact hsuf
    intro x hx
    apply head_dropWhile p l
    cases hs : strip p l with
    | nil => rw [hs] at hx; cases hx
    | cons y s =>
      rw [hs] at hx hpre
      obtain ⟨t, ht⟩ := hpre
      rw [← ht]
      exact hx
  · rw [strip, List.getLast?_reverse]
    exact head_dropWhile p _

/-- A piece has only elements of the whole, and no separator. -/
theorem mem_splitOnP {p : α → Bool} {l : List α} (hp : piece ∈ l.splitOnP p) (hx : x ∈ piece) :
    x ∈ l ∧ p x = false := by
  induction l generalizing piece with
  | nil =>
    rw [List.splitOnP_nil, List.mem_singleton] at hp
    rw [hp] at hx
    cases hx
  | cons y l ih =>
    rw [List.splitOnP_cons_eq_if_modifyHead] at hp
    cases hy : p y with
    | true =>
      rw [hy, if_pos rfl] at hp
      rcases List.mem_cons.1 hp with rfl | hp
      · cases hx
      · exact ⟨List.mem_cons_of_mem _ (ih hp hx).1, (ih hp hx).2⟩
    | false =>
      rw [hy, if_neg Bool.false_ne_true] at hp
      cases hl : l.splitOnP p with
      | nil => exact absurd hl (List.splitOnP_ne_nil p l)
      | cons first rest =>
        rw [hl, List.modifyHead_cons] at hp
        have hrest {q : List α} (hq : q ∈ first :: rest) (hm : x ∈ q) :
            x ∈ y :: l ∧ p x = false := by
          rw [← hl] at hq
          exact ⟨List.mem_cons_of_mem _ (ih hq hm).1, (ih hq hm).2⟩
        rcases List.mem_cons.1 hp with rfl | hp
        · rcases List.mem_cons.1 hx with rfl | hx
          · exact ⟨List.mem_cons_self .., hy⟩
          · exact hrest (List.mem_cons_self ..) hx
        · exact hrest (List.mem_cons_of_mem _ hp) hx

theorem mem_piece [BEq α] [LawfulBEq α] {sep : α} {l : List α} (hp : piece ∈ l.splitOn sep)
    (hx : x ∈ piece) : x ∈ l ∧ x ≠ sep := by
  rw [List.splitOn_eq_splitOnP] at hp
  obtain ⟨hl, hsep⟩ := mem_splitOnP hp hx
  exact ⟨hl, beq_eq_false_iff_ne.1 hsep⟩

/-- What is not a separator is in a piece. -/
theorem exists_piece [BEq α] [LawfulBEq α] {sep x : α} {l : List α} (hx : x ∈ l) (hne : x ≠ sep) :
    ∃ piece ∈ l.splitOn sep, x ∈ piece := by
  induction l with
  | nil => cases hx
  | cons y l ih =>
    obtain ⟨first, rest, hl⟩ := List.exists_cons_of_ne_nil (List.splitOnP_ne_nil (· == sep) l)
    rw [← List.splitOn_eq_splitOnP] at hl
    rw [List.splitOn_cons_eq_if_modifyHead, hl]
    rw [hl] at ih
    split
    · next hy =>
      have hmem : x ∈ l :=
        (List.mem_cons.1 hx).resolve_left fun h => hne (h.trans (beq_iff_eq.1 hy))
      obtain ⟨piece, hp, hxp⟩ := ih hmem
      exact ⟨piece, List.mem_cons_of_mem _ hp, hxp⟩
    · rw [List.modifyHead_cons]
      rcases List.mem_cons.1 hx with rfl | hmem
      · exact ⟨_, List.mem_cons_self .., List.mem_cons_self ..⟩
      · obtain ⟨piece, hp, hxp⟩ := ih hmem
        rcases List.mem_cons.1 hp with rfl | hp
        · exact ⟨_, List.mem_cons_self .., List.mem_cons_of_mem _ hxp⟩
        · exact ⟨piece, List.mem_cons_of_mem _ hp, hxp⟩

/-- Pieces without the separator are those of their join. -/
theorem splitOn_eq_iff [BEq α] [LawfulBEq α] {sep : α} {l : List α} {pieces : List (List α)}
    (hne : pieces ≠ []) (h : ∀ p ∈ pieces, sep ∉ p) :
    l.splitOn sep = pieces ↔ l = [sep].intercalate pieces := by
  constructor
  · rintro rfl
    exact (List.intercalate_splitOn sep).symm
  · rintro rfl
    exact List.splitOn_intercalate sep h hne

theorem map_intercalate (f : α → β) (sep : List α) (l : List (List α)) :
    (sep.intercalate l).map f = (sep.map f).intercalate (l.map (List.map f)) := by
  induction l with
  | nil => rfl
  | cons x l ih =>
    cases l with
    | nil => rw [List.intercalate_singleton, List.map_singleton, List.intercalate_singleton]
    | cons y l =>
      rw [List.intercalate_cons_cons, List.map_append, List.map_append, ih, List.map_cons,
        List.map_cons, List.map_cons, List.intercalate_cons_cons]

/-- A start without the separator belongs to the first piece. -/
theorem splitOn_append [BEq α] [LawfulBEq α] {sep : α} {start : List α} (h : sep ∉ start)
    (l : List α) : (start ++ l).splitOn sep = (l.splitOn sep).modifyHead (start ++ ·) := by
  induction start with
  | nil =>
    rw [List.nil_append]
    cases l.splitOn sep <;> rfl
  | cons x start ih =>
    have hx : (x == sep) = false := by
      rw [beq_eq_false_iff_ne]
      rintro rfl
      exact h (List.mem_cons_self ..)
    rw [List.cons_append, List.splitOn_cons_eq_if_modifyHead, hx, if_neg Bool.false_ne_true,
      ih fun hm => h (List.mem_cons_of_mem _ hm), List.modifyHead_modifyHead]
    rfl

/-- A start without separators is a start of the first piece. -/
theorem prefix_first {p : α → Bool} {l m w : List α} {r : List (List α)}
    (hm : ∀ c ∈ m, p c = false) (h : l.splitOnP p = w :: r) : m <+: w ↔ m <+: l := by
  induction l generalizing m w r with
  | nil =>
    rw [List.splitOnP_nil, List.cons.injEq] at h
    rw [h.1]
  | cons c l ih =>
    cases m with
    | nil => exact iff_of_true List.nil_prefix List.nil_prefix
    | cons d m =>
      obtain ⟨hd, hm⟩ := List.forall_mem_cons.1 hm
      rw [List.splitOnP_cons_eq_if_modifyHead] at h
      split at h
      · next hc =>
        rw [← (List.cons.inj h).1, List.cons_prefix_cons]
        refine iff_of_false (fun hp => List.cons_ne_nil d m (List.prefix_nil.1 hp)) ?_
        rintro ⟨rfl, -⟩
        rw [hd] at hc
        cases hc
      · obtain ⟨v, r', hl⟩ := List.exists_cons_of_ne_nil (List.splitOnP_ne_nil p l)
        rw [hl, List.modifyHead_cons] at h
        rw [← (List.cons.inj h).1, List.cons_prefix_cons, List.cons_prefix_cons, ih hm hl]

/-- A start of a later piece follows a separator. -/
theorem prefix_later {p : α → Bool} {l m w : List α} {r : List (List α)}
    (hm : ∀ c ∈ m, p c = false) (h : l.splitOnP p = w :: r) :
    (∃ q ∈ r, m <+: q) ↔ ∃ c, p c = true ∧ (c :: m) <:+: l := by
  induction l generalizing w r with
  | nil =>
    rw [List.splitOnP_nil, List.cons.injEq] at h
    rw [← h.2]
    refine iff_of_false ?_ ?_
    · rintro ⟨q, hq, -⟩
      cases hq
    · rintro ⟨c, -, hc⟩
      cases List.infix_nil.1 hc
  | cons c l ih =>
    obtain ⟨v, r', hl⟩ := List.exists_cons_of_ne_nil (List.splitOnP_ne_nil p l)
    rw [List.splitOnP_cons_eq_if_modifyHead, hl] at h
    split at h
    · next hc =>
      rw [← (List.cons.inj h).2, List.exists_mem_cons_iff, prefix_first hm hl, ih hl]
      simp only [List.infix_cons_iff, List.cons_prefix_cons]
      constructor
      · rintro (hpre | ⟨d, hd, hin⟩)
        · exact ⟨c, hc, .inl ⟨rfl, hpre⟩⟩
        · exact ⟨d, hd, .inr hin⟩
      · rintro ⟨d, hd, ⟨-, hpre⟩ | hin⟩
        · exact .inl hpre
        · exact .inr ⟨d, hd, hin⟩
    · next hc =>
      rw [List.modifyHead_cons] at h
      rw [← (List.cons.inj h).2, ih hl]
      refine exists_congr fun d => and_congr_right fun hd => ?_
      rw [List.infix_cons_iff, List.cons_prefix_cons]
      refine ⟨.inr, fun hor => hor.resolve_left ?_⟩
      rintro ⟨rfl, -⟩
      exact hc hd

end Pieces
