import Mathlib.Data.List.Basic

/-! Reading up to a delimiter from a source that gives what it has in pieces of any size, with a
limit on what is taken. -/

namespace Buffered
set_option autoImplicit true

/-- What a source gives when it is asked for more. -/
inductive Delivery (α ε : Type) where
  | piece (first : α) (rest : List α)
  | failed (e : ε)

/-- What is still to come of a source. -/
def contents : List (Delivery α ε) → List α
  | [] => []
  | .piece x xs :: ds => x :: xs ++ contents ds
  | .failed _ :: ds => contents ds

/-- The source with what is left of a piece. -/
def push : List α → List (Delivery α ε) → List (Delivery α ε)
  | [], ds => ds
  | x :: xs, ds => .piece x xs :: ds

structure Read (α ε : Type) where
  line : List α
  failure : Option ε
  rest : List (Delivery α ε)

/-- `read_until` on a reader that `take` limits; a failure with `again` is tried again. -/
def readUntil [BEq α] (again : ε → Bool) (delim : α) : Nat → List (Delivery α ε) → Read α ε
  | _, [] => ⟨[], none, []⟩
  | 0, d :: ds => ⟨[], none, d :: ds⟩
  | limit + 1, .failed e :: ds =>
    if again e then readUntil again delim (limit + 1) ds else ⟨[], some e, ds⟩
  | limit + 1, .piece x xs :: ds =>
    let available := (x :: xs).take (limit + 1)
    match available.idxOf? delim with
    | some i => ⟨available.take (i + 1), none, push ((x :: xs).drop (i + 1)) ds⟩
    | none =>
      -- when the piece is longer than the limit, the next turn finds the limit used up
      if xs.length ≤ limit then
        let r := readUntil again delim (limit + 1 - available.length) ds
        { r with line := available ++ r.line }
      else ⟨available, none, push ((x :: xs).drop (limit + 1)) ds⟩

/-- The first line with the delimiter at its end, or all there is. -/
def firstLine [BEq α] (delim : α) : List α → List α
  | [] => []
  | x :: l => if x == delim then [x] else x :: firstLine delim l

attribute [local simp] contents push firstLine readUntil

@[simp] theorem contents_push (l : List α) (ds : List (Delivery α ε)) :
    contents (push l ds) = l ++ contents ds := by
  cases l <;> rfl

theorem failed_mem_push (h : Delivery.failed e ∈ push l ds) : Delivery.failed e ∈ ds := by
  cases l with
  | nil => exact h
  | cons x l =>
    rcases List.mem_cons.1 h with h | h
    · cases h
    · exact h

/-- Every failure is one that is tried again. -/
def Steady (again : ε → Bool) (ds : List (Delivery α ε)) : Prop :=
  ∀ e, Delivery.failed e ∈ ds → again e = true

theorem Steady.tail {again : ε → Bool} {ds : List (Delivery α ε)}
    (h : Steady again (delivery :: ds)) :
    Steady again ds :=
  fun e he => h e (List.mem_cons_of_mem _ he)

theorem Steady.push {again : ε → Bool} {ds : List (Delivery α ε)}
    (h : Steady again ds) (l : List α) :
    Steady again (push l ds) :=
  fun e he => h e (failed_mem_push he)

variable [BEq α]

theorem firstLine_found {l : List α} (h : l.idxOf? d = some i) (m : List α) :
    firstLine d (l ++ m) = l.take (i + 1) := by
  induction l generalizing i with
  | nil => cases h
  | cons x l ih =>
    rw [List.idxOf?_cons] at h
    rw [List.cons_append, firstLine]
    split at h
    · next hx =>
      cases h
      rw [if_pos hx]
      rfl
    · next hx =>
      obtain ⟨j, hj, rfl⟩ := Option.map_eq_some_iff.1 h
      rw [if_neg hx, ih hj]
      rfl

theorem firstLine_missing {l : List α} (h : l.idxOf? d = none) (m : List α) :
    firstLine d (l ++ m) = l ++ firstLine d m := by
  induction l with
  | nil => rfl
  | cons x l ih =>
    rw [List.idxOf?_cons] at h
    rw [List.cons_append, firstLine]
    split at h
    · cases h
    · next hx => rw [if_neg hx, ih (Option.map_eq_none_iff.1 h), List.cons_append]

theorem prefix_firstLine (d : α) (l : List α) : firstLine d l <+: l := by
  induction l with
  | nil => exact List.prefix_rfl
  | cons x l ih =>
    rw [firstLine]
    split
    · exact ⟨l, rfl⟩
    · exact List.cons_prefix_cons.2 ⟨rfl, ih⟩

theorem firstLine_take (d : α) (l : List α) (n : Nat) :
    firstLine d (l.take n) = (firstLine d l).take n := by
  induction l generalizing n with
  | nil => simp
  | cons x l ih =>
    cases n with
    | zero => rfl
    | succ n =>
      rw [List.take_succ_cons, firstLine, firstLine]
      split
      · rw [List.take_succ_cons, List.take_nil]
      · rw [ih, List.take_succ_cons]

variable {again : ε → Bool} {d : α}

/-- The turn with a piece that has the delimiter within the limit. -/
theorem readUntil_found {x : α} {xs : List α} {ds : List (Delivery α ε)}
    (h : ((x :: xs).take (n + 1)).idxOf? d = some i) :
    readUntil again d (n + 1) (.piece x xs :: ds) =
      ⟨firstLine d ((x :: xs).take (n + 1)), none,
        push ((x :: xs).drop (firstLine d ((x :: xs).take (n + 1))).length) ds⟩ := by
  have hline := firstLine_found h []
  rw [List.append_nil] at hline
  have hi : i + 1 ≤ ((x :: xs).take (n + 1)).length := by
    obtain ⟨hlt, -⟩ := List.findIdx?_eq_some_iff_getElem.1 h
    exact hlt
  rw [readUntil]
  simp only [h]
  rw [hline, List.length_take_of_le hi]

/-- The turn with a piece without it, that is no longer than the limit. -/
theorem readUntil_missing {x : α} {xs : List α} {ds : List (Delivery α ε)}
    (h : ((x :: xs).take (n + 1)).idxOf? d = none) (hn : xs.length ≤ n) :
    readUntil again d (n + 1) (.piece x xs :: ds) =
      { readUntil again d (n - xs.length) ds with
        line := x :: xs ++ (readUntil again d (n - xs.length) ds).line } := by
  have htake : (x :: xs).take (n + 1) = x :: xs := List.take_of_length_le (Nat.succ_le_succ hn)
  have hlen : n + 1 - (x :: xs).length = n - xs.length := Nat.succ_sub_succ ..
  rw [readUntil]
  simp only [h]
  rw [if_pos hn, htake, hlen]

/-- The turn with a piece without it, that is longer. -/
theorem readUntil_cut {x : α} {xs : List α} {ds : List (Delivery α ε)}
    (h : ((x :: xs).take (n + 1)).idxOf? d = none) (hn : ¬ xs.length ≤ n) :
    readUntil again d (n + 1) (.piece x xs :: ds) =
      ⟨(x :: xs).take (n + 1), none, push ((x :: xs).drop (n + 1)) ds⟩ := by
  rw [readUntil]
  simp only [h]
  rw [if_neg hn]

/-- No element is lost, whatever fails. -/
theorem readUntil_contents (again : ε → Bool) (d : α) (n : Nat) (ds : List (Delivery α ε)) :
    (readUntil again d n ds).line ++ contents (readUntil again d n ds).rest = contents ds := by
  induction ds generalizing n with
  | nil => cases n <;> rfl
  | cons delivery ds ih =>
    cases n with
    | zero => rfl
    | succ n =>
      cases delivery with
      | failed e =>
        rw [readUntil]
        split
        · exact ih _
        · rfl
      | piece x xs =>
        cases h : ((x :: xs).take (n + 1)).idxOf? d with
        | some i =>
          rw [readUntil_found h, contents_push, contents]
          obtain ⟨t, ht⟩ :=
            (prefix_firstLine d ((x :: xs).take (n + 1))).trans (List.take_prefix ..)
          generalize firstLine d ((x :: xs).take (n + 1)) = line at ht ⊢
          rw [← ht, List.drop_left, List.append_assoc]
        | none =>
          by_cases hn : xs.length ≤ n
          · rw [readUntil_missing h hn, List.append_assoc, ih, contents]
          · rw [readUntil_cut h hn, contents_push, ← List.append_assoc, List.take_append_drop,
              contents]

/-- At most the limit is taken, whatever fails. -/
theorem readUntil_length (again : ε → Bool) (d : α) (n : Nat) (ds : List (Delivery α ε)) :
    (readUntil again d n ds).line.length ≤ n := by
  induction ds generalizing n with
  | nil => exact Nat.zero_le _
  | cons delivery ds ih =>
    cases n with
    | zero => exact Nat.le_refl _
    | succ n =>
      cases delivery with
      | failed e =>
        rw [readUntil]
        split
        · exact ih _
        · exact Nat.zero_le _
      | piece x xs =>
        cases h : ((x :: xs).take (n + 1)).idxOf? d with
        | some i =>
          rw [readUntil_found h]
          exact Nat.le_trans (prefix_firstLine d _).length_le (List.length_take_le ..)
        | none =>
          by_cases hn : xs.length ≤ n
          · rw [readUntil_missing h hn, List.length_append, List.length_cons]
            have := ih (n - xs.length)
            omega
          · rw [readUntil_cut h hn]
            exact List.length_take_le ..

/-- How the source is cut into pieces does not matter. -/
theorem Steady.readUntil {ds : List (Delivery α ε)} (h : Steady again ds) (n : Nat) :
    (readUntil again d n ds).line = (firstLine d (contents ds)).take n ∧
      (readUntil again d n ds).failure = none ∧ Steady again (readUntil again d n ds).rest := by
  induction ds generalizing n with
  | nil => exact ⟨by rw [contents, firstLine, List.take_nil]; rfl, rfl, h⟩
  | cons delivery ds ih =>
    cases n with
    | zero => exact ⟨List.take_zero.symm, rfl, h⟩
    | succ n =>
      cases delivery with
      | failed e =>
        rw [Buffered.readUntil, if_pos (h e (List.mem_cons_self ..))]
        exact ih h.tail _
      | piece x xs =>
        cases hi : ((x :: xs).take (n + 1)).idxOf? d with
        | some i =>
          rw [readUntil_found hi]
          refine ⟨?_, rfl, h.tail.push _⟩
          have hline := firstLine_found hi []
          rw [List.append_nil] at hline
          rw [← firstLine_take, contents, List.take_append, firstLine_found hi, hline]
        | none =>
          by_cases hn : xs.length ≤ n
          · rw [readUntil_missing hi hn]
            obtain ⟨hline, hfail, hrest⟩ := ih h.tail (n - xs.length)
            refine ⟨?_, hfail, hrest⟩
            rw [List.take_of_length_le (Nat.succ_le_succ hn)] at hi
            rw [contents, firstLine_missing hi, List.take_append,
              List.take_of_length_le (Nat.succ_le_succ hn), hline, List.length_cons,
              Nat.succ_sub_succ]
          · rw [readUntil_cut hi hn]
            refine ⟨?_, rfl, h.tail.push _⟩
            have hover : n + 1 - (x :: xs).length = 0 :=
              Nat.sub_eq_zero_of_le (Nat.succ_le_succ (Nat.le_of_not_le hn))
            rw [← firstLine_take, contents, List.take_append, firstLine_missing hi, hover,
              List.take_zero, firstLine, List.append_nil]

theorem Steady.read_contents {ds : List (Delivery α ε)} (h : Steady again ds) (n : Nat) :
    contents (Buffered.readUntil again d n ds).rest =
      (contents ds).drop ((firstLine d (contents ds)).take n).length := by
  rw [← (h.readUntil n).1, ← readUntil_contents again d n ds, List.drop_left]

variable [LawfulBEq α]

theorem firstLine_ended {b : List α} (h : d ∉ b) (l : List α) :
    firstLine d (b ++ d :: l) = b ++ [d] := by
  rw [firstLine_missing (List.idxOf?_eq_none_iff.2 h), firstLine, if_pos (beq_self_eq_true d)]

theorem firstLine_unended {l : List α} (h : d ∉ l) : firstLine d l = l := by
  have hline := firstLine_missing (List.idxOf?_eq_none_iff.2 h) []
  rwa [List.append_nil, firstLine, List.append_nil] at hline

end Buffered
