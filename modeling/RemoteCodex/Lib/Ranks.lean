import Mathlib.Algebra.GroupWithZero.Nat
import Mathlib.Data.List.Sort

namespace Ranks
set_option autoImplicit true

/-- How many entries fall into each of `n` buckets. -/
def tally (f : α → Nat) (n : Nat) (l : List α) : List Nat :=
  (List.range n).map fun i => l.countP fun a => decide (f a = i)

variable {f : α → Nat}

theorem length_tally (f : α → Nat) (n : Nat) (l : List α) : (tally f n l).length = n := by
  rw [tally, List.length_map, List.length_range]

theorem tally_nil (f : α → Nat) (n : Nat) : tally f n [] = List.replicate n 0 := by
  simp only [tally, List.countP_nil, List.map_const', List.length_range]

/-- One more entry is counted in its bucket. -/
theorem tally_concat (l : List α) (a : α) :
    tally f n (l ++ [a]) = (tally f n l).modify (f a) (· + 1) := by
  apply List.ext_getElem
  · rw [List.length_modify, length_tally, length_tally]
  · intro i hi hi'
    simp only [tally, List.getElem_modify, List.getElem_map, List.getElem_range,
      List.countP_append, List.countP_singleton, decide_eq_true_eq]
    split <;> rfl

/-- The first buckets together hold the entries below. -/
theorem sum_take_tally (l : List α) (hk : k ≤ n) :
    ((tally f n l).take k).sum = l.countP fun a => decide (f a < k) := by
  rw [tally, ← List.map_take, List.take_range, Nat.min_eq_left hk]
  clear hk
  induction k with
  | zero =>
    simp only [List.range_zero, List.map_nil, List.sum_nil, Nat.not_lt_zero, decide_false,
      List.countP_false, Function.const_apply]
  | succ k ih =>
    rw [List.range_succ, List.map_append, List.sum_append, ih, List.map_singleton,
      List.sum_singleton]
    clear ih
    induction l with
    | nil => rfl
    | cons a l ih =>
      simp only [List.countP_cons, decide_eq_true_eq]
      split <;> split <;> split <;> omega

/-- All buckets together hold all entries. -/
theorem sum_tally (l : List α) (h : ∀ a ∈ l, f a < n) : (tally f n l).sum = l.length := by
  have hall := sum_take_tally (f := f) l (Nat.le_refl n)
  rw [List.take_of_length_le (Nat.le_of_eq (length_tally f n l))] at hall
  rw [hall, List.countP_eq_length]
  exact fun a ha => decide_eq_true (h a ha)

/-- In an ordered list a predicate that extends downwards holds of as many first entries as
there are entries that satisfy it. -/
theorem getElem_iff {r : α → α → Prop} {p : α → Bool} {l : List α} (hs : l.Pairwise r)
    (hp : ∀ a b, r a b → p b = true → p a = true) (hk : k < l.length) :
    p l[k] = true ↔ k < l.countP p := by
  induction l generalizing k with
  | nil => cases hk
  | cons a l ih =>
    obtain ⟨ha, hl⟩ := List.pairwise_cons.1 hs
    by_cases hpa : p a = true
    · rw [List.countP_cons_of_pos hpa]
      cases k with
      | zero => exact iff_of_true hpa (Nat.zero_lt_succ _)
      | succ k =>
        rw [List.getElem_cons_succ, ih hl, Nat.succ_lt_succ_iff]
    · have hnone : ∀ b ∈ l, ¬ p b = true := fun b hb hpb => hpa (hp a b (ha b hb) hpb)
      rw [List.countP_cons_of_neg hpa, List.countP_eq_zero.2 hnone]
      refine iff_of_false ?_ (Nat.not_lt_zero k)
      cases k with
      | zero => exact hpa
      | succ k => exact hnone _ (List.getElem_mem _)

/-- The bucket at which the cumulative count reaches a rank is that of the entry of the rank. -/
theorem bucket_eq {m : List α} (hm : m.Perm l) (hs : m.Pairwise fun a b => f a ≤ f b)
    (hlow : (l.countP fun a => decide (f a < i)) ≤ k)
    (hhigh : k < l.countP fun a => decide (f a < i + 1)) (hk : k < m.length) : f m[k] = i := by
  have hcount (j : Nat) : f m[k] < j ↔ k < l.countP fun a => decide (f a < j) := by
    rw [← hm.countP_eq, ← getElem_iff hs _ hk, decide_eq_true_eq]
    intro a b hab hb
    exact decide_eq_true (Nat.lt_of_le_of_lt hab (of_decide_eq_true hb))
  have hge : ¬ f m[k] < i := fun hlt => Nat.not_lt.2 hlow ((hcount i).1 hlt)
  have hlt := (hcount (i + 1)).2 hhigh
  omega

end Ranks
