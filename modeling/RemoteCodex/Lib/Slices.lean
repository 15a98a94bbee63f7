import Mathlib.Data.List.GetD

namespace Slices
set_option autoImplicit true

/-- The entries from one offset up to another. -/
def slice (l : List α) (start stop : Nat) : List α := (l.drop start).take (stop - start)

variable {l : List α} {a b c : Nat}

theorem slice_length (h : b ≤ l.length) : (slice l a b).length = b - a := by
  rw [slice, List.length_take, List.length_drop]
  omega

theorem slice_all (l : List α) : slice l 0 l.length = l := by
  rw [slice, List.drop_zero, Nat.sub_zero, List.take_length]

/-- Neighbouring slices. -/
theorem slice_append_slice (hab : a ≤ b) (hbc : b ≤ c) :
    slice l a b ++ slice l b c = slice l a c := by
  have hb : l.drop b = (l.drop a).drop (b - a) := by
    rw [List.drop_drop, Nat.add_sub_cancel' hab]
  have hc : c - a = (b - a) + (c - b) := by omega
  rw [slice, slice, slice, hb, hc, List.take_add]

theorem slice_append_drop (hab : a ≤ b) : slice l a b ++ l.drop b = l.drop a := by
  have hb : l.drop b = (l.drop a).drop (b - a) := by
    rw [List.drop_drop, Nat.add_sub_cancel' hab]
  rw [slice, hb, List.take_append_drop]

theorem slice_cons (hab : a < b) (ha : a < l.length) (d : α) :
    slice l a b = l.getD a d :: slice l (a + 1) b := by
  have hb : b - a = (b - (a + 1)) + 1 := by omega
  rw [slice, slice, List.drop_eq_getElem_cons ha, hb, List.take_succ_cons,
    List.getD_eq_getElem l d ha]

theorem slice_self (l : List α) (a : Nat) : slice l a a = [] := by
  rw [slice, Nat.sub_self, List.take_zero]

theorem slice_slice {d : Nat} (h : a + d ≤ b) :
    slice (slice l a b) c d = slice l (a + c) (a + d) := by
  rw [slice, slice, slice, List.drop_take, List.take_take, List.drop_drop]
  have hd : min (d - c) (b - a - c) = a + d - (a + c) := by omega
  rw [hd]

variable {β : Type} {f : α → List β} {k : Nat}

theorem drop_flatMap (hf : ∀ x, (f x).length = k) (l : List α) (a : Nat) :
    (l.flatMap f).drop (a * k) = (l.drop a).flatMap f := by
  induction a generalizing l with
  | zero => rw [Nat.zero_mul, List.drop_zero, List.drop_zero]
  | succ a ih =>
    cases l with
    | nil => rw [List.flatMap_nil, List.drop_nil, List.drop_nil, List.flatMap_nil]
    | cons x l =>
      rw [Nat.succ_mul, Nat.add_comm, ← List.drop_drop, List.flatMap_cons, ← hf x, List.drop_left,
        hf x, ih, List.drop_succ_cons]

theorem take_flatMap (hf : ∀ x, (f x).length = k) (l : List α) (a : Nat) :
    (l.flatMap f).take (a * k) = (l.take a).flatMap f := by
  induction a generalizing l with
  | zero => rw [Nat.zero_mul, List.take_zero, List.take_zero, List.flatMap_nil]
  | succ a ih =>
    cases l with
    | nil => rw [List.flatMap_nil, List.take_nil, List.take_nil, List.flatMap_nil]
    | cons x l =>
      rw [Nat.succ_mul, Nat.add_comm, List.take_add, List.flatMap_cons, ← hf x, List.take_left,
        List.drop_left, hf x, ih, List.take_succ_cons, List.flatMap_cons]

/-- A slice of blocks of one size. -/
theorem slice_flatMap (hf : ∀ x, (f x).length = k) (l : List α) (a b : Nat) :
    slice (l.flatMap f) (a * k) (b * k) = (slice l a b).flatMap f := by
  rw [slice, slice, drop_flatMap hf, ← Nat.sub_mul, take_flatMap hf]

end Slices
