import Mathlib.Data.List.Basic
import Mathlib.Data.List.Count

namespace Ticks
set_option autoImplicit true

/-- The time that a history has reached: the number of its events that advance the clock. -/
def time (tick : ε → Bool) (es : List ε) : Nat := es.countP tick

variable {tick : ε → Bool}

theorem time_append (es fs : List ε) : time tick (es ++ fs) = time tick es + time tick fs :=
  List.countP_append

theorem time_le (es fs : List ε) : time tick es ≤ time tick (es ++ fs) := by
  rw [time_append]
  exact Nat.le_add_right ..

theorem time_tick (es fs : List ε) (h : tick e = true) :
    time tick (es ++ e :: fs) = time tick es + 1 + time tick fs := by
  have hcons : time tick (e :: fs) = time tick fs + 1 := List.countP_cons_of_pos h
  rw [time_append, hcons]
  omega

theorem time_snoc (es : List ε) (h : tick e = true) : time tick (es ++ [e]) = time tick es + 1 :=
  time_tick es [] h

theorem time_still (es : List ε) (h : tick e = false) : time tick (es ++ [e]) = time tick es := by
  have hnone : time tick [e] = 0 := List.countP_cons_of_neg (by rw [h]; exact Bool.false_ne_true)
  rw [time_append, hnone, Nat.add_zero]

/-- Nothing ticks while the time stands still. -/
theorem still (h : time tick (es ++ fs) = time tick es) (he : e ∈ fs) : tick e = false := by
  have hzero : fs.countP tick = 0 := by
    rw [time_append] at h
    exact Nat.left_eq_add.1 h.symm
  exact Bool.not_eq_true _ ▸ List.countP_eq_zero.1 hzero e he

/-- An event that ticks is known by its time. -/
theorem unique (h : es = before ++ a :: after) (h' : es = before' ++ b :: after')
    (ha : tick a = true) (hb : tick b = true) (ht : time tick before = time tick before') :
    before = before' ∧ a = b := by
  rw [h] at h'
  rcases List.append_eq_append_iff.1 h' with ⟨mid, rfl, hmid⟩ | ⟨mid, rfl, hmid⟩
  · cases mid with
    | nil =>
      cases hmid
      exact ⟨(List.append_nil _).symm, rfl⟩
    | cons x mid =>
      cases hmid
      rw [time_tick before mid ha] at ht
      omega
  · cases mid with
    | nil =>
      cases hmid
      exact ⟨List.append_nil _, rfl⟩
    | cons x mid =>
      cases hmid
      rw [time_tick before' mid hb] at ht
      omega

end Ticks
