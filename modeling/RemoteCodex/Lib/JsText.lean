import RemoteCodex.Lib.Decimal
import Mathlib.Tactic.Ring

/-! The code units of texts, and numbers that are written in decimal digits. -/

namespace Js
set_option autoImplicit true

/-- The UTF-16 code units of a character. -/
def units (c : Char) : Str :=
  if c.toNat < 0x10000 then [unit c]
  else [UInt16.ofNat (0xd800 + (c.toNat - 0x10000) / 0x400),
    UInt16.ofNat (0xdc00 + (c.toNat - 0x10000) % 0x400)]

def utf16 (s : List Char) : Str := s.flatMap units

def Ascii (s : List Char) : Prop := ∀ c ∈ s, c.toNat < 128

instance (s : List Char) : Decidable (Ascii s) :=
  List.decidableBAll (fun c : Char => c.toNat < 128) s

theorem ascii_cons : Ascii (c :: s) ↔ c.toNat < 128 ∧ Ascii s := List.forall_mem_cons

/-- What the 128 characters have in common. -/
theorem ascii_char {P : Char → Prop} (h : ∀ n < 128, P (Char.ofNat n)) {c : Char}
    (hc : c.toNat < 128) : P c := by
  have hn := h c.toNat hc
  rwa [Char.ofNat_toNat] at hn

theorem unit_toNat_ascii {c : Char} (h : c.toNat < 128) : (unit c).toNat = c.toNat :=
  UInt16.toNat_ofNat_of_lt' (by simp only [UInt16.size]; omega)

theorem unit_inj {c d : Char} (hc : c.toNat < 128) (hd : d.toNat < 128) :
    unit c = unit d ↔ c = d := by
  constructor
  · intro h
    have hn := congrArg UInt16.toNat h
    rw [unit_toNat_ascii hc, unit_toNat_ascii hd] at hn
    exact Char.toNat_inj.1 hn
  · rintro rfl
    rfl

theorem utf16_ascii (h : Ascii s) : utf16 s = s.map unit := by
  induction s with
  | nil => rfl
  | cons c s ih =>
    obtain ⟨hc, hs⟩ := ascii_cons.1 h
    rw [utf16, List.flatMap_cons, units, if_pos (by omega), List.singleton_append]
    exact congrArg (unit c :: ·) (ih hs)

theorem toNat_lt_planes (c : Char) : c.toNat < 0x110000 := by
  rcases c.valid with hv | hv
  · exact Nat.lt_trans hv (by decide)
  · exact hv.2

/-- A character whose first code unit is below 128 is that one. -/
theorem units_ascii {c d : Char} {rest rest' : Str} (hd : d.toNat < 128)
    (h : units c ++ rest = unit d :: rest') : c = d ∧ rest = rest' := by
  have hunit := unit_toNat_ascii hd
  unfold units at h
  split at h
  · next hc =>
    obtain ⟨hcd, hrest⟩ := List.cons.inj h
    have hn := congrArg UInt16.toNat hcd
    rw [hunit, unit, UInt16.toNat_ofNat_of_lt' (by simp only [UInt16.size]; omega)] at hn
    exact ⟨Char.toNat_inj.1 hn, hrest⟩
  · next hc =>
    have hmax := toNat_lt_planes c
    have hn := congrArg UInt16.toNat (List.cons.inj h).1
    rw [hunit, UInt16.toNat_ofNat_of_lt' (by simp only [UInt16.size]; omega)] at hn
    omega

theorem utf16_eq_units (ht : Ascii t) (h : utf16 s = t.map unit) : s = t := by
  induction s generalizing t with
  | nil => exact (List.map_eq_nil_iff.1 h.symm).symm
  | cons c s ih =>
    rw [utf16, List.flatMap_cons] at h
    cases t with
    | nil =>
      unfold units at h
      split at h <;> cases h
    | cons d t =>
      obtain ⟨hd, htail⟩ := ascii_cons.1 ht
      obtain ⟨rfl, hs⟩ := units_ascii hd h
      exact congrArg (c :: ·) (ih htail hs)

theorem map_unit_inj (hs : Ascii s) (ht : Ascii t) : s.map unit = t.map unit ↔ s = t := by
  constructor
  · intro h
    apply utf16_eq_units ht
    rw [utf16_ascii hs, h]
  · rintro rfl
    rfl

/-- The quotient, rounded to the nearest; of two that are as near, to the even one. -/
def roundDiv (n d : Nat) : Nat :=
  if 2 * (n % d) < d ∨ (2 * (n % d) = d ∧ n / d % 2 = 0) then n / d else n / d + 1

/-- The number nearest to a natural: 53 bits are kept. -/
def nearest (n : Nat) : Number :=
  let unit := 2 ^ (n.log2 - 52)
  let m := roundDiv n unit * unit
  if m.log2 < 1024 then .finite (m : Rat) else .infinity false

/-- `Number` of a string of decimal digits -/
def numberOf (s : Str) : Number := (digits 10 s).elim .nan nearest

/-- `<=` on numbers -/
def Number.le : Number → Number → Bool
  | .nan, _ | _, .nan => false
  | .infinity true, _ | _, .infinity false => true
  | .infinity false, _ | _, .infinity true => false
  | .finite p, .finite q => decide (p ≤ q)

/-- `-` on numbers; the difference of two finite ones is rounded. -/
def Number.sub (rounded : Rat → Number) : Number → Number → Number
  | .nan, _ | _, .nan => .nan
  | .infinity a, .infinity b => if a = b then .nan else .infinity a
  | .infinity a, .finite _ => .infinity a
  | .finite _, .infinity b => .infinity (!b)
  | .finite p, .finite q => rounded (p - q)

theorem Number.le_natCast (a b : Nat) :
    Number.le (.finite (a : Rat)) (.finite (b : Rat)) = decide (a ≤ b) :=
  decide_eq_decide.2 Nat.cast_le

theorem div_le_roundDiv (n d : Nat) : n / d ≤ roundDiv n d := by
  unfold roundDiv
  split
  · exact Nat.le_refl _
  · exact Nat.le_succ _

theorem roundDiv_one (n : Nat) : roundDiv n 1 = n := by
  rw [roundDiv, if_pos (.inl (by rw [Nat.mod_one]; decide)), Nat.div_one]

theorem nearest_exact {n : Nat} (h : n < 2 ^ 53) : nearest n = .finite n := by
  have hlog : n.log2 < 53 := by
    rcases Nat.eq_zero_or_pos n with rfl | hn
    · decide
    · exact (Nat.log2_lt (Nat.ne_of_gt hn)).2 h
  have hunit : n.log2 - 52 = 0 := by omega
  have hbound : n.log2 < 1024 := by omega
  simp only [nearest, hunit, Nat.pow_zero, roundDiv_one, Nat.mul_one, if_pos hbound]

/-- Large numbers are rounded to large ones. -/
theorem nearest_large {n : Nat} (h : 2 ^ 53 ≤ n) :
    nearest n = .infinity false ∨ ∃ m : Nat, nearest n = .finite m ∧ 2 ^ 53 ≤ m := by
  have hn : n ≠ 0 := by
    rintro rfl
    exact absurd h (by decide)
  have hlog : 53 ≤ n.log2 := (Nat.le_log2 hn).2 h
  have hunit : 2 ^ 52 * 2 ^ (n.log2 - 52) ≤ n := by
    rw [← Nat.pow_add, show 52 + (n.log2 - 52) = n.log2 by omega]
    exact Nat.log2_self_le hn
  have hdown : 2 ^ 52 ≤ n / 2 ^ (n.log2 - 52) :=
    (Nat.le_div_iff_mul_le (Nat.pow_pos Nat.two_pos)).2 hunit
  have htwo : 2 ^ 1 ≤ 2 ^ (n.log2 - 52) := Nat.pow_le_pow_right Nat.two_pos (by omega)
  unfold nearest
  simp only
  split
  · exact .inr ⟨_, rfl, Nat.mul_le_mul (hdown.trans (div_le_roundDiv ..)) htwo⟩
  · exact .inl rfl

/-- Rounding does not take a number across a small bound. -/
theorem nearest_le {n max : Nat} (hmax : max < 2 ^ 53) :
    (nearest n).le (.finite (max : Rat)) = decide (n ≤ max) := by
  rcases Nat.lt_or_ge n (2 ^ 53) with h | h
  · rw [nearest_exact h, Number.le_natCast]
  · rw [decide_eq_false (by omega)]
    rcases nearest_large h with he | ⟨m, he, hm⟩
    · rw [he]
      rfl
    · rw [he, Number.le_natCast]
      exact decide_eq_false (by omega)

end Js
