import RemoteCodex.Lib.Js

namespace Js
set_option autoImplicit true

/-- The code unit of an ASCII character. -/
def unit (c : Char) : UInt16 := UInt16.ofNat c.toNat

theorem isDigit_bounds {c : Char} (h : c.isDigit = true) : 48 ≤ c.toNat ∧ c.toNat ≤ 57 := by
  simp only [Char.isDigit, Bool.and_eq_true, decide_eq_true_eq] at h
  exact ⟨UInt32.le_iff_toNat_le.1 h.1, UInt32.le_iff_toNat_le.1 h.2⟩

theorem unit_toNat {c : Char} (h : c.isDigit = true) : (unit c).toNat = c.toNat := by
  have hb := isDigit_bounds h
  rw [unit, UInt16.toNat_ofNat_of_lt' (by simp only [UInt16.size]; omega)]

theorem digit_unit {c : Char} (h : c.isDigit = true) : digit (unit c) = some (c.toNat - 48) := by
  have hb := isDigit_bounds h
  have hu := unit_toNat h
  rw [digit, if_pos]
  · exact congrArg (fun n => some (n - 48)) hu
  · rw [UInt16.le_iff_toNat_le, UInt16.le_iff_toNat_le, hu]
    exact hb

theorem isSpace_unit {c : Char} (h : c.isDigit = true) : isSpace (unit c) = false := by
  have hb := isDigit_bounds h
  have hs : ∀ n, 48 ≤ n → n ≤ 57 → isSpace (UInt16.ofNat n) = false := by
    intro n hlow hhigh
    have hn : ∀ k < 10, isSpace (UInt16.ofNat (48 + k)) = false := by decide
    have hk := hn (n - 48) (by omega)
    rwa [Nat.add_sub_cancel' hlow] at hk
  exact hs c.toNat hb.1 hb.2

/-- A text without spaces at its ends. -/
theorem trim_units {s : List Char} (h : ∀ c ∈ s, c.isDigit = true) :
    trim (s.map unit) = s.map unit := by
  have hdrop {t : Str} (ht : ∀ u ∈ t, isSpace u = false) : t.dropWhile isSpace = t := by
    cases t with
    | nil => rfl
    | cons u t => rw [List.dropWhile_cons, ht u (List.mem_cons_self ..)]; rfl
  have hunits : ∀ u ∈ s.map unit, isSpace u = false := by
    intro u hu
    obtain ⟨c, hc, rfl⟩ := List.mem_map.1 hu
    exact isSpace_unit (h c hc)
  rw [trim, hdrop hunits, hdrop, List.reverse_reverse]
  intro u hu
  exact hunits u (List.mem_reverse.1 hu)

theorem digits_units {s : List Char} (h : ∀ c ∈ s, c.isDigit = true) (hne : s ≠ []) :
    digits 10 (s.map unit) = some (Nat.ofDigitChars 10 s 0) := by
  have hfold (n : Nat) : (s.map unit).foldl (fun n c => n.bind fun n => (digit c).bind fun d =>
      if d < 10 then some (10 * n + d) else none) (some n) = some (Nat.ofDigitChars 10 s n) := by
    clear hne
    induction s generalizing n with
    | nil => rfl
    | cons c s ih =>
      have hc := h c (List.mem_cons_self ..)
      have hb := isDigit_bounds hc
      rw [List.map_cons, List.foldl_cons, digit_unit hc, Nat.ofDigitChars_cons]
      simp only [Option.bind_some]
      rw [if_pos (by omega)]
      exact ih (fun d hd => h d (List.mem_cons_of_mem c hd)) _
  rw [digits, if_neg fun hnil => hne (List.map_eq_nil_iff.1 hnil)]
  exact hfold 0

/-- `BigInt` of decimal digits. -/
theorem stringToBigInt_units {s : List Char} (h : ∀ c ∈ s, c.isDigit = true) (hne : s ≠ []) :
    stringToBigInt (s.map unit) = some (Nat.ofDigitChars 10 s 0 : Int) := by
  have hunits : ∀ u ∈ s.map unit, 48 ≤ u.toNat ∧ u.toNat ≤ 57 := by
    intro u hu
    obtain ⟨c, hc, rfl⟩ := List.mem_map.1 hu
    rw [unit_toNat (h c hc)]
    exact isDigit_bounds (h c hc)
  have hmap := congrArg (Option.map Int.ofNat) (digits_units h hne)
  rw [stringToBigInt, trim_units h]
  split
  · next hnil => exact absurd (List.map_eq_nil_iff.1 hnil) hne
  · next hs =>
    have hu := hunits 0x2b (by rw [hs]; exact List.mem_cons_self ..)
    exact absurd hu.1 (by decide)
  · next hs =>
    have hu := hunits 0x2d (by rw [hs]; exact List.mem_cons_self ..)
    exact absurd hu.1 (by decide)
  · next radix rest hs =>
    have hu := hunits radix (by rw [hs]; exact List.mem_cons_of_mem _ (List.mem_cons_self ..))
    have hother (v : UInt16) (hv : 57 < v.toNat) : radix ≠ v := by
      intro he
      rw [he] at hu
      omega
    rw [if_neg (not_or.2 ⟨hother _ (by decide), hother _ (by decide)⟩),
      if_neg (not_or.2 ⟨hother _ (by decide), hother _ (by decide)⟩),
      if_neg (not_or.2 ⟨hother _ (by decide), hother _ (by decide)⟩), ← hs]
    exact hmap
  · exact hmap

theorem str_toString (n : Nat) : str (toString n) = (Nat.toDigits 10 n).map unit := by
  rw [str, Nat.toString_eq_ofList_toDigits, String.toList_ofList]
  rfl

theorem stringToBigInt_toString (n : Nat) : stringToBigInt (str (toString n)) = some (n : Int) := by
  have hdigit : ∀ c ∈ Nat.toDigits 10 n, c.isDigit = true :=
    fun c hc => Nat.isDigit_of_mem_toDigits (by decide) (by decide) hc
  rw [str_toString, stringToBigInt_units hdigit Nat.toDigits_ne_nil, Nat.ofDigitChars_ten_toDigits]

end Js
