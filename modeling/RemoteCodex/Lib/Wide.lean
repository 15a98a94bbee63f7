import RemoteCodex.Lib.JsText

/-! Texts in UTF-16, and their bytes with the low one first. -/

namespace Wide
set_option autoImplicit true
open Js

def bytes (s : Str) : List UInt8 :=
  s.flatMap fun u => [UInt8.ofNat (u.toNat % 256), UInt8.ofNat (u.toNat / 256)]

/-- The code units of an even number of bytes. -/
def unitsOf : List UInt8 → Str
  | low :: high :: rest => UInt16.ofNat (low.toNat + 256 * high.toNat) :: unitsOf rest
  | _ => []

theorem unitsOf_bytes (s : Str) : unitsOf (bytes s) = s := by
  induction s with
  | nil => rfl
  | cons u s ih =>
    have hu := u.toNat_lt
    rw [bytes, List.flatMap_cons, List.cons_append, List.cons_append, List.nil_append, unitsOf]
    refine congrArg₂ _ ?_ ih
    rw [UInt8.toNat_ofNat_of_lt' (by simp only [UInt8.size]; omega),
      UInt8.toNat_ofNat_of_lt' (by simp only [UInt8.size]; omega),
      show u.toNat % 256 + 256 * (u.toNat / 256) = u.toNat by omega, UInt16.ofNat_toNat]

theorem bytes_length (s : Str) : (bytes s).length = 2 * s.length := by
  induction s with
  | nil => rfl
  | cons u s ih =>
    rw [bytes, List.flatMap_cons, List.length_append, List.length_cons]
    have hs : (bytes s).length = 2 * s.length := ih
    rw [bytes] at hs
    rw [hs]
    simp only [List.length_cons, List.length_nil]
    omega

/-- `String::from_utf16` -/
def fromUtf16 : Str → Option (List Char)
  | [] => some []
  | [u] => if u < 0xd800 ∨ 0xe000 ≤ u then some [Char.ofNat u.toNat] else none
  | u :: v :: rest =>
    if u < 0xd800 ∨ 0xe000 ≤ u then (fromUtf16 (v :: rest)).map (Char.ofNat u.toNat :: ·)
    else if u < 0xdc00 ∧ 0xdc00 ≤ v ∧ v < 0xe000 then
      (fromUtf16 rest).map
        (Char.ofNat (0x10000 + (u.toNat - 0xd800) * 0x400 + (v.toNat - 0xdc00)) :: ·)
    else none

theorem fromUtf16_cons {u : UInt16} (h : u < 0xd800 ∨ 0xe000 ≤ u) (rest : Str) :
    fromUtf16 (u :: rest) = (fromUtf16 rest).map (Char.ofNat u.toNat :: ·) := by
  cases rest with
  | nil => simp only [fromUtf16, if_pos h, Option.map_some]
  | cons v rest => rw [fromUtf16, if_pos h]

/-- What is encoded is decoded again. -/
theorem fromUtf16_utf16 (s : List Char) : fromUtf16 (utf16 s) = some s := by
  induction s with
  | nil => rfl
  | cons c s ih =>
    have hvalid : c.toNat < 0xd800 ∨ 0xdfff < c.toNat ∧ c.toNat < 0x110000 := c.valid
    have hs : fromUtf16 (s.flatMap units) = some s := ih
    rw [utf16, List.flatMap_cons]
    by_cases hc : c.toNat < 0x10000
    · have hunit : (unit c).toNat = c.toNat := UInt16.toNat_ofNat_of_lt' hc
      rw [units, if_pos hc, List.singleton_append, fromUtf16_cons, hs, Option.map_some, hunit,
        Char.ofNat_toNat]
      simp only [UInt16.lt_iff_toNat_lt, UInt16.le_iff_toNat_le, hunit, UInt16.reduceToNat]
      omega
    · have hhigh : (UInt16.ofNat (0xd800 + (c.toNat - 0x10000) / 0x400)).toNat =
          0xd800 + (c.toNat - 0x10000) / 0x400 :=
        UInt16.toNat_ofNat_of_lt' (by simp only [UInt16.size]; omega)
      have hlow : (UInt16.ofNat (0xdc00 + (c.toNat - 0x10000) % 0x400)).toNat =
          0xdc00 + (c.toNat - 0x10000) % 0x400 :=
        UInt16.toNat_ofNat_of_lt' (by simp only [UInt16.size]; omega)
      rw [units, if_neg hc, List.cons_append, List.singleton_append, fromUtf16, if_neg, if_pos, hs,
        Option.map_some, hhigh, hlow]
      · rw [show 0x10000 + (0xd800 + (c.toNat - 0x10000) / 0x400 - 0xd800) * 0x400 +
          (0xdc00 + (c.toNat - 0x10000) % 0x400 - 0xdc00) = c.toNat by omega, Char.ofNat_toNat]
      · simp only [UInt16.lt_iff_toNat_lt, UInt16.le_iff_toNat_le, hhigh, hlow, UInt16.reduceToNat]
        omega
      · simp only [UInt16.lt_iff_toNat_lt, UInt16.le_iff_toNat_le, hhigh, UInt16.reduceToNat]
        omega

end Wide
