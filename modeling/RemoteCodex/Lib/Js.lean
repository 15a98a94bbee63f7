import Mathlib.Data.Rat.Defs
import Mathlib.Data.Rat.Cast.Order

namespace Js
set_option autoImplicit true

/-- A number. The two zeros are not told apart. -/
inductive Number where
  | nan
  | infinity (negative : Bool)
  | finite (q : Rat)
  deriving DecidableEq

/-- `===` on numbers -/
def Number.strictEq : Number → Number → Bool
  | .nan, _ => false
  | a, b => decide (a = b)

theorem Number.strictEq_eq {a b : Number} (h : a.strictEq b = true) : a = b := by
  cases a with
  | nan => cases h
  | infinity _ => exact of_decide_eq_true h
  | finite _ => exact of_decide_eq_true h

/-- A string is its UTF-16 code units. -/
abbrev Str := List UInt16

instance : LawfulBEq Str := inferInstanceAs (LawfulBEq (List UInt16))

/-- The string of an ASCII text. -/
def str (s : String) : Str := s.toList.map fun c => UInt16.ofNat c.toNat

/-- What `JSON.parse` returns. -/
inductive Value where
  | null
  | bool (b : Bool)
  | number (n : Number)
  | string (s : Str)
  | array (items : List Value)
  | object (entries : List (Str × Value))

/-- An own property; nothing else has the names that are read. -/
def Value.prop (v : Value) (name : Str) : Option Value :=
  match v with
  | .object entries => (entries.find? fun e => decide (e.1 = name)).map Prod.snd
  | _ => none

/-- `Number.isInteger(v) && !(v < low) && !(v > high)` -/
def integerIn (low high : Nat) : Option Value → Option Nat
  | some (.number (.finite q)) =>
    if q.den = 1 ∧ ¬ q < low ∧ ¬ high < q then some q.num.toNat else none
  | _ => none

theorem eq_toNat {q : Rat} (hd : q.den = 1) (h : 0 ≤ q) : q = (q.num.toNat : Rat) := by
  have hnum : (q.num : Rat) = q := (Rat.den_eq_one_iff q).1 hd
  have hcast : ((q.num.toNat : Int) : Rat) = q.num := by
    rw [Int.toNat_of_nonneg (Rat.num_nonneg.2 h)]
  rw [Int.cast_natCast] at hcast
  exact hnum.symm.trans hcast.symm

/-- The integers in a range are the naturals in it. -/
theorem integerIn_eq_some {low high n : Nat} {v : Option Value} :
    integerIn low high v = some n ↔ v = some (.number (.finite n)) ∧ low ≤ n ∧ n ≤ high := by
  constructor
  · intro h
    unfold integerIn at h
    split at h
    · next q =>
      split at h
      · next hq =>
        obtain ⟨hd, hlow, hhigh⟩ := hq
        rw [not_lt] at hlow hhigh
        have hn := eq_toNat hd (le_trans (Nat.cast_nonneg low) hlow)
        injection h with h
        rw [h] at hn
        rw [hn, Nat.cast_le] at hlow hhigh
        exact ⟨by rw [hn], hlow, hhigh⟩
      · cases h
    · cases h
  · rintro ⟨rfl, hlow, hhigh⟩
    have hq : ((n : Rat)).den = 1 ∧ ¬ (n : Rat) < low ∧ ¬ (high : Rat) < n := by
      rw [not_lt, not_lt, Nat.cast_le, Nat.cast_le]
      exact ⟨Rat.den_natCast n, hlow, hhigh⟩
    simp only [integerIn, if_pos hq, Rat.num_natCast, Int.toNat_natCast]

/-- `StrWhiteSpaceChar` -/
def isSpace (c : UInt16) : Bool :=
  (9 ≤ c && c ≤ 13) || c == 0x20 || c == 0xa0 || c == 0x1680 || (0x2000 ≤ c && c ≤ 0x200a) ||
    c == 0x2028 || c == 0x2029 || c == 0x202f || c == 0x205f || c == 0x3000 || c == 0xfeff

def trim (s : Str) : Str := ((s.dropWhile isSpace).reverse.dropWhile isSpace).reverse

def digit (c : UInt16) : Option Nat :=
  if 0x30 ≤ c ∧ c ≤ 0x39 then some (c.toNat - 0x30)
  else if 0x61 ≤ c ∧ c ≤ 0x66 then some (c.toNat - 0x61 + 10)
  else if 0x41 ≤ c ∧ c ≤ 0x46 then some (c.toNat - 0x41 + 10)
  else none

/-- One digit or more of a radix. -/
def digits (radix : Nat) (s : Str) : Option Nat :=
  if s = [] then none
  else
    s.foldl (fun n c => n.bind fun n => (digit c).bind fun d =>
      if d < radix then some (radix * n + d) else none) (some 0)

/-- `StringToBigInt` -/
def stringToBigInt (s : Str) : Option Int :=
  match trim s with
  | [] => some 0
  | 0x2b :: rest => (digits 10 rest).map Int.ofNat
  | 0x2d :: rest => (digits 10 rest).map fun n => - Int.ofNat n
  | 0x30 :: radix :: rest =>
    if radix = 0x78 ∨ radix = 0x58 then (digits 16 rest).map Int.ofNat
    else if radix = 0x6f ∨ radix = 0x4f then (digits 8 rest).map Int.ofNat
    else if radix = 0x62 ∨ radix = 0x42 then (digits 2 rest).map Int.ofNat
    else (digits 10 (0x30 :: radix :: rest)).map Int.ofNat
  | rest => (digits 10 rest).map Int.ofNat

/-- `BigInt(v)`; `none` is an exception. `toText` makes a string of an array or an object. -/
def bigInt (toText : Value → Option Str) : Option Value → Option Int
  | none | some .null => none
  | some (.bool b) => some (if b then 1 else 0)
  | some (.number (.finite q)) => if q.den = 1 then some q.num else none
  | some (.number _) => none
  | some (.string s) => stringToBigInt s
  | some v => (toText v).bind stringToBigInt

example : [stringToBigInt (str " 42\n"), stringToBigInt (str "-7"), stringToBigInt (str "0x1F"),
    stringToBigInt (str ""), stringToBigInt (str "1.5"), stringToBigInt (str "-0x1")] =
    [some 42, some (-7), some 31, some 0, none, none] := by decide

end Js
