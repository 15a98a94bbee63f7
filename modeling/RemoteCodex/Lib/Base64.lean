import Mathlib.Data.List.Basic

/-! Base64 with the URL-safe alphabet and without padding, and with the standard one. -/

namespace Base64
set_option autoImplicit true

/-- The character of a value below 64. -/
def digit (n : Nat) : Char :=
  if n < 26 then Char.ofNat (65 + n)
  else if n < 52 then Char.ofNat (71 + n)
  else if n < 62 then Char.ofNat (n - 4)
  else if n = 62 then '-'
  else '_'

def value (c : Char) : Option Nat :=
  if 'A' ≤ c ∧ c ≤ 'Z' then some (c.toNat - 65)
  else if 'a' ≤ c ∧ c ≤ 'z' then some (c.toNat - 71)
  else if '0' ≤ c ∧ c ≤ '9' then some (c.toNat + 4)
  else if c = '-' then some 62
  else if c = '_' then some 63
  else none

def encode : List UInt8 → List Char
  | a :: b :: c :: rest =>
    digit (a.toNat / 4) :: digit (a.toNat % 4 * 16 + b.toNat / 16) ::
      digit (b.toNat % 16 * 4 + c.toNat / 64) :: digit (c.toNat % 64) :: encode rest
  | [a, b] =>
    [digit (a.toNat / 4), digit (a.toNat % 4 * 16 + b.toNat / 16), digit (b.toNat % 16 * 4)]
  | [a] => [digit (a.toNat / 4), digit (a.toNat % 4 * 16)]
  | [] => []

/-- The bits that the last character has too many must be zero. -/
def decode : List Char → Option (List UInt8)
  | w :: x :: y :: z :: rest => do
    let w ← value w
    let x ← value x
    let y ← value y
    let z ← value z
    let rest ← decode rest
    some (UInt8.ofNat (w * 4 + x / 16) :: UInt8.ofNat (x % 16 * 16 + y / 4) ::
      UInt8.ofNat (y % 4 * 64 + z) :: rest)
  | [w, x, y] => do
    let w ← value w
    let x ← value x
    let y ← value y
    if y % 4 = 0 then some [UInt8.ofNat (w * 4 + x / 16), UInt8.ofNat (x % 16 * 16 + y / 4)]
    else none
  | [w, x] => do
    let w ← value w
    let x ← value x
    if x % 16 = 0 then some [UInt8.ofNat (w * 4 + x / 16)] else none
  | [_] => none
  | [] => some []

theorem value_digit : ∀ n, n < 64 → value (digit n) = some n := by decide

theorem ofNat_toNat {n : Nat} (b : UInt8) (h : n = b.toNat) : UInt8.ofNat n = b := by
  rw [h]
  exact UInt8.ofNat_toNat

theorem decode_encode (bytes : List UInt8) : decode (encode bytes) = some bytes := by
  induction bytes using encode.induct with
  | case1 a b c rest ih =>
    have ha := a.toNat_lt
    have hb := b.toNat_lt
    have hc := c.toNat_lt
    rw [encode, decode, value_digit _ (by omega), value_digit _ (by omega),
      value_digit _ (by omega), value_digit _ (by omega), ih]
    simp only [Option.bind_eq_bind, Option.bind_some]
    rw [ofNat_toNat a (by omega), ofNat_toNat b (by omega), ofNat_toNat c (by omega)]
  | case2 a b =>
    have ha := a.toNat_lt
    have hb := b.toNat_lt
    rw [encode, decode, value_digit _ (by omega), value_digit _ (by omega),
      value_digit _ (by omega)]
    simp only [Option.bind_eq_bind, Option.bind_some]
    rw [if_pos (by omega), ofNat_toNat a (by omega), ofNat_toNat b (by omega)]
  | case3 a =>
    have ha := a.toNat_lt
    rw [encode, decode, value_digit _ (by omega), value_digit _ (by omega)]
    simp only [Option.bind_eq_bind, Option.bind_some]
    rw [if_pos (by omega), ofNat_toNat a (by omega)]
  | case4 => rfl

/-- A character of the alphabet. -/
def IsDigit (c : Char) : Prop := ∃ n, n < 64 ∧ c = digit n

theorem encode_digits (bytes : List UInt8) : ∀ c ∈ encode bytes, IsDigit c := by
  have hdigit {n : Nat} (h : n < 64) : IsDigit (digit n) := ⟨n, h, rfl⟩
  induction bytes using encode.induct with
  | case1 a b c rest ih =>
    have ha := a.toNat_lt
    have hb := b.toNat_lt
    have hc := c.toNat_lt
    rw [encode]
    simp only [List.forall_mem_cons]
    exact ⟨hdigit (by omega), hdigit (by omega), hdigit (by omega), hdigit (by omega), ih⟩
  | case2 a b =>
    have ha := a.toNat_lt
    have hb := b.toNat_lt
    rw [encode]
    simp only [List.forall_mem_cons]
    exact ⟨hdigit (by omega), hdigit (by omega), hdigit (by omega), List.forall_mem_nil _⟩
  | case3 a =>
    have ha := a.toNat_lt
    rw [encode]
    simp only [List.forall_mem_cons]
    exact ⟨hdigit (by omega), hdigit (by omega), List.forall_mem_nil _⟩
  | case4 => exact List.forall_mem_nil _

/-- What holds of the alphabet is checked for each of its characters. -/
theorem IsDigit.all {p : Char → Bool} (h : IsDigit c)
    (hp : ((List.range 64).map digit).all p = true) : p c = true := by
  obtain ⟨n, hn, rfl⟩ := h
  exact List.all_eq_true.1 hp _ (List.mem_map_of_mem (List.mem_range.2 hn))

/-- A text of the standard alphabet with the URL-safe characters. -/
def urlSafe (c : Char) : Option Char :=
  if c = '-' ∨ c = '_' then none else some (if c = '+' then '-' else if c = '/' then '_' else c)

/-- The text without the padding at its end, of which there is never more than two characters. -/
def unpadded (text : List Char) : List Char :=
  match text.reverse with
  | '=' :: '=' :: rest => rest.reverse
  | '=' :: rest => rest.reverse
  | _ => text

/-- The standard alphabet, with padding. -/
def decodeStandard (text : List Char) : Option (List UInt8) := do
  if text.length % 4 = 0 then decode (← (unpadded text).mapM urlSafe) else none

/-- The characters of the standard alphabet for those that are safe in a URL. -/
def standard (c : Char) : Char := if c = '-' then '+' else if c = '_' then '/' else c

theorem IsDigit.urlSafe (h : IsDigit c) : Base64.urlSafe (standard c) = some c := by
  have hall := h.all (p := fun c => Base64.urlSafe (standard c) = some c) (by decide)
  exact of_decide_eq_true hall

theorem IsDigit.standard_ne (h : IsDigit c) : standard c ≠ '=' := by
  have hall := h.all (p := fun c => standard c ≠ '=') (by decide)
  exact of_decide_eq_true hall

theorem encode_length (bytes : List UInt8) : (encode bytes).length % 4 ≠ 1 := by
  induction bytes using encode.induct with
  | case1 a b c rest ih =>
    rw [encode]
    simp only [List.length_cons]
    omega
  | case2 | case3 | case4 => simp only [encode, List.length_cons, List.length_nil]; decide

theorem unpadded_eq {body : List Char} (h : ∀ c ∈ body, c ≠ '=') (hn : n ≤ 2) :
    unpadded (body ++ List.replicate n '=') = body := by
  have hlast : ∀ rest, body.reverse ≠ '=' :: rest := by
    intro rest he
    refine h '=' ?_ rfl
    rw [← List.mem_reverse, he]
    exact List.mem_cons_self
  unfold unpadded
  rw [List.reverse_append, List.reverse_replicate]
  obtain rfl | rfl | rfl : n = 0 ∨ n = 1 ∨ n = 2 := by omega
  · rw [List.replicate_zero, List.nil_append, List.append_nil]
    split
    · next hrest => exact absurd hrest (hlast _)
    · next hrest => exact absurd hrest (hlast _)
    · rfl
  · rw [List.replicate_one, List.singleton_append]
    split
    · next hrest => exact absurd (List.cons.inj hrest).2 (hlast _)
    · next hrest => rw [← (List.cons.inj hrest).2, List.reverse_reverse]
    · next hno => exact absurd rfl (hno _)
  · show body.reverse.reverse = body
    rw [List.reverse_reverse]

/-- What is encoded with padding is decoded again. -/
theorem decodeStandard_encode (bytes : List UInt8) :
    decodeStandard ((encode bytes).map standard ++
      List.replicate ((4 - ((encode bytes).map standard).length % 4) % 4) '=') = some bytes := by
  have hdigits := encode_digits bytes
  have hlen := encode_length bytes
  have hne : ∀ c ∈ (encode bytes).map standard, c ≠ '=' := by
    intro c hc
    obtain ⟨d, hd, rfl⟩ := List.mem_map.1 hc
    exact (hdigits d hd).standard_ne
  have hsafe {l : List Char} (hl : ∀ c ∈ l, IsDigit c) :
      (l.map standard).mapM urlSafe = some l := by
    induction l with
    | nil => rfl
    | cons c l ih =>
      rw [List.map_cons, List.mapM_cons, (hl c List.mem_cons_self).urlSafe,
        ih fun d hd => hl d (List.mem_cons_of_mem _ hd)]
      rfl
  unfold decodeStandard
  rw [if_pos, unpadded_eq hne, hsafe hdigits]
  · exact decode_encode bytes
  · rw [List.length_map]
    omega
  · rw [List.length_append, List.length_replicate, List.length_map]
    omega

end Base64
