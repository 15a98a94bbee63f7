import Mathlib.Algebra.GroupWithZero.Nat
import RemoteCodex.Lib.Pieces

/-! Decimal numerals without leading zeros, and IPv4 addresses in dotted decimal form. -/

namespace Ipv4
set_option autoImplicit true

/-- Digits, at least one, and no zero in front of others. -/
def Numeral (s : List Char) : Prop :=
  s ≠ [] ∧ (∀ c ∈ s, c.isDigit = true) ∧ (1 < s.length → s.head? ≠ some '0')

theorem digit_bounds {c : Char} (h : c.isDigit = true) : 48 ≤ c.toNat ∧ c.toNat ≤ 57 := by
  simp only [Char.isDigit, Bool.and_eq_true, decide_eq_true_eq] at h
  exact ⟨UInt32.le_iff_toNat_le.1 h.1, UInt32.le_iff_toNat_le.1 h.2⟩

theorem toDigits_digit {c : Char} (h : c.isDigit = true) :
    Nat.toDigits 10 (c.toNat - 48) = [c] := by
  have hb := digit_bounds h
  rw [Nat.toDigits_of_lt_base (by omega)]
  refine congrArg (fun d => [d]) (Char.toNat_inj.1 ?_)
  rw [Nat.toNat_digitChar_of_lt_ten (by omega)]
  omega

/-- Digits behind the text of a positive number. -/
theorem toDigits_append {n : Nat} (hn : 0 < n) {s : List Char} (h : ∀ c ∈ s, c.isDigit = true) :
    Nat.toDigits 10 n ++ s = Nat.toDigits 10 (Nat.ofDigitChars 10 s n) := by
  induction s generalizing n with
  | nil => rw [List.append_nil, Nat.ofDigitChars_nil]
  | cons c s ih =>
    have hc := h c (List.mem_cons_self ..)
    have hb := digit_bounds hc
    have hnext : 0 < 10 * n + (c.toNat - 48) := by omega
    calc Nat.toDigits 10 n ++ c :: s
        = Nat.toDigits 10 n ++ Nat.toDigits 10 (c.toNat - 48) ++ s := by
          rw [toDigits_digit hc, List.append_assoc, List.singleton_append]
      _ = Nat.toDigits 10 (10 * n + (c.toNat - 48)) ++ s := by
          rw [Nat.toDigits_append_toDigits (by decide) hn (by omega)]
      _ = Nat.toDigits 10 (Nat.ofDigitChars 10 (c :: s) n) := by
          rw [ih hnext fun d hd => h d (List.mem_cons_of_mem c hd), Nat.ofDigitChars_cons]
          rfl

/-- A numeral is the text of its value. -/
theorem Numeral.toDigits (h : Numeral s) : Nat.toDigits 10 (Nat.ofDigitChars 10 s 0) = s := by
  obtain ⟨hne, hdigits, hzero⟩ := h
  cases s with
  | nil => exact absurd rfl hne
  | cons c s =>
    have hc := hdigits c (List.mem_cons_self ..)
    have hb := digit_bounds hc
    have hvalue : Nat.ofDigitChars 10 (c :: s) 0 = Nat.ofDigitChars 10 s (c.toNat - 48) := by
      rw [Nat.ofDigitChars_cons, Nat.mul_zero, Nat.zero_add]
      rfl
    rw [hvalue]
    cases s with
    | nil =>
      rw [Nat.ofDigitChars_nil]
      exact toDigits_digit hc
    | cons d s =>
      have hfirst : c.toNat ≠ 48 := by
        intro he
        apply hzero (Nat.succ_lt_succ (Nat.succ_pos _))
        exact congrArg some (Char.toNat_inj.1 he)
      rw [← toDigits_append (by omega) fun e he => hdigits e (List.mem_cons_of_mem c he),
        toDigits_digit hc]
      rfl

/-- The text of a positive number does not begin with a zero. -/
theorem head_toDigits {n : Nat} (hn : 0 < n) : (Nat.toDigits 10 n).head? ≠ some '0' := by
  induction n using Nat.strongRecOn with
  | ind n ih =>
    rw [Nat.toDigits_eq_if (by decide)]
    split
    · intro he
      have hz := Nat.digitChar_eq_zero.1 (Option.some.inj he)
      omega
    · next hge =>
      rw [List.head?_append_of_ne_nil _ Nat.toDigits_ne_nil]
      exact ih (n / 10) (by omega) (by omega)

theorem numeral_toDigits (n : Nat) : Numeral (Nat.toDigits 10 n) := by
  refine ⟨Nat.toDigits_ne_nil, fun c => Nat.isDigit_of_mem_toDigits (by decide) (by decide), ?_⟩
  intro hlen
  apply head_toDigits
  rcases Nat.eq_zero_or_pos n with rfl | hn
  · rw [Nat.toDigits_zero] at hlen
    exact absurd hlen (by decide)
  · exact hn

/-- The numerals of a number are its text. -/
theorem numeral_iff {n : Nat} :
    Numeral s ∧ Nat.ofDigitChars 10 s 0 = n ↔ s = Nat.toDigits 10 n := by
  constructor
  · rintro ⟨h, rfl⟩
    exact h.toDigits.symm
  · rintro rfl
    exact ⟨numeral_toDigits n, Nat.ofDigitChars_ten_toDigits⟩

/-- Decimal texts have no dots. -/
theorem splitOn_decimals {s : List Char} {ns : List Nat} (hne : ns ≠ []) :
    s.splitOn '.' = ns.map (Nat.toDigits 10) ↔
      s = ['.'].intercalate (ns.map (Nat.toDigits 10)) := by
  apply Pieces.splitOn_eq_iff
  · exact fun he => hne (List.map_eq_nil_iff.1 he)
  · intro p hp hdot
    obtain ⟨n, -, rfl⟩ := List.mem_map.1 hp
    exact absurd ((numeral_toDigits n).2.1 _ hdot) (by decide)

structure Address where
  a : UInt8
  b : UInt8
  c : UInt8
  d : UInt8
  deriving DecidableEq

namespace Address

def octets (x : Address) : List Nat := [x.a.toNat, x.b.toNat, x.c.toNat, x.d.toNat]

/-- The 32 bits of an address, as a number. -/
def toNat (x : Address) : Nat := x.octets.foldl (fun n o => 256 * n + o) 0

/-- The dotted decimal form. -/
def dotted (x : Address) : List Char := ['.'].intercalate (x.octets.map (Nat.toDigits 10))

theorem splitOn_dotted (x : Address) : x.dotted.splitOn '.' = x.octets.map (Nat.toDigits 10) :=
  (splitOn_decimals (List.cons_ne_nil _ _)).2 rfl

/-- The address begins with the first `len` bits of the block. -/
def InBlock (net : Address) (len : Nat) (x : Address) : Prop :=
  x.toNat / 2 ^ (32 - len) = net.toNat / 2 ^ (32 - len)

instance (net : Address) (len : Nat) (x : Address) : Decidable (net.InBlock len x) :=
  inferInstanceAs (Decidable (_ = _))

/-- Four numbers of a byte each. -/
def ofOctets (a b c d : Nat) : Address := ⟨.ofNat a, .ofNat b, .ofNat c, .ofNat d⟩

theorem octets_ofOctets {a b c d : Nat} (h : ∀ n ∈ [a, b, c, d], n ≤ 255) :
    (ofOctets a b c d).octets = [a, b, c, d] := by
  have hbyte {n : Nat} (hn : n ∈ [a, b, c, d]) : (UInt8.ofNat n).toNat = n :=
    UInt8.toNat_ofNat_of_lt' (Nat.lt_succ_of_le (h n hn))
  simp only [octets, ofOctets, hbyte, List.mem_cons, true_or, or_true]

theorem octets_le (x : Address) : ∀ n ∈ x.octets, n ≤ 255 := by
  have hbyte (o : UInt8) : o.toNat ≤ 255 := Nat.le_of_lt_succ o.toNat_lt
  simp only [octets, List.forall_mem_cons, hbyte, List.not_mem_nil, true_and, false_implies,
    implies_true]

/-- `100.64.0.0/10` is given by the first two octets. -/
theorem inBlock_tailnet {x : Address} :
    InBlock ⟨100, 64, 0, 0⟩ 10 x ↔ x.a.toNat = 100 ∧ 64 ≤ x.b.toNat ∧ x.b.toNat ≤ 127 := by
  have ha := x.a.toNat_lt
  have hb := x.b.toNat_lt
  have hc := x.c.toNat_lt
  have hd := x.d.toNat_lt
  have hnet : toNat ⟨100, 64, 0, 0⟩ / 2 ^ (32 - 10) = 401 := by decide
  rw [InBlock, hnet]
  simp only [toNat, octets, List.foldl_cons, List.foldl_nil]
  omega

end Address

/-- What reads the numbers below 256 from their texts reads lists of them. -/
theorem mapM_texts {f : List α → Option Nat} {text : Nat → List α}
    (hf : ∀ s n, f s = some n ↔ s = text n ∧ n ≤ 255) {l : List (List α)} {ns : List Nat} :
    l.mapM f = some ns ↔ l = ns.map text ∧ ∀ n ∈ ns, n ≤ 255 := by
  induction l generalizing ns with
  | nil => cases ns <;> simp
  | cons s l ih =>
    simp only [List.mapM_cons, Option.bind_eq_bind, Option.bind_eq_some_iff, Option.pure_def,
      Option.some.injEq]
    constructor
    · rintro ⟨n, hn, ns, hns, rfl⟩
      obtain ⟨hs, hle⟩ := (hf s n).1 hn
      obtain ⟨hl, hall⟩ := ih.1 hns
      exact ⟨by rw [hs, hl, List.map_cons], List.forall_mem_cons.2 ⟨hle, hall⟩⟩
    · rintro ⟨hl, hall⟩
      cases ns with
      | nil => cases hl
      | cons n ns =>
        obtain ⟨hs, hl⟩ := List.cons.inj hl
        obtain ⟨hle, hall⟩ := List.forall_mem_cons.1 hall
        exact ⟨n, (hf s n).2 ⟨hs, hle⟩, ns, ih.2 ⟨hl, hall⟩, rfl⟩

end Ipv4
