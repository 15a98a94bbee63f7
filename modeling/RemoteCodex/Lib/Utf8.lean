import Mathlib.Init

namespace Utf8
set_option autoImplicit true

/-- The outcome of validating bytes as UTF-8; `invalid` carries the length of the malformed
sequence, `incomplete` means that the input ends inside a sequence that is valid so far. -/
inductive Result where
  | ok
  | incomplete
  | invalid (errorLen : Nat)
  deriving DecidableEq, Repr

/-- The number of bytes of the sequence that starts with a byte. -/
def width (b : UInt8) : Nat :=
  if b < 0x80 then 1
  else if 0xC2 ≤ b ∧ b ≤ 0xDF then 2
  else if 0xE0 ≤ b ∧ b ≤ 0xEF then 3
  else if 0xF0 ≤ b ∧ b ≤ 0xF4 then 4
  else 0

def cont (b : UInt8) : Bool := 0x80 ≤ b && b ≤ 0xBF

/-- The second bytes that may follow the first byte of a sequence of three or four. -/
def second (a b : UInt8) : Bool :=
  if a = 0xE0 then 0xA0 ≤ b && b ≤ 0xBF
  else if a = 0xED then 0x80 ≤ b && b ≤ 0x9F
  else if a = 0xF0 then 0x90 ≤ b && b ≤ 0xBF
  else if a = 0xF4 then 0x80 ≤ b && b ≤ 0x8F
  else cont b

def validate : List UInt8 → Result
  | [] => .ok
  | a :: rest =>
    match width a with
    | 1 => validate rest
    | 2 =>
      match rest with
      | [] => .incomplete
      | b :: rest => if cont b then validate rest else .invalid 1
    | 3 =>
      match rest with
      | [] => .incomplete
      | b :: rest =>
        if second a b then
          match rest with
          | [] => .incomplete
          | c :: rest => if cont c then validate rest else .invalid 2
        else .invalid 1
    | 4 =>
      match rest with
      | [] => .incomplete
      | b :: rest =>
        if second a b then
          match rest with
          | [] => .incomplete
          | c :: rest =>
            if cont c then
              match rest with
              | [] => .incomplete
              | d :: rest => if cont d then validate rest else .invalid 3
            else .invalid 2
        else .invalid 1
    | _ => .invalid 1

attribute [local simp] validate

/-- U+FFFD, which stands for a malformed sequence. -/
def replacement : List UInt8 := [0xEF, 0xBF, 0xBD]

/-- One scalar value: the length tells from the first byte. -/
structure Scalar (p : List UInt8) : Prop where
  length : p.length = width (p.headD 0)
  nonempty : p ≠ []
  valid : validate p = .ok

def repaired (p : List UInt8) : List UInt8 := if validate p = .ok then p else replacement

/-- The pieces of a text that begins with the incomplete sequence `u`: scalars and maximal
malformed subparts. A piece is extended as long as it begins a scalar, and the byte that does
not go on with it begins the next piece. -/
def piecesFrom (u : List UInt8) : List UInt8 → List (List UInt8)
  | [] => if u.isEmpty then [] else [u]
  | b :: bytes =>
    let fresh :=
      if validate [b] = .incomplete then piecesFrom [b] bytes else [b] :: piecesFrom [] bytes
    if u.isEmpty then fresh
    else
      match validate (u ++ [b]) with
      | .ok => (u ++ [b]) :: piecesFrom [] bytes
      | .incomplete => piecesFrom (u ++ [b]) bytes
      | .invalid _ => u :: fresh

def pieces (bytes : List UInt8) : List (List UInt8) := piecesFrom [] bytes

/-- Lossy decoding: one U+FFFD for each maximal malformed subpart. -/
def lossy (bytes : List UInt8) : List UInt8 := (pieces bytes).flatMap repaired

example : lossy [0x41, 0xF0, 0x9F, 0x92, 0xC3, 0xA9, 0xE0, 0x80] =
    [0x41] ++ replacement ++ [0xC3, 0xA9] ++ replacement ++ replacement := by decide

/-- The beginning of a sequence that is still to be completed. A lone first byte may also be one
that starts no sequence. -/
inductive Carry : List UInt8 → Prop where
  | lead (a : UInt8) (ha : 0xC2 ≤ a) : Carry [a]
  | two (a b : UInt8) (ha : 0xC2 ≤ a) (hw : width a = 3 ∨ width a = 4) (hb : second a b = true) :
      Carry [a, b]
  | three (a b c : UInt8) (ha : 0xC2 ≤ a) (hw : width a = 4) (hb : second a b = true)
      (hc : cont c = true) : Carry [a, b, c]

theorem cont_high (h : cont b = true) : 0x80 ≤ b := by
  simp only [cont, Bool.and_eq_true, decide_eq_true_eq] at h
  exact h.1

theorem second_high (h : second a b = true) : 0x80 ≤ b := by
  have hle {c : UInt8} (hc : (0x80 : UInt8) ≤ c) {d : UInt8}
      (hb : (decide (c ≤ b) && decide (b ≤ d)) = true) : 0x80 ≤ b := by
    simp only [Bool.and_eq_true, decide_eq_true_eq] at hb
    exact UInt8.le_trans hc hb.1
  unfold second at h
  split at h
  · exact hle (by decide) h
  · split at h
    · exact hle (by decide) h
    · split at h
      · exact hle (by decide) h
      · split at h
        · exact hle (by decide) h
        · exact cont_high h

theorem width_ne_one (h : 0xC2 ≤ a) : width a ≠ 1 := by
  have hn : ¬ a < 0x80 := UInt8.not_lt.2 (UInt8.le_trans (by decide) h)
  unfold width
  rw [if_neg hn]
  split
  · decide
  · split
    · decide
    · split <;> decide

theorem Carry.high (h : Carry u) : ∀ x ∈ u, 0x80 ≤ x := by
  have hlead {a : UInt8} (ha : 0xC2 ≤ a) : 0x80 ≤ a := UInt8.le_trans (by decide) ha
  cases h with
  | lead a ha => simpa using hlead ha
  | two a b ha _ hb => simpa using ⟨hlead ha, second_high hb⟩
  | three a b c ha _ hb hc => simpa using ⟨hlead ha, second_high hb, cont_high hc⟩

/-- One more byte completes the sequence, extends it, or shows it to be malformed. -/
theorem Carry.snoc (h : Carry u) (b : UInt8) :
    validate (u ++ [b]) = .ok ∧ 0x80 ≤ b ∨
      validate (u ++ [b]) = .incomplete ∧ Carry (u ++ [b]) ∨
        ∃ n, validate (u ++ [b]) = .invalid n := by
  cases h with
  | lead a ha =>
    have hne := width_ne_one ha
    simp only [List.cons_append, List.nil_append, validate]
    split
    · next hw => exact absurd hw hne
    · split
      · next hb => exact .inl ⟨rfl, cont_high hb⟩
      · exact .inr (.inr ⟨_, rfl⟩)
    · next hw =>
      split
      · next hb => exact .inr (.inl ⟨rfl, .two a b ha (.inl hw) hb⟩)
      · exact .inr (.inr ⟨_, rfl⟩)
    · next hw =>
      split
      · next hb => exact .inr (.inl ⟨rfl, .two a b ha (.inr hw) hb⟩)
      · exact .inr (.inr ⟨_, rfl⟩)
    · exact .inr (.inr ⟨_, rfl⟩)
  | two a c ha hw hc =>
    rcases hw with hw | hw
    · simp only [List.cons_append, List.nil_append, validate, hw, hc, ↓reduceIte]
      split
      · next hb => exact .inl ⟨rfl, cont_high hb⟩
      · exact .inr (.inr ⟨_, rfl⟩)
    · simp only [List.cons_append, List.nil_append, validate, hw, hc, ↓reduceIte]
      split
      · next hb => exact .inr (.inl ⟨rfl, .three a c b ha hw hc hb⟩)
      · exact .inr (.inr ⟨_, rfl⟩)
  | three a c d ha hw hc hd =>
    simp only [List.cons_append, List.nil_append, validate, hw, hc, hd, ↓reduceIte]
    split
    · next hb => exact .inl ⟨rfl, cont_high hb⟩
    · exact .inr (.inr ⟨_, rfl⟩)

theorem second_cont (h : second a b = true) : cont b = true := by
  have hwide {c d : UInt8} (hc : (0x80 : UInt8) ≤ c) (hd : d ≤ (0xBF : UInt8))
      (hb : (decide (c ≤ b) && decide (b ≤ d)) = true) : cont b = true := by
    simp only [cont, Bool.and_eq_true, decide_eq_true_eq] at hb ⊢
    exact ⟨UInt8.le_trans hc hb.1, UInt8.le_trans hb.2 hd⟩
  unfold second at h
  split at h
  · exact hwide (by decide) (by decide) h
  · split at h
    · exact hwide (by decide) (by decide) h
    · split at h
      · exact hwide (by decide) (by decide) h
      · split at h
        · exact hwide (by decide) (by decide) h
        · exact h

/-- A byte that goes on with a sequence is a continuation byte. -/
theorem Carry.next (h : Carry u) (hb : ∀ n, validate (u ++ [b]) ≠ .invalid n) : cont b = true := by
  apply Classical.byContradiction
  intro hno
  have hno₂ (a : UInt8) : second a b ≠ true := fun hs => hno (second_cont hs)
  cases h with
  | lead a ha =>
    have hne := width_ne_one ha
    simp only [List.cons_append, List.nil_append, validate, if_neg hno, if_neg (hno₂ a)] at hb
    split at hb
    · next hw => exact hne hw
    · exact hb _ rfl
    · exact hb _ rfl
    · exact hb _ rfl
    · exact hb _ rfl
  | two a c ha hw hc =>
    rcases hw with hw | hw
    · simp only [List.cons_append, List.nil_append, validate, hw, hc, if_neg hno, ↓reduceIte] at hb
      exact hb _ rfl
    · simp only [List.cons_append, List.nil_append, validate, hw, hc, if_neg hno, ↓reduceIte] at hb
      exact hb _ rfl
  | three a c d ha hw hc hd =>
    simp only [List.cons_append, List.nil_append, validate, hw, hc, hd, if_neg hno,
      ↓reduceIte] at hb
    exact hb _ rfl

/-- An incomplete sequence is one piece. -/
theorem Carry.pieces (h : Carry u) (hu : validate u = .incomplete) : pieces u = [u] := by
  cases h with
  | lead a ha =>
    unfold Utf8.pieces piecesFrom
    simp only [hu, ↓reduceIte, List.isEmpty_nil]
    rfl
  | two a b ha hw hb =>
    have hlead : validate [a] = .incomplete := by
      rcases hw with hw | hw <;> simp [hw]
    unfold Utf8.pieces piecesFrom
    simp only [hlead, ↓reduceIte, List.isEmpty_nil]
    unfold piecesFrom
    simp only [List.cons_append, List.nil_append, hu]
    rfl
  | three a b c ha hw hb hc =>
    have hlead : validate [a] = .incomplete := by simp [hw]
    have htwo : validate [a, b] = .incomplete := by simp [hw, hb]
    unfold Utf8.pieces piecesFrom
    simp only [hlead, ↓reduceIte, List.isEmpty_nil]
    unfold piecesFrom
    simp only [List.cons_append, List.nil_append, htwo]
    unfold piecesFrom
    simp only [List.cons_append, List.nil_append, hu]
    rfl

/-- An ASCII byte never continues a sequence. -/
theorem Carry.snoc_ascii (h : Carry u) (hb : b < 0x80) :
    ∃ n, validate (u ++ [b]) = .invalid n := by
  have hlow : ¬ 0x80 ≤ b := UInt8.not_le.2 hb
  rcases h.snoc b with ⟨_, hh⟩ | ⟨_, hc⟩ | hn
  · exact absurd hh hlow
  · exact absurd (hc.high b (List.mem_append_right u (List.mem_singleton_self b))) hlow
  · exact hn

theorem validate_low (h : b < 0x80) : validate [b] = .ok := by
  simp only [validate, width, if_pos h]

theorem width_le (b : UInt8) : width b ≤ 4 := by
  unfold width
  split
  · decide
  · split
    · decide
    · split
      · decide
      · split <;> decide

/-- A first byte that starts a sequence of several bytes. -/
theorem validate_lead : validate [b] = .incomplete ↔ 0xC2 ≤ b ∧ b ≤ 0xF4 := by
  simp only [validate, width, UInt8.lt_iff_toNat_lt, UInt8.le_iff_toNat_le, UInt8.reduceToNat]
  by_cases h₁ : b.toNat < 128
  · simp only [h₁, ↓reduceIte, reduceCtorEq, false_iff]
    omega
  · by_cases h₂ : 194 ≤ b.toNat ∧ b.toNat ≤ 223
    · rw [if_neg h₁, if_pos h₂]
      exact iff_of_true rfl ⟨h₂.1, by omega⟩
    · by_cases h₃ : 224 ≤ b.toNat ∧ b.toNat ≤ 239
      · rw [if_neg h₁, if_neg h₂, if_pos h₃]
        exact iff_of_true rfl ⟨by omega, by omega⟩
      · by_cases h₄ : 240 ≤ b.toNat ∧ b.toNat ≤ 244
        · rw [if_neg h₁, if_neg h₂, if_neg h₃, if_pos h₄]
          exact iff_of_true rfl ⟨by omega, h₄.2⟩
        · simp only [h₁, h₂, h₃, h₄, ↓reduceIte, reduceCtorEq, false_iff]
          omega

theorem width_none (h : 0x80 ≤ b) (hn : ¬ (0xC2 ≤ b ∧ b ≤ 0xF4)) : width b = 0 := by
  simp only [UInt8.le_iff_toNat_le, UInt8.reduceToNat] at h hn
  simp only [width, UInt8.lt_iff_toNat_lt, UInt8.le_iff_toNat_le, UInt8.reduceToNat]
  rw [if_neg (by omega), if_neg (by omega), if_neg (by omega), if_neg (by omega)]

theorem validate_none (h : width b = 0) (rest : List UInt8) :
    validate (b :: rest) = .invalid 1 := by
  rw [validate.eq_def]
  simp only [h]

theorem scalar_of_ok (h : validate [b] = .ok) : Scalar [b] := by
  refine ⟨?_, List.cons_ne_nil _ _, h⟩
  simp only [validate] at h
  split at h
  · next hw => exact hw.symm
  all_goals cases h

theorem scalar_replacement : Scalar replacement where
  length := rfl
  nonempty := List.cons_ne_nil _ _
  valid := rfl

theorem Carry.ne_nil (h : Carry u) : u ≠ [] := by
  cases h <;> exact List.cons_ne_nil _ _

theorem Carry.length_le (h : Carry u) : u.length ≤ 3 := by
  cases h with
  | lead a ha => exact Nat.le_add_left 1 2
  | two a b ha hw hb => exact Nat.le_succ 2
  | three a b c ha hw hb hc => exact Nat.le_refl 3

/-- What is still to be completed is not well formed. -/
theorem Carry.ne_ok (h : Carry u) : validate u ≠ .ok := by
  cases h with
  | lead a ha =>
    intro hok
    exact width_ne_one ha (scalar_of_ok hok).length.symm
  | two a b ha hw hb =>
    rcases hw with hw | hw <;> simp only [validate, hw, hb, ↓reduceIte] <;>
      exact Result.noConfusion
  | three a b c ha hw hb hc =>
    simp only [validate, hw, hb, hc, ↓reduceIte]
    exact Result.noConfusion

/-- The byte that completes a carried sequence completes a scalar. -/
theorem Carry.scalar (h : Carry u) (hok : validate (u ++ [b]) = .ok) : Scalar (u ++ [b]) := by
  refine ⟨?_, by simp only [ne_eq, List.append_eq_nil_iff, List.cons_ne_self, and_false,
    not_false_eq_true], hok⟩
  cases h with
  | lead a ha =>
    have hne := width_ne_one ha
    simp only [List.cons_append, List.nil_append, validate] at hok
    split at hok
    · next hw => exact absurd hw hne
    · next hw => exact hw.symm
    · split at hok <;> cases hok
    · split at hok <;> cases hok
    · cases hok
  | two a c ha hw hc =>
    rcases hw with hw | hw
    · exact hw.symm
    · simp only [List.cons_append, List.nil_append, validate, hw, hc, ↓reduceIte] at hok
      split at hok <;> cases hok
  | three a c d ha hw hc hd => exact hw.symm

theorem low_of_width (h : width a = 1) : a < 0x80 := by
  apply Classical.byContradiction
  intro hn
  by_cases hlead : 0xC2 ≤ a
  · exact width_ne_one hlead h
  · have hzero := width_none (UInt8.not_lt.1 hn) fun hc => hlead hc.1
    rw [hzero] at h
    cases h

theorem lead_of_width (h : 2 ≤ width a) : 0xC2 ≤ a := by
  apply Classical.byContradiction
  intro hlead
  by_cases hlow : a < 0x80
  · have hone : width a = 1 := if_pos hlow
    omega
  · have hzero := width_none (UInt8.not_lt.1 hlow) fun hc => hlead hc.1
    omega

/-- The bytes of a scalar, by their number. -/
inductive Shape : List UInt8 → Prop where
  | one (a : UInt8) (hw : width a = 1) : Shape [a]
  | two (a b : UInt8) (hw : width a = 2) (hb : cont b = true) : Shape [a, b]
  | three (a b c : UInt8) (hw : width a = 3) (hb : second a b = true) (hc : cont c = true) :
      Shape [a, b, c]
  | four (a b c d : UInt8) (hw : width a = 4) (hb : second a b = true) (hc : cont c = true)
      (hd : cont d = true) : Shape [a, b, c, d]

theorem Scalar.shape (h : Scalar p) : Shape p := by
  obtain ⟨hlen, hne, hok⟩ := h
  match p with
  | [] => exact absurd rfl hne
  | [a] => exact .one a hlen.symm
  | [a, b] =>
    have hw : width a = 2 := hlen.symm
    simp only [validate, hw] at hok
    split at hok
    · next hb => exact .two a b hw hb
    · cases hok
  | [a, b, c] =>
    have hw : width a = 3 := hlen.symm
    simp only [validate, hw] at hok
    split at hok
    · next hb =>
      split at hok
      · next hc => exact .three a b c hw hb hc
      · cases hok
    · cases hok
  | [a, b, c, d] =>
    have hw : width a = 4 := hlen.symm
    simp only [validate, hw] at hok
    split at hok
    · next hb =>
      split at hok
      · next hc =>
        split at hok
        · next hd => exact .four a b c d hw hb hc hd
        · cases hok
      · cases hok
    · cases hok
  | a :: b :: c :: d :: e :: p =>
    have hle := width_le a
    have hlong : p.length + 5 = width a := hlen
    omega

theorem Scalar.append (h : Scalar p) (rest : List UInt8) :
    validate (p ++ rest) = validate rest := by
  cases h.shape with
  | one a hw =>
    rw [List.cons_append, List.nil_append, validate.eq_def]
    simp only [hw]
  | two a b hw hb =>
    rw [List.cons_append, validate.eq_def]
    simp only [hw, hb, List.cons_append, List.nil_append, ↓reduceIte]
  | three a b c hw hb hc =>
    rw [List.cons_append, validate.eq_def]
    simp only [hw, hb, hc, List.cons_append, List.nil_append, ↓reduceIte]
  | four a b c d hw hb hc hd =>
    rw [List.cons_append, validate.eq_def]
    simp only [hw, hb, hc, hd, List.cons_append, List.nil_append, ↓reduceIte]

/-- A scalar is one ASCII byte, or has none. -/
theorem Shape.high (h : Shape p) : (∃ a, p = [a] ∧ a < 0x80) ∨ ∀ x ∈ p, 0x80 ≤ x := by
  have hlead {a : UInt8} (hw : 2 ≤ width a) : 0x80 ≤ a :=
    UInt8.le_trans (by decide) (lead_of_width hw)
  cases h with
  | one a hw => exact .inl ⟨a, rfl, low_of_width hw⟩
  | two a b hw hb =>
    right
    simpa using ⟨hlead (Nat.le_of_eq hw.symm), cont_high hb⟩
  | three a b c hw hb hc =>
    right
    simpa using ⟨hlead (by omega), second_high hb, cont_high hc⟩
  | four a b c d hw hb hc hd =>
    right
    simpa using ⟨hlead (by omega), second_high hb, cont_high hc, cont_high hd⟩

/-- Well-formed bytes, told by what they do in front of others. -/
def Whole (p : List UInt8) : Prop := ∀ rest, validate (p ++ rest) = validate rest

theorem whole_nil : Whole [] := fun _ => rfl

theorem Scalar.whole (h : Scalar p) : Whole p := h.append

theorem Whole.append (h : Whole p) (hq : Whole q) : Whole (p ++ q) := by
  intro rest
  rw [List.append_assoc, h, hq]

theorem Whole.valid (h : Whole p) : validate p = .ok := by
  rw [← List.append_nil p, h]
  rfl

/-- No scalar begins another one. -/
theorem Scalar.unique (hp : Scalar p) (hq : Scalar q) (h : p ++ x = q ++ y) : p = q ∧ x = y := by
  apply List.append_inj h
  rw [hp.length, hq.length]
  cases p with
  | nil => exact absurd rfl hp.nonempty
  | cons a p =>
    cases q with
    | nil => exact absurd rfl hq.nonempty
    | cons b q =>
      cases (List.cons.inj h).1
      rfl

/-- A text is the scalars of one list only. -/
theorem scalars_unique {xs ys : List (List UInt8)} (hx : ∀ p ∈ xs, Scalar p)
    (hy : ∀ p ∈ ys, Scalar p) (h : xs.flatten = ys.flatten) : xs = ys := by
  induction xs generalizing ys with
  | nil =>
    cases ys with
    | nil => rfl
    | cons q ys =>
      have hq := (hy q (List.mem_cons_self ..)).nonempty
      exact absurd (List.append_eq_nil_iff.1 h.symm).1 hq
  | cons p xs ih =>
    cases ys with
    | nil =>
      have hp := (hx p (List.mem_cons_self ..)).nonempty
      exact absurd (List.append_eq_nil_iff.1 h).1 hp
    | cons q ys =>
      obtain ⟨rfl, hrest⟩ := Scalar.unique (hx p (List.mem_cons_self ..))
        (hy q (List.mem_cons_self ..)) h
      rw [ih (fun r hr => hx r (List.mem_cons_of_mem _ hr))
        (fun r hr => hy r (List.mem_cons_of_mem _ hr)) hrest]

theorem piecesFrom_nil (b : UInt8) (bytes : List UInt8) :
    piecesFrom [] (b :: bytes) =
      if validate [b] = .incomplete then piecesFrom [b] bytes else [b] :: piecesFrom [] bytes := rfl

theorem piecesFrom_cons (h : Carry u) (b : UInt8) (bytes : List UInt8) :
    piecesFrom u (b :: bytes) =
      match validate (u ++ [b]) with
      | .ok => (u ++ [b]) :: piecesFrom [] bytes
      | .incomplete => piecesFrom (u ++ [b]) bytes
      | .invalid _ => u :: piecesFrom [] (b :: bytes) := by
  cases h with
  | lead | two | three => rfl

theorem repaired_eq (h : validate p ≠ .ok) : repaired p = replacement := if_neg h

theorem Scalar.repaired (h : Scalar p) : repaired p = p := if_pos h.valid

/-- Whatever is decoded is a list of scalars. -/
theorem repaired_scalar (hu : u = [] ∨ Carry u ∧ validate u = .incomplete) :
    ∀ p ∈ piecesFrom u bytes, Scalar (Utf8.repaired p) := by
  have hbroken {p : List UInt8} (hp : validate p ≠ .ok) : Scalar (Utf8.repaired p) := by
    rw [repaired_eq hp]
    exact scalar_replacement
  have hwhole {p : List UInt8} (hp : Scalar p) : Scalar (Utf8.repaired p) := by
    rw [hp.repaired]
    exact hp
  induction bytes generalizing u with
  | nil =>
    intro p hp
    rcases hu with rfl | ⟨hc, hinc⟩
    · cases hp
    · cases hc with
      | lead | two | three =>
        rw [List.mem_singleton.1 hp]
        apply hbroken
        rw [hinc]
        exact Result.noConfusion
  | cons b bytes ih =>
    have hfresh : ∀ p ∈ piecesFrom [] (b :: bytes), Scalar (Utf8.repaired p) := by
      intro p hp
      rw [piecesFrom_nil] at hp
      split at hp
      · next hinc => exact ih (.inr ⟨.lead b (validate_lead.1 hinc).1, hinc⟩) p hp
      · rcases List.mem_cons.1 hp with rfl | hp
        · by_cases hok : validate [b] = .ok
          · exact hwhole (scalar_of_ok hok)
          · exact hbroken hok
        · exact ih (.inl rfl) p hp
    rcases hu with rfl | ⟨hc, hinc⟩
    · exact hfresh
    · intro p hp
      rw [piecesFrom_cons hc] at hp
      rcases hc.snoc b with ⟨hok, -⟩ | ⟨hmore, hcarry⟩ | ⟨n, hinv⟩
      · rw [hok] at hp
        rcases List.mem_cons.1 hp with rfl | hp
        · exact hwhole (hc.scalar hok)
        · exact ih (.inl rfl) p hp
      · rw [hmore] at hp
        exact ih (.inr ⟨hcarry, hmore⟩) p hp
      · rw [hinv] at hp
        rcases List.mem_cons.1 hp with rfl | hp
        · apply hbroken
          rw [hinc]
          exact Result.noConfusion
        · exact hfresh p hp

end Utf8
