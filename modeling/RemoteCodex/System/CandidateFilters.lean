import RemoteCodex.Client.Candidates
import RemoteCodex.Core.CandidateLine

namespace RemoteCodex
set_option autoImplicit true
open Js Ipv4
namespace Client

theorem isDigit_unit {c : Char} (h : c.isDigit = true) : isDigit (unit c) = true := by
  have hb := isDigit_bounds h
  have hu := unit_toNat h
  rw [isDigit, Bool.and_eq_true, decide_eq_true_eq, decide_eq_true_eq, UInt16.le_iff_toNat_le,
    UInt16.le_iff_toNat_le, hu]
  exact hb

/-- Digits among the code units are characters. -/
theorem isDigit_char {u : UInt16} (h : isDigit u = true) :
    ∃ c : Char, c.isDigit = true ∧ u = unit c := by
  rw [isDigit, Bool.and_eq_true, decide_eq_true_eq, decide_eq_true_eq, UInt16.le_iff_toNat_le,
    UInt16.le_iff_toNat_le] at h
  have hn : ∀ n, 48 ≤ n → n ≤ 57 → (Char.ofNat n).isDigit = true ∧ (Char.ofNat n).toNat = n := by
    intro n hlow hhigh
    have hk : ∀ k < 10, (Char.ofNat (48 + k)).isDigit = true ∧
        (Char.ofNat (48 + k)).toNat = 48 + k := by decide
    have hspec := hk (n - 48) (by omega)
    rwa [Nat.add_sub_cancel' hlow] at hspec
  obtain ⟨hd, ht⟩ := hn u.toNat h.1 h.2
  refine ⟨Char.ofNat u.toNat, hd, ?_⟩
  rw [unit, ht, UInt16.ofNat_toNat]

theorem digits_chars {s : Str} (h : ∀ u ∈ s, isDigit u = true) :
    ∃ t : List Char, (∀ c ∈ t, c.isDigit = true) ∧ s = t.map unit := by
  induction s with
  | nil => exact ⟨[], fun _ hc => absurd hc List.not_mem_nil, rfl⟩
  | cons u s ih =>
    obtain ⟨c, hc, rfl⟩ := isDigit_char (h u (List.mem_cons_self ..))
    obtain ⟨t, ht, rfl⟩ := ih fun v hv => h v (List.mem_cons_of_mem _ hv)
    exact ⟨c :: t, List.forall_mem_cons.2 ⟨hc, ht⟩, rfl⟩

/-- The code units of the decimal text of a number. -/
def decimal (n : Nat) : Str := (Nat.toDigits 10 n).map unit

theorem numberOf_decimal (n : Nat) : numberOf (decimal n) = nearest n := by
  obtain ⟨hne, hdigits, -⟩ := numeral_toDigits n
  rw [numberOf, decimal, digits_units hdigits hne, Nat.ofDigitChars_ten_toDigits]
  rfl

theorem isOctet_iff {s : Str} : isOctet s = true ↔ ∃ n < 1000, s = decimal n := by
  have hfour {t : List Char} : t.length ≤ 3 → Numeral t →
      ∃ n < 1000, t.map unit = decimal n := by
    intro hlen ht
    refine ⟨Nat.ofDigitChars 10 t 0, ?_, congrArg (List.map unit) ht.toDigits.symm⟩
    apply (Nat.length_toDigits_le_iff (b := 10) (k := 3) (by decide) (by decide)).1
    rwa [ht.toDigits]
  constructor
  · intro h
    cases s with
    | nil => cases h
    | cons u rest =>
      simp only [isOctet, Bool.or_eq_true, Bool.and_eq_true, beq_iff_eq, decide_eq_true_eq,
        List.isEmpty_iff] at h
      rcases h with ⟨rfl, rfl⟩ | ⟨⟨⟨hlow, hhigh⟩, hlen⟩, hrest⟩
      · exact ⟨0, by decide, by decide⟩
      · have hu : isDigit u = true := by
          rw [isDigit, Bool.and_eq_true, decide_eq_true_eq, decide_eq_true_eq]
          exact ⟨UInt16.le_trans (by decide) hlow, hhigh⟩
        obtain ⟨t, ht, hs⟩ := digits_chars
          (List.forall_mem_cons.2 ⟨hu, List.all_eq_true.1 hrest⟩)
        rw [hs]
        cases t with
        | nil => cases hs
        | cons c t =>
          obtain ⟨rfl, rfl⟩ := List.cons.inj hs
          refine hfour ?_ ⟨List.cons_ne_nil c t, ht, fun _ hh => ?_⟩
          · rw [List.length_map] at hlen
            exact Nat.succ_le_succ hlen
          · cases hh
            exact absurd hlow (by decide)
  · rintro ⟨n, hn, rfl⟩
    obtain ⟨hne, hdigits, hzero⟩ := numeral_toDigits n
    have hlen := (Nat.length_toDigits_le_iff (b := 10) (k := 3) (by decide) (by decide)).2 hn
    rw [decimal]
    cases ht : Nat.toDigits 10 n with
    | nil => exact absurd ht hne
    | cons c t =>
      rw [ht] at hdigits hzero hlen
      obtain ⟨hc, hrest⟩ := List.forall_mem_cons.1 hdigits
      have hall : (t.map unit).all isDigit = true := by
        rw [List.all_eq_true]
        intro u hu
        obtain ⟨d, hd, rfl⟩ := List.mem_map.1 hu
        exact isDigit_unit (hrest d hd)
      simp only [List.map_cons, isOctet, Bool.or_eq_true, Bool.and_eq_true, beq_iff_eq,
        decide_eq_true_eq, List.isEmpty_iff]
      by_cases h0 : c = '0'
      · subst h0
        refine .inl ⟨rfl, List.map_eq_nil_iff.2 ?_⟩
        by_contra ht'
        exact hzero (Nat.succ_lt_succ (List.length_pos_iff.2 ht')) rfl
      · have hb := isDigit_bounds hc
        have hc48 : c.toNat ≠ 48 := fun he => h0 (Char.toNat_inj.1 he)
        refine .inr ⟨⟨⟨?_, ?_⟩, ?_⟩, hall⟩
        · rw [UInt16.le_iff_toNat_le, unit_toNat hc]
          show 49 ≤ c.toNat
          omega
        · rw [UInt16.le_iff_toNat_le, unit_toNat hc]
          exact hb.2
        · rw [List.length_map]
          exact Nat.le_of_succ_le_succ hlen

theorem octets_decimal {parts : List Str} (h : ∀ s ∈ parts, isOctet s = true) :
    ∃ ns : List Nat, (∀ n ∈ ns, n < 1000) ∧ parts = ns.map decimal := by
  induction parts with
  | nil => exact ⟨[], fun _ hn => absurd hn List.not_mem_nil, rfl⟩
  | cons s parts ih =>
    obtain ⟨n, hn, rfl⟩ := isOctet_iff.1 (h s (List.mem_cons_self ..))
    obtain ⟨ns, hns, rfl⟩ := ih fun t ht => h t (List.mem_cons_of_mem _ ht)
    exact ⟨n :: ns, List.forall_mem_cons.2 ⟨hn, hns⟩, rfl⟩

/-- The parts of a text with decimal parts, in code units. -/
theorem splitOn_decimal {s : Str} {ns : List Nat} (hne : ns ≠ []) :
    s.splitOn 0x2e = ns.map decimal ↔
      s = (['.'].intercalate (ns.map (Nat.toDigits 10))).map unit := by
  have hjoin : (['.'].intercalate (ns.map (Nat.toDigits 10))).map unit =
      [0x2e].intercalate (ns.map decimal) := by
    rw [Pieces.map_intercalate, List.map_map]
    rfl
  rw [hjoin]
  apply Pieces.splitOn_eq_iff
  · exact fun he => hne (List.map_eq_nil_iff.1 he)
  · intro p hp hdot
    obtain ⟨n, -, rfl⟩ := List.mem_map.1 hp
    obtain ⟨c, hc, hu⟩ := List.mem_map.1 hdot
    have hd := (numeral_toDigits n).2.1 c hc
    have hb := isDigit_bounds hd
    have hn := congrArg UInt16.toNat hu
    rw [unit_toNat hd] at hn
    have hdot : (0x2e : UInt16).toNat = 46 := rfl
    omega

theorem numberOf_octet {n : Nat} (hn : n < 1000) : numberOf (decimal n) = .finite n := by
  rw [numberOf_decimal, nearest_exact (Nat.lt_trans hn (by decide))]

/-- The checks of `tailnetIpv4`, on the numbers that the parts stand for. -/
theorem tailnetIpv4_decimals {s : Str} {ns : List Nat} (hns : ∀ n ∈ ns, n < 1000)
    (hs : s.splitOn 0x2e = ns.map decimal) : tailnetIpv4 s = true ↔
      ns.length = 4 ∧ (∀ n ∈ ns, n ≤ 255) ∧ ns[0]? = some 100 ∧
        ∃ b, ns[1]? = some b ∧ 64 ≤ b ∧ b ≤ 127 := by
  have hoctets : (ns.map decimal).any (fun s => !isOctet s) = false := by
    rw [List.any_eq_false]
    intro p hp
    obtain ⟨n, hn, rfl⟩ := List.mem_map.1 hp
    rw [isOctet_iff.2 ⟨n, hns n hn, rfl⟩]
    exact Bool.false_ne_true
  have hnumbers : (ns.map decimal).map numberOf =
      ns.map fun n : Nat => Number.finite (n : Rat) := by
    rw [List.map_map]
    exact List.map_congr_left fun n hn => numberOf_octet (hns n hn)
  have hle (a b : Nat) : Number.le (.finite (a : Rat)) (.finite (b : Rat)) = true ↔ a ≤ b := by
    rw [Number.le_natCast, decide_eq_true_eq]
  have heq (n : Nat) : Number.strictEq (.finite (n : Rat)) (.finite 100) = true ↔ n = 100 := by
    rw [Number.strictEq, decide_eq_true_eq, Number.finite.injEq]
    · exact Nat.cast_inj
    · exact Number.noConfusion
  unfold tailnetIpv4
  simp only [hs, hoctets, List.length_map, Bool.false_eq_true, or_false, hnumbers]
  split
  · next hlen => exact iff_of_false Bool.false_ne_true fun h => hlen h.1
  · next hlen =>
    match ns, Classical.not_not.1 hlen with
    | [a, b, c, d], _ =>
      simp only [List.map_cons, List.map_nil, Bool.and_eq_true, List.all_eq_true,
        List.forall_mem_cons, List.getElem?_cons_zero, List.getElem?_cons_succ, Option.any_some,
        Option.some.injEq, heq, exists_eq_left']
      have h255 (n : Nat) : Number.le (.finite (n : Rat)) (.finite 255) = true ↔ n ≤ 255 :=
        hle n 255
      have h64 (n : Nat) : Number.le (.finite 64) (.finite (n : Rat)) = true ↔ 64 ≤ n := hle 64 n
      have h127 (n : Nat) : Number.le (.finite (n : Rat)) (.finite 127) = true ↔ n ≤ 127 :=
        hle n 127
      simp only [h255, h64, h127]
      constructor
      · rintro ⟨⟨⟨h₀, h₁, h₂, h₃, -⟩, rfl⟩, hb⟩
        exact ⟨rfl, ⟨h₀, h₁, h₂, h₃, fun _ hx => absurd hx List.not_mem_nil⟩, rfl, hb⟩
      · rintro ⟨-, ⟨h₀, h₁, h₂, h₃, -⟩, rfl, hb⟩
        exact ⟨⟨⟨h₀, h₁, h₂, h₃, fun _ hx => absurd hx List.not_mem_nil⟩, rfl⟩, hb⟩

theorem tailnetIpv4_iff {s : Str} :
    tailnetIpv4 s = true ↔ ∃ x, InTailnet x ∧ s = x.dotted.map unit := by
  have hparts (h : tailnetIpv4 s = true) : ∀ p ∈ s.splitOn 0x2e, isOctet p = true := by
    unfold tailnetIpv4 at h
    simp only at h
    split at h
    · cases h
    · next hno =>
      intro p hp
      by_contra hnot
      apply hno
      exact .inr (List.any_eq_true.2 ⟨p, hp, by rw [Bool.eq_false_of_not_eq_true hnot]; rfl⟩)
  constructor
  · intro h
    obtain ⟨ns, hns, hs⟩ := octets_decimal (hparts h)
    obtain ⟨hlen, hle, ha, n, hb, hlow, hhigh⟩ := (tailnetIpv4_decimals hns hs).1 h
    match ns, hlen with
    | [a, b, c, d], _ =>
      obtain rfl := Option.some.inj ha
      obtain rfl := Option.some.inj hb
      have hocts := Address.octets_ofOctets hle
      obtain ⟨ha, hrest⟩ := List.cons.inj hocts
      refine ⟨.ofOctets 100 b c d, Address.inBlock_tailnet.2 ?_, ?_⟩
      · rw [ha, (List.cons.inj hrest).1]
        exact ⟨rfl, hlow, hhigh⟩
      · rw [Address.dotted, hocts]
        exact (splitOn_decimal (List.cons_ne_nil _ _)).1 hs
  · rintro ⟨x, hx, rfl⟩
    obtain ⟨ha, hb⟩ := Address.inBlock_tailnet.1 hx
    have hs : (x.dotted.map unit).splitOn 0x2e = x.octets.map decimal :=
      (splitOn_decimal (List.cons_ne_nil _ _)).2 rfl
    have hns : ∀ n ∈ x.octets, n < 1000 :=
      fun n hn => Nat.lt_of_le_of_lt (x.octets_le n hn) (by decide)
    exact (tailnetIpv4_decimals hns hs).2
      ⟨rfl, x.octets_le, congrArg some ha, x.b.toNat, rfl, hb⟩

end Client

theorem dotted_ascii (x : Address) : Ascii x.dotted := by
  have hdigits (n : Nat) : Ascii (Nat.toDigits 10 n) := by
    intro c hc
    have hb := isDigit_bounds ((numeral_toDigits n).2.1 c hc)
    omega
  have hdot : Ascii ['.'] := List.forall_mem_singleton.2 (by decide)
  intro c hc
  simp only [Address.dotted, Address.octets, List.map_cons, List.map_nil,
    List.intercalate_cons_cons, List.intercalate_singleton, List.mem_append] at hc
  rcases hc with (hc | hc) | (hc | hc) | (hc | hc) | hc
  all_goals first | exact hdigits _ c hc | exact hdot c hc

theorem tailnetIpv4_text {s : Str} :
    Client.tailnetIpv4 s = true ↔ ∃ x, InTailnet x ∧ s = utf16 x.dotted := by
  rw [Client.tailnetIpv4_iff]
  exact exists_congr fun x => by rw [utf16_ascii (dotted_ascii x)]

theorem tailnetIpv4_utf16 (s : List Char) : Client.tailnetIpv4 (utf16 s) = tailnetIp s := by
  rw [Bool.eq_iff_iff, tailnetIpv4_text, tailnetIp_iff]
  refine exists_congr fun x => and_congr_right fun _ => ?_
  rw [utf16_ascii (dotted_ascii x)]
  refine ⟨utf16_eq_units (dotted_ascii x), ?_⟩
  rintro rfl
  exact utf16_ascii (dotted_ascii x)

/-- Both endpoints recognise the dotted decimal forms of the addresses in `100.64.0.0/10`. -/
theorem tailnet_recognised :
    (∀ s : String, tailnetIp s.toList = true ↔ ∃ x, InTailnet x ∧ s.toList = x.dotted) ∧
      (∀ s : Str, Client.tailnetIpv4 s = true ↔ ∃ x, InTailnet x ∧ s = utf16 x.dotted) ∧
        ∀ s : String, Client.tailnetIpv4 (utf16 s.toList) = tailnetIp s.toList :=
  ⟨fun _ => tailnetIp_iff, fun _ => tailnetIpv4_text, fun s => tailnetIpv4_utf16 s.toList⟩

namespace Client

/-- Both endpoints class an ASCII character alike. -/
theorem classes_ascii {c : Char} (h : c.toNat < 128) : isSpace (unit c) = isWhitespace c ∧
    isDigit (unit c) = c.isDigit ∧ c.toLower.toNat < 128 ∧
      (if 0x41 ≤ unit c ∧ unit c ≤ 0x5a then unit c + 0x20 else unit c) = unit c.toLower :=
  ascii_char (P := fun c => isSpace (unit c) = isWhitespace c ∧ isDigit (unit c) = c.isDigit ∧
    c.toLower.toNat < 128 ∧
      (if 0x41 ≤ unit c ∧ unit c ≤ 0x5a then unit c + 0x20 else unit c) = unit c.toLower)
    (by decide +kernel) h

theorem isSpace_unit {c : Char} (h : c.toNat < 128) : isSpace (unit c) = isWhitespace c :=
  (classes_ascii h).1

theorem toLowerCase_units {w : List Char} (h : Ascii w) :
    toLowerCase (w.map unit) = (w.map Char.toLower).map unit := by
  rw [toLowerCase, List.map_map, List.map_map]
  exact List.map_congr_left fun c hc => (classes_ascii (h c hc)).2.2.2

theorem toLower_ascii {w : List Char} (h : Ascii w) : Ascii (w.map Char.toLower) := by
  intro c hc
  obtain ⟨d, hd, rfl⟩ := List.mem_map.1 hc
  exact (classes_ascii (h d hd)).2.2.1

theorem isDigit_ascii {c : Char} (h : c.toNat < 128) : isDigit (unit c) = c.isDigit :=
  (classes_ascii h).2.1

theorem isDigits_iff {w : List Char} (h : Ascii w) :
    isDigits (w.map unit) = true ↔ w ≠ [] ∧ ∀ c ∈ w, c.isDigit = true := by
  rw [isDigits, Bool.and_eq_true, Bool.not_eq_true', ← Bool.not_eq_true, List.isEmpty_iff,
    List.map_eq_nil_iff.not, List.all_eq_true, List.forall_mem_map]
  refine and_congr_right fun _ => forall₂_congr fun c hc => ?_
  rw [isDigit_ascii (h c hc)]

theorem numberOf_digits {w : List Char} (hne : w ≠ []) (h : ∀ c ∈ w, c.isDigit = true) :
    numberOf (w.map unit) = nearest (Nat.ofDigitChars 10 w 0) := by
  rw [numberOf, digits_units h hne]
  rfl

/-- A number that the client accepts is one that the agent reads. -/
theorem parse_of_number {max : Nat} (hmax : max < 2 ^ 53) {w : List Char} (h : Ascii w)
    (hd : isDigits (w.map unit) = true)
    (hle : (numberOf (w.map unit)).le (.finite (max : Rat)) = true) :
    ∃ n, parseUnsigned max w = some n ∧ numberOf (w.map unit) = nearest n ∧
      w.head? ≠ some '+' := by
  obtain ⟨hne, hall⟩ := (isDigits_iff h).1 hd
  have hnumber := numberOf_digits hne hall
  rw [hnumber, nearest_le hmax, decide_eq_true_eq] at hle
  have hplus : w.head? ≠ some '+' := by
    intro hp
    exact absurd (hall '+' (List.mem_of_head? hp)) (by decide)
  exact ⟨_, (parseUnsigned_unsigned hplus).2 ⟨hne, hall, rfl, hle⟩, hnumber, hplus⟩

/-- A number that the agent reads without a sign is one that the client accepts. -/
theorem number_of_parse {max n : Nat} (hmax : max < 2 ^ 53) {w : List Char} (h : Ascii w)
    (hn : parseUnsigned max w = some n) (hplus : w.head? ≠ some '+') :
    isDigits (w.map unit) = true ∧ numberOf (w.map unit) = nearest n ∧
      (numberOf (w.map unit)).le (.finite (max : Rat)) = true := by
  obtain ⟨hne, hall, rfl, hle⟩ := (parseUnsigned_unsigned hplus).1 hn
  have hnumber := numberOf_digits hne hall
  refine ⟨(isDigits_iff h).2 ⟨hne, hall⟩, hnumber, ?_⟩
  rw [hnumber, nearest_le hmax, decide_eq_true_eq]
  exact hle

theorem positive_iff {n : Nat} : (!(nearest n).le (.finite 0)) = true ↔ 0 < n := by
  have hzero : (nearest n).le (.finite 0) = decide (n ≤ 0) := @nearest_le n 0 (by decide)
  rw [hzero, ← decide_not, decide_eq_true_eq, Nat.not_le]

theorem isFoundation_iff {w : List Char} (hw : Ascii w) (hb : ∀ c ∈ w, isWhitespace c = false) :
    isFoundation (w.map unit) = true ↔
      ∃ f, w = "candidate:".toList ++ f ∧ f ≠ [] ∧ ':' ∉ f := by
  have hmark : str "candidate:" = "candidate:".toList.map unit := rfl
  have hlen : (str "candidate:").length = 10 := by decide
  have hdrop (f : List Char) : (("candidate:".toList ++ f).map unit).drop 10 = f.map unit := by
    rw [List.map_append, ← hmark, ← hlen, List.drop_left]
  have hcolon : ∀ c : Char, c.toNat < 128 → ((unit c != 0x3a) = true ↔ c ≠ ':') := by
    intro c hc
    exact bne_iff_ne.trans (not_congr (unit_inj (d := ':') hc (by decide)))
  simp only [isFoundation, Bool.and_eq_true, List.isPrefixOf_iff_prefix, hlen, Bool.not_eq_true',
    ← Bool.not_eq_true, List.isEmpty_iff, List.all_eq_true]
  constructor
  · rintro ⟨⟨⟨t, ht⟩, hne⟩, hall⟩
    obtain ⟨m, f, rfl, hm, rfl⟩ := List.map_eq_append_iff.1 ht.symm
    have hmark' : m = "candidate:".toList := by
      apply (map_unit_inj _ (by decide)).1 hm
      exact fun c hc => hw c (List.mem_append_left _ hc)
    subst hmark'
    rw [hdrop] at hne hall
    refine ⟨f, rfl, fun he => hne (List.map_eq_nil_iff.2 he), fun hmem => ?_⟩
    have hc := (hall _ (List.mem_map_of_mem hmem)).2
    exact (hcolon ':' (by decide)).1 hc rfl
  · rintro ⟨f, rfl, hf, hcol⟩
    rw [hdrop]
    refine ⟨⟨?_, fun he => hf (List.map_eq_nil_iff.1 he)⟩, ?_⟩
    · rw [List.map_append]
      exact List.prefix_append _ _
    · intro u hu
      obtain ⟨c, hc, rfl⟩ := List.mem_map.1 hu
      have hmem := List.mem_append_right "candidate:".toList hc
      have hascii := hw c hmem
      rw [isSpace_unit hascii, hb c hmem]
      refine ⟨Bool.false_ne_true, (hcolon c hascii).2 ?_⟩
      rintro rfl
      exact hcol hc

/-- The pieces that the client reads are the words that the agent reads. -/
theorem split_units {s : List Char} (h : Ascii s) {l : List Str} (hl : 1 < l.length) :
    Words.split isSpace false (Js.trim (s.map unit)) = l ↔
      (splitWhitespace s).map (List.map unit) = l := by
  have hwords : Words.words isSpace (Js.trim (s.map unit)) =
      (splitWhitespace s).map (List.map unit) := by
    rw [splitWhitespace_words, ← Words.words_map fun c hc => isSpace_unit (h c hc)]
    exact Words.words_strip _
  by_cases hne : Js.trim (s.map unit) = []
  · rw [← hwords, hne]
    refine iff_of_false ?_ ?_ <;> rintro rfl <;> exact absurd hl (by decide)
  · have hbare : Pieces.Bare isSpace (Js.trim (s.map unit)) := Pieces.strip_bare isSpace _
    rw [← hwords, Words.split_bare hbare hne]

theorem utf8Length_ascii {s : List Char} (h : Ascii s) : utf8Length s = s.length := by
  induction s with
  | nil => rfl
  | cons c s ih =>
    obtain ⟨hc, hs⟩ := ascii_cons.1 h
    have hone : c.utf8Size = 1 :=
      Char.utf8Size_eq_one_iff.2 (UInt32.le_iff_toNat_le.2 (Nat.le_of_lt_succ hc))
    rw [utf8Length, List.map_cons, List.sum_cons, hone, List.length_cons, Nat.add_comm]
    exact congrArg (· + 1) (ih hs)

theorem singleLine_units {s : List Char} (h : Ascii s) : SingleLine s ↔
    ¬ (2048 < (s.map unit).length ∨
      ((s.map unit).any fun u => u = 0x0d ∨ u = 0x0a ∨ u = 0) = true) := by
  have hsize : utf8Length s = (s.map unit).length := by
    rw [List.length_map, utf8Length_ascii h]
  have hend {c : Char} (hc : c.toNat < 128) :
      (unit c = 0x0d ∨ unit c = 0x0a ∨ unit c = 0) ↔ (c = '\r' ∨ c = '\n' ∨ c = Char.ofNat 0) :=
    or_congr (unit_inj (d := '\r') hc (by decide))
      (or_congr (unit_inj (d := '\n') hc (by decide)) (unit_inj (d := Char.ofNat 0) hc (by decide)))
  rw [singleLine_iff, hsize, List.any_map, List.any_eq_true, List.any_eq_true]
  refine not_congr (or_congr_right (exists_congr fun c => and_congr_right fun hc => ?_))
  rw [decide_eq_true_eq, Function.comp_apply, decide_eq_true_eq, hend (h c hc)]

theorem word_ascii {s w : List Char} (h : Ascii s) (hw : w ∈ splitWhitespace s) :
    Ascii w ∧ ∀ c ∈ w, isWhitespace c = false := by
  rw [splitWhitespace_words] at hw
  have hmem := (Words.mem_words hw).2
  exact ⟨fun c hc => h c (hmem c hc).1, fun c hc => (hmem c hc).2⟩

/-- What the client accepts. -/
theorem candidateAllowed_iff {s : String} (h : Ascii s.toList) :
    candidateAllowed (utf16 s.toList) none = true ↔ SingleLine s.toList ∧
      ∃ l : CandidateLine, splitWhitespace s.toList = l.fields ∧ l.Valid ∧ l.Strict := by
  rw [candidateAllowed, utf16_ascii h]
  constructor
  · intro hc
    split at hc
    · cases hc
    · next hline =>
      refine ⟨(singleLine_units h).2 hline, ?_⟩
      split at hc
      · next p₀ p₁ p₂ p₃ p₄ p₅ p₆ p₇ rest hsplit =>
        have hwords := (split_units h (by simp only [List.length_cons]; omega)).1 hsplit
        simp only [List.map_eq_cons_iff] at hwords
        obtain ⟨w₀, _, hw, rfl, w₁, _, rfl, rfl, w₂, _, rfl, rfl, w₃, _, rfl, rfl, w₄, _, rfl,
          rfl, w₅, _, rfl, rfl, w₆, _, rfl, rfl, w₇, attributes, rfl, rfl, -⟩ := hwords
        have hascii : ∀ w ∈ [w₀, w₁, w₂, w₃, w₄, w₅, w₆, w₇], Ascii w ∧
            ∀ c ∈ w, isWhitespace c = false := by
          intro w hm
          apply word_ascii h
          rw [hw]
          exact List.mem_append_left attributes hm
        simp only [List.forall_mem_cons] at hascii
        obtain ⟨⟨a₀, b₀⟩, ⟨a₁, -⟩, ⟨a₂, -⟩, ⟨a₃, -⟩, ⟨a₄, -⟩, ⟨a₅, -⟩, ⟨a₆, -⟩, ⟨a₇, -⟩, -⟩ :=
          hascii
        simp only [Bool.and_eq_true, beq_iff_eq, Option.all_none] at hc
        obtain ⟨⟨⟨⟨⟨⟨⟨⟨⟨⟨⟨h₀, h₁⟩, h₂⟩, hd₃⟩, h₃⟩, h₄⟩, -⟩, hd₅⟩, hz₅⟩, h₅⟩, h₆⟩, h₇⟩ := hc
        obtain ⟨f, rfl, hf, hcol⟩ := (isFoundation_iff a₀ b₀).1 h₀
        obtain rfl : w₁ = ['1'] := (map_unit_inj a₁ (by decide)).1 h₁
        rw [toLowerCase_units a₂] at h₂
        have ht := (map_unit_inj (toLower_ascii a₂) (by decide)).1 h₂
        obtain ⟨prio, hprio, -, hsign₃⟩ := parse_of_number (by decide) a₃ hd₃ h₃
        obtain ⟨port, hport, hnumber, hsign₅⟩ := parse_of_number (by decide) a₅ hd₅ h₅
        obtain rfl : w₆ = "typ".toList := (map_unit_inj a₆ (by decide)).1 h₆
        obtain rfl : w₇ = "host".toList := (map_unit_inj a₇ (by decide)).1 h₇
        rw [← utf16_ascii a₄, tailnetIpv4_utf16] at h₄
        rw [hnumber] at hz₅
        exact ⟨⟨f, w₂, w₃, w₄, w₅, attributes⟩, hw,
          ⟨hf, ht, ⟨prio, hprio⟩, h₄, ⟨port, hport, positive_iff.1 hz₅⟩⟩, ⟨hcol, hsign₃, hsign₅⟩⟩
      · cases hc
  · rintro ⟨hs, l, hl, hv, hstrict⟩
    have hword {w : List Char} (hm : w ∈ l.fields) : Ascii w ∧
        ∀ c ∈ w, isWhitespace c = false := word_ascii h (hl ▸ hm)
    have hwords : (splitWhitespace s.toList).map (List.map unit) = l.fields.map (List.map unit) :=
      congrArg (List.map _) hl
    rw [if_neg ((singleLine_units h).1 hs), (split_units h _).2 hwords]
    · simp only [CandidateLine.fields, List.map_cons, Bool.and_eq_true, beq_iff_eq, Option.all_none]
      have hmem : l.fields = ("candidate:".toList ++ l.foundation) :: ['1'] :: l.transport ::
        l.priority :: l.address :: l.port :: "typ".toList :: "host".toList :: l.attributes := rfl
      have hfirst := hword (w := "candidate:".toList ++ l.foundation) (by simp [hmem])
      have htransport := (hword (w := l.transport) (by simp [hmem])).1
      have haddress := (hword (w := l.address) (by simp [hmem])).1
      obtain ⟨prio, hprio⟩ := hv.priority
      obtain ⟨port, hport, hpos⟩ := hv.port
      obtain ⟨hd₃, -, h₃⟩ := number_of_parse (by decide) (hword (by simp [hmem])).1 hprio
        hstrict.priority
      obtain ⟨hd₅, hnumber, h₅⟩ := number_of_parse (by decide) (hword (by simp [hmem])).1 hport
        hstrict.port
      have hpositive : (!(numberOf (l.port.map unit)).le (.finite 0)) = true := by
        rw [hnumber]
        exact positive_iff.2 hpos
      rw [toLowerCase_units htransport, hv.transport, ← utf16_ascii haddress, tailnetIpv4_utf16]
      exact ⟨⟨⟨⟨⟨⟨⟨⟨⟨⟨⟨(isFoundation_iff hfirst.1 hfirst.2).2
        ⟨l.foundation, rfl, hv.foundation, hstrict.foundation⟩, rfl⟩, rfl⟩, hd₃⟩, h₃⟩, hv.address⟩,
        trivial⟩, hd₅⟩, hpositive⟩, h₅⟩, rfl⟩, rfl⟩
    · simp only [CandidateLine.fields, List.map_cons, List.length_cons]
      omega

end Client

/-- A candidate line that is well formed, but for a further colon in its first field or a plus sign
before its priority or its port. -/
structure Loose (s : List Char) : Prop where
  line : SingleLine s
  fields : ∃ l : CandidateLine, splitWhitespace s = l.fields ∧ l.Valid ∧ ¬ l.Strict

/-- The filters of agent and client agree on a candidate unless it is written loosely. -/
theorem filters_agree {s : String} (h : ∀ c ∈ s.toList, c.toNat < 128) :
    (candidateAllowed s none = true ↔ Client.candidateAllowed (utf16 s.toList) none = true) ↔
      ¬ Loose s.toList := by
  rw [candidateAllowed_iff, Client.candidateAllowed_iff h]
  constructor
  · rintro hagree ⟨hline, l, hl, hv, hloose⟩
    obtain ⟨-, m, hm, -, hstrict⟩ := hagree.1 ⟨hline, l, hl, hv⟩
    have hlm : l = m := CandidateLine.fields_inj (hl.symm.trans hm)
    exact hloose (hlm ▸ hstrict)
  · intro hloose
    constructor
    · rintro ⟨hline, l, hl, hv⟩
      refine ⟨hline, l, hl, hv, ?_⟩
      by_contra hstrict
      exact hloose ⟨hline, l, hl, hv, hstrict⟩
    · rintro ⟨hline, l, hl, hv, -⟩
      exact ⟨hline, l, hl, hv⟩

/-- The candidate of an interface with a colon in its foundation. -/
def colonCandidate : String := "candidate:1:2 1 udp 1 100.64.0.2 50000 typ host"

theorem filters_agree_plain :
    (candidateAllowed "candidate:1 1 udp 1 100.64.0.2 50000 typ host" none = true ↔
      Client.candidateAllowed (utf16 "candidate:1 1 udp 1 100.64.0.2 50000 typ host".toList) none =
        true) ↔ ¬ Loose "candidate:1 1 udp 1 100.64.0.2 50000 typ host".toList :=
  filters_agree (show Ascii "candidate:1 1 udp 1 100.64.0.2 50000 typ host".toList by decide)

theorem filters_differ : ¬ ∀ s : String, (∀ c ∈ s.toList, c.toNat < 128) →
    (candidateAllowed s none = true ↔
      Client.candidateAllowed (utf16 s.toList) none = true) := by
  intro h
  have hclient := (h colonCandidate (show Ascii colonCandidate.toList by decide)).1 (by decide)
  exact absurd hclient (by decide)

end RemoteCodex
