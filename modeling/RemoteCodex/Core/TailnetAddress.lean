import RemoteCodex.Lib.Ipv4
import RemoteCodex.Lib.Pieces
import RemoteCodex.Core.MediaWire

namespace RemoteCodex
set_option autoImplicit true
open Ipv4

/-- An address in `100.64.0.0/10`. -/
def InTailnet (x : Address) : Prop := Address.InBlock ⟨100, 64, 0, 0⟩ 10 x

instance : DecidablePred InTailnet := fun _ => inferInstanceAs (Decidable (Address.InBlock ..))

/-- The dotted decimal form of an address in the tailnet. -/
def TailnetText (s : List Char) : Prop := ∃ x, InTailnet x ∧ s = x.dotted

theorem parseUnsigned_digits {max : Nat} {s : List Char} (hne : s ≠ [])
    (h : ∀ c ∈ s, c.isDigit = true) :
    parseUnsigned max s =
      if Nat.ofDigitChars 10 s 0 ≤ max then some (Nat.ofDigitChars 10 s 0) else none := by
  have hall : s.all Char.isDigit = true := List.all_eq_true.2 h
  unfold parseUnsigned
  split
  · exact absurd (h '+' (List.mem_cons_self ..)) (by decide)
  · rw [if_pos ⟨hne, hall⟩, Nat.ofDigitChars_eq_foldl]

/-- Without a sign, only digits are read. -/
theorem parseUnsigned_unsigned {max n : Nat} {s : List Char} (h : s.head? ≠ some '+') :
    parseUnsigned max s = some n ↔
      s ≠ [] ∧ (∀ c ∈ s, c.isDigit = true) ∧ Nat.ofDigitChars 10 s 0 = n ∧ n ≤ max := by
  by_cases hs : s ≠ [] ∧ ∀ c ∈ s, c.isDigit = true
  · rw [parseUnsigned_digits hs.1 hs.2]
    split
    · next hle =>
      rw [Option.some.injEq]
      exact ⟨fun he => ⟨hs.1, hs.2, he, he ▸ hle⟩, fun he => he.2.2.1⟩
    · next hlt => exact iff_of_false nofun fun he => hlt (he.2.2.1 ▸ he.2.2.2)
  · refine iff_of_false (fun hsome => ?_) fun he => hs ⟨he.1, he.2.1⟩
    unfold parseUnsigned at hsome
    split at hsome
    · exact h rfl
    · dsimp only at hsome
      split at hsome
      · next hd => exact hs ⟨hd.1, List.all_eq_true.1 hd.2⟩
      · cases hsome

theorem tailnetPart_eq_some {s : List Char} {n : Nat} :
    tailnetPart s = some n ↔ s = Nat.toDigits 10 n ∧ n ≤ 255 := by
  unfold tailnetPart
  constructor
  · intro h
    split at h
    · cases h
    · next hs =>
      simp only [not_or, Classical.not_not, not_and] at hs
      obtain ⟨hne, -, hzero, hall⟩ := hs
      have hdigits := List.all_eq_true.1 hall
      rw [parseUnsigned_digits hne hdigits] at h
      split at h
      · next hle =>
        cases h
        exact ⟨(numeral_iff.1 ⟨⟨hne, hdigits, hzero⟩, rfl⟩), hle⟩
      · cases h
  · rintro ⟨rfl, hle⟩
    obtain ⟨hne, hdigits, hzero⟩ := numeral_toDigits n
    have hlen : (Nat.toDigits 10 n).length ≤ 3 :=
      (Nat.length_toDigits_le_iff (by decide) (by decide)).2 (by omega)
    rw [if_neg, parseUnsigned_digits hne hdigits, Nat.ofDigitChars_ten_toDigits, if_pos hle]
    rintro (he | he | ⟨hl, he⟩ | he)
    · exact hne he
    · exact absurd he (Nat.not_lt.2 hlen)
    · exact hzero hl he
    · exact he (List.all_eq_true.2 hdigits)

theorem tailnetIp_iff {s : List Char} : tailnetIp s = true ↔ TailnetText s := by
  have hread := fun {l : List (List Char)} {ns} =>
    @mapM_texts _ tailnetPart _ (fun s n => tailnetPart_eq_some) l ns
  constructor
  · intro h
    unfold tailnetIp at h
    split at h
    · next a b c d hm =>
      obtain ⟨hparts, hle⟩ := hread.1 hm
      simp only [Bool.and_eq_true, beq_iff_eq, decide_eq_true_eq] at h
      have hocts := Address.octets_ofOctets hle
      refine ⟨.ofOctets a b c d, Address.inBlock_tailnet.2 ?_, ?_⟩
      · obtain ⟨ha, hb⟩ := List.cons.inj hocts
        rw [ha, (List.cons.inj hb).1]
        exact ⟨h.1.1, h.1.2, h.2⟩
      · rw [Address.dotted, hocts]
        exact (splitOn_decimals (List.cons_ne_nil _ _)).1 hparts
    · cases h
  · rintro ⟨x, hx, rfl⟩
    have hm := hread.2 ⟨x.splitOn_dotted, x.octets_le⟩
    obtain ⟨ha, hb⟩ := Address.inBlock_tailnet.1 hx
    unfold tailnetIp
    rw [hm]
    simp [Address.octets, ha, hb]

end RemoteCodex
