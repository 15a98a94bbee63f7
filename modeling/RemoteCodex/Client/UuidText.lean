import RemoteCodex.Lib.Js
import RemoteCodex.Lib.Slices
import RemoteCodex.Core.Protocol

namespace RemoteCodex
set_option autoImplicit true
open Slices
namespace Client

/-- The codes of `ProtocolError` in the frame codec. -/
inductive CodecError where
  | invalidUuid
  | frameTooLarge
  | truncatedHeader
  | protocolVersion
  | invalidFlagsOrKind
  | truncatedPayload
  | invalidFrame
  deriving DecidableEq

def dash : UInt16 := 0x2d

/-- `[a-f0-9]`, in either case -/
def isHex (c : UInt16) : Bool :=
  (0x61 ≤ c && c ≤ 0x66) || (0x41 ≤ c && c ≤ 0x46) || (0x30 ≤ c && c ≤ 0x39)

/-- A text that matches a sequence of character classes from its start to its end. -/
def fullMatch : List (UInt16 → Bool) → Js.Str → Bool
  | [], [] => true
  | p :: ps, c :: cs => p c && fullMatch ps cs
  | _, _ => false

/-- `UUID` -/
def uuidPattern : List (UInt16 → Bool) :=
  .replicate 8 isHex ++ (· == dash) :: (.replicate 4 isHex ++ (· == dash) ::
    (.replicate 4 isHex ++ (· == dash) :: (.replicate 4 isHex ++ (· == dash) ::
      .replicate 12 isHex)))

/-- `Number.parseInt(s, 16)` of hexadecimal digits -/
def parseHex (s : Js.Str) : Nat := (Js.digits 16 s).getD 0

def uuidBytes (id : Js.Str) : Except CodecError (List UInt8) :=
  if fullMatch uuidPattern id then
    let hex := id.filter (· != dash)
    .ok ((List.range 16).map fun i => UInt8.ofNat (parseHex (slice hex (i * 2) (i * 2 + 2))))
  else .error .invalidUuid

/-- `n.toString(16).padStart(2, '0')` -/
def hexByte (n : UInt8) : Js.Str :=
  let s := Js.str (String.ofList (Nat.toDigits 16 n.toNat))
  .replicate (2 - s.length) 0x30 ++ s

def bytesUuid (bytes : List UInt8) : Except CodecError Js.Str :=
  if bytes.length ≠ 16 then .error .invalidUuid
  else
    let h := bytes.flatMap hexByte
    .ok (slice h 0 8 ++ [dash] ++ slice h 8 12 ++ [dash] ++ slice h 12 16 ++ [dash] ++
      slice h 16 20 ++ [dash] ++ h.drop 20)

example : bytesUuid (Uuid.fill 0xa7).bytes =
    .ok (Js.str "a7a7a7a7-a7a7-a7a7-a7a7-a7a7a7a7a7a7") := by decide

example : uuidBytes (Js.str "A7a7a7a7-A7a7-a7a7-a7a7-a7a7a7a7a7a7") =
    .ok (Uuid.fill 0xa7).bytes := by decide

/-- The two digits of a byte. -/
theorem hexByte_eq (b : UInt8) :
    hexByte b = [UInt16.ofNat (Nat.digitChar (b.toNat / 16)).toNat,
      UInt16.ofNat (Nat.digitChar (b.toNat % 16)).toNat] := by
  have h : ∀ n < 256, hexByte (UInt8.ofNat n) =
      [UInt16.ofNat (Nat.digitChar (n / 16)).toNat,
        UInt16.ofNat (Nat.digitChar (n % 16)).toNat] := by
    decide +kernel
  have hb := h b.toNat b.toNat_lt
  rwa [UInt8.ofNat_toNat] at hb

theorem hexByte_length (b : UInt8) : (hexByte b).length = 2 := by
  rw [hexByte_eq]
  rfl

theorem parseHex_hexByte (b : UInt8) : UInt8.ofNat (parseHex (hexByte b)) = b := by
  have h : ∀ n < 256, parseHex (hexByte (UInt8.ofNat n)) = n := by decide +kernel
  have hb := h b.toNat b.toNat_lt
  rw [UInt8.ofNat_toNat] at hb
  rw [hb, UInt8.ofNat_toNat]

/-- The digits of a byte are hexadecimal, and not a dash. -/
theorem hexByte_isHex (b : UInt8) : ∀ c ∈ hexByte b, isHex c = true ∧ c ≠ dash := by
  have h : ∀ n < 256, (hexByte (UInt8.ofNat n)).all (fun c => isHex c && c != dash) = true := by
    decide +kernel
  have hb := h b.toNat b.toNat_lt
  simpa only [UInt8.ofNat_toNat, List.all_eq_true, Bool.and_eq_true, bne_iff_ne] using hb

/-- The groups of digits of a UUID. -/
def groups (u : Uuid) : Js.Str :=
  (slice u.bytes 0 4).flatMap hexByte ++ dash :: ((slice u.bytes 4 6).flatMap hexByte ++
    dash :: ((slice u.bytes 6 8).flatMap hexByte ++ dash :: ((slice u.bytes 8 10).flatMap hexByte ++
      dash :: (slice u.bytes 10 16).flatMap hexByte)))

theorem groups_length (u : Uuid) : (groups u).length = 36 := by
  have hlen (a b : Nat) (hb : b ≤ 16) :
      ((slice u.bytes a b).flatMap hexByte).length = (b - a) * 2 := by
    simp only [List.length_flatMap, hexByte_length, List.map_const', List.sum_replicate_nat]
    rw [slice_length (by rw [u.length_eq]; exact hb)]
  simp only [groups, List.length_append, List.length_cons, hlen 0 4 (by decide),
    hlen 4 6 (by decide), hlen 6 8 (by decide), hlen 8 10 (by decide), hlen 10 16 (by decide)]

theorem str_append (s t : String) : Js.str (s ++ t) = Js.str s ++ Js.str t := by
  rw [Js.str, String.toList_append, List.map_append]
  rfl

theorem str_hyphenated (u : Uuid) : Js.str u.hyphenated = groups u := by
  have hdigits (bytes : List UInt8) :
      Js.str (String.ofList (bytes.flatMap fun b =>
        [Nat.digitChar (b.toNat / 16), Nat.digitChar (b.toNat % 16)])) =
        bytes.flatMap hexByte := by
    rw [Js.str, String.toList_ofList, List.map_flatMap]
    refine congrArg (List.flatMap · bytes) ?_
    funext b
    rw [hexByte_eq]
    rfl
  have hdash : Js.str "-" = [dash] := rfl
  simp only [Uuid.hyphenated, str_append, hdigits, hdash, groups, slice, List.append_assoc,
    List.nil_append, List.cons_append, Nat.reduceSub]

theorem bytesUuid_eq (u : Uuid) : bytesUuid u.bytes = .ok (groups u) := by
  have hslice (a b : Nat) : slice (u.bytes.flatMap hexByte) (a * 2) (b * 2) =
      (slice u.bytes a b).flatMap hexByte := slice_flatMap hexByte_length u.bytes a b
  have hrest : (u.bytes.flatMap hexByte).drop (10 * 2) =
      (slice u.bytes 10 16).flatMap hexByte := by
    rw [drop_flatMap hexByte_length, slice, List.take_of_length_le]
    rw [List.length_drop, u.length_eq]
  rw [bytesUuid, if_neg (not_not.2 u.length_eq)]
  simp only [hslice 0 4, hslice 4 6, hslice 6 8, hslice 8 10, hrest, groups, List.append_assoc,
    List.nil_append, List.cons_append]

theorem fullMatch_append {ps qs : List (UInt16 → Bool)} {s t : Js.Str}
    (h : ps.length = s.length) :
    fullMatch (ps ++ qs) (s ++ t) = (fullMatch ps s && fullMatch qs t) := by
  induction ps generalizing s with
  | nil =>
    rw [List.eq_nil_of_length_eq_zero h.symm]
    rfl
  | cons p ps ih =>
    cases s with
    | nil => cases h
    | cons c s =>
      simp only [List.cons_append, fullMatch, ih (Nat.succ.inj h), Bool.and_assoc]

theorem fullMatch_hexes {bytes : List UInt8} {n : Nat} (h : bytes.length * 2 = n) :
    (List.replicate n isHex).length = (bytes.flatMap hexByte).length ∧
      fullMatch (List.replicate n isHex) (bytes.flatMap hexByte) = true := by
  subst h
  induction bytes with
  | nil => exact ⟨rfl, rfl⟩
  | cons b bytes ih =>
    have hlen : (List.replicate 2 isHex).length = (hexByte b).length := by
      rw [hexByte_length, List.length_replicate]
    have hbyte : fullMatch (List.replicate 2 isHex) (hexByte b) = true := by
      have hhex := hexByte_isHex b
      rw [hexByte_eq] at hhex ⊢
      exact Bool.and_eq_true_iff.2 ⟨(hhex _ (.head _)).1,
        Bool.and_eq_true_iff.2 ⟨(hhex _ (.tail _ (.head _))).1, rfl⟩⟩
    have htwo : (b :: bytes).length * 2 = 2 + bytes.length * 2 := by
      rw [List.length_cons]
      omega
    rw [htwo, ← List.replicate_append_replicate, List.flatMap_cons]
    constructor
    · rw [List.length_append, List.length_append, ih.1, hlen]
    · rw [fullMatch_append hlen, hbyte, ih.2, Bool.and_self]

theorem uuidPattern_groups (u : Uuid) : fullMatch uuidPattern (groups u) = true := by
  have hlen (a b : Nat) (hb : b ≤ 16) : (slice u.bytes a b).length = b - a :=
    slice_length (by rw [u.length_eq]; exact hb)
  have hgroup (a b n : Nat) (hb : b ≤ 16) (hn : (b - a) * 2 = n) :=
    @fullMatch_hexes (slice u.bytes a b) n (by rw [hlen a b hb]; exact hn)
  have hsep (ps : List (UInt16 → Bool)) (s : Js.Str) :
      fullMatch ((· == dash) :: ps) (dash :: s) = fullMatch ps s := by
    rw [fullMatch, beq_self_eq_true, Bool.true_and]
  obtain ⟨hlen₀, hmatch₀⟩ := hgroup 0 4 8 (by decide) rfl
  obtain ⟨hlen₁, hmatch₁⟩ := hgroup 4 6 4 (by decide) rfl
  obtain ⟨hlen₂, hmatch₂⟩ := hgroup 6 8 4 (by decide) rfl
  obtain ⟨hlen₃, hmatch₃⟩ := hgroup 8 10 4 (by decide) rfl
  obtain ⟨_, hmatch₄⟩ := hgroup 10 16 12 (by decide) rfl
  rw [uuidPattern, groups, fullMatch_append hlen₀, hmatch₀, Bool.true_and, hsep,
    fullMatch_append hlen₁, hmatch₁, Bool.true_and, hsep, fullMatch_append hlen₂, hmatch₂,
    Bool.true_and, hsep, fullMatch_append hlen₃, hmatch₃, Bool.true_and, hsep, hmatch₄]

/-- Without the dashes the digits of all bytes are left. -/
theorem filter_groups (u : Uuid) :
    (groups u).filter (· != dash) = u.bytes.flatMap hexByte := by
  have hkeep (bytes : List UInt8) :
      (bytes.flatMap hexByte).filter (· != dash) = bytes.flatMap hexByte := by
    apply List.filter_eq_self.2
    intro c hc
    obtain ⟨b, _, hb⟩ := List.mem_flatMap.1 hc
    exact bne_iff_ne.2 (hexByte_isHex b c hb).2
  have hdrop (s : Js.Str) : (dash :: s).filter (· != dash) = s.filter (· != dash) :=
    List.filter_cons_of_neg (by decide)
  have hall : slice u.bytes 0 16 = u.bytes := by
    have h := slice_all u.bytes
    rwa [u.length_eq] at h
  simp only [groups, List.filter_append, hdrop, hkeep, ← List.flatMap_append,
    slice_append_slice, Nat.reduceLeDiff, hall]

theorem uuidBytes_groups (u : Uuid) : uuidBytes (groups u) = .ok u.bytes := by
  rw [uuidBytes, if_pos (uuidPattern_groups u), filter_groups]
  refine congrArg Except.ok ?_
  apply List.ext_getElem
  · rw [List.length_map, List.length_range, u.length_eq]
  · intro i _ hi
    have hi16 : i < 16 := by rwa [u.length_eq] at hi
    have hbyte : slice u.bytes i (i + 1) = [u.bytes[i]] := by
      rw [slice_cons (Nat.lt_succ_self i) hi 0, slice_self, List.getD_eq_getElem _ _ hi]
    have hslice := slice_flatMap hexByte_length u.bytes i (i + 1)
    rw [hbyte, Nat.succ_mul, List.flatMap_singleton] at hslice
    rw [List.getElem_map, List.getElem_range, hslice, parseHex_hexByte]

/-- The small letter of a capital letter. -/
def lower (c : UInt16) : UInt16 := if 0x41 ≤ c ∧ c ≤ 0x5a then c + 0x20 else c

theorem lower_cases (c : UInt16) : lower c = c ∨ ∃ n < 26, c = UInt16.ofNat (0x41 + n) := by
  unfold lower
  split
  · next h =>
    right
    have hlow : 0x41 ≤ c.toNat := UInt16.le_iff_toNat_le.1 h.1
    have hhigh : c.toNat ≤ 0x5a := UInt16.le_iff_toNat_le.1 h.2
    refine ⟨c.toNat - 0x41, by omega, ?_⟩
    rw [Nat.add_sub_cancel' hlow, UInt16.ofNat_toNat]
  · exact .inl rfl

theorem isHex_lower (c : UInt16) : isHex (lower c) = isHex c := by
  have h : ∀ n < 26, isHex (lower (UInt16.ofNat (0x41 + n))) = isHex (UInt16.ofNat (0x41 + n)) := by
    decide
  rcases lower_cases c with hc | ⟨n, hn, rfl⟩
  · rw [hc]
  · exact h n hn

theorem dash_lower (c : UInt16) : (lower c == dash) = (c == dash) := by
  have h : ∀ n < 26, (lower (UInt16.ofNat (0x41 + n)) == dash) =
      (UInt16.ofNat (0x41 + n) == dash) := by decide
  rcases lower_cases c with hc | ⟨n, hn, rfl⟩
  · rw [hc]
  · exact h n hn

theorem digit_lower (c : UInt16) : Js.digit (lower c) = Js.digit c := by
  have h : ∀ n < 26, Js.digit (lower (UInt16.ofNat (0x41 + n))) =
      Js.digit (UInt16.ofNat (0x41 + n)) := by decide
  rcases lower_cases c with hc | ⟨n, hn, rfl⟩
  · rw [hc]
  · exact h n hn

theorem fullMatch_lower {ps : List (UInt16 → Bool)}
    (h : ∀ p ∈ ps, ∀ c, p (lower c) = p c) (s : Js.Str) :
    fullMatch ps (s.map lower) = fullMatch ps s := by
  induction ps generalizing s with
  | nil =>
    cases s with
    | nil => rfl
    | cons c s => rfl
  | cons p ps ih =>
    cases s with
    | nil => rfl
    | cons c s =>
      rw [List.map_cons, fullMatch, fullMatch, h p (List.mem_cons_self ..),
        ih fun q hq => h q (List.mem_cons_of_mem p hq)]

theorem parseHex_lower (s : Js.Str) : parseHex (s.map lower) = parseHex s := by
  rw [parseHex, parseHex, Js.digits, Js.digits, List.foldl_map]
  simp only [List.map_eq_nil_iff, digit_lower]

/-- Capital letters make no difference. -/
theorem uuidBytes_lower (s : Js.Str) : uuidBytes (s.map lower) = uuidBytes s := by
  have hpattern : ∀ p ∈ uuidPattern, ∀ c, p (lower c) = p c := by
    intro p hp
    simp only [uuidPattern, List.mem_append, List.mem_cons, List.mem_replicate] at hp
    rcases hp with ⟨_, rfl⟩ | rfl | ⟨_, rfl⟩ | rfl | ⟨_, rfl⟩ | rfl | ⟨_, rfl⟩ | rfl | ⟨_, rfl⟩
    all_goals first | exact isHex_lower | exact dash_lower
  have hfilter : (s.map lower).filter (· != dash) = (s.filter (· != dash)).map lower := by
    rw [List.filter_map]
    refine congrArg (List.map lower) (List.filter_congr fun c _ => ?_)
    exact congrArg not (dash_lower c)
  have hslice (t : Js.Str) (a b : Nat) : slice (t.map lower) a b = (slice t a b).map lower := by
    rw [slice, slice, List.map_take, List.map_drop]
  rw [uuidBytes, uuidBytes, fullMatch_lower hpattern, hfilter]
  simp only [hslice, parseHex_lower]

/-- A text of a UUID, in small or capital letters, stands for its bytes. -/
theorem uuidBytes_text {u : Uuid} {s : Js.Str} (h : s.map lower = Js.str u.hyphenated) :
    uuidBytes s = .ok u.bytes := by
  rw [← uuidBytes_lower, h, str_hyphenated, uuidBytes_groups]

/-- A UUID is written in small letters. -/
theorem lower_groups (u : Uuid) : (groups u).map lower = groups u := by
  have hbyte (b : UInt8) : (hexByte b).map lower = hexByte b := by
    have h : ∀ n < 256, (hexByte (UInt8.ofNat n)).map lower = hexByte (UInt8.ofNat n) := by
      decide +kernel
    have hb := h b.toNat b.toNat_lt
    rwa [UInt8.ofNat_toNat] at hb
  have hdash : lower dash = dash := by decide
  simp only [groups, List.map_append, List.map_cons, List.map_flatMap, hbyte, hdash]

end Client
end RemoteCodex
