import RemoteCodex.Lib.Mealy
import RemoteCodex.Lib.Pieces

/-! Terminal output as characters and control sequences: how they are written, and how they are
read. Control strings, and sequences that are broken off, are not read here. -/

namespace Vt
set_option autoImplicit true

inductive Item where
  | print (c : Char)
  | control (c : Char)
  | esc (inter : List Char) (final : Char)
  | csi (marker : Option Char) (params : List (List Nat)) (inter : List Char) (final : Char)
  deriving DecidableEq

def escape : Char := '\x1b'

/-- One parameter, with its subparameters. -/
def paramText (param : List Nat) : List Char := [':'].intercalate (param.map (Nat.toDigits 10))

def paramsText (params : List (List Nat)) : List Char := [';'].intercalate (params.map paramText)

def Item.text : Item → List Char
  | .print c | .control c => [c]
  | .esc inter final => escape :: (inter ++ [final])
  | .csi marker params inter final =>
    escape :: '[' :: (marker.toList ++ (paramsText params ++ (inter ++ [final])))

def text (items : List Item) : List Char := items.flatMap Item.text

/-- Where the reader is: between sequences, or in one. -/
inductive Reader where
  | ground
  | escape (inter : List Char)
  | csi (marker : Option Char) (raw inter : List Char)

def paramChar (c : Char) : Bool := c.isDigit || c == ';' || c == ':'

def markerChar (c : Char) : Bool := 0x3c ≤ c.toNat && c.toNat ≤ 0x3f

def interChar (c : Char) : Bool := 0x20 ≤ c.toNat && c.toNat ≤ 0x2f

def readParam (raw : List Char) : List Nat :=
  (raw.splitOn ':').map fun digits => Nat.ofDigitChars 10 digits 0

def readParams (raw : List Char) : List (List Nat) :=
  if raw = [] then [] else (raw.splitOn ';').map readParam

def read : Reader → Char → Reader × List Item
  | .ground, c =>
    if c = escape then (.escape [], [])
    else if c.toNat < 0x20 then (.ground, [.control c])
    else (.ground, [.print c])
  | .escape inter, c =>
    if c = '[' ∧ inter = [] then (.csi none [] [], [])
    else if interChar c then (.escape (inter ++ [c]), [])
    else (.ground, [.esc inter c])
  | .csi marker raw inter, c =>
    if markerChar c then (.csi (some c) raw inter, [])
    else if paramChar c then (.csi marker (raw ++ [c]) inter, [])
    else if interChar c then (.csi marker raw (inter ++ [c]), [])
    else (.ground, [.csi marker (readParams raw) inter c])

def parse (s : List Char) : List Item := (Mealy.run read .ground s).2

/-- What can be written so that it is read back. -/
def Item.Valid : Item → Prop
  | .print c => 0x20 ≤ c.toNat
  | .control c => c.toNat < 0x20 ∧ c ≠ escape
  | .esc inter final => (∀ c ∈ inter, interChar c = true) ∧ interChar final = false ∧
    (final = '[' → inter ≠ [])
  | .csi marker params inter final => (∀ c ∈ marker, markerChar c = true) ∧
    (∀ p ∈ params, p ≠ []) ∧ (∀ c ∈ inter, interChar c = true) ∧
    markerChar final = false ∧ paramChar final = false ∧ interChar final = false

theorem digits_isDigit {n : Nat} {c : Char} (h : c ∈ Nat.toDigits 10 n) : c.isDigit = true :=
  Nat.isDigit_of_mem_toDigits (by decide) (by decide) h

theorem mem_intercalate {sep : α} {ls : List (List α)} (h : c ∈ [sep].intercalate ls) :
    c = sep ∨ ∃ l ∈ ls, c ∈ l := by
  induction ls with
  | nil => cases h
  | cons l ls ih =>
    cases ls with
    | nil =>
      rw [List.intercalate_singleton] at h
      exact .inr ⟨l, List.mem_cons_self .., h⟩
    | cons l' ls =>
      rw [List.intercalate_cons_cons, List.mem_append, List.mem_append] at h
      rcases h with (h | h) | h
      · exact .inr ⟨l, List.mem_cons_self .., h⟩
      · exact .inl (List.mem_singleton.1 h)
      · rcases ih h with h | ⟨l, hl, hc⟩
        · exact .inl h
        · exact .inr ⟨l, List.mem_cons_of_mem _ hl, hc⟩

theorem intercalate_ne_nil {sep : α} {ls : List (List α)} (hls : ls ≠ []) (h : ∀ l ∈ ls, l ≠ []) :
    [sep].intercalate ls ≠ [] := by
  cases ls with
  | nil => exact absurd rfl hls
  | cons l ls =>
    have hl := h l (List.mem_cons_self ..)
    cases ls with
    | nil =>
      rw [List.intercalate_singleton]
      exact hl
    | cons l' ls =>
      rw [List.intercalate_cons_cons]
      exact fun he => hl (List.append_eq_nil_iff.1 (List.append_eq_nil_iff.1 he).1).1

theorem mem_paramText {param : List Nat} (h : c ∈ paramText param) :
    c.isDigit = true ∨ c = ':' := by
  rcases mem_intercalate h with h | ⟨l, hl, hc⟩
  · exact .inr h
  · obtain ⟨n, -, rfl⟩ := List.mem_map.1 hl
    exact .inl (digits_isDigit hc)

theorem mem_paramsText {params : List (List Nat)} (h : c ∈ paramsText params) :
    paramChar c = true := by
  unfold paramChar
  rcases mem_intercalate h with rfl | ⟨l, hl, hc⟩
  · rfl
  · obtain ⟨p, -, rfl⟩ := List.mem_map.1 hl
    rcases mem_paramText hc with hc | rfl
    · rw [hc]
      rfl
    · rfl

theorem readParam_text {param : List Nat} (h : param ≠ []) :
    readParam (paramText param) = param := by
  have hdigits : ∀ l ∈ param.map (Nat.toDigits 10), ':' ∉ l := by
    intro l hl hc
    obtain ⟨n, -, rfl⟩ := List.mem_map.1 hl
    cases digits_isDigit hc
  rw [readParam, paramText, List.splitOn_intercalate _ hdigits (mt List.map_eq_nil_iff.1 h),
    List.map_map]
  refine (List.map_congr_left fun n _ => ?_).trans (List.map_id param)
  exact Nat.ofDigitChars_ten_toDigits ..

theorem readParams_text {params : List (List Nat)} (h : ∀ p ∈ params, p ≠ []) :
    readParams (paramsText params) = params := by
  cases params with
  | nil => rfl
  | cons p ps =>
    have htexts : ∀ l ∈ (p :: ps).map paramText, ';' ∉ l ∧ l ≠ [] := by
      intro l hl
      obtain ⟨q, hq, rfl⟩ := List.mem_map.1 hl
      refine ⟨fun hc => ?_, intercalate_ne_nil (mt List.map_eq_nil_iff.1 (h q hq)) fun d hd => ?_⟩
      · rcases mem_paramText hc with hc | hc <;> cases hc
      · obtain ⟨n, -, rfl⟩ := List.mem_map.1 hd
        exact Nat.toDigits_ne_nil
    have hne : (p :: ps).map paramText ≠ [] := List.cons_ne_nil _ _
    have htext : paramsText (p :: ps) ≠ [] := intercalate_ne_nil hne fun l hl => (htexts l hl).2
    rw [readParams, if_neg htext, paramsText,
      List.splitOn_intercalate _ (fun l hl => (htexts l hl).1) hne, List.map_map]
    exact (List.map_congr_left fun q hq => readParam_text (h q hq)).trans (List.map_id _)

theorem run_inter (h : ∀ c ∈ inter, interChar c = true) (seen : List Char) :
    Mealy.run read (.escape seen) inter = (.escape (seen ++ inter), []) := by
  induction inter generalizing seen with
  | nil => rw [Mealy.run_nil, List.append_nil]
  | cons c inter ih =>
    obtain ⟨hc, hinter⟩ := List.forall_mem_cons.1 h
    have hbracket : ¬ (c = '[' ∧ seen = []) := by
      rintro ⟨rfl, -⟩
      cases hc
    rw [Mealy.run_cons, read, if_neg hbracket, if_pos hc, ih hinter, List.append_assoc,
      List.singleton_append, List.nil_append]

theorem run_params (h : ∀ c ∈ raw, paramChar c = true) (marker : Option Char) (seen : List Char) :
    Mealy.run read (.csi marker seen []) raw = (.csi marker (seen ++ raw) [], []) := by
  induction raw generalizing seen with
  | nil => rw [Mealy.run_nil, List.append_nil]
  | cons c raw ih =>
    obtain ⟨hc, hraw⟩ := List.forall_mem_cons.1 h
    have hmarker : ¬ markerChar c = true := by
      intro hm
      simp only [paramChar, markerChar, Char.isDigit, Bool.or_eq_true, Bool.and_eq_true,
        decide_eq_true_eq, beq_iff_eq] at hc hm
      rcases hc with (⟨hlow, hhigh⟩ | rfl) | rfl
      · have : c.toNat ≤ 0x39 := hhigh
        omega
      · exact absurd hm (by decide)
      · exact absurd hm (by decide)
    rw [Mealy.run_cons, read, if_neg hmarker, if_pos hc, ih hraw, List.append_assoc,
      List.singleton_append, List.nil_append]

theorem run_csiInter (h : ∀ c ∈ inter, interChar c = true) (marker : Option Char)
    (raw seen : List Char) :
    Mealy.run read (.csi marker raw seen) inter = (.csi marker raw (seen ++ inter), []) := by
  induction inter generalizing seen with
  | nil => rw [Mealy.run_nil, List.append_nil]
  | cons c inter ih =>
    obtain ⟨hc, hinter⟩ := List.forall_mem_cons.1 h
    have hrange : 0x20 ≤ c.toNat ∧ c.toNat ≤ 0x2f := by
      simpa only [interChar, Bool.and_eq_true, decide_eq_true_eq] using hc
    have hmarker : ¬ markerChar c = true := by
      simp only [markerChar, Bool.and_eq_true, decide_eq_true_eq]
      omega
    have hparam : ¬ paramChar c = true := by
      simp only [paramChar, Char.isDigit, Bool.or_eq_true, Bool.and_eq_true, decide_eq_true_eq,
        beq_iff_eq]
      rintro ((⟨hlow, -⟩ | rfl) | rfl)
      · have : 0x30 ≤ c.toNat := hlow
        omega
      · exact absurd hrange (by decide)
      · exact absurd hrange (by decide)
    rw [Mealy.run_cons, read, if_neg hmarker, if_neg hparam, if_pos hc, ih hinter,
      List.append_assoc, List.singleton_append, List.nil_append]

/-- A sequence that is written is read as itself. -/
theorem Item.Valid.read {i : Item} (h : i.Valid) :
    Mealy.run read .ground i.text = (.ground, [i]) := by
  cases i with
  | print c =>
    have hc : 0x20 ≤ c.toNat := h
    have hescape : c ≠ Vt.escape := by
      rintro rfl
      exact absurd hc (by decide)
    rw [Item.text, Mealy.run_cons, Vt.read, if_neg hescape, if_neg (Nat.not_lt.2 hc)]
    rfl
  | control c =>
    obtain ⟨hc, hescape⟩ := h
    rw [Item.text, Mealy.run_cons, Vt.read, if_neg hescape, if_pos hc]
    rfl
  | esc inter final =>
    obtain ⟨hinter, hfinal, hbracket⟩ := h
    have hnot : ¬ (final = '[' ∧ inter = []) := fun he => hbracket he.1 he.2
    rw [Item.text, Mealy.run_cons, Vt.read, if_pos rfl, Mealy.run_append, run_inter hinter,
      List.nil_append, Mealy.run_cons, Vt.read, if_neg hnot, if_neg (by rw [hfinal]; exact nofun)]
    rfl
  | csi marker params inter final =>
    obtain ⟨hmarker, hparams, hinter, hm, hp, hi⟩ := h
    have hstart : Mealy.run Vt.read (.csi none [] []) marker.toList = (.csi marker [] [], []) := by
      cases marker with
      | none => rfl
      | some c =>
        rw [Option.toList_some, Mealy.run_cons, Vt.read, if_pos (hmarker c rfl)]
        rfl
    rw [Item.text, Mealy.run_cons, Vt.read, if_pos rfl, Mealy.run_cons, Vt.read,
      if_pos ⟨rfl, rfl⟩, Mealy.run_append, hstart, Mealy.run_append,
      run_params (fun c => mem_paramsText), Mealy.run_append, run_csiInter hinter, Mealy.run_cons,
      Vt.read, if_neg (by rw [hm]; exact nofun), if_neg (by rw [hp]; exact nofun),
      if_neg (by rw [hi]; exact nofun), List.nil_append, readParams_text hparams]
    rfl

/-- What is written is read back. -/
theorem parse_text {items : List Item} (h : ∀ i ∈ items, i.Valid) : parse (text items) = items := by
  have hrun : Mealy.run read .ground (text items) = (.ground, items) := by
    induction items with
    | nil => rfl
    | cons i items ih =>
      obtain ⟨hi, hitems⟩ := List.forall_mem_cons.1 h
      rw [text, List.flatMap_cons, Mealy.run_append, hi.read]
      exact congrArg (fun r : Reader × List Item => (r.1, i :: r.2)) (ih hitems)
  rw [parse, hrun]

end Vt
