import Mathlib.Logic.Function.Basic
import RemoteCodex.Lib.Text

/-! Header names, header values and header maps of HTTP. -/

namespace Http
set_option autoImplicit true

/-- A character of a header name in its normal form. -/
def isNameChar (c : Char) : Bool :=
  (97 ≤ c.toNat && c.toNat ≤ 122) || (48 ≤ c.toNat && c.toNat ≤ 57) ||
    "!#$%&'*+-.^_`|~".toList.contains c

def validName (text : String) : Bool :=
  text.toList != [] && text.toList.length ≤ 65535 && text.toList.all isNameChar

/-- Header names are kept in lower case. -/
structure HeaderName where
  text : String
  valid : validName text = true
  deriving DecidableEq

/-- `HdrName::from_bytes`, which makes letters small -/
def HeaderName.parse (text : String) : Option HeaderName :=
  let small := String.ofList (text.toList.map Char.toLower)
  if h : validName small = true then some ⟨small, h⟩ else none

def isValueByte (b : UInt8) : Bool := (32 ≤ b && b != 127) || b == 9

/-- Visible ASCII, with the tab. -/
def isVisible (b : UInt8) : Bool := (32 ≤ b && b < 127) || b == 9

structure HeaderValue where
  bytes : List UInt8
  valid : bytes.all isValueByte = true
  deriving DecidableEq

namespace HeaderValue

/-- The bytes, each as a character. -/
def latin1 (v : HeaderValue) : String := String.ofList (Text.latin1 v.bytes)

def visible (v : HeaderValue) : Bool := v.bytes.all isVisible

def toStr (v : HeaderValue) : Option String := if v.visible then some v.latin1 else none

theorem isValueByte_of_visible {b : UInt8} (h : isVisible b = true) : isValueByte b = true := by
  simp only [isVisible, Bool.or_eq_true, Bool.and_eq_true, decide_eq_true_eq, beq_iff_eq] at h
  simp only [isValueByte, Bool.or_eq_true, Bool.and_eq_true, decide_eq_true_eq, beq_iff_eq,
    bne_iff_ne]
  exact h.imp_left fun hb => ⟨hb.1, UInt8.ne_of_lt hb.2⟩

/-- The bytes with the numbers of the characters. -/
def ascii (s : String) : List UInt8 := s.toList.map fun c => UInt8.ofNat c.toNat

def fromStatic (s : String) (h : (ascii s).all isVisible = true) : HeaderValue :=
  ⟨ascii s, List.all_eq_true.2 fun b hb => isValueByte_of_visible (List.all_eq_true.1 h b hb)⟩

/-- The value of a text, if that is visible ASCII. -/
def fromStr (s : String) : Option HeaderValue :=
  if h : (ascii s).all isVisible = true ∧ s.toList.all (fun c => c.toNat < 128) = true then
    some (fromStatic s h.1)
  else none

/-- The characters of visible text are those of visible ASCII. -/
theorem visible_char {v : HeaderValue} (h : v.visible = true) (hc : c ∈ v.latin1.toList) :
    (32 ≤ c.toNat ∧ c.toNat < 127) ∨ c.toNat = 9 := by
  rw [latin1, String.toList_ofList] at hc
  obtain ⟨b, hb, he⟩ := Text.mem_latin1 hc
  have hv := List.all_eq_true.1 h b hb
  simp only [isVisible, Bool.or_eq_true, Bool.and_eq_true, decide_eq_true_eq, beq_iff_eq] at hv
  rw [he]
  refine hv.imp (fun hb => ⟨?_, ?_⟩) (fun hb => congrArg UInt8.toNat hb)
  · exact UInt8.le_iff_toNat_le.1 hb.1
  · exact UInt8.lt_iff_toNat_lt.1 hb.2

/-- The text of a value may have any byte that a value may have. -/
theorem exists_latin1 {s : String}
    (h : ∀ c ∈ s.toList, c.toNat < 256 ∧ isValueByte (UInt8.ofNat c.toNat) = true) :
    ∃ v : HeaderValue, v.latin1 = s := by
  have hvalid : (ascii s).all isValueByte = true := by
    rw [List.all_eq_true]
    intro b hb
    obtain ⟨c, hc, rfl⟩ := List.mem_map.1 hb
    exact (h c hc).2
  have hchars : Text.latin1 (ascii s) = s.toList := Text.latin1_ofNat fun c hc => (h c hc).1
  refine ⟨⟨ascii s, hvalid⟩, ?_⟩
  rw [latin1, hchars, String.ofList_toList]

theorem latin1_fromStatic {s : String} (h : (ascii s).all isVisible = true)
    (hs : ∀ c ∈ s.toList, c.toNat < 256) : (fromStatic s h).latin1 = s := by
  have hchars : Text.latin1 (ascii s) = s.toList := Text.latin1_ofNat hs
  rw [latin1, fromStatic, hchars, String.ofList_toList]

theorem fromStr_some {s : String} {v : HeaderValue} (h : fromStr s = some v) :
    v.visible = true ∧ v.latin1 = s := by
  rw [fromStr] at h
  split at h
  · next hs =>
    cases h
    refine ⟨hs.1, latin1_fromStatic hs.1 fun c hc => ?_⟩
    have hc := List.all_eq_true.1 hs.2 c hc
    rw [decide_eq_true_eq] at hc
    omega
  · cases h

/-- A text of visible ASCII has a value, which reads as the text. -/
theorem fromStr_visible {s : String}
    (h : ∀ c ∈ s.toList, (32 ≤ c.toNat ∧ c.toNat < 127) ∨ c.toNat = 9) :
    ∃ v, fromStr s = some v ∧ v.visible = true ∧ v.latin1 = s := by
  have hvisible : (ascii s).all isVisible = true := by
    rw [List.all_eq_true]
    intro b hb
    obtain ⟨c, hc, rfl⟩ := List.mem_map.1 hb
    have hall : ∀ n, n < 127 → 32 ≤ n ∨ n = 9 → isVisible (UInt8.ofNat n) = true := by decide
    have hc := h c hc
    exact hall c.toNat (by omega) (by omega)
  have hascii : s.toList.all (fun c => c.toNat < 128) = true := by
    rw [List.all_eq_true]
    intro c hc
    have hc := h c hc
    rw [decide_eq_true_eq]
    omega
  have hs : fromStr s = some (fromStatic s hvisible) := dif_pos ⟨hvisible, hascii⟩
  exact ⟨_, hs, fromStr_some hs⟩

end HeaderValue

/-- A header map gives each name the list of its values, in their order. -/
def HeaderMap := HeaderName → List HeaderValue

namespace HeaderMap

def empty : HeaderMap := fun _ => []

def get (h : HeaderMap) (name : HeaderName) : Option HeaderValue := (h name).head?

def remove (h : HeaderMap) (name : HeaderName) : HeaderMap := Function.update h name []

/-- All values of the name are replaced. -/
def insert (h : HeaderMap) (name : HeaderName) (v : HeaderValue) : HeaderMap :=
  Function.update h name [v]

def append (h : HeaderMap) (name : HeaderName) (v : HeaderValue) : HeaderMap :=
  Function.update h name (h name ++ [v])

def removeAll (h : HeaderMap) (names : List HeaderName) : HeaderMap := names.foldl remove h

theorem remove_apply (h : HeaderMap) (name name' : HeaderName) :
    h.remove name name' = if name' = name then [] else h name' :=
  Function.update_apply ..

theorem insert_apply (h : HeaderMap) (name name' : HeaderName) (v : HeaderValue) :
    h.insert name v name' = if name' = name then [v] else h name' :=
  Function.update_apply ..

theorem append_apply (h : HeaderMap) (name name' : HeaderName) (v : HeaderValue) :
    h.append name v name' = if name' = name then h name ++ [v] else h name' :=
  Function.update_apply ..

theorem removeAll_apply (h : HeaderMap) (names : List HeaderName) (name : HeaderName) :
    h.removeAll names name = if name ∈ names then [] else h name := by
  induction names generalizing h with
  | nil => rw [if_neg List.not_mem_nil]; rfl
  | cons n names ih =>
    rw [removeAll, List.foldl_cons, ← removeAll, ih, remove_apply]
    by_cases hm : name ∈ names
    · rw [if_pos hm, if_pos (List.mem_cons_of_mem _ hm)]
    · rw [if_neg hm]
      exact if_congr (by rw [List.mem_cons, or_iff_left hm]) rfl rfl

end HeaderMap
end Http
