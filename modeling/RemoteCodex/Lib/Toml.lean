import RemoteCodex.Lib.Pieces

/-! TOML documents that are lines of a bare key and a basic string. Tables, other values, dotted or
quoted keys and strings of several lines are not read. -/

namespace Toml
set_option autoImplicit true

def wschar (c : Char) : Bool := c == ' ' || c == '\t'

def nonAscii (c : Char) : Bool := 0x80 ≤ c.toNat

/-- The characters of a comment. -/
def nonEol (c : Char) : Bool := c == '\t' || (0x20 ≤ c.toNat && c.toNat ≤ 0x7e) || nonAscii c

/-- The characters that stand for themselves in a basic string. -/
def basicUnescaped (c : Char) : Bool :=
  wschar c || c.toNat == 0x21 || (0x23 ≤ c.toNat && c.toNat ≤ 0x5b) ||
    (0x5d ≤ c.toNat && c.toNat ≤ 0x7e) || nonAscii c

def unquotedKeyChar (c : Char) : Bool := c.isAlphanum || c == '-' || c == '_'

/-- The character that an escape of two characters stands for. -/
def escape (c : Char) : Option Char :=
  if c = '"' ∨ c = '\\' then some c
  else if c = 'b' then some '\x08'
  else if c = 't' then some '\t'
  else if c = 'n' then some '\n'
  else if c = 'f' then some '\x0c'
  else if c = 'r' then some '\r'
  else none

def hexDigit (c : Char) : Option Nat :=
  if c.isDigit then some (c.toNat - 48)
  else if 'a' ≤ c ∧ c ≤ 'f' then some (c.toNat - 87)
  else if 'A' ≤ c ∧ c ≤ 'F' then some (c.toNat - 55)
  else none

/-- The Unicode scalar value of hexadecimal digits. -/
def scalar (digits : List Char) : Option Char := do
  let ds ← digits.mapM hexDigit
  let n := ds.foldl (fun n d => 16 * n + d) 0
  if n.isValidChar then some (Char.ofNat n) else none

/-- The value of a basic string after its opening quote, and what follows the closing one. -/
def basicString : List Char → Option (List Char × List Char)
  | [] => none
  | c :: text =>
    if c = '"' then some ([], text)
    else if c = '\\' then
      match text with
      | 'u' :: a :: b :: c :: d :: rest =>
        (scalar [a, b, c, d]).bind fun x => (basicString rest).map (·.map (x :: ·) id)
      | 'U' :: a :: b :: c :: d :: e :: f :: g :: h :: rest =>
        (scalar [a, b, c, d, e, f, g, h]).bind fun x => (basicString rest).map (·.map (x :: ·) id)
      | e :: rest => (escape e).bind fun x => (basicString rest).map (·.map (x :: ·) id)
      | [] => none
    else if basicUnescaped c then (basicString text).map (·.map (c :: ·) id)
    else none

/-- What may follow a value on its line. -/
def lineEnd (text : List Char) : Bool :=
  match text.dropWhile wschar with
  | [] => true
  | '#' :: rest => rest.all nonEol
  | _ :: _ => false

/-- A line: nothing, or a key and its value. -/
def expression (line : List Char) : Option (List (List Char × List Char)) :=
  if lineEnd line then some []
  else
    let text := line.dropWhile wschar
    let key := text.takeWhile unquotedKeyChar
    if key = [] then none
    else
      match (text.dropWhile unquotedKeyChar).dropWhile wschar with
      | '=' :: text =>
        match text.dropWhile wschar with
        | '"' :: text =>
          (basicString text).bind fun (value, rest) =>
            if lineEnd rest then some [(key, value)] else none
        | _ => none
      | _ => none

/-- The lines end in LF or CRLF, the last one at the end of the text. -/
def lines (text : List Char) : List (List Char) :=
  let pieces := text.splitOn '\n'
  pieces.dropLast.map (fun l => if l.getLast? = some '\r' then l.dropLast else l) ++
    pieces.getLast?.toList

/-- The keys and values of a document; no key is defined twice. -/
def parse (text : List Char) : Option (List (List Char × List Char)) := do
  let entries ← (lines text).mapM expression
  if (entries.flatten.map Prod.fst).Nodup then some entries.flatten else none

/-- A character of the value, as the text of a basic string writes it. -/
inductive Written : Char → List Char → Prop where
  | plain (h : basicUnescaped c = true) : Written c [c]
  | escaped (h : escape e = some c) : Written c ['\\', e]

theorem basicString_cons (h : c ≠ '\\') (text : List Char) :
    basicString (c :: text) =
      if c = '"' then some ([], text)
      else if basicUnescaped c then (basicString text).map (·.map (c :: ·) id)
      else none := by
  rw [basicString.eq_def]
  simp only [if_neg h]

theorem basicString_close (text : List Char) : basicString ('"' :: text) = some ([], text) := by
  rw [basicString_cons (by decide), if_pos rfl]

theorem Written.read (h : Written c w) (text : List Char) :
    basicString (w ++ text) = (basicString text).map (·.map (c :: ·) id) := by
  cases h with
  | plain h =>
    have hquote : c ≠ '"' := by
      rintro rfl
      exact absurd h (by decide)
    have hslash : c ≠ '\\' := by
      rintro rfl
      exact absurd h (by decide)
    rw [List.singleton_append, basicString_cons hslash, if_neg hquote, if_pos h]
  | @escaped e _ h =>
    have hu : e ≠ 'u' := by
      rintro rfl
      cases h
    have hU : e ≠ 'U' := by
      rintro rfl
      cases h
    show basicString ('\\' :: e :: text) = _
    rw [basicString, if_neg (by decide), if_pos rfl, h, Option.bind_some]
    · exact fun _ _ _ _ _ he => absurd he hu
    · exact fun _ _ _ _ _ _ _ _ _ he => absurd he hU

/-- A text that is written character by character. -/
theorem basicString_written {f : Char → List Char} {value : List Char}
    (h : ∀ c ∈ value, Written c (f c)) (rest : List Char) :
    basicString (value.flatMap f ++ '"' :: rest) = some (value, rest) := by
  induction value with
  | nil => exact basicString_close rest
  | cons c value ih =>
    obtain ⟨hc, hvalue⟩ := List.forall_mem_cons.1 h
    rw [List.flatMap_cons, List.append_assoc, hc.read, ih hvalue]
    rfl

/-- A character that can be no part of a basic string. -/
structure Refused (c : Char) : Prop where
  unescaped : basicUnescaped c = false
  quote : c ≠ '"'
  slash : c ≠ '\\'

theorem Refused.read (h : Refused c) (text : List Char) : basicString (c :: text) = none := by
  rw [basicString_cons h.slash, if_neg h.quote, h.unescaped, if_neg Bool.false_ne_true]

/-- A text with a character that is refused and stands as it is. -/
theorem basicString_refused {f : Char → List Char} {bad : Char → Prop} {value : List Char}
    (hgood : ∀ c ∈ value, ¬ bad c → Written c (f c))
    (hbad : ∀ c, bad c → f c = [c] ∧ Refused c) (h : ∃ c ∈ value, bad c) (rest : List Char) :
    basicString (value.flatMap f ++ rest) = none := by
  induction value with
  | nil =>
    obtain ⟨c, hc, -⟩ := h
    exact (List.not_mem_nil hc).elim
  | cons c value ih =>
    obtain ⟨hc, hvalue⟩ := List.forall_mem_cons.1 hgood
    rw [List.flatMap_cons, List.append_assoc]
    by_cases hcbad : bad c
    · obtain ⟨hf, hrefused⟩ := hbad c hcbad
      rw [hf, List.singleton_append, hrefused.read]
    · rw [(hc hcbad).read, ih hvalue]
      · rfl
      · obtain ⟨d, hd, hdbad⟩ := h
        rcases List.mem_cons.1 hd with rfl | hd
        · exact absurd hdbad hcbad
        · exact ⟨d, hd, hdbad⟩

/-- A document of one line. -/
theorem parse_line {line : List Char} (hlf : '\n' ∉ line) (hcr : line.getLast? ≠ some '\r')
    (entry : List Char × List Char) :
    (expression line = some [entry] → parse (line ++ ['\n']) = some [entry]) ∧
      (expression line = none → parse (line ++ ['\n']) = none) := by
  have hlines : lines (line ++ ['\n']) = [line, []] := by
    have hsplit : (line ++ ['\n']).splitOn '\n' = [line, []] := by
      rw [Pieces.splitOn_eq_iff (List.cons_ne_nil _ _)]
      · rfl
      · intro p hp
        rcases List.mem_cons.1 hp with rfl | hp
        · exact hlf
        · rw [List.mem_singleton.1 hp]
          exact List.not_mem_nil
    rw [lines, hsplit]
    show [if line.getLast? = some '\r' then line.dropLast else line] ++ [[]] = _
    rw [if_neg hcr]
    rfl
  have hempty : expression [] = some [] := rfl
  constructor
  · intro h
    rw [parse, hlines, List.mapM_cons, h]
    rfl
  · intro h
    rw [parse, hlines, List.mapM_cons, h]
    rfl

end Toml
