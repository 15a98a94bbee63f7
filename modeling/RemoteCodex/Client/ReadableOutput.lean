import RemoteCodex.Lib.Js

namespace RemoteCodex
set_option autoImplicit true
open Js
namespace ReadableOutput

def maxTotalChars : Nat := 262144

def isC0OrC1 (code : UInt16) : Bool :=
  code < 0x20 || code == 0x7f || (0x80 ≤ code && code ≤ 0x9f)

def containsControl (s : Str) : Bool :=
  s.any fun code => isC0OrC1 code || code == 0x0a || code == 0x0d

/-- The fields of the projection, before its lines are read. -/
def projectionLines (projection : Option Value) : Option (List Value) :=
  projection.bind fun p =>
    match p.prop (str "source"), p.prop (str "scope"), p.prop (str "truncated"),
      p.prop (str "lines") with
    | some (.string source), some (.string scope), some (.bool false), some (.array lines) =>
      if source = str "terminal_projection" ∧ scope = str "current_screen" ∧ lines.length ≤ 150 then
        some lines
      else none
    | _, _, _, _ => none

/-- The loop over the lines: whether all are valid, and the characters counted until one is not. -/
def countLines (total : Nat) : List Value → Bool × Nat
  | [] => (true, total)
  | .string line :: rest =>
    if containsControl line then (false, total) else countLines (total + line.length) rest
  | _ :: _ => (false, total)

/-- `linesValid && totalValid` -/
def linesAccepted (projection : Option Value) : Bool :=
  match projectionLines projection with
  | none => false
  | some lines =>
    let (linesValid, totalChars) := countLines 0 lines
    linesValid && totalChars ≤ maxTotalChars

/-- The lines are accepted one by one, and together they are not too long. -/
theorem countLines_strings (lines : List Str) (h : ∀ l ∈ lines, containsControl l = false)
    (total : Nat) :
    countLines total (lines.map .string) = (true, total + (lines.map List.length).sum) := by
  induction lines generalizing total with
  | nil => rfl
  | cons l lines ih =>
    obtain ⟨hl, hlines⟩ := List.forall_mem_cons.1 h
    rw [List.map_cons, countLines, if_neg (by rw [hl]; exact Bool.false_ne_true), ih hlines,
      List.map_cons, List.sum_cons, Nat.add_assoc]

end ReadableOutput
end RemoteCodex
