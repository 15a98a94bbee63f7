import RemoteCodex.Lib.Ipv4
import RemoteCodex.Lib.JsText
import RemoteCodex.Lib.Words
import RemoteCodex.Core.TailnetAddress

namespace RemoteCodex
set_option autoImplicit true
open Js Ipv4
namespace Client

/-- `[0-9]` -/
def isDigit (u : UInt16) : Bool := 0x30 ≤ u && u ≤ 0x39

/-- `/^(0|[1-9][0-9]{0,2})$/` -/
def isOctet : Str → Bool
  | [] => false
  | c :: rest =>
    (c == 0x30 && rest.isEmpty) ||
      (0x31 ≤ c && c ≤ 0x39 && decide (rest.length ≤ 2) && rest.all isDigit)

def tailnetIpv4 (ip : Str) : Bool :=
  let parts := ip.splitOn 0x2e
  if parts.length ≠ 4 ∨ parts.any fun s => !isOctet s then false
  else
    let n := parts.map numberOf
    (n.all fun x => x.le (.finite 255)) && (n[0]?.any fun x => x.strictEq (.finite 100)) &&
      n[1]?.any fun x => Number.le (.finite 64) x && x.le (.finite 127)

/-- `/^candidate:[^\s:]+$/` -/
def isFoundation (s : Str) : Bool :=
  let mark := str "candidate:"
  let rest := s.drop mark.length
  mark.isPrefixOf s && !rest.isEmpty && rest.all fun u => !isSpace u && u != 0x3a

/-- `/^\d+$/` -/
def isDigits (s : Str) : Bool := !s.isEmpty && s.all isDigit

/-- `toLowerCase`, of ASCII letters -/
def toLowerCase (s : Str) : Str := s.map fun u => if 0x41 ≤ u ∧ u ≤ 0x5a then u + 0x20 else u

/-- An empty `allowedIp` counts as none. -/
def candidateAllowed (candidate : Str) (allowedIp : Option Str) : Bool :=
  if 2048 < candidate.length ∨ candidate.any fun u => u = 0x0d ∨ u = 0x0a ∨ u = 0 then false
  else
    match Words.split isSpace false (Js.trim candidate) with
    | p₀ :: p₁ :: p₂ :: p₃ :: p₄ :: p₅ :: p₆ :: p₇ :: _ =>
      isFoundation p₀ && p₁ == str "1" && toLowerCase p₂ == str "udp" && isDigits p₃ &&
        (numberOf p₃).le (.finite 4294967295) && tailnetIpv4 p₄ &&
        (allowedIp.all fun ip => ip.isEmpty || p₄ == ip) && isDigits p₅ &&
        !(numberOf p₅).le (.finite 0) && (numberOf p₅).le (.finite 65535) && p₆ == str "typ" &&
        p₇ == str "host"
    | _ => false

example : [tailnetIpv4 (str "100.64.0.1"), tailnetIpv4 (str "100.128.0.1"),
    tailnetIpv4 (str "100.064.0.1"), tailnetIpv4 (str "100.64.0.1\n")] =
    [true, false, false, false] := by decide

example : candidateAllowed (str "candidate:1 1 udp 1 100.64.0.2 50000 typ host") none = true := by
  decide

end Client
end RemoteCodex
