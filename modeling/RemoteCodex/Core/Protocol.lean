import Mathlib.Algebra.Group.Nat.Defs

namespace RemoteCodex
set_option autoImplicit true

/-- The error codes of the wire protocol. -/
inductive ErrorCode where
  | unauthenticated
  | forbidden
  | deviceRevoked
  | leaseRequired
  | leaseStale
  | leaseBusy
  | sessionGenerationMismatch
  | hostRestarted
  | sessionLost
  | inputDeliveryUnknown
  | duplicateInput
  | inputCanceled
  | frameTooLarge
  | rateLimited
  | resyncRequired
  | previewNotApproved
  | upstreamChanged
  | captureUnsupported
  | sourceStale
  | desktopLocked
  | elevationRequired
  | mediaUnavailable
  | originRejected
  | invalidRequest
  | internal
  deriving DecidableEq, Repr

inductive Scope where
  | terminalRead
  | terminalWrite
  | terminalCreate
  | terminalClose
  | previewRead
  | windowView
  | windowControl
  | desktopView
  | desktopControl
  | adminDevices
  | adminSettings
  deriving DecidableEq, Repr

/-- A UUID is its sixteen bytes. -/
structure Uuid where
  bytes : List UInt8
  length_eq : bytes.length = 16
  deriving DecidableEq

/-- The UUID that repeats one byte; `fill 0` is the nil UUID. -/
def Uuid.fill (b : UInt8) : Uuid := ⟨List.replicate 16 b, List.length_replicate⟩

/-- The text form of a UUID, `xxxxxxxx-xxxx-xxxx-xxxx-xxxxxxxxxxxx`. -/
def Uuid.hyphenated (u : Uuid) : String :=
  let digits (bytes : List UInt8) : List Char :=
    bytes.flatMap fun b => [Nat.digitChar (b.toNat / 16), Nat.digitChar (b.toNat % 16)]
  let part (start count : Nat) : String := String.ofList (digits ((u.bytes.drop start).take count))
  part 0 4 ++ "-" ++ part 4 2 ++ "-" ++ part 6 2 ++ "-" ++ part 8 2 ++ "-" ++ part 10 6

/-- Points and spans of the monotonic clock are naturals, in nanoseconds. -/
def fromSecs (s : Nat) : Nat := s * 1000000000

def u64Max : Nat := 18446744073709551615

def MAX_INPUT : Nat := 8 * 1024
def MAX_PASTE : Nat := 256 * 1024
def MAX_COLS : Nat := 400
def MAX_ROWS : Nat := 150
def MAX_JS_INTEGER : Nat := 9007199254740991

/-- `char::is_whitespace` -/
def isWhitespace (c : Char) : Bool :=
  let n := c.toNat
  (9 ≤ n && n ≤ 13) || n == 32 || n == 0x85 || n == 0xA0 || n == 0x1680 ||
    (0x2000 ≤ n && n ≤ 0x200A) || n == 0x2028 || n == 0x2029 || n == 0x202F || n == 0x205F ||
    n == 0x3000

/-- `str::parse::<u64>` -/
def parseU64 (s : String) : Option UInt64 :=
  let digits := match s.toList with
    | '+' :: rest => rest
    | chars => chars
  if digits ≠ [] ∧ digits.all Char.isDigit then
    let n := digits.foldl (fun n c => 10 * n + (c.toNat - '0'.toNat)) 0
    if n < 2 ^ 64 then some (UInt64.ofNat n) else none
  else none

example : parseU64 "18446744073709551615" = some 18446744073709551615 := by decide

example : [parseU64 "18446744073709551616", parseU64 "", parseU64 "-1"] = [none, none, none] := by
  decide

structure LeaseView where
  clientId : Uuid
  connectionId : Uuid
  epoch : Nat
  remainingMs : Nat
  deriving DecidableEq

/-- Numbers are sent as text. -/
theorem parseU64_toString {n : Nat} (h : n < 2 ^ 64) :
    parseU64 (toString n) = some (UInt64.ofNat n) := by
  have hdigit : ∀ c ∈ Nat.toDigits 10 n, c.isDigit = true :=
    fun c hc => Nat.isDigit_of_mem_toDigits (by decide) (by decide) hc
  have hplus (rest : List Char) : Nat.toDigits 10 n ≠ '+' :: rest := by
    intro he
    have hc := hdigit '+' (by rw [he]; exact List.mem_cons_self ..)
    exact absurd hc (by decide)
  have hfold := Nat.ofDigitChars_ten_toDigits (n := n)
  rw [Nat.ofDigitChars_eq_foldl] at hfold
  rw [parseU64, Nat.toString_eq_ofList_toDigits, String.toList_ofList]
  split
  · next rest he => exact absurd he (hplus rest)
  · rw [if_pos ⟨Nat.toDigits_ne_nil, List.all_eq_true.2 hdigit⟩]
    simp only [hfold]
    rw [if_pos h]

end RemoteCodex
