import RemoteCodex.Lib.Js
import RemoteCodex.Core.Protocol

namespace RemoteCodex
set_option autoImplicit true

/-- `f64` -/
abbrev F64 := Js.Number

structure Rect where
  left : Int
  top : Int
  width : Nat
  height : Nat
  deriving DecidableEq

def Rect.valid (r : Rect) : Bool :=
  decide (0 < r.width ∧ 0 < r.height ∧ r.width ≤ 32768 ∧ r.height ≤ 32768)

structure VideoProfile where
  width : UInt32
  height : UInt32
  fps : UInt32
  bitrateKbps : UInt32
  deriving DecidableEq

namespace VideoProfile

def validate (p : VideoProfile) : Except String Unit :=
  if ¬ (64 ≤ p.width ∧ p.width ≤ 1920) ∨ ¬ (64 ≤ p.height ∧ p.height ≤ 1080) ∨
      p.width % 2 ≠ 0 ∨ p.height % 2 ≠ 0 ∨ ¬ (1 ≤ p.fps ∧ p.fps ≤ 30) ∨
      ¬ (128 ≤ p.bitrateKbps ∧ p.bitrateKbps ≤ 12000) then
    .error "Unsupported video resource profile"
  else .ok ()

/-- `scaled` is the size after the scaling in floating point, rounded down. -/
def fit (p : VideoProfile) (r : Rect) (scaled : UInt32 × UInt32) : Except String VideoProfile := do
  p.validate
  if ¬ r.valid ∨ r.width < 64 ∨ r.height < 64 then .error "Capture source too small"
  else .ok { p with
    width := max (scaled.1 / 2 * 2) 64
    height := max (scaled.2 / 2 * 2) 64 }

theorem fit_fps {p q : VideoProfile} (h : p.fit r scaled = .ok q) :
    q.fps = p.fps ∧ 1 ≤ q.fps ∧ q.fps ≤ 30 := by
  unfold fit validate at h
  split at h
  · cases h
  · next hvalid =>
    have hfps : 1 ≤ p.fps ∧ p.fps ≤ 30 := by
      by_contra hf
      exact hvalid (.inr (.inr (.inr (.inr (.inl hf)))))
    simp only [bind, Except.bind] at h
    split at h
    · cases h
    · cases h
      exact ⟨rfl, hfps⟩

end VideoProfile

structure SourceView where
  id : Uuid
  generation : UInt32
  geometryVersion : String
  label : String
  kind : String
  controlAllowed : Bool
  rect : Rect
  deriving DecidableEq

inductive MediaMode where
  | hardware
  | softwareViewOnlySlow
  deriving DecidableEq, Repr

inductive CaptureState where
  | starting
  | live
  | minimizedOrStalled
  deriving DecidableEq, Repr

inductive GuiAction where
  | move (x y : F64)
  | button (x y : F64) (button : UInt8) (down : Bool)
  | wheel (x y : F64) (delta : Int)
  | key (scan : UInt16) (extended down : Bool)
  | text (text : String)
  deriving DecidableEq

/-- What the agent writes to the helper, after `Init`. -/
inductive HelperIn where
  | answer (sdp : String)
  | ice (candidate : String) (mline : UInt32)
  | stop
  deriving DecidableEq

inductive HelperOut where
  | ready (protocol : UInt16)
  | offer (sdp : String)
  | ice (candidate : String) (mline : UInt32)
  | frame (sequence : String) (capturedAtMs : UInt64)
  | status (mode : MediaMode) (captureState : CaptureState) (fps bitrateKbps : UInt32)
      (adaptiveIdle controlAllowed awaitingFreshFrame : Bool)
  | error (code : String)
  | stopped
  deriving DecidableEq

inductive MediaClientMessage where
  | answer (sdp : String)
  | ice (candidate : String) (mline : UInt32)
  | presented (generation : UInt32) (geometryVersion : String)
  | acquire (generation : UInt32) (geometryVersion : String)
  | renew (leaseEpoch : String)
  | release
  | input (leaseEpoch : String) (generation : UInt32) (geometryVersion seq : String)
      (action : GuiAction)
  | refreshAuth (ticket : String)
  | ping
  | stop
  deriving DecidableEq

namespace GuiAction

/-- `x.is_finite() && (0.0..=1.0).contains(&x)` -/
def normalized : F64 → Bool
  | .finite q => decide (0 ≤ q ∧ q ≤ 1)
  | _ => false

def point (x y : F64) : Except String Unit :=
  if normalized x ∧ normalized y then .ok () else .error "Invalid normalized point"

/-- The number of code units of `str::encode_utf16`. -/
def utf16Length (s : String) : Nat := (s.toList.map fun c => if 0x10000 ≤ c.toNat then 2 else 1).sum

def validate : GuiAction → Except String Unit
  | .move x y => point x y
  | .button x y b _ => do
    point x y
    if 2 < b then .error "Unsupported button" else .ok ()
  | .wheel x y delta => do
    point x y
    if delta < -1200 ∨ 1200 < delta then .error "Wheel out of range" else .ok ()
  | .key scan _ _ => if 1 ≤ scan ∧ scan ≤ 88 then .ok () else .error "Unsupported scan code"
  | .text s =>
    if 1024 < utf16Length s ∨ s.toList.contains (Char.ofNat 0) then
      .error "Text too large/invalid"
    else .ok ()

end GuiAction

/-- `str::parse` of an unsigned integer. -/
def parseUnsigned (max : Nat) (s : List Char) : Option Nat :=
  let digits := match s with
    | '+' :: rest => rest
    | chars => chars
  if digits ≠ [] ∧ digits.all Char.isDigit then
    let n := digits.foldl (fun n c => 10 * n + (c.toNat - '0'.toNat)) 0
    if n ≤ max then some n else none
  else none

def tailnetPart (s : List Char) : Option Nat :=
  if s = [] ∨ 3 < s.length ∨ (1 < s.length ∧ s.head? = some '0') ∨ ¬ s.all Char.isDigit then none
  else parseUnsigned 255 s

def tailnetIp (ip : List Char) : Bool :=
  match (ip.splitOn '.').mapM tailnetPart with
  | some [a, b, _, _] => a == 100 && 64 ≤ b && b ≤ 127
  | _ => false

/-- `str::split_whitespace` -/
def splitWhitespace (s : List Char) : List (List Char) :=
  (s.splitOnP isWhitespace).filter (· ≠ [])

/-- The number of bytes of a text. -/
def utf8Length (s : List Char) : Nat := (s.map fun c => c.utf8Size).sum

def candidateAllowed (s : String) (exactIp : Option String) : Bool :=
  let chars := s.toList
  if 2048 < utf8Length chars ∨ chars.any fun c => c = '\r' ∨ c = '\n' ∨ c = Char.ofNat 0 then false
  else
    match splitWhitespace chars with
    | p₀ :: p₁ :: p₂ :: p₃ :: p₄ :: p₅ :: p₆ :: p₇ :: _ =>
      "candidate:".toList.isPrefixOf p₀ && 10 < utf8Length p₀ && p₁ == ['1'] &&
        p₂.map Char.toLower == ['u', 'd', 'p'] && (parseUnsigned 4294967295 p₃).isSome &&
        tailnetIp p₄ && (exactIp.all fun ip => ip.toList == p₄) &&
        ((parseUnsigned 65535 p₅).any fun n => 0 < n) && p₆ == "typ".toList && p₇ == "host".toList
    | _ => false

/-- `str::lines`, with further carriage returns trimmed from the ends. -/
def lines (s : List Char) : List (List Char) :=
  let parts := s.splitOn '\n'
  let parts := if parts.getLast? = some [] then parts.dropLast else parts
  parts.map fun line => (line.reverse.dropWhile (· == '\r')).reverse

def isHexdigit (c : Char) : Bool :=
  c.isDigit || ('a' ≤ c && c ≤ 'f') || ('A' ≤ c && c ≤ 'F')

def fingerprint (line : List Char) : Bool :=
  let mark := "a=fingerprint:sha-256 ".toList
  mark.isPrefixOf line &&
    let parts := (line.drop mark.length).splitOn ':'
    parts.length == 32 && parts.all fun v => v.length == 2 && v.all isHexdigit

def sanitizeSdp (s : String) : Except String String :=
  let chars := s.toList
  if 65536 < utf8Length chars ∨ chars.contains (Char.ofNat 0) then .error "Invalid SDP size"
  else
    let ls := lines chars
    if (ls.filter fun l => "m=".toList.isPrefixOf l).length ≠ 1 ∨
        ¬ ls.any fun l => "m=video ".toList.isPrefixOf l then
      .error "Video only"
    else if ¬ ls.any fingerprint ∨
        ¬ ls.any fun l => "a=rtpmap:".toList.isPrefixOf l &&
          " H264/90000".toList.isSuffixOf (l.map Char.toUpper) then
      .error "DTLS-SRTP H264 required"
    else
      let kept := ls.filter fun l =>
        !"a=candidate:".toList.isPrefixOf l && l != "a=end-of-candidates".toList
      .ok (String.ofList (List.intercalate ['\r', '\n'] kept ++ ['\r', '\n']))

example : [tailnetIp "100.64.0.1".toList, tailnetIp "100.128.0.1".toList,
    tailnetIp "100.064.0.1".toList, tailnetIp "::1".toList] = [true, false, false, false] := by
  decide

example : candidateAllowed "candidate:1 1 udp 1 100.64.0.2 50000 typ host" none = true := by decide

/-- An endpoint answers a request: it grants at most once, and only a request that asks. -/
def Answers (asks : α → Bool) (grants : β → Bool) (request : Option α) (answers : List β) : Prop :=
  (answers.filter grants).length ≤ if request.any asks then 1 else 0

instance (asks : α → Bool) (grants : β → Bool) (request : Option α) (answers : List β) :
    Decidable (Answers asks grants request answers) := inferInstanceAs (Decidable (_ ≤ _))

/-- What is granted was asked for. -/
theorem Answers.asked {asks : α → Bool} {grants : β → Bool}
    (h : Answers asks grants request answers)
    (hm : m ∈ answers) (hg : grants m = true) : ∃ r, request = some r ∧ asks r = true := by
  have hpos : 0 < (answers.filter grants).length :=
    List.length_pos_of_mem (List.mem_filter.2 ⟨hm, hg⟩)
  unfold Answers at h
  split at h
  · next hany => exact (Option.any_eq_true _ _).1 hany
  · exact absurd hpos (Nat.not_lt.2 h)

end RemoteCodex
