import RemoteCodex.Core.Protocol

namespace RemoteCodex
set_option autoImplicit true

def HEADER_LEN : Nat := 40
def MAX_PAYLOAD : Nat := 32 * 1024

structure Frame where
  kind : UInt8
  sessionId : Uuid
  generation : UInt32
  sequence : UInt64
  payload : List UInt8
  deriving DecidableEq

namespace Frame

def OUTPUT : UInt8 := 1
def RESIZE : UInt8 := 2
def SNAPSHOT_META : UInt8 := 3
def SNAPSHOT_CHUNK : UInt8 := 4
def SNAPSHOT_END : UInt8 := 5
def EXIT : UInt8 := 6

/-- The low bytes of a number, the most significant first. -/
def toBeBytes : Nat → Nat → List UInt8
  | 0, _ => []
  | k + 1, n => toBeBytes k (n / 256) ++ [UInt8.ofNat n]

/-- `RCTM` -/
def magic : List UInt8 := [0x52, 0x43, 0x54, 0x4d]

def encode (f : Frame) : Except ErrorCode (List UInt8) :=
  if MAX_PAYLOAD < f.payload.length ∨ ¬ (1 ≤ f.kind ∧ f.kind ≤ 6) then .error .frameTooLarge
  else
    .ok (magic ++ [1, f.kind] ++ toBeBytes 2 0 ++ f.sessionId.bytes ++
      toBeBytes 4 f.generation.toNat ++ toBeBytes 8 f.sequence.toNat ++
      toBeBytes 4 f.payload.length ++ f.payload)

/-- The number of a frame. -/
def number (f : Frame) : Nat := f.sequence.toNat

/-- The bytes a frame takes on the wire. -/
def size (f : Frame) : Nat := f.payload.length + HEADER_LEN

/-- A frame that can be sent. -/
def Encodes (f : Frame) : Prop := ∃ bytes, f.encode = .ok bytes

theorem encodes_iff (f : Frame) :
    f.Encodes ↔ f.payload.length ≤ MAX_PAYLOAD ∧ 1 ≤ f.kind ∧ f.kind ≤ 6 := by
  unfold Encodes encode
  split
  · next h =>
    constructor
    · rintro ⟨bytes, hb⟩
      cases hb
    · rintro ⟨hlen, hkind⟩
      rcases h with h | h
      · omega
      · exact absurd hkind h
  · next h =>
    rw [not_or, Classical.not_not, Nat.not_lt] at h
    exact iff_of_true ⟨_, rfl⟩ h

end Frame
end RemoteCodex
