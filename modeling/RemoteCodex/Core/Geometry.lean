import RemoteCodex.Lib.Rounding
import RemoteCodex.Core.MediaWire

namespace RemoteCodex
set_option autoImplicit true
open Rounding

/-- `i32::try_from` -/
def i32TryFrom (n : Int) : Except ErrorCode Int :=
  if -2 ^ 31 ≤ n ∧ n < 2 ^ 31 then .ok n else .error .invalidRequest

/-- `as i64` of a whole number -/
def asI64 (n : Int) : Int := saturate (-2 ^ 63) (2 ^ 63 - 1) n

/-- `as i32` of a whole number -/
def asI32 (n : Int) : Int := saturate (-2 ^ 31) (2 ^ 31 - 1) n

/-- `as u32` -/
def asU32 (x : ℚ) : UInt32 := .ofNat (saturate 0 (2 ^ 32 - 1) (towardZero x)).toNat

namespace Rect

/-- Numbers in floating point are rationals. -/
def map (r : Rect) (x y : F64) : Except ErrorCode (Int × Int) :=
  match x, y with
  | .finite x, .finite y =>
    if ¬ r.valid ∨ ¬ (0 ≤ x ∧ x ≤ 1) ∨ ¬ (0 ≤ y ∧ y ≤ 1) then .error .invalidRequest
    else do
      let px := r.left + asI64 (awayFromZero (x * ((r.width - 1 : Nat) : ℚ)))
      let py := r.top + asI64 (awayFromZero (y * ((r.height - 1 : Nat) : ℚ)))
      return (← i32TryFrom px, ← i32TryFrom py)
  | _, _ => .error .invalidRequest

def absolute (r : Rect) (x y : Int) : Except ErrorCode (Int × Int) :=
  if ¬ r.valid ∨ r.width < 2 ∨ r.height < 2 then .error .invalidRequest
  else
    let dx := x - r.left
    let dy := y - r.top
    if dx < 0 ∨ dy < 0 ∨ r.width ≤ dx ∨ r.height ≤ dy then .error .invalidRequest
    else .ok (asI32 (awayFromZero ((dx : ℚ) * 65535 / ((r.width - 1 : Nat) : ℚ))),
      asI32 (awayFromZero ((dy : ℚ) * 65535 / ((r.height - 1 : Nat) : ℚ))))

end Rect

/-- The size that `fit` scales a source to, in rationals and rounded down. -/
def VideoProfile.scaled (p : VideoProfile) (r : Rect) : UInt32 × UInt32 :=
  let k := min (min ((p.width.toNat : ℚ) / r.width) ((p.height.toNat : ℚ) / r.height)) 1
  (asU32 (r.width * k), asU32 (r.height * k))

end RemoteCodex
