import RemoteCodex.Lib.Js
import Mathlib.Algebra.Order.Round
import Mathlib.Data.Rat.Floor

namespace RemoteCodex.Client.Geometry
set_option autoImplicit true
open Js

/-- `Rect` of geometry.ts -/
structure Rect where
  x : Number
  y : Number
  width : Number
  height : Number

/-- Numbers are added, multiplied and divided as rationals. -/
def toPhysical (nx ny : Number) (rect : Rect) : Except String (ℚ × ℚ) :=
  match rect.x, rect.y, rect.width, rect.height with
  | .finite x, .finite y, .finite width, .finite height =>
    if width ≤ 0 ∨ height ≤ 0 ∨ 32768 < width ∨ 32768 < height then .error "INVALID_GEOMETRY"
    else
      match nx, ny with
      | .finite nx, .finite ny =>
        if nx < 0 ∨ 1 < nx ∨ ny < 0 ∨ 1 < ny then .error "INVALID_POINT"
        else .ok (x + round (nx * (width - 1)), y + round (ny * (height - 1)))
      | _, _ => .error "INVALID_POINT"
  | _, _, _, _ => .error "INVALID_GEOMETRY"

def fitVideo (width height maxWidth maxHeight : Number) : Except String (ℚ × ℚ) :=
  match width, height, maxWidth, maxHeight with
  | .finite width, .finite height, .finite maxWidth, .finite maxHeight =>
    if width < 64 ∨ height < 64 ∨ maxWidth < 64 ∨ maxHeight < 64 then .error "INVALID_SIZE"
    else
      let scale := min 1 (min (maxWidth / width) (maxHeight / height))
      .ok (max 64 (⌊width * scale / 2⌋ * 2), max 64 (⌊height * scale / 2⌋ * 2))
  | _, _, _, _ => .error "INVALID_SIZE"

end RemoteCodex.Client.Geometry
