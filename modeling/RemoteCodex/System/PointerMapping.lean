import RemoteCodex.Core.Geometry
import RemoteCodex.Client.Geometry

namespace RemoteCodex
set_option autoImplicit true
open Rounding Client.Geometry

namespace Rect

/-- The rectangle as the client has it. -/
def client (r : Rect) : Client.Geometry.Rect :=
  ⟨.finite r.left, .finite r.top, .finite r.width, .finite r.height⟩

def Contains (r : Rect) (p : Int × Int) : Prop :=
  r.left ≤ p.1 ∧ p.1 < r.left + r.width ∧ r.top ≤ p.2 ∧ p.2 < r.top + r.height

/-- The last column and the last row. -/
def right (r : Rect) : Int := r.left + r.width - 1
def bottom (r : Rect) : Int := r.top + r.height - 1

end Rect

/-- The coordinate is one of the unit interval. -/
def Normalized (x : ℚ) : Prop := 0 ≤ x ∧ x ≤ 1

/-- Both coordinates are of type `i32`. -/
def FitsI32 (p : Int × Int) : Prop :=
  (-2 ^ 31 ≤ p.1 ∧ p.1 < 2 ^ 31) ∧ -2 ^ 31 ≤ p.2 ∧ p.2 < 2 ^ 31

instance : Decidable (FitsI32 p) := inferInstanceAs (Decidable (_ ∧ _))

/-- The unit square is taken into the rectangle. -/
structure OntoRect (r : Rect) (m : ℚ → ℚ → Int × Int) : Prop where
  inside : ∀ x y, Normalized x → Normalized y → r.Contains (m x y)
  topLeft : m 0 0 = (r.left, r.top)
  topRight : m 1 0 = (r.right, r.top)
  bottomLeft : m 0 1 = (r.left, r.bottom)
  bottomRight : m 1 1 = (r.right, r.bottom)
  mono : ∀ x x' y y', x ≤ x' → y ≤ y' → (m x y).1 ≤ (m x' y').1 ∧ (m x y).2 ≤ (m x' y').2

/-- The points of the rectangle are taken into the square of the absolute coordinates. -/
structure OntoAbsolute (r : Rect) (m : Int → Int → Int × Int) : Prop where
  inside : ∀ x y, r.Contains (x, y) →
    0 ≤ (m x y).1 ∧ (m x y).1 ≤ 65535 ∧ 0 ≤ (m x y).2 ∧ (m x y).2 ≤ 65535
  topLeft : m r.left r.top = (0, 0)
  topRight : m r.right r.top = (65535, 0)
  bottomLeft : m r.left r.bottom = (0, 65535)
  bottomRight : m r.right r.bottom = (65535, 65535)
  mono : ∀ x x' y y', r.Contains (x, y) → r.Contains (x', y') → x ≤ x' → y ≤ y' →
    (m x y).1 ≤ (m x' y').1 ∧ (m x y).2 ≤ (m x' y').2

theorem Rect.valid_iff {r : Rect} : r.valid = true ↔
    0 < r.width ∧ 0 < r.height ∧ r.width ≤ 32768 ∧ r.height ≤ 32768 := decide_eq_true_iff

/-- The offset of a point of the unit interval on a side of some length. -/
def offset (x : ℚ) (side : Nat) : Int := round (x * ((side - 1 : Nat) : ℚ))

theorem offset_inside (hx : Normalized x) (side : Nat) :
    0 ≤ offset x side ∧ offset x side ≤ ((side - 1 : Nat) : Int) := by
  have hlast : (0 : ℚ) ≤ ((side - 1 : Nat) : ℚ) := Nat.cast_nonneg _
  apply round_inside
  · rw [Int.cast_zero]
    exact mul_nonneg hx.1 hlast
  · rw [Int.cast_natCast]
    exact mul_le_of_le_one_left hlast hx.2

theorem offset_mono {x x' : ℚ} (h : x ≤ x') (side : Nat) : offset x side ≤ offset x' side :=
  round_mono (mul_le_mul_of_nonneg_right h (Nat.cast_nonneg _))

theorem offset_zero (side : Nat) : offset 0 side = 0 := by
  rw [offset, zero_mul, round_zero]

theorem offset_one (side : Nat) : offset 1 side = ((side - 1 : Nat) : Int) := by
  rw [offset, one_mul, round_natCast]

theorem asI64_offset (hx : Normalized x) (hs : side ≤ 32768) :
    asI64 (awayFromZero (x * ((side - 1 : Nat) : ℚ))) = offset x side := by
  obtain ⟨hlow, hhigh⟩ := offset_inside hx side
  have hround : awayFromZero (x * ((side - 1 : Nat) : ℚ)) = offset x side :=
    awayFromZero_nonneg (mul_nonneg hx.1 (Nat.cast_nonneg _))
  rw [hround]
  exact saturate_inside (by omega) (by omega)

/-- The point of a rectangle that a point of the unit square stands for. -/
def Rect.point (r : Rect) (x y : ℚ) : Int × Int :=
  (r.left + offset x r.width, r.top + offset y r.height)

theorem Rect.point_onto {r : Rect} (hr : r.valid = true) : OntoRect r r.point := by
  obtain ⟨hw, hh, -, -⟩ := valid_iff.1 hr
  have hright : r.left + ((r.width - 1 : Nat) : Int) = r.right := by
    rw [right]
    omega
  have hbottom : r.top + ((r.height - 1 : Nat) : Int) = r.bottom := by
    rw [bottom]
    omega
  constructor
  case inside =>
    intro x y hx hy
    obtain ⟨hx₀, hx₁⟩ := offset_inside hx r.width
    obtain ⟨hy₀, hy₁⟩ := offset_inside hy r.height
    simp only [Contains, point]
    omega
  case mono =>
    intro x x' y y' hx hy
    exact ⟨Int.add_le_add_left (offset_mono hx _) _, Int.add_le_add_left (offset_mono hy _) _⟩
  all_goals simp only [point, offset_zero, offset_one, Int.add_zero, hright, hbottom]

theorem i32TryFrom_pair (p : Int × Int) :
    (do return (← i32TryFrom p.1, ← i32TryFrom p.2)) =
      if FitsI32 p then .ok p else (.error .invalidRequest : Except ErrorCode (Int × Int)) := by
  unfold i32TryFrom
  by_cases h₁ : -2 ^ 31 ≤ p.1 ∧ p.1 < 2 ^ 31
  · by_cases h₂ : -2 ^ 31 ≤ p.2 ∧ p.2 < 2 ^ 31
    · rw [if_pos h₁, if_pos h₂, if_pos ⟨h₁, h₂⟩]
      rfl
    · have hfit : ¬ FitsI32 p := fun h => h₂ h.2
      rw [if_pos h₁, if_neg h₂, if_neg hfit]
      rfl
  · have hfit : ¬ FitsI32 p := fun h => h₁ h.1
    rw [if_neg h₁, if_neg hfit]
    rfl

theorem Rect.map_point {r : Rect} (hr : r.valid = true) (hx : Normalized x) (hy : Normalized y) :
    r.map (.finite x) (.finite y) =
      if FitsI32 (r.point x y) then .ok (r.point x y) else .error .invalidRequest := by
  obtain ⟨-, -, hw, hh⟩ := valid_iff.1 hr
  have hgood : ¬ (¬ r.valid = true ∨ ¬ (0 ≤ x ∧ x ≤ 1) ∨ ¬ (0 ≤ y ∧ y ≤ 1)) := by
    rintro (h | h | h)
    · exact h hr
    · exact h hx
    · exact h hy
  rw [map, if_neg hgood]
  simp only [asI64_offset hx hw, asI64_offset hy hh]
  exact i32TryFrom_pair (r.point x y)

theorem toPhysical_point {r : Rect} (hr : r.valid = true) (hx : Normalized x) (hy : Normalized y) :
    toPhysical (.finite x) (.finite y) r.client =
      .ok (((r.point x y).1 : ℚ), ((r.point x y).2 : ℚ)) := by
  obtain ⟨hw, hh, hw', hh'⟩ := Rect.valid_iff.1 hr
  have hrect : ¬ ((r.width : ℚ) ≤ 0 ∨ (r.height : ℚ) ≤ 0 ∨ 32768 < (r.width : ℚ) ∨
      32768 < (r.height : ℚ)) := by
    norm_cast
    omega
  have hpoint : ¬ (x < 0 ∨ 1 < x ∨ y < 0 ∨ 1 < y) := by
    rintro (h | h | h | h)
    · exact absurd hx.1 (not_le.2 h)
    · exact absurd hx.2 (not_le.2 h)
    · exact absurd hy.1 (not_le.2 h)
    · exact absurd hy.2 (not_le.2 h)
  simp only [toPhysical, Rect.client]
  rw [if_neg hrect, if_neg hpoint]
  simp only [Rect.point, offset, Nat.cast_pred hw, Nat.cast_pred hh, Int.cast_add]

/-- The absolute coordinate of a column or row, on a side of some length. -/
def absoluteOf (d : Int) (side : Nat) : Int := round ((d : ℚ) * 65535 / ((side - 1 : Nat) : ℚ))

theorem last_pos {side : Nat} (hs : 2 ≤ side) : (0 : ℚ) < ((side - 1 : Nat) : ℚ) :=
  Nat.cast_pos.2 (by omega)

theorem absoluteOf_mono {d d' : Int} (h : d ≤ d') (side : Nat) :
    absoluteOf d side ≤ absoluteOf d' side := by
  apply round_mono
  gcongr

theorem absoluteOf_zero (side : Nat) : absoluteOf 0 side = 0 := by
  rw [absoluteOf, Int.cast_zero, zero_mul, zero_div, round_zero]

theorem absoluteOf_last {side : Nat} (hs : 2 ≤ side) :
    absoluteOf ((side - 1 : Nat) : Int) side = 65535 := by
  rw [absoluteOf, Int.cast_natCast, mul_div_cancel_left₀ _ (last_pos hs).ne']
  exact round_ofNat 65535

theorem absoluteOf_inside {d : Int} {side : Nat} (hs : 2 ≤ side) (h₀ : 0 ≤ d) (h₁ : d < side) :
    0 ≤ absoluteOf d side ∧ absoluteOf d side ≤ 65535 := by
  constructor
  · rw [← absoluteOf_zero side]
    exact absoluteOf_mono h₀ side
  · rw [← absoluteOf_last hs]
    exact absoluteOf_mono (by omega) side

theorem asI32_absolute {d : Int} {side : Nat} (hs : 2 ≤ side) (h₀ : 0 ≤ d) (h₁ : d < side) :
    asI32 (awayFromZero ((d : ℚ) * 65535 / ((side - 1 : Nat) : ℚ))) = absoluteOf d side := by
  obtain ⟨hlow, hhigh⟩ := absoluteOf_inside hs h₀ h₁
  have hnonneg : (0 : ℚ) ≤ (d : ℚ) * 65535 / ((side - 1 : Nat) : ℚ) :=
    div_nonneg (mul_nonneg (Int.cast_nonneg h₀) (by norm_num)) (last_pos hs).le
  have hround : awayFromZero ((d : ℚ) * 65535 / ((side - 1 : Nat) : ℚ)) = absoluteOf d side :=
    awayFromZero_nonneg hnonneg
  rw [hround]
  exact saturate_inside (by omega) (by omega)

def Rect.absolutePoint (r : Rect) (x y : Int) : Int × Int :=
  (absoluteOf (x - r.left) r.width, absoluteOf (y - r.top) r.height)

theorem Rect.absolute_onto {r : Rect} (hw : 2 ≤ r.width) (hh : 2 ≤ r.height) :
    OntoAbsolute r r.absolutePoint := by
  have hright : r.right - r.left = ((r.width - 1 : Nat) : Int) := by
    rw [right]
    omega
  have hbottom : r.bottom - r.top = ((r.height - 1 : Nat) : Int) := by
    rw [bottom]
    omega
  constructor
  case inside =>
    rintro x y ⟨hx₀, hx₁, hy₀, hy₁⟩
    have hx := absoluteOf_inside (d := x - r.left) hw (by omega) (by omega)
    have hy := absoluteOf_inside (d := y - r.top) hh (by omega) (by omega)
    exact ⟨hx.1, hx.2, hy.1, hy.2⟩
  case mono =>
    intro x x' y y' _ _ hx hy
    exact ⟨absoluteOf_mono (by omega) _, absoluteOf_mono (by omega) _⟩
  all_goals simp only [absolutePoint, Int.sub_self, absoluteOf_zero, hright, hbottom,
    absoluteOf_last hw, absoluteOf_last hh]

theorem Rect.absolute_point {r : Rect} (hr : r.valid = true) (hw : 2 ≤ r.width)
    (hh : 2 ≤ r.height) (hp : r.Contains (x, y)) :
    r.absolute x y = .ok (r.absolutePoint x y) := by
  obtain ⟨hx₀, hx₁, hy₀, hy₁⟩ := hp
  have hrect : ¬ (¬ r.valid = true ∨ r.width < 2 ∨ r.height < 2) := by
    rintro (h | h | h)
    · exact h hr
    · omega
    · omega
  rw [absolute, if_neg hrect]
  simp only
  rw [if_neg (by omega), asI32_absolute hw (by omega) (by omega),
    asI32_absolute hh (by omega) (by omega)]
  rfl

/-- Normalised points become points of the rectangle, in both languages the same, and the points
of a desktop become absolute coordinates. -/
theorem pointer_mapped {r : Rect} (hr : r.valid = true) :
    (∃ m, OntoRect r m ∧ ∀ x y, Normalized x → Normalized y →
      r.map (.finite x) (.finite y) =
          (if FitsI32 (m x y) then .ok (m x y) else .error .invalidRequest) ∧
        toPhysical (.finite x) (.finite y) r.client = .ok (((m x y).1 : ℚ), ((m x y).2 : ℚ))) ∧
    (2 ≤ r.width → 2 ≤ r.height → ∃ m, OntoAbsolute r m ∧
      ∀ x y, r.Contains (x, y) → r.absolute x y = .ok (m x y)) := by
  constructor
  · exact ⟨r.point, Rect.point_onto hr,
      fun x y hx hy => ⟨Rect.map_point hr hx hy, toPhysical_point hr hx hy⟩⟩
  · intro hw hh
    exact ⟨r.absolutePoint, Rect.absolute_onto hw hh, fun x y hp => Rect.absolute_point hr hw hh hp⟩

/-- A monitor to the left of the main one. -/
def sideMonitor : Rect := ⟨-1920, -200, 1920, 1080⟩

theorem pointer_mapped_monitor :
    (∃ m, OntoRect sideMonitor m ∧ ∀ x y, Normalized x → Normalized y →
      sideMonitor.map (.finite x) (.finite y) =
          (if FitsI32 (m x y) then .ok (m x y) else .error .invalidRequest) ∧
        toPhysical (.finite x) (.finite y) sideMonitor.client =
          .ok (((m x y).1 : ℚ), ((m x y).2 : ℚ))) ∧
    ∃ m, OntoAbsolute sideMonitor m ∧
      ∀ x y, sideMonitor.Contains (x, y) → sideMonitor.absolute x y = .ok (m x y) :=
  have hvalid : sideMonitor.valid = true := by decide
  ⟨(pointer_mapped hvalid).1, (pointer_mapped hvalid).2 (by decide) (by decide)⟩

end RemoteCodex
