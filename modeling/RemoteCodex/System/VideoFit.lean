import RemoteCodex.Core.Geometry
import RemoteCodex.Client.Geometry
import RemoteCodex.Helper.Native

namespace RemoteCodex
set_option autoImplicit true
open Rounding Client.Geometry Helper

namespace Helper.EncoderChoice

/-- The profile that `profile` fits to the source. -/
def limited (choice : EncoderChoice) (requested : VideoProfile) : VideoProfile :=
  match choice with
  | .hardware => requested
  | .softwareViewOnlySlow =>
    { width := min requested.width 640
      height := min requested.height 360
      fps := min requested.fps 5
      bitrateKbps := min requested.bitrateKbps 768 }

/-- `profile` with the scaling in rationals. -/
def scaledProfile (choice : EncoderChoice) (requested : VideoProfile) (source : Rect) :
    Except String VideoProfile :=
  choice.profile requested source ((choice.limited requested).scaled source)

theorem scaledProfile_eq (choice : EncoderChoice) (p : VideoProfile) (r : Rect) :
    choice.scaledProfile p r = (choice.limited p).fit r ((choice.limited p).scaled r) := by
  cases choice <;> rfl

end Helper.EncoderChoice

namespace VideoProfile

/-- The bounds of a profile, as numbers. -/
structure Bounded (p : VideoProfile) : Prop where
  width : 64 ≤ p.width.toNat ∧ p.width.toNat ≤ 1920
  height : 64 ≤ p.height.toNat ∧ p.height.toNat ≤ 1080
  evenWidth : p.width.toNat % 2 = 0
  evenHeight : p.height.toNat % 2 = 0
  fps : 1 ≤ p.fps.toNat ∧ p.fps.toNat ≤ 30
  bitrate : 128 ≤ p.bitrateKbps.toNat ∧ p.bitrateKbps.toNat ≤ 12000

theorem even_iff {n : UInt32} : n % 2 = 0 ↔ n.toNat % 2 = 0 := by
  rw [← UInt32.toNat_inj, UInt32.toNat_mod]
  rfl

theorem validate_iff {p : VideoProfile} : p.validate = .ok () ↔ p.Bounded := by
  have hok : p.validate = .ok () ↔ (64 ≤ p.width ∧ p.width ≤ 1920) ∧
      (64 ≤ p.height ∧ p.height ≤ 1080) ∧ p.width % 2 = 0 ∧ p.height % 2 = 0 ∧
      (1 ≤ p.fps ∧ p.fps ≤ 30) ∧ 128 ≤ p.bitrateKbps ∧ p.bitrateKbps ≤ 12000 := by
    unfold validate
    split
    · next h =>
      refine iff_of_false (fun he => by cases he) ?_
      rintro ⟨hw, hh, hew, heh, hf, hb⟩
      rcases h with h | h | h | h | h | h
      · exact h hw
      · exact h hh
      · exact h hew
      · exact h heh
      · exact h hf
      · exact h hb
    · next h =>
      simp only [not_or, not_not] at h
      exact iff_of_true rfl h
  rw [hok, even_iff, even_iff]
  simp only [UInt32.le_iff_toNat_le]
  constructor
  · rintro ⟨hw, hh, hew, heh, hf, hb⟩
    exact ⟨hw, hh, hew, heh, hf, hb⟩
  · rintro ⟨hw, hh, hew, heh, hf, hb⟩
    exact ⟨hw, hh, hew, heh, hf, hb⟩

end VideoProfile

theorem toNat_max (a b : UInt32) : (max a b).toNat = max a.toNat b.toNat := by
  change (if a ≤ b then b else a).toNat = _
  split
  · next h => exact (max_eq_right (UInt32.le_iff_toNat_le.1 h)).symm
  · next h =>
    rw [UInt32.le_iff_toNat_le] at h
    exact (max_eq_left (Nat.le_of_not_le h)).symm

theorem toNat_min (a b : UInt32) : (min a b).toNat = min a.toNat b.toNat := by
  change (if a ≤ b then a else b).toNat = _
  split
  · next h => exact (min_eq_left (UInt32.le_iff_toNat_le.1 h)).symm
  · next h =>
    rw [UInt32.le_iff_toNat_le] at h
    exact (min_eq_right (Nat.le_of_not_le h)).symm

/-- One side of the fitted picture. -/
def fitted (x : ℚ) : UInt32 := max (asU32 x / 2 * 2) 64

theorem asU32_toNat {x : ℚ} {n : Nat} (h₀ : 0 ≤ x) (h₁ : x ≤ n) (hn : n < 2 ^ 32) :
    ((asU32 x).toNat : Int) = ⌊x⌋ := by
  have hlow : 0 ≤ ⌊x⌋ := Int.floor_nonneg.2 h₀
  have hhigh : ⌊x⌋ ≤ n := Int.floor_le_iff.2 (by push_cast; linarith)
  rw [asU32, towardZero_nonneg h₀, saturate_inside hlow (by omega), UInt32.toNat_ofNat_of_lt']
  · exact Int.toNat_of_nonneg hlow
  · exact (Int.toNat_lt hlow).2 (by norm_num; omega)

/-- A side is even, has at least 64 pixels, and is not longer than what bounds the scaled side. -/
theorem fitted_toNat {x : ℚ} {n : Nat} (h₀ : 0 ≤ x) (h₁ : x ≤ n) (hn : n ≤ 32768) :
    ((fitted x).toNat : Int) = max 64 (⌊x / 2⌋ * 2) ∧ (fitted x).toNat ≤ max n 64 ∧
      (fitted x).toNat % 2 = 0 := by
  have hu := asU32_toNat h₀ h₁ (by omega)
  have hle : ⌊x⌋ ≤ n := Int.floor_le_iff.2 (by push_cast; linarith)
  have hhalf : ⌊x / 2⌋ = ⌊x⌋ / 2 := Int.floor_div_natCast x 2
  have hmul : (asU32 x / 2 * 2).toNat = (asU32 x).toNat / 2 * 2 := by
    have htwo : UInt32.toNat 2 = 2 := rfl
    rw [UInt32.toNat_mul, UInt32.toNat_div, htwo]
    exact Nat.mod_eq_of_lt (by omega)
  have hfit : (fitted x).toNat = max ((asU32 x).toNat / 2 * 2) 64 := by
    rw [fitted, toNat_max, hmul]
    rfl
  rw [hfit, hhalf]
  omega

theorem limited_bounded {p : VideoProfile} (h : p.Bounded) (choice : EncoderChoice) :
    (choice.limited p).Bounded := by
  cases choice with
  | hardware => exact h
  | softwareViewOnlySlow =>
    obtain ⟨hw, hh, hew, heh, hf, hb⟩ := h
    constructor <;> simp only [EncoderChoice.limited, toNat_min]
    · change 64 ≤ min _ 640 ∧ min _ 640 ≤ 1920
      omega
    · change 64 ≤ min _ 360 ∧ min _ 360 ≤ 1080
      omega
    · change min _ 640 % 2 = 0
      omega
    · change min _ 360 % 2 = 0
      omega
    · change 1 ≤ min _ 5 ∧ min _ 5 ≤ 30
      omega
    · change 128 ≤ min _ 768 ∧ min _ 768 ≤ 12000
      omega

/-- What is said of a fitted profile. -/
structure VideoFits (p q : VideoProfile) (r : Rect) : Prop where
  valid : q.validate = .ok ()
  even : q.width % 2 = 0 ∧ q.height % 2 = 0
  within : q.width ≤ p.width ∧ q.height ≤ p.height
  source : q.width.toNat ≤ r.width ∧ q.height.toNat ≤ r.height
  client : fitVideo (.finite r.width) (.finite r.height) (.finite p.width.toNat)
    (.finite p.height.toNat) = .ok ((q.width.toNat : ℚ), (q.height.toNat : ℚ))

/-- The factor of the scaling. -/
def factor (p : VideoProfile) (r : Rect) : ℚ :=
  min (min ((p.width.toNat : ℚ) / r.width) ((p.height.toNat : ℚ) / r.height)) 1

theorem scaled_side {k : ℚ} {side bound : Nat} (hs : 64 ≤ side) (h₀ : 0 ≤ k)
    (h₁ : k ≤ (bound : ℚ) / side) (h₂ : k ≤ 1) :
    0 ≤ (side : ℚ) * k ∧ (side : ℚ) * k ≤ (min side bound : Nat) := by
  have hpos : (0 : ℚ) < side := Nat.cast_pos.2 (by omega)
  refine ⟨mul_nonneg hpos.le h₀, ?_⟩
  rw [Nat.cast_min]
  refine le_min (mul_le_of_le_one_right hpos.le h₂) ?_
  rw [mul_comm]
  exact (le_div_iff₀ hpos).1 h₁

theorem factor_bounds (p : VideoProfile) (r : Rect) : 0 ≤ factor p r ∧
    factor p r ≤ (p.width.toNat : ℚ) / r.width ∧ factor p r ≤ (p.height.toNat : ℚ) / r.height ∧
      factor p r ≤ 1 :=
  ⟨le_min (le_min (by positivity) (by positivity)) zero_le_one,
    (min_le_left _ _).trans (min_le_left _ _), (min_le_left _ _).trans (min_le_right _ _),
    min_le_right _ _⟩

/-- One side: what it is, how long it is, and what the client makes of it. -/
structure FitsSide (side bound : Nat) (k : ℚ) (u : UInt32) : Prop where
  least : 64 ≤ u.toNat
  bound : u.toNat ≤ bound
  source : u.toNat ≤ side
  even : u.toNat % 2 = 0
  client : max 64 ((⌊(side : ℚ) * k / 2⌋ : ℚ) * 2) = (u.toNat : ℚ)

theorem fitted_side {k : ℚ} {side bound : Nat} (hs : 64 ≤ side) (hs' : side ≤ 32768)
    (hb : 64 ≤ bound) (h₀ : 0 ≤ k) (h₁ : k ≤ (bound : ℚ) / side) (h₂ : k ≤ 1) :
    FitsSide side bound k (fitted (side * k)) := by
  obtain ⟨hnonneg, hle⟩ := scaled_side hs h₀ h₁ h₂
  obtain ⟨hval, hbound, heven⟩ := fitted_toNat hnonneg hle (by omega)
  refine ⟨by omega, by omega, by omega, heven, ?_⟩
  have hcast := congrArg (Int.cast (R := ℚ)) hval
  push_cast at hcast
  exact hcast.symm

theorem fit_fits {p : VideoProfile} {r : Rect} (hp : p.Bounded) (hr : r.valid = true)
    (hw : 64 ≤ r.width) (hh : 64 ≤ r.height) :
    ∃ q, p.fit r (p.scaled r) = .ok q ∧ VideoFits p q r := by
  have hvalid := decide_eq_true_iff.1 hr
  obtain ⟨h₀, hkw, hkh, h₁⟩ := factor_bounds p r
  have hwidth := fitted_side hw hvalid.2.2.1 hp.width.1 h₀ hkw h₁
  have hheight := fitted_side hh hvalid.2.2.2 hp.height.1 h₀ hkh h₁
  refine ⟨{ p with
    width := fitted (r.width * factor p r)
    height := fitted (r.height * factor p r) }, ?_, ?_, ?_, ?_, ?_, ?_⟩
  · have hsource : ¬ (¬ r.valid = true ∨ r.width < 64 ∨ r.height < 64) := by
      rintro (h | h | h)
      · exact h hr
      · omega
      · omega
    rw [VideoProfile.fit, VideoProfile.validate_iff.2 hp]
    exact if_neg hsource
  · exact VideoProfile.validate_iff.2
      { hp with
        width := ⟨hwidth.least, hwidth.bound.trans hp.width.2⟩
        height := ⟨hheight.least, hheight.bound.trans hp.height.2⟩
        evenWidth := hwidth.even
        evenHeight := hheight.even }
  · exact ⟨VideoProfile.even_iff.2 hwidth.even, VideoProfile.even_iff.2 hheight.even⟩
  · exact ⟨UInt32.le_iff_toNat_le.2 hwidth.bound, UInt32.le_iff_toNat_le.2 hheight.bound⟩
  · exact ⟨hwidth.source, hheight.source⟩
  · have hsize : ¬ ((r.width : ℚ) < 64 ∨ (r.height : ℚ) < 64 ∨ (p.width.toNat : ℚ) < 64 ∨
        (p.height.toNat : ℚ) < 64) := by
      have hpw := hp.width.1
      have hph := hp.height.1
      norm_cast
      omega
    have hscale : min 1 (min ((p.width.toNat : ℚ) / r.width) ((p.height.toNat : ℚ) / r.height)) =
        factor p r := min_comm _ _
    simp only [fitVideo]
    rw [if_neg hsize, hscale, hwidth.client, hheight.client]

/-- A source of at least 64 pixels a side is fitted into every valid profile, by the client to
the same size, and the helper's encoders get valid profiles. -/
theorem video_fitted {p : VideoProfile} {r : Rect} (hp : p.validate = .ok ())
    (hr : r.valid = true) (hw : 64 ≤ r.width) (hh : 64 ≤ r.height) :
    (∃ q, p.fit r (p.scaled r) = .ok q ∧ VideoFits p q r) ∧
      ∀ choice : EncoderChoice, ∃ q, choice.scaledProfile p r = .ok q ∧ q.validate = .ok () := by
  have hbounded := VideoProfile.validate_iff.1 hp
  refine ⟨fit_fits hbounded hr hw hh, fun choice => ?_⟩
  obtain ⟨q, hq, hfits⟩ := fit_fits (limited_bounded hbounded choice) hr hw hh
  exact ⟨q, (choice.scaledProfile_eq p r).trans hq, hfits.valid⟩

theorem video_fitted_strip :
    (∃ q, VideoProfile.fit ⟨1280, 720, 15, 2500⟩ ⟨0, 0, 32768, 64⟩
        (VideoProfile.scaled ⟨1280, 720, 15, 2500⟩ ⟨0, 0, 32768, 64⟩) = .ok q ∧
        VideoFits ⟨1280, 720, 15, 2500⟩ q ⟨0, 0, 32768, 64⟩) ∧
      ∀ choice : EncoderChoice, ∃ q,
        choice.scaledProfile ⟨1280, 720, 15, 2500⟩ ⟨0, 0, 32768, 64⟩ = .ok q ∧
          q.validate = .ok () :=
  video_fitted (by decide) (by decide) (by decide) (by decide)

end RemoteCodex
