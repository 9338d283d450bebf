import Relief.Sun
import Relief.Proofs.Binary.Nonnegative
import Relief.Proofs.Checks
import Relief.Proofs.Ellipsoid
import Relief.Proofs.Tables

namespace Relief

open Binary

/-- What is relied on of the elementary functions: up to a quarter turn sines are not negative, and
neither are lengths. -/
structure SunTrig [Trig Float] : Prop where
  pi_eq : (Trig.pi : Float) = 3.141592653589793
  sin_nonneg : ∀ φ : Float, 0.0 ≤ φ → φ ≤ quarterTurn → 0.0 ≤ Trig.sin φ
  hypot_nonneg : ∀ x y : Float, ¬ Trig.hypot x y < 0.0

theorem sunTrig_tables : @SunTrig tableTrig := by
  refine @SunTrig.mk tableTrig rfl ?_ fun _ _ => (by decide : ¬ (1.0 : Float) < 0.0)
  intro φ h0 _
  refine tabled_cases (fun e he hkey => ?_) (by decide)
  have hsigns : ∀ e ∈ sines, e.1 < 0.0 ∨ 0.0 ≤ e.2 := by decide +kernel
  rcases hsigns e he with hneg | hpos
  · exact absurd (lt_iff.1 hneg).2 (not_lt.2 ((beq_iff.1 hkey).2 ▸ (le_iff.1 h0).2))
  · exact hpos

theorem ShadowParams.elevation_range {params : ShadowParams} (h : params.validate = .ok ()) :
    0.0 ≤ params.elevation ∧ params.elevation ≤ 90.0 := by
  by_contra hout
  rw [validate] at h
  split_ifs at h

variable [Trig Float] (ht : SunTrig)
include ht

theorem toRadians_range {elevation : Float} (h0 : 0.0 ≤ elevation) (h90 : elevation ≤ 90.0) :
    0.0 ≤ toRadians elevation ∧ toRadians elevation ≤ quarterTurn := by
  have hk : (3.141592653589793 / 180.0 : Float) = 0.017453292519943295 := by decide
  have hkf : (0.017453292519943295 : Float).isFinite = true := by decide
  have hk0 : 0 ≤ number 0.017453292519943295 :=
    (le_iff_number isFinite_zero hkf).1 (by decide)
  have hf : elevation.isFinite = true := isFinite_of_between h0 h90 isFinite_zero (by decide)
  rw [toRadians, ht.pi_eq, hk]
  constructor
  · exact trans_le (by decide) (mul_mono h0 isFinite_zero hf hkf hk0)
  · exact trans_le (mul_mono h90 hf (by decide) hkf hk0) (by decide)

/-- The rise toward a sun that is accepted is not negative. -/
theorem ShadowParams.not_sinking {params : ShadowParams} (h : params.validate = .ok ())
    (spacing : Spacing Float) :
    ¬ (Sun.ofPosition spacing params.azimuth params.elevation).z < 0.0 := by
  obtain ⟨h0, h90⟩ := elevation_range h
  obtain ⟨hlo, hhi⟩ := toRadians_range ht h0 h90
  have hsin := ht.sin_nonneg _ hlo hhi
  exact not_mul_neg (not_neg_of_nonneg hsin) (ht.hypot_nonneg _ _)

end Relief
