import Invoicing.Proofs.Decimal.Value
import Mathlib.Data.Rat.Floor

/-!
# Rounding half away from zero

The exact rule for rational numbers, and that amounts are rounded by it. Two
numbers are rounded to the same if no half lies between them, and to neighbours
at most if they are no further apart than one place.
-/
namespace Invoicing.Decimal

variable {x y : ℚ} {places : Nat} {negative : Bool}

/-- The multiple of `1 / 10^places` that is nearest to a number, a half away from zero. -/
def halfAway (places : Nat) (x : ℚ) : ℚ :=
  signed (x < 0) (⌊|x| * tenTo places + 1 / 2⌋ / tenTo places)

theorem halfAway_of_nonneg (hx : 0 ≤ x) :
    halfAway places x = ⌊x * tenTo places + 1 / 2⌋ / tenTo places := by
  rw [halfAway, decide_eq_false (not_lt.mpr hx), signed_false, abs_of_nonneg hx]

theorem halfAway_zero (places : Nat) : halfAway places 0 = 0 := by
  rw [halfAway_of_nonneg le_rfl, zero_mul, zero_add]
  norm_num

theorem halfAway_neg (places : Nat) (x : ℚ) : halfAway places (-x) = -halfAway places x := by
  rcases lt_trichotomy x 0 with hx | rfl | hx
  · have hpos : ¬ -x < 0 := by linarith
    rw [halfAway, halfAway, decide_eq_false hpos, decide_eq_true hx, signed_false, signed_true,
      abs_neg]
    linarith
  · rw [neg_zero, halfAway_zero, neg_zero]
  · have hneg : -x < 0 := by linarith
    rw [halfAway, halfAway, decide_eq_true hneg, decide_eq_false (not_lt.mpr hx.le), signed_false,
      signed_true, abs_neg]

theorem halfAway_signed (places : Nat) (negative : Bool) (x : ℚ) :
    halfAway places (signed negative x) = signed negative (halfAway places x) := by
  cases negative with
  | false => rfl
  | true => exact halfAway_neg places x

theorem halfAway_hasPlaces (places : Nat) (x : ℚ) : HasPlaces places (halfAway places x) := by
  have hten := tenTo_ne_zero places
  rw [halfAway]
  cases decide (x < 0) with
  | false => exact ⟨_, div_mul_cancel₀ _ hten⟩
  | true =>
    refine ⟨-⌊|x| * tenTo places + 1 / 2⌋, ?_⟩
    rw [signed_true, neg_mul, div_mul_cancel₀ _ hten, Int.cast_neg]

/-- Rounding moves a number by half a place at most. -/
theorem abs_halfAway_sub_le (places : Nat) (x : ℚ) :
    |halfAway places x - x| ≤ 1 / 2 / tenTo places := by
  have key {y : ℚ} (hy : 0 ≤ y) : |halfAway places y - y| ≤ 1 / 2 / tenTo places := by
    have hten := cast_tenTo_pos places
    have hlow := Int.floor_le (y * tenTo places + 1 / 2)
    have hhigh := Int.lt_floor_add_one (y * tenTo places + 1 / 2)
    rw [halfAway_of_nonneg hy, le_div_iff₀ hten, ← abs_of_pos hten, ← abs_mul, sub_mul,
      abs_of_pos hten, div_mul_cancel₀ _ hten.ne', abs_le]
    constructor <;> linarith
  rcases le_total 0 x with hx | hx
  · exact key hx
  · have hneg := key (neg_nonneg.mpr hx)
    rwa [halfAway_neg, ← neg_add', abs_neg, ← sub_eq_add_neg] at hneg

/-- Rounding passes no multiple of the grid that it rounds to. -/
theorem faithful_halfAway (places : Nat) (x : ℚ) : Faithful places x (halfAway places x) := by
  have key {y : ℚ} (hy : 0 ≤ y) : Faithful places y (halfAway places y) := by
    intro n
    rw [halfAway_of_nonneg hy, div_mul_cancel₀ _ (tenTo_ne_zero places)]
    constructor
    · intro hn
      exact Int.cast_le.mpr (Int.le_floor.mpr (by linarith))
    · intro hn
      exact Int.cast_le.mpr (Int.floor_le_iff.mpr (by linarith))
  rcases le_total 0 x with hx | hx
  · exact key hx
  · have hneg := (key (neg_nonneg.mpr hx)).neg
    simpa [halfAway_neg] using hneg

/-- A number with no more places than asked for is not changed. -/
theorem halfAway_of_hasPlaces (h : HasPlaces places x) : halfAway places x = x :=
  (faithful_halfAway places x).eq_of_hasPlaces h

theorem two_mul_half_tenTo (n : Nat) : 2 * (tenTo (n + 1) / 2) = tenTo (n + 1) := by
  rw [tenTo_succ]
  omega

/-- The parts of an amount that loses places. -/
theorem round_parts {d : Decimal} {t : Nat} (h : d.scale = places + (t + 1)) :
    (d.round places).scale = places ∧
      (d.round places).mantissa = (d.mantissa + tenTo (t + 1) / 2) / tenTo (t + 1) ∧
      ((d.round places).negative = d.negative ∨ (d.round places).mantissa = 0) := by
  have hscale : ¬ d.scale ≤ places := by omega
  have hsub : d.scale - places = t + 1 := by omega
  simp only [round, hscale, dif_neg, not_false_eq_true, hsub, true_and]
  by_cases hzero : (d.mantissa + tenTo (t + 1) / 2) / tenTo (t + 1) = 0
  · exact .inr hzero
  · left
    rw [decide_eq_true hzero, Bool.or_true, Bool.and_true]

/-- Amounts are rounded by the exact rule. -/
theorem toRat_round (d : Decimal) (places : Nat) :
    (d.round places).toRat = halfAway places d.toRat := by
  by_cases hscale : d.scale ≤ places
  · rw [round_of_scale_le hscale, halfAway_of_hasPlaces (.of_scale_le hscale)]
  obtain ⟨t, ht⟩ : ∃ t, d.scale = places + (t + 1) := ⟨d.scale - places - 1, by omega⟩
  obtain ⟨hplaces, hmantissa, hsign⟩ := round_parts ht
  have hnonneg : (0 : ℚ) ≤ d.mantissa / tenTo d.scale :=
    div_nonneg (Nat.cast_nonneg _) (cast_tenTo_pos _).le
  -- Half a unit is whole in units of the amount, so it is added before the division.
  have hvalue : d.mantissa / tenTo d.scale * tenTo places + 1 / 2 =
      ((d.mantissa + tenTo (t + 1) / 2 : Nat) / (tenTo (t + 1) : Nat) : ℚ) := by
    have hhalf : (2 * (tenTo (t + 1) / 2 : Nat) : ℚ) = tenTo (t + 1) := by
      exact_mod_cast two_mul_half_tenTo t
    have hten := tenTo_ne_zero places
    have hten' := tenTo_ne_zero (t + 1)
    rw [Nat.cast_add, ht, cast_tenTo_add]
    field_simp
    linarith
  rw [toRat_of_sign hsign, hmantissa, hplaces, toRat_eq_signed d, halfAway_signed,
    halfAway_of_nonneg hnonneg, hvalue, Rat.floor_natCast_div_natCast, ← Int.natCast_ediv,
    Int.cast_natCast]

end Invoicing.Decimal
