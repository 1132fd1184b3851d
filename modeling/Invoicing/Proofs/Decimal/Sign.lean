import Invoicing.Decimal.Arithmetic
import Invoicing.Proofs.Decimal.Value

/-!
# The sign of a result

A sum has the sign of the exact sum and is nothing only if that is: what is cut
off it are digits beyond the range, never all of them. A product or a quotient
may lie wholly past the last place. It is then a positive zero, except for the
product of a long mantissa, whose sign stays. Either zero is worth the same.
-/
namespace Invoicing.Decimal

variable {a b d : Decimal} {m s : Nat} {negative : Bool}

/-- Of a number other than zero something is left when it is cut to the capacity. -/
theorem div_excessDigits_pos (hm : 0 < m) : 0 < m / tenTo (excessDigits m) := by
  induction m using excessDigits.induct with
  | case1 m h => rwa [excessDigits_of_lt h, tenTo_zero, Nat.div_one]
  | case2 m h ih =>
    rw [excessDigits, dif_neg h, tenTo_succ, ← Nat.div_div_eq_div_mul]
    refine ih ?_
    unfold capacity at h
    omega

/-- What is cut to fit keeps its sign, also if nothing is left of it. -/
theorem parts_of_fit (h : fit negative m s = some d) : d.negative = negative ∧
    (d.mantissa = halfEven m (tenTo (dropped m s)) ∨
      capacity ≤ halfEven m (tenTo (dropped m s)) ∧
        d.mantissa = halfEven (halfEven m (tenTo (dropped m s))) 10) := by
  have hdrop : dropped m s ≤ s := by
    by_contra hdrop
    have hnone : fit negative m s = none := if_pos (Nat.lt_of_not_le hdrop)
    rw [hnone] at h
    cases h
  rw [fit_eq hdrop] at h
  split at h
  · exact ⟨(parts_of_ofParts? h).1, .inl (parts_of_ofParts? h).2.1⟩
  split at h
  · cases h
  · rename_i hlarge _
    exact ⟨(parts_of_ofParts? h).1, .inr ⟨Nat.le_of_not_lt hlarge, (parts_of_ofParts? h).2.1⟩⟩

/-- Up to scale 28 something is left. -/
theorem mantissa_fit_ne_zero (hs : s ≤ 28) (hm : m ≠ 0) (h : fit negative m s = some d) :
    d.mantissa ≠ 0 := by
  have hdropped : dropped m s = excessDigits m := by
    rw [dropped, Nat.sub_eq_zero_of_le hs, tenTo_zero, Nat.div_one, Nat.zero_add]
  have hpos : 0 < m / tenTo (excessDigits m) := div_excessDigits_pos (Nat.pos_of_ne_zero hm)
  obtain ⟨-, hunits⟩ := parts_of_fit h
  rw [hdropped] at hunits
  have hle : m / tenTo (excessDigits m) ≤ halfEven m (tenTo (excessDigits m)) :=
    div_le_nearest m (tenTo (excessDigits m)) false
  generalize halfEven m (tenTo (excessDigits m)) = units at *
  have hten : units / 10 ≤ halfEven units 10 := div_le_nearest units 10 false
  rcases hunits with hunits | ⟨hlarge, hunits⟩
  · omega
  · unfold capacity at hlarge
    omega

/-- The sign of a sum of amounts other than zero is that of the exact sum, and so is whether it is
zero, however the sum is rounded. -/
theorem sign_add (ha : a.mantissa ≠ 0) (hb : b.mantissa ≠ 0) (h : a.add b = .ok d) :
    (d.negative ↔ a.toRat + b.toRat < 0) ∧ (d.mantissa = 0 ↔ a.toRat + b.toRat = 0) := by
  have hscale : max a.scale b.scale ≤ 28 := Nat.max_le.mpr ⟨a.scale_le, b.scale_le⟩
  have hten := cast_tenTo_pos (max a.scale b.scale)
  have hexact := unitsAt_add_unitsAt (Nat.le_max_left a.scale b.scale)
    (Nat.le_max_right a.scale b.scale)
  rw [add, if_neg (by simpa using ha), if_neg (by simpa using hb), Overflow.guard_eq_ok,
    fitUnits] at h
  rw [← hexact, div_lt_iff₀ hten, zero_mul, Int.cast_lt_zero, div_eq_zero_iff,
    or_iff_left hten.ne', Int.cast_eq_zero]
  generalize a.unitsAt (max a.scale b.scale) + b.unitsAt (max a.scale b.scale) = units at *
  constructor
  · rw [(parts_of_fit h).1, decide_eq_true_iff]
  constructor
  · intro hd
    by_contra hunits
    exact mantissa_fit_ne_zero hscale (Int.natAbs_ne_zero.mpr hunits) h hd
  · rintro rfl
    rw [Int.natAbs_zero, fit_of_lt (by decide) hscale] at h
    cases h
    rfl

theorem negative_shortProduct (hm : m ≠ 0) (h : shortProduct negative m s = some d) :
    d.negative = (negative && d.mantissa ≠ 0) := by
  unfold shortProduct at h
  split at h
  · cases h
    simp [zero, whole]
  split at h
  · obtain ⟨hnegative, hmantissa, -⟩ := parts_of_ofParts? h
    rw [hnegative, hmantissa]
  · obtain ⟨hnegative, hmantissa, -⟩ := parts_of_ofParts? h
    simp [hnegative, hmantissa, hm]

/-- The sign of a product of amounts other than zero. If nothing is left of the product, a long
factor is what keeps the sign. -/
theorem negative_mul (ha : a.mantissa ≠ 0) (hb : b.mantissa ≠ 0) (h : a.mul b = .ok d) :
    d.negative = ((a.negative ^^ b.negative) &&
      (d.mantissa ≠ 0 || shortCapacity ≤ a.mantissa || shortCapacity ≤ b.mantissa)) := by
  rw [mul, if_neg (by simpa using ⟨ha, hb⟩), Overflow.guard_eq_ok] at h
  split at h
  · rename_i hshort
    rw [negative_shortProduct (Nat.mul_ne_zero ha hb) h,
      decide_eq_false (Nat.not_le.mpr hshort.1), decide_eq_false (Nat.not_le.mpr hshort.2),
      Bool.or_false, Bool.or_false]
  · rename_i hlong
    have hlong : shortCapacity ≤ a.mantissa ∨ shortCapacity ≤ b.mantissa := by omega
    have hor : (decide (shortCapacity ≤ a.mantissa) || decide (shortCapacity ≤ b.mantissa)) =
        true := by simpa using hlong
    rw [(parts_of_fit h).1, Bool.or_assoc, hor, Bool.or_true, Bool.and_true]

/-- The sign of a quotient. A zero is positive. -/
theorem negative_div (h : a.div b = .ok d) :
    d.negative = ((a.negative ^^ b.negative) && d.mantissa ≠ 0) := by
  unfold div at h
  split at h
  · cases h
  split at h
  · cases h
    simp [zero, whole]
  split at h
  · cases h
  · obtain ⟨hnegative, hmantissa, -⟩ := parts_of_ofParts? (Overflow.guard_eq_ok.mp h)
    rw [hnegative, hmantissa]

end Invoicing.Decimal
