import Invoicing.Proofs.Decimal.Faithful

/-!
# What an amount is worth

The value of an amount is its units over a power of ten, under its sign. An
amount that stands for a computed magnitude has its sign and units that are
faithful to it; where nothing is left of the magnitude the sign does not matter.
-/
namespace Invoicing.Decimal

variable {x : ℚ} {d : Decimal} {k s : Nat} {negative : Bool}

theorem toRat_eq (d : Decimal) : d.toRat = d.coefficient / (tenTo d.scale : ℚ) :=
  Rat.mkRat_eq_div _ _

theorem toRat_of_isZero (h : d.isZero) : d.toRat = 0 := by
  have hc : d.coefficient = 0 := (coefficient_eq_zero_iff d).mpr ((isZero_iff d).mp h)
  rw [toRat_eq, hc]
  simp

@[simp] theorem toRat_zero : zero.toRat = 0 :=
  toRat_of_isZero rfl

@[simp] theorem toRat_whole (n : Nat) (h : n < capacity) : (whole n h).toRat = n := by
  rw [toRat_eq]
  simp [whole, coefficient]

@[simp] theorem toRat_neg (d : Decimal) : (-d).toRat = -d.toRat := by
  rw [toRat_eq, toRat_eq, coefficient_neg, scale_neg, Int.cast_neg, neg_div]

theorem toRat_lt_toRat_iff {a b : Decimal} : a.toRat < b.toRat ↔ a < b := by
  rw [toRat_eq, toRat_eq, div_lt_div_iff₀ (cast_tenTo_pos _) (cast_tenTo_pos _), lt_def]
  exact_mod_cast Iff.rfl

theorem toRat_le_toRat_iff {a b : Decimal} : a.toRat ≤ b.toRat ↔ a ≤ b := by
  rw [← not_lt, toRat_lt_toRat_iff, ← not_le, Classical.not_not]

/-- The units of an amount at a finer scale are worth the amount. -/
theorem unitsAt_eq (hs : d.scale ≤ s) : (d.unitsAt s : ℚ) = d.toRat * tenTo s := by
  have hten : (tenTo s : ℚ) = tenTo d.scale * tenTo (s - d.scale) := by
    rw [← Nat.cast_mul, tenTo_mul_tenTo_sub hs]
  have hne := tenTo_ne_zero d.scale
  rw [unitsAt, toRat_eq, hten]
  push_cast
  field_simp

/-- The units of two amounts at a finer scale, added up. -/
theorem unitsAt_add_unitsAt {a b : Decimal} (ha : a.scale ≤ s) (hb : b.scale ≤ s) :
    ((a.unitsAt s + b.unitsAt s : Int) / tenTo s : ℚ) = a.toRat + b.toRat := by
  have hten := tenTo_ne_zero s
  rw [Int.cast_add, unitsAt_eq ha, unitsAt_eq hb]
  field_simp

theorem HasPlaces.of_scale_le (h : d.scale ≤ k) : HasPlaces k d.toRat :=
  ⟨d.unitsAt k, (unitsAt_eq h).symm⟩

/-- A magnitude under a sign. -/
def signed (negative : Bool) (x : ℚ) : ℚ :=
  if negative then -x else x

@[simp] theorem signed_false (x : ℚ) : signed false x = x := rfl

@[simp] theorem signed_true (x : ℚ) : signed true x = -x := rfl

theorem toRat_eq_signed (d : Decimal) :
    d.toRat = signed d.negative (d.mantissa / tenTo d.scale) := by
  rw [toRat_eq, coefficient]
  cases d.negative <;> simp [neg_div]

/-- Units are their number under their sign. -/
theorem units_eq_signed (u : Int) (s : Nat) :
    (u / tenTo s : ℚ) = signed (u < 0) (u.natAbs / tenTo s) := by
  have habs : (u.natAbs : ℚ) = ((u.natAbs : Int) : ℚ) := (Int.cast_natCast _).symm
  rw [habs]
  by_cases hneg : u < 0
  · have heq : (u.natAbs : Int) = -u := by omega
    rw [heq, decide_eq_true hneg, signed_true]
    push_cast
    field_simp
  · have heq : (u.natAbs : Int) = u := by omega
    rw [heq, decide_eq_false hneg, signed_false]

/-- An amount stands for a magnitude under a sign, up to the grid of some places. -/
structure StandsFor (places : Nat) (negative : Bool) (x : ℚ) (d : Decimal) : Prop where
  sign : d.negative = negative ∨ d.mantissa = 0
  units : Faithful places x (d.mantissa / tenTo d.scale)

theorem toRat_of_sign (h : d.negative = negative ∨ d.mantissa = 0) :
    d.toRat = signed negative (d.mantissa / tenTo d.scale) := by
  rcases h with rfl | hzero
  · exact toRat_eq_signed d
  · rw [toRat_of_isZero ((isZero_iff d).mpr hzero), hzero]
    cases negative <;> simp

theorem StandsFor.toRat (h : StandsFor k negative x d) :
    Faithful k (signed negative x) d.toRat := by
  rw [toRat_of_sign h.sign]
  cases negative with
  | false => exact h.units
  | true => exact h.units.neg

end Invoicing.Decimal
