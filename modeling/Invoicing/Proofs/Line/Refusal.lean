import Invoicing.Proofs.Decimal.Value
import Invoicing.Proofs.Failure
import Invoicing.Proofs.Line.Acceptance

/-!
# Why a requested line is refused

A line needs a rate, and each of its numbers has to be worth something between
zero and a limit. A line that does not comply is refused for the first of its
numbers that does not, in the order in which they are checked, and a number that
is out of range is told with its name.
-/
namespace Invoicing.Line

variable {limit : Decimal} {value? : Option Decimal} {r : Request}

/-- What is told of an amount that is out of range. -/
def AmountFault (name : String) (limit : Decimal) (value? : Option Decimal) (fault : Fault) :
    Prop :=
  ∃ value ∈ value?, value.toRat < 0 ∧ fault = .negative name value ∨
    limit.toRat < value.toRat ∧ fault = .aboveLimit name limit value

/-- What is told of a percentage that is out of range. -/
def PercentageFault (name : String) (value? : Option Decimal) (fault : Fault) : Prop :=
  ∃ value ∈ value?, (value.toRat < 0 ∨ 100 < value.toRat) ∧ fault = .notPercentage name value

/-- What can be wrong with a requested line, in the order in which it is checked. -/
def Request.faults (r : Request) : List (Fault → Prop) :=
  [fun fault => r.rate = none ∧ fault = .rateMissing,
    AmountFault "rate" maxUnitAmount r.rate,
    AmountFault "quantity" maxQuantity r.quantity,
    AmountFault "fixedDiscount" maxUnitAmount r.discount.fixed,
    PercentageFault "percentageDiscount" r.discount.percentage,
    PercentageFault "gstRate" r.gstRate,
    PercentageFault "cessAdValoremRate" r.cess.adValorem,
    PercentageFault "cessSpecificRate" r.cess.specific,
    PercentageFault "stateCessAdValoremRate" r.cess.stateAdValorem,
    PercentageFault "stateCessSpecificRate" r.cess.stateSpecific]

/-- A number that may be left out and is otherwise worth something between zero and a limit. -/
def Ranges (limit : ℚ) (value? : Option Decimal) : Prop :=
  ∀ value ∈ value?, 0 ≤ value.toRat ∧ value.toRat ≤ limit

/-- A requested line has a rate and all its numbers are in range. -/
structure Request.Valid (r : Request) : Prop where
  hasRate : r.rate ≠ none
  rate : Ranges (10 ^ 12) r.rate
  quantity : Ranges (10 ^ 6) r.quantity
  fixedDiscount : Ranges (10 ^ 12) r.discount.fixed
  percentageDiscount : Ranges 100 r.discount.percentage
  gstRate : Ranges 100 r.gstRate
  cessAdValoremRate : Ranges 100 r.cess.adValorem
  cessSpecificRate : Ranges 100 r.cess.specific
  stateCessAdValoremRate : Ranges 100 r.cess.stateAdValorem
  stateCessSpecificRate : Ranges 100 r.cess.stateSpecific

theorem toRat_maxUnitAmount : maxUnitAmount.toRat = 10 ^ 12 := by
  rw [maxUnitAmount, Decimal.toRat_whole]
  norm_num

theorem toRat_maxQuantity : maxQuantity.toRat = 10 ^ 6 := by
  rw [maxQuantity, Decimal.toRat_whole]
  norm_num

theorem toRat_hundred : Money.hundred.toRat = 100 := by
  rw [Money.hundred, Decimal.toRat_whole]
  norm_num

theorem allowed_iff : Allowed limit value? ↔ Ranges limit.toRat value? := by
  simp only [Allowed, Ranges, ← Decimal.toRat_le_toRat_iff, Decimal.toRat_zero]

theorem allowed_maxUnitAmount : Allowed maxUnitAmount value? ↔ Ranges (10 ^ 12) value? := by
  rw [allowed_iff, toRat_maxUnitAmount]

theorem allowed_maxQuantity : Allowed maxQuantity value? ↔ Ranges (10 ^ 6) value? := by
  rw [allowed_iff, toRat_maxQuantity]

theorem allowed_hundred : Allowed Money.hundred value? ↔ Ranges 100 value? := by
  rw [allowed_iff, toRat_hundred]

/-- A limit that is not negative leaves a number below zero and one above it apart. -/
theorem checkAmount_eq_error {name : String} {fault : Fault} (hlimit : 0 ≤ limit.toRat) :
    checkAmount name limit value? = .error fault ↔ AmountFault name limit value? fault := by
  cases value? with
  | none => simp [checkAmount, AmountFault]
  | some value =>
    rw [checkAmount, ite_error_eq_error, ite_error_eq_error, ← Decimal.toRat_lt_toRat_iff,
      ← Decimal.toRat_lt_toRat_iff, Decimal.toRat_zero]
    have happart : limit.toRat < value.toRat → ¬ value.toRat < 0 := by
      intro h
      linarith
    simp only [AmountFault, Option.mem_some_iff, exists_eq_left', reduceCtorEq, and_false, or_false]
    constructor
    · rintro (⟨hlow, h⟩ | ⟨-, hhigh, h⟩)
      · exact .inl ⟨hlow, h.symm⟩
      · exact .inr ⟨hhigh, h.symm⟩
    · rintro (⟨hlow, h⟩ | ⟨hhigh, h⟩)
      · exact .inl ⟨hlow, h.symm⟩
      · exact .inr ⟨happart hhigh, hhigh, h.symm⟩

theorem checkPercentage_eq_error {name : String} {fault : Fault} :
    checkPercentage name value? = .error fault ↔ PercentageFault name value? fault := by
  cases value? with
  | none => simp [checkPercentage, PercentageFault]
  | some value =>
    rw [checkPercentage, ite_error_eq_error, ← Decimal.toRat_lt_toRat_iff,
      ← Decimal.toRat_lt_toRat_iff, Decimal.toRat_zero, toRat_hundred]
    simp only [PercentageFault, Option.mem_some_iff, exists_eq_left', reduceCtorEq, and_false,
      or_false, eq_comm (a := fault)]

/-- A requested line is refused for the first thing that is wrong with it. -/
theorem validate_eq_error {fault : Fault} :
    r.validate = .error fault ↔ First r.faults fault := by
  suffices h : FailsFirst r.validate r.faults from h fault
  unfold Request.validate
  cases hrate : r.rate with
  | none =>
    refine .bind (fun fault => ?_) fun rate h => ?_
    · simp [hrate, eq_comm]
    · cases h
  | some rate =>
    have hpercentages : FailsFirst (r.percentages.forM fun e => checkPercentage e.1 e.2)
        (r.percentages.map fun e => PercentageFault e.1 e.2) :=
      .forM (fun _ _ => checkPercentage_eq_error) _
    refine .bind (fun fault => ?_) fun rate' h => ?_
    · simp [hrate]
    cases h
    refine .bind (fun fault => ?_) fun _ _ => .bind (fun fault => ?_) fun _ _ =>
      .bind (fun fault => ?_) fun _ _ => hpercentages.map _
    · rw [hrate]
      exact checkAmount_eq_error (by norm_num [toRat_maxUnitAmount])
    · exact checkAmount_eq_error (by norm_num [toRat_maxQuantity])
    · exact checkAmount_eq_error (by norm_num [toRat_maxUnitAmount])

/-- A valid request passes all its checks, and no other does. -/
theorem valid_iff : r.Valid ↔ ∃ item, r.validate = .ok item := by
  constructor
  · intro h
    obtain ⟨rate, hrate⟩ := Option.ne_none_iff_exists'.mp h.hasRate
    refine ⟨r.item rate, validate_eq_ok.mpr ⟨rate, hrate, rfl, ?_⟩⟩
    exact {
      rate := allowed_maxUnitAmount.mpr (hrate ▸ h.rate)
      quantity := allowed_maxQuantity.mpr h.quantity
      fixedDiscount := allowed_maxUnitAmount.mpr h.fixedDiscount
      percentageDiscount := allowed_hundred.mpr h.percentageDiscount
      gstRate := allowed_hundred.mpr h.gstRate
      cess := by
        simp only [Cess.toList, List.forall_mem_cons]
        exact ⟨allowed_hundred.mpr h.cessAdValoremRate, allowed_hundred.mpr h.cessSpecificRate,
          allowed_hundred.mpr h.stateCessAdValoremRate, allowed_hundred.mpr h.stateCessSpecificRate,
          List.forall_mem_nil _⟩ }
  · rintro ⟨item, h⟩
    obtain ⟨rate, hrate, rfl, hitem⟩ := validate_eq_ok.mp h
    have hcess := hitem.cess
    simp only [Request.item, Cess.toList, List.forall_mem_cons] at hcess
    obtain ⟨hadValorem, hspecific, hstateAdValorem, hstateSpecific, -⟩ := hcess
    exact {
      hasRate := by simp [hrate]
      rate := hrate ▸ allowed_maxUnitAmount.mp hitem.rate
      quantity := allowed_maxQuantity.mp hitem.quantity
      fixedDiscount := allowed_maxUnitAmount.mp hitem.fixedDiscount
      percentageDiscount := allowed_hundred.mp hitem.percentageDiscount
      gstRate := allowed_hundred.mp hitem.gstRate
      cessAdValoremRate := allowed_hundred.mp hadValorem
      cessSpecificRate := allowed_hundred.mp hspecific
      stateCessAdValoremRate := allowed_hundred.mp hstateAdValorem
      stateCessSpecificRate := allowed_hundred.mp hstateSpecific }

/-- A request that is not valid has something wrong with it that is told. -/
theorem not_valid_iff : ¬ r.Valid ↔ ∃ fault, First r.faults fault := by
  simp only [valid_iff, ← validate_eq_error]
  cases r.validate with
  | ok item => simp
  | error fault => simp

end Invoicing.Line
