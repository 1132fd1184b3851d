import Invoicing.Decimal.Arithmetic

/-!
Amounts of money: two places, a half away from zero. Percentages are taken
first and rounded after.
-/
namespace Invoicing.Money

open Decimal (Overflow)

def hundred : Decimal := .whole 100

/-- An amount in whole cents. -/
def round2 (d : Decimal) : Decimal :=
  d.round 2

/-- The nearest whole amount. -/
def roundToInteger (d : Decimal) : Decimal :=
  d.round 0

/-- `rate` percent of an amount, in whole cents. -/
def percentOf (amount rate : Decimal) : Except Overflow Decimal := do
  let product ← amount.mul rate
  let share ← product.div hundred
  return round2 share

/-- A computed value is written with at most two places and no zeros behind them. -/
def formatted (d : Decimal) : String :=
  (round2 d).normalize.toText

end Invoicing.Money
