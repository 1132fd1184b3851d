import Invoicing.Line.Basic
import Invoicing.Money

/-!
Checks of lines. A requested line needs a rate, its amounts have bounds and its
percentages lie between 0 and 100; the amounts of a line that was priced
elsewhere must be small enough for any number of lines to be added up. The first
check that fails is told.
-/
namespace Invoicing.Line

/-- The largest rate and the largest fixed discount. -/
def maxUnitAmount : Decimal := .whole 1000000000000

def maxQuantity : Decimal := .whole 1000000

/-- The largest size of an amount of a priced line. -/
def maxLineAmount : Decimal := .whole 10000000000000000000

/-- What is wrong with a requested line. -/
inductive Fault where
  | rateMissing
  | negative (name : String) (value : Decimal)
  | aboveLimit (name : String) (limit value : Decimal)
  | notPercentage (name : String) (value : Decimal)
  deriving DecidableEq

def Fault.message : Fault → String
  | .rateMissing => "Line item rate is required"
  | .negative name value => s!"{name} must be non-negative, got: {value.toText}"
  | .aboveLimit name limit value =>
    s!"{name} must not exceed {limit.toText}, got: {value.toText}"
  | .notPercentage name value => s!"{name} must be between 0 and 100, got: {value.toText}"

def checkAmount (name : String) (limit : Decimal) : Option Decimal → Except Fault Unit
  | none => .ok ()
  | some value =>
    if value < .zero then .error (.negative name value)
    else if limit < value then .error (.aboveLimit name limit value)
    else .ok ()

def checkPercentage (name : String) : Option Decimal → Except Fault Unit
  | none => .ok ()
  | some value =>
    if value < .zero ∨ Money.hundred < value then .error (.notPercentage name value)
    else .ok ()

namespace Request

/-- The percentages of a requested line by their names, in the order of their checks. -/
def percentages (r : Request) : List (String × Option Decimal) :=
  [("percentageDiscount", r.discount.percentage),
    ("gstRate", r.gstRate),
    ("cessAdValoremRate", r.cess.adValorem),
    ("cessSpecificRate", r.cess.specific),
    ("stateCessAdValoremRate", r.cess.stateAdValorem),
    ("stateCessSpecificRate", r.cess.stateSpecific)]

/-- The line to be priced, if the request passes all checks. Supply is within the state unless
the request says otherwise. -/
def validate (r : Request) : Except Fault Input := do
  let rate ← match r.rate with
    | some rate => .ok rate
    | none => .error .rateMissing
  checkAmount "rate" maxUnitAmount (some rate)
  checkAmount "quantity" maxQuantity r.quantity
  checkAmount "fixedDiscount" maxUnitAmount r.discount.fixed
  r.percentages.forM fun (name, value) => checkPercentage name value
  return {
    rate
    quantity := r.quantity
    discount := r.discount
    gstRate := r.gstRate
    isInterState := r.isInterState.getD false
    cess := r.cess }

end Request

namespace Amounts

/-- An amount that is too large. -/
structure Excess where
  name : String
  value : Decimal
  deriving DecidableEq

def Excess.message (e : Excess) : String :=
  s!"{e.name} must not exceed {maxLineAmount.toText} in magnitude, got: {e.value.toText}"

/-- The first amount that is too large, if there is one. -/
def excess? (a : Amounts) : Option Excess :=
  (a.named.find? fun (_, value) => maxLineAmount < value.abs).map fun (name, value) =>
    ⟨name, value⟩

end Amounts

end Invoicing.Line
