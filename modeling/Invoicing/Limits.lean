/-!
How many requests a minute may bring, and how much one request may hold.
-/
namespace Invoicing

structure Limits where
  requestsPerMinute : Nat := 1000
  formulaFields : Nat := 500
  lineItems : Nat := 1000
  deriving DecidableEq, Repr

/-- No configuration may allow more lines than this, so that totals stay within range. -/
def lineItemsCeiling : Nat := 100000

inductive Limits.Fault where
  | noRequests
  | nothingAllowed
  | aboveCeiling
  deriving DecidableEq, Repr

def Limits.Fault.message : Limits.Fault → String
  | .noRequests => "Rate limit must be greater than 0"
  | .nothingAllowed => "Formula field and line item limits must be greater than 0"
  | .aboveCeiling => s!"Line item limit must not exceed {lineItemsCeiling}"

/-- Limits that let something through and keep to the ceiling. -/
def Limits.validate (l : Limits) : Except Limits.Fault Unit :=
  if l.requestsPerMinute = 0 then .error .noRequests
  else if l.formulaFields = 0 ∨ l.lineItems = 0 then .error .nothingAllowed
  else if lineItemsCeiling < l.lineItems then .error .aboveCeiling
  else .ok ()

end Invoicing
