import Invoicing.Line.Basic
import Invoicing.Money

/-!
Pricing a line. Every amount is rounded to whole cents as soon as it is worked
out, so a line agrees with a computation by hand.
-/
namespace Invoicing.Line

open Decimal (Overflow)

def one : Decimal := .whole 1

def two : Decimal := .whole 2

/-- The quantity to price with: one unit if there is none, or none at all. -/
def Input.effectiveQuantity (item : Input) : Decimal :=
  match item.quantity with
  | some quantity => if quantity.isZero then one else quantity
  | none => one

/-- A rate of an amount; without a rate there is nothing. -/
def component (taxable : Decimal) (rate : Option Decimal) : Except Overflow Decimal :=
  match rate with
  | none => .ok .zero
  | some rate => Money.percentOf taxable rate

/-- The discount on a base amount: first the percentage, then the fixed amount. -/
def discountOn (base : Decimal) (d : Discount) : Except Overflow Decimal := do
  let share ← Money.percentOf base (d.percentage.getD .zero)
  let total ← share.add (d.fixed.getD .zero)
  return Money.round2 total

/-- The tax on an amount: whole between states, in two halves within one. -/
def gstOn (taxable rate : Decimal) (isInterState : Bool) : Except Overflow Gst := do
  if isInterState then
    return ⟨.zero, .zero, ← Money.percentOf taxable rate⟩
  else
    let half ← rate.div two
    return ⟨← Money.percentOf taxable half, ← Money.percentOf taxable half, .zero⟩

def cessOn (taxable : Decimal) (rates : CessRates) : Except Overflow (Cess Decimal) := do
  return {
    adValorem := ← component taxable rates.adValorem
    specific := ← component taxable rates.specific
    stateAdValorem := ← component taxable rates.stateAdValorem
    stateSpecific := ← component taxable rates.stateSpecific }

/-- What is to be paid: the amount alone, or with all that is charged on it. -/
def totalOf (taxable : Decimal) (charges : List Decimal) (includeTax : Bool) :
    Except Overflow Decimal :=
  if includeTax then (taxable.addAll charges).map Money.round2 else .ok taxable

/-- The amounts of a line. -/
def Input.amounts (item : Input) (includeTax : Bool) : Except Overflow Amounts := do
  let product ← item.rate.mul item.effectiveQuantity
  let base := Money.round2 product
  let discount ← discountOn base item.discount
  let difference ← base.sub discount
  let subTotal := Money.round2 difference
  let gst ← gstOn subTotal (item.gstRate.getD .zero) item.isInterState
  let cess ← cessOn subTotal item.cess
  let total ← totalOf subTotal (gst.toList ++ cess.toList) includeTax
  return { base, subTotal, discount, gst, cess, total }

/-- The priced line. -/
def Input.price (item : Input) (includeTax : Bool) : Except Overflow Line := do
  let amounts ← item.amounts includeTax
  return {
    rate := item.rate
    quantity := item.effectiveQuantity
    discount := item.discount
    gstRate := item.gstRate
    isInterState := item.isInterState
    cess := item.cess
    amounts }

/-- All tax and cess on a line. -/
def Amounts.tax (a : Amounts) : Except Overflow Decimal :=
  a.gst.central.addAll ([a.gst.state, a.gst.integrated] ++ a.cess.toList)

end Invoicing.Line
