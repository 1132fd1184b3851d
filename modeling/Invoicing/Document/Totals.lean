import Invoicing.Line.Basic
import Invoicing.Money

/-!
Totals of a document. Each kind of amount is added up over the lines and rounded
by itself; the grand total may be brought to a whole amount, and the signed
difference is told beside it.
-/
namespace Invoicing.Document

open Decimal (Overflow)

structure Totals where
  subTotal : Decimal
  discount : Decimal
  gst : Line.Gst
  cess : Decimal
  stateCess : Decimal
  roundOff : Decimal
  total : Decimal
  deriving DecidableEq

/-- One kind of amount over all lines. -/
def sumOf (lines : List Line) (amount : Line.Amounts → Decimal) : Except Overflow Decimal :=
  (Decimal.sum (lines.map fun line => amount line.amounts)).map Money.round2

/-- Two amounts together. -/
def combined (a b : Decimal) : Except Overflow Decimal :=
  (a.add b).map Money.round2

/-- The correction that makes a total whole, and the whole total. -/
def roundedOff (total : Decimal) : Except Overflow (Decimal × Decimal) := do
  let whole := Money.roundToInteger total
  let correction ← whole.sub total
  return (Money.round2 correction, whole)

/-- The totals of priced lines. -/
def aggregate (lines : List Line) (shouldRoundOff includeTax : Bool) :
    Except Overflow Totals := do
  let subTotal ← sumOf lines (·.subTotal)
  let discount ← sumOf lines (·.discount)
  let central ← sumOf lines (·.gst.central)
  let state ← sumOf lines (·.gst.state)
  let integrated ← sumOf lines (·.gst.integrated)
  let adValorem ← sumOf lines (·.cess.adValorem)
  let specific ← sumOf lines (·.cess.specific)
  let stateAdValorem ← sumOf lines (·.cess.stateAdValorem)
  let stateSpecific ← sumOf lines (·.cess.stateSpecific)
  let cess ← combined adValorem specific
  let stateCess ← combined stateAdValorem stateSpecific
  let exact ←
    if includeTax then
      (subTotal.addAll [central, state, integrated, cess, stateCess]).map Money.round2
    else .ok subTotal
  let (roundOff, total) ← if shouldRoundOff then roundedOff exact else .ok (.zero, exact)
  return {
    subTotal
    discount
    gst := ⟨central, state, integrated⟩
    cess
    stateCess
    roundOff
    total }

/-- All tax and cess of a document. -/
def Totals.tax (t : Totals) : Except Overflow Decimal :=
  t.gst.central.addAll [t.gst.state, t.gst.integrated, t.cess, t.stateCess]

end Invoicing.Document
