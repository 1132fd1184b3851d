import Invoicing.Document.Calculation
import Invoicing.Line.Json
import Invoicing.Template.Json

/-!
The JSON forms of what is asked about documents and of what is answered.
-/
namespace Invoicing.Document

open Json (required nullable defaulted list? bool? ofDecimal)

def Totals.toJson (t : Totals) : Json :=
  .record [("subTotal", ofDecimal t.subTotal),
    ("discountAmount", ofDecimal t.discount),
    ("cgstAmount", ofDecimal t.gst.central),
    ("sgstAmount", ofDecimal t.gst.state),
    ("igstAmount", ofDecimal t.gst.integrated),
    ("cessAmount", ofDecimal t.cess),
    ("stateCessAmount", ofDecimal t.stateCess),
    ("roundOffAmount", ofDecimal t.roundOff),
    ("totalAmount", ofDecimal t.total)]

def CustomFields.ofJson? (v : Json) : Option CustomFields := do
  let fields ← Json.record? [⟨"fields", false⟩, ⟨"values", true⟩] v
  return {
    fields := ← required fields "fields" (list? Template.Field.ofJson?)
    values := ← defaulted fields "values" .empty Template.Values.ofJson? }

def Request.ofJson? (v : Json) : Option Request := do
  let fields ← Json.record?
    [⟨"lineItems", false⟩, ⟨"shouldRoundOff", true⟩, ⟨"includeTax", true⟩, ⟨"customFields", true⟩] v
  return {
    lines := ← required fields "lineItems" (list? Line.Request.ofJson?)
    shouldRoundOff := ← defaulted fields "shouldRoundOff" false bool?
    includeTax := ← defaulted fields "includeTax" true bool?
    customFields := ← nullable fields "customFields" CustomFields.ofJson? }

/-- Custom fields that were not asked for are left out. -/
def Calculation.toJson (c : Calculation) : Json :=
  .record ([("lineItems", .array (c.lines.map Line.toJson)), ("totals", c.totals.toJson)]
    ++ (c.customFields.map fun values => ("customFields", values.toJson)).toList
    ++ [("diagnostics", .array (c.diagnostics.map Template.Diagnostic.toJson))])

/-- A single line to be priced. -/
structure LineRequest where
  item : Line.Request
  includeTax : Bool := true

def LineRequest.ofJson? (v : Json) : Option LineRequest := do
  let fields ← Json.record? [⟨"item", false⟩, ⟨"includeTax", true⟩] v
  return {
    item := ← required fields "item" Line.Request.ofJson?
    includeTax := ← defaulted fields "includeTax" true bool? }

/-- Priced lines to be added up. -/
structure TotalsRequest where
  lines : List Line
  shouldRoundOff : Bool := false
  includeTax : Bool := true

def TotalsRequest.ofJson? (v : Json) : Option TotalsRequest := do
  let fields ← Json.record? [⟨"lineItems", false⟩, ⟨"shouldRoundOff", true⟩, ⟨"includeTax", true⟩] v
  return {
    lines := ← required fields "lineItems" (list? Line.ofJson?)
    shouldRoundOff := ← defaulted fields "shouldRoundOff" false bool?
    includeTax := ← defaulted fields "includeTax" true bool? }

end Invoicing.Document
