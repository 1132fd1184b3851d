import Invoicing.Json.Record
import Invoicing.Line.Basic

/-!
The JSON forms of lines. A requested line, a line to be priced and a priced line
have the same ten fields in front; a priced line has its amounts behind them.
-/
namespace Invoicing

open Json (Slot required nullable defaulted decimal? bool? ofDecimal ofOption)

namespace Discount

def ofFields? (fields : List (String × Json)) : Option Discount := do
  return {
    fixed := ← nullable fields "fixedDiscount" decimal?
    percentage := ← nullable fields "percentageDiscount" decimal? }

end Discount

namespace CessRates

def ofFields? (fields : List (String × Json)) : Option CessRates := do
  return {
    adValorem := ← nullable fields "cessAdValoremRate" decimal?
    specific := ← nullable fields "cessSpecificRate" decimal?
    stateAdValorem := ← nullable fields "stateCessAdValoremRate" decimal?
    stateSpecific := ← nullable fields "stateCessSpecificRate" decimal? }

end CessRates

namespace Line

/-- The fields that every line has. -/
def termSlots : List Slot :=
  [⟨"rate", false⟩, ⟨"quantity", false⟩, ⟨"fixedDiscount", false⟩, ⟨"percentageDiscount", false⟩,
    ⟨"gstRate", false⟩, ⟨"isInterState", false⟩, ⟨"cessAdValoremRate", false⟩,
    ⟨"cessSpecificRate", false⟩, ⟨"stateCessAdValoremRate", false⟩,
    ⟨"stateCessSpecificRate", false⟩]

def amountSlots : List Slot :=
  [⟨"baseAmount", false⟩, ⟨"subTotal", false⟩, ⟨"discountAmount", false⟩, ⟨"cgstAmount", false⟩,
    ⟨"sgstAmount", false⟩, ⟨"igstAmount", false⟩, ⟨"cessAdValoremAmount", false⟩,
    ⟨"cessSpecificAmount", false⟩, ⟨"stateCessAdValoremAmount", false⟩,
    ⟨"stateCessSpecificAmount", false⟩, ⟨"totalAmount", false⟩]

def termFields (rate : Decimal) (quantity : Option Decimal) (discount : Discount)
    (gstRate : Option Decimal) (isInterState : Bool) (cess : CessRates) : List (String × Json) :=
  [("rate", ofDecimal rate),
    ("quantity", ofOption ofDecimal quantity),
    ("fixedDiscount", ofOption ofDecimal discount.fixed),
    ("percentageDiscount", ofOption ofDecimal discount.percentage),
    ("gstRate", ofOption ofDecimal gstRate),
    ("isInterState", .bool isInterState),
    ("cessAdValoremRate", ofOption ofDecimal cess.adValorem),
    ("cessSpecificRate", ofOption ofDecimal cess.specific),
    ("stateCessAdValoremRate", ofOption ofDecimal cess.stateAdValorem),
    ("stateCessSpecificRate", ofOption ofDecimal cess.stateSpecific)]

def Request.ofJson? (v : Json) : Option Request := do
  let fields ← Json.record? termSlots v
  return {
    rate := ← nullable fields "rate" decimal?
    quantity := ← nullable fields "quantity" decimal?
    discount := ← Discount.ofFields? fields
    gstRate := ← nullable fields "gstRate" decimal?
    isInterState := ← nullable fields "isInterState" bool?
    cess := ← CessRates.ofFields? fields }

def Input.ofJson? (v : Json) : Option Input := do
  let fields ← Json.record? termSlots v
  return {
    rate := ← required fields "rate" decimal?
    quantity := ← nullable fields "quantity" decimal?
    discount := ← Discount.ofFields? fields
    gstRate := ← nullable fields "gstRate" decimal?
    isInterState := ← defaulted fields "isInterState" false bool?
    cess := ← CessRates.ofFields? fields }

def Input.toJson (item : Input) : Json :=
  .record (termFields item.rate item.quantity item.discount item.gstRate item.isInterState
    item.cess)

def Amounts.ofFields? (fields : List (String × Json)) : Option Amounts := do
  return {
    base := ← required fields "baseAmount" decimal?
    subTotal := ← required fields "subTotal" decimal?
    discount := ← required fields "discountAmount" decimal?
    gst := {
      central := ← required fields "cgstAmount" decimal?
      state := ← required fields "sgstAmount" decimal?
      integrated := ← required fields "igstAmount" decimal? }
    cess := {
      adValorem := ← required fields "cessAdValoremAmount" decimal?
      specific := ← required fields "cessSpecificAmount" decimal?
      stateAdValorem := ← required fields "stateCessAdValoremAmount" decimal?
      stateSpecific := ← required fields "stateCessSpecificAmount" decimal? }
    total := ← required fields "totalAmount" decimal? }

def Amounts.fields (a : Amounts) : List (String × Json) :=
  a.named.map fun (name, value) => (name, ofDecimal value)

end Line

def Line.ofJson? (v : Json) : Option Line := do
  let fields ← Json.record? (Line.termSlots ++ Line.amountSlots) v
  return {
    rate := ← required fields "rate" decimal?
    quantity := ← required fields "quantity" decimal?
    discount := ← Discount.ofFields? fields
    gstRate := ← nullable fields "gstRate" decimal?
    isInterState := ← defaulted fields "isInterState" false bool?
    cess := ← CessRates.ofFields? fields
    amounts := ← Line.Amounts.ofFields? fields }

def Line.toJson (line : Line) : Json :=
  .record (Line.termFields line.rate (some line.quantity) line.discount line.gstRate
    line.isInterState line.cess ++ line.amounts.fields)

end Invoicing
