import Invoicing.Document.Totals
import Invoicing.Limits
import Invoicing.Line.Pricing
import Invoicing.Line.Validation
import Invoicing.Template.Resolution

/-!
Whole documents: every line is checked and priced, the totals are taken, and the
custom fields are computed. The parts can be asked for one at a time as well.
-/
namespace Invoicing.Document

open Decimal (Overflow)

/-- Fields of a template and the values stored for them. -/
structure CustomFields where
  fields : List Template.Field
  values : Template.Values := .empty

structure Request where
  lines : List Line.Request
  shouldRoundOff : Bool := false
  includeTax : Bool := true
  customFields : Option CustomFields := none

structure Calculation where
  lines : List Line
  totals : Totals
  customFields : Option Template.Values
  diagnostics : List Template.Diagnostic

/-- Why a request is refused. Lines are numbered from 1. An amount beyond the range of decimals is
a fault of its own, which lines that pass their checks do not reach. -/
inductive Fault where
  | noLines
  | tooManyLines (limit count : Nat)
  | tooManyFields (limit count : Nat)
  | invalidLine (number : Nat) (fault : Line.Fault)
  | excessiveLine (number : Nat) (excess : Line.Amounts.Excess)
  | invalidItem (fault : Line.Fault)
  | overflow (overflow : Overflow)
  deriving DecidableEq

def Fault.message : Fault → String
  | .noLines => "Document must have at least one line item"
  | .tooManyLines limit count =>
    s!"A document may contain at most {limit} line items, got {count}"
  | .tooManyFields limit count =>
    s!"A template may define at most {limit} fields, got {count}"
  | .invalidLine number fault => s!"Line item {number}: {fault.message}"
  | .excessiveLine number excess => s!"Line item {number}: {excess.message}"
  | .invalidItem fault => fault.message
  | .overflow .addition => "Addition overflowed"
  | .overflow .subtraction => "Subtraction overflowed"
  | .overflow .multiplication => "Multiplication overflowed"
  | .overflow .division => "Division overflowed"

def inRange {α : Type} (r : Except Overflow α) : Except Fault α :=
  r.mapError .overflow

/-- Refuses more lines than the limit. -/
def checkLineCount (limits : Limits) (count : Nat) : Except Fault Unit :=
  if limits.lineItems < count then .error (.tooManyLines limits.lineItems count) else .ok ()

/-- Refuses more fields than the limit. -/
def checkFieldCount (limits : Limits) (count : Nat) : Except Fault Unit :=
  if limits.formulaFields < count then .error (.tooManyFields limits.formulaFields count)
  else .ok ()

/-- The lines to be priced, the first of them having this number. -/
def validateLines (number : Nat) : List Line.Request → Except Fault (List Line.Input)
  | [] => .ok []
  | r :: rs => do
    let item ← r.validate.mapError (.invalidLine number)
    let items ← validateLines (number + 1) rs
    return item :: items

/-- Refuses priced lines whose amounts are too large. -/
def checkAmounts (number : Nat) : List Line → Except Fault Unit
  | [] => .ok ()
  | line :: lines =>
    match line.amounts.excess? with
    | some excess => .error (.excessiveLine number excess)
    | none => checkAmounts (number + 1) lines

/-- The custom fields of a record, computed. -/
def resolveFields (limits : Limits) (custom : CustomFields) :
    Except Fault Template.Resolution := do
  checkFieldCount limits custom.fields.length
  return Template.resolve custom.fields custom.values

/-- One line, checked and priced by itself. -/
def priceLine (item : Line.Request) (includeTax : Bool) : Except Fault Line := do
  let item ← item.validate.mapError .invalidItem
  inRange (item.price includeTax)

/-- The totals of lines that were priced before. -/
def totalsOf (limits : Limits) (lines : List Line) (shouldRoundOff includeTax : Bool) :
    Except Fault Totals := do
  checkLineCount limits lines.length
  checkAmounts 1 lines
  inRange (aggregate lines shouldRoundOff includeTax)

/-- Everything that is worked out for a document. -/
def calculate (limits : Limits) (request : Request) : Except Fault Calculation := do
  if request.lines.isEmpty then throw .noLines
  checkLineCount limits request.lines.length
  let items ← validateLines 1 request.lines
  let lines ← inRange (items.mapM (·.price request.includeTax))
  let totals ← inRange (aggregate lines request.shouldRoundOff request.includeTax)
  match request.customFields with
  | none => return ⟨lines, totals, none, []⟩
  | some custom =>
    let resolution ← resolveFields limits custom
    return ⟨lines, totals, some resolution.values, resolution.diagnostics⟩

end Invoicing.Document
