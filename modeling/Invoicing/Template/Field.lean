import Invoicing.Text.Blank

/-!
The custom fields of a template. A field is filled in by hand or, if it has a
formula, computed from other fields of the record.
-/
namespace Invoicing.Template

inductive FieldType where
  | number | text | date | boolean | select
  deriving DecidableEq, Repr

/-- A field as it is defined; the formula is the text that was entered. -/
structure Field where
  id : String
  type : FieldType
  entered : Option String := none
  deriving DecidableEq, Repr

namespace Field

/-- The formula of a field without the white space around it. A blank one is none. -/
def formula (f : Field) : Option String :=
  (f.entered.map Text.trim).filter (· ≠ "")

def hasFormula (f : Field) : Bool :=
  f.formula.isSome

end Field

end Invoicing.Template
