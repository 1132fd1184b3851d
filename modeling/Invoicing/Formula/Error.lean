import Invoicing.Formula.Token

/-!
What can be wrong with a formula, and how it is told.
-/
namespace Invoicing.Formula

inductive FormulaError where
  | empty
  | unexpectedCharacter (character : Char) (position : Nat)
  | invalidNumber (literal : String)
  | unexpectedToken (found : Token) (position : Nat)
  | unexpectedEnd
  | divisionByZero
  | overflow
  | tooDeep (limit : Nat)
  | missingValue (id : String)
  deriving DecidableEq

def FormulaError.message : FormulaError → String
  | .empty => "Formula is empty"
  | .unexpectedCharacter character position =>
    s!"Unexpected character '{character}' at position {position}"
  | .invalidNumber literal => s!"Invalid number literal '{literal}'"
  | .unexpectedToken found position =>
    s!"Unexpected token '{found.text}' at position {position}"
  | .unexpectedEnd => "Unexpected end of formula"
  | .divisionByZero => "Division by zero"
  | .overflow => "Arithmetic overflow"
  | .tooDeep limit => s!"Formula nested deeper than {limit} levels"
  | .missingValue id => s!"Referenced field '{id}' has no value"

end Invoicing.Formula
