import Invoicing.Formula.Expression
import Invoicing.Formula.Reference
import Invoicing.Money

/-!
Formulas with references. Each reference is replaced by its value in
parentheses, and the expression that results is evaluated.
-/
namespace Invoicing.Formula

open Text

/-- The value stored where a formula has none. -/
def fallback : String := "0"

/-- The characters within the first `n` bytes. -/
def takeBytes (n : Nat) : List Char → List Char
  | [] => []
  | c :: cs => if c.utf8Size ≤ n then c :: takeBytes (n - c.utf8Size) cs else []

/-- The characters behind the first `n` bytes. -/
def dropBytes (n : Nat) : List Char → List Char
  | [] => []
  | c :: cs => if c.utf8Size ≤ n then dropBytes (n - c.utf8Size) cs else c :: cs

@[simp] theorem takeBytes_append_dropBytes (n : Nat) (cs : List Char) :
    takeBytes n cs ++ dropBytes n cs = cs := by
  induction cs generalizing n with
  | nil => rfl
  | cons c cs ih =>
    simp only [takeBytes, dropBytes]
    split <;> simp [ih]

/-- A value in place of a reference. -/
def parenthesized (value : String) : List Char :=
  '(' :: (trimChars value.toList ++ [')'])

/-- The characters from `position` on with values in place of the references to come. The first
reference without a value is the error. -/
def splice (value? : String → Option String) (position : Nat) (text : List Char) :
    List Reference → Except FormulaError (List Char)
  | [] => .ok text
  | r :: rs =>
    match value? r.id with
    | none => .error (.missingValue r.id)
    | some value =>
      (splice value? r.stop (dropBytes (r.stop - position) text) rs).map
        (takeBytes (r.start - position) text ++ parenthesized value ++ ·)

/-- The formula with the values of the ids it refers to. -/
def substitute (v : Vocabulary) (value? : String → Option String) (formula : String) :
    Except FormulaError String :=
  (splice value? 0 formula.toList (v.references formula)).map String.ofList

/-- The value of a formula, rounded to two places and written without trailing zeros. -/
def evaluate (v : Vocabulary) (value? : String → Option String) (formula : String) :
    Except FormulaError String := do
  let expression ← substitute v value? formula
  let value ← evaluateExpression expression
  return Money.formatted value

/-- The value of a formula, or the fallback if it has none. -/
def evaluateOrFallback (v : Vocabulary) (value? : String → Option String) (formula : String) :
    String :=
  match evaluate v value? formula with
  | .ok value => value
  | .error _ => fallback

end Invoicing.Formula
