import Invoicing.Decimal.Arithmetic
import Invoicing.Formula.Lexer

/-!
Evaluating an expression while reading it. A sum is made of products, a product
of operands with their signs, and an operand is a number or a sum in
parentheses; operators of one kind associate to the left. The evaluator is a
pushdown machine. It holds what is still waiting for an operand, innermost
first, and works out each operation as soon as its right operand is complete, so
of several errors the leftmost is the one that is told.
-/
namespace Invoicing.Formula

open Decimal (Overflow)

/-- How many parentheses and signs may be open at one place. -/
def maxNesting : Nat := 128

def checked : Except Overflow Decimal → Except FormulaError Decimal
  | .ok value => .ok value
  | .error _ => .error .overflow

def Additive.apply (op : Additive) (a b : Decimal) : Except FormulaError Decimal :=
  match op with
  | .plus => checked (a.add b)
  | .minus => checked (a.sub b)

def Additive.sign : Additive → Decimal → Decimal
  | .plus, value => value
  | .minus, value => -value

def Multiplicative.apply (op : Multiplicative) (a b : Decimal) : Except FormulaError Decimal :=
  match op with
  | .times => checked (a.mul b)
  | .over => if b.isZero then .error .divisionByZero else checked (a.div b)

/-- What waits for an operand: a sign, an open parenthesis, or a left operand and its operator. -/
inductive Frame where
  | sign (op : Additive)
  | group
  | term (left : Decimal) (op : Additive)
  | factor (left : Decimal) (op : Multiplicative)
  deriving DecidableEq

/-- Parentheses and signs count as nesting. -/
def Frame.nests : Frame → Bool
  | .sign _ | .group => true
  | .term .. | .factor .. => false

inductive State where
  /-- An operand has to come. -/
  | operand (pending : List Frame)
  /-- A product is complete so far. -/
  | operator (value : Decimal) (pending : List Frame)
  deriving DecidableEq

/-- Opens a parenthesis or a sign, unless that nests too deep. -/
def enter (frame : Frame) (pending : List Frame) : Except FormulaError State :=
  if maxNesting < (frame :: pending).countP Frame.nests then .error (.tooDeep maxNesting)
  else .ok (.operand (frame :: pending))

/-- An operand is complete: its signs apply, and then the product it is a factor of. -/
def supply (value : Decimal) : List Frame → Except FormulaError State
  | .sign op :: pending => supply (op.sign value) pending
  | .factor left op :: pending => (op.apply left value).map (.operator · pending)
  | pending => .ok (.operator value pending)

/-- A product is complete: the sum it is a term of applies. -/
def collect (value : Decimal) : List Frame → Except FormulaError (Decimal × List Frame)
  | .term left op :: pending => (op.apply left value).map (·, pending)
  | pending => .ok (value, pending)

def State.step : State → Lexeme → Except FormulaError State
  | .operand pending, ⟨.number value, _⟩ => supply value pending
  | .operand pending, ⟨.leftParen, _⟩ => enter .group pending
  | .operand pending, ⟨.additive op, _⟩ => enter (.sign op) pending
  | .operand _, ⟨token, position⟩ => .error (.unexpectedToken token position)
  | .operator value pending, ⟨.multiplicative op, _⟩ =>
    .ok (.operand (.factor value op :: pending))
  | .operator value pending, ⟨token, position⟩ => do
    let (total, pending) ← collect value pending
    match token, pending with
    | .additive op, pending => .ok (.operand (.term total op :: pending))
    | .rightParen, .group :: pending => supply total pending
    | token, _ => .error (.unexpectedToken token position)

/-- The value of an expression that ends here. -/
def State.finish : State → Except FormulaError Decimal
  | .operand _ => .error .unexpectedEnd
  | .operator value pending => do
    let (total, pending) ← collect value pending
    if pending.isEmpty then .ok total else .error .unexpectedEnd

def State.run (s : State) : List Lexeme → Except FormulaError Decimal
  | [] => s.finish
  | lexeme :: rest => do (← s.step lexeme).run rest

@[simp] theorem State.run_nil (s : State) : s.run [] = s.finish := rfl

@[simp] theorem State.run_cons (s : State) (lexeme : Lexeme) (rest : List Lexeme) :
    s.run (lexeme :: rest) = s.step lexeme >>= fun t => t.run rest := rfl

/-- The value of an expression given by its lexemes. -/
def parse (ls : List Lexeme) : Except FormulaError Decimal :=
  if ls.isEmpty then .error .empty else (State.operand []).run ls

/-- The value of an expression given by its text, neither rounded nor trimmed. -/
def evaluateExpression (text : String) : Except FormulaError Decimal := do
  parse (← lexemes text)

end Invoicing.Formula
