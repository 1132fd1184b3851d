import Invoicing.Decimal.Basic

/-!
The tokens of a formula: numbers, the four operators and parentheses. An
additive operator is also a sign.
-/
namespace Invoicing.Formula

inductive Additive where
  | plus | minus
  deriving DecidableEq, Repr

inductive Multiplicative where
  | times | over
  deriving DecidableEq, Repr

inductive Token where
  | number (value : Decimal)
  | additive (op : Additive)
  | multiplicative (op : Multiplicative)
  | leftParen
  | rightParen
  deriving DecidableEq

/-- A token and the byte offset of its first character. -/
structure Lexeme where
  token : Token
  position : Nat
  deriving DecidableEq

/-- The token that a character is by itself. -/
def Token.ofSymbol? : Char → Option Token
  | '+' => some (.additive .plus)
  | '-' => some (.additive .minus)
  | '*' => some (.multiplicative .times)
  | '/' => some (.multiplicative .over)
  | '(' => some .leftParen
  | ')' => some .rightParen
  | _ => none

/-- How a token is shown. A number is shown as the amount it was read as. -/
def Token.text : Token → String
  | .number value => value.toText
  | .additive .plus => "+"
  | .additive .minus => "-"
  | .multiplicative .times => "*"
  | .multiplicative .over => "/"
  | .leftParen => "("
  | .rightParen => ")"

end Invoicing.Formula
