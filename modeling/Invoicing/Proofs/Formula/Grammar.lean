import Invoicing.Formula.Expression
import Invoicing.Proofs.Success

/-!
# The grammar of expressions

A sum is a product, or a sum with an additive operator and a product behind it.
A product is made in the same way of operands with their signs, and an operand
is a number or a sum in parentheses. A phrase keeps its whole derivation, and
its value is that of all its operations, left operands first.
-/
namespace Invoicing.Formula

inductive Category where
  | sum | product | unary | primary

/-- The derivations of each category. -/
inductive Phrase : Category → Type where
  | product (p : Phrase .product) : Phrase .sum
  | addition (s : Phrase .sum) (op : Additive) (p : Phrase .product) : Phrase .sum
  | unary (u : Phrase .unary) : Phrase .product
  | multiplication (p : Phrase .product) (op : Multiplicative) (u : Phrase .unary) :
    Phrase .product
  | sign (op : Additive) (u : Phrase .unary) : Phrase .unary
  | primary (a : Phrase .primary) : Phrase .unary
  | number (value : Decimal) : Phrase .primary
  | group (s : Phrase .sum) : Phrase .primary

namespace Phrase

variable {k : Category}

def tokens {k : Category} : Phrase k → List Token
  | product p => p.tokens
  | addition s op p => s.tokens ++ .additive op :: p.tokens
  | unary u => u.tokens
  | multiplication p op u => p.tokens ++ .multiplicative op :: u.tokens
  | sign op u => .additive op :: u.tokens
  | primary a => a.tokens
  | number value => [.number value]
  | group s => .leftParen :: (s.tokens ++ [.rightParen])

/-- How many parentheses and signs the most nested token stands under. -/
def nesting {k : Category} : Phrase k → Nat
  | product p => p.nesting
  | addition s _ p => max s.nesting p.nesting
  | unary u => u.nesting
  | multiplication p _ u => max p.nesting u.nesting
  | sign _ u => u.nesting + 1
  | primary a => a.nesting
  | number _ => 0
  | group s => s.nesting + 1

def value {k : Category} : Phrase k → Except FormulaError Decimal
  | product p => p.value
  | addition s op p => do op.apply (← s.value) (← p.value)
  | unary u => u.value
  | multiplication p op u => do op.apply (← p.value) (← u.value)
  | sign op u => u.value.map op.sign
  | primary a => a.value
  | number value => .ok value
  | group s => s.value

theorem value_addition {s : Phrase .sum} {op : Additive} {p : Phrase .product} {v : Decimal} :
    (addition s op p).value = .ok v ↔
      ∃ a, s.value = .ok a ∧ ∃ b, p.value = .ok b ∧ op.apply a b = .ok v := by
  simp only [value, bind_eq_ok]

theorem value_multiplication {p : Phrase .product} {op : Multiplicative} {u : Phrase .unary}
    {v : Decimal} :
    (multiplication p op u).value = .ok v ↔
      ∃ a, p.value = .ok a ∧ ∃ b, u.value = .ok b ∧ op.apply a b = .ok v := by
  simp only [value, bind_eq_ok]

theorem value_sign {op : Additive} {u : Phrase .unary} {v : Decimal} :
    (sign op u).value = .ok v ↔ ∃ a, u.value = .ok a ∧ op.sign a = v := by
  simp only [value, map_eq_ok]

end Phrase

end Invoicing.Formula
