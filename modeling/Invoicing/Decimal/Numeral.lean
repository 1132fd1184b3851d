import Invoicing.Decimal.Rounding

/-!
Numerals. The plain form is an optional sign and digits with at most one point;
underscores may stand behind the first digit. The exponent form multiplies a
plain numeral by a power of ten. A numeral with more fraction digits than an
amount can hold is cut, and the first digit that is left over rounds it.
-/
namespace Invoicing.Decimal

def digitValue (c : Char) : Nat :=
  c.toNat - '0'.toNat

/-- Whole and fraction digits of an unsigned plain numeral, underscores dropped. The whole of it has
to be well formed, digits past the last place included. -/
def splitNumeral (cs : List Char) : Option (List Char × List Char) :=
  let whole := cs.takeWhile (· ≠ '.')
  let fraction := (cs.dropWhile (· ≠ '.')).drop 1
  let all := whole ++ fraction
  if all.all (fun c => c.isDigit || c = '_') ∧ all.head?.any Char.isDigit then
    some (whole.filter Char.isDigit, fraction.filter Char.isDigit)
  else none

/-- Fraction digits are taken over one at a time while there is room. Of the digits left over
only the first counts, and it rounds half up. -/
def appendFraction (m s : Nat) : List Char → Option (Nat × Nat)
  | [] => some (m, s)
  | c :: cs =>
    if s < 28 ∧ 10 * m + digitValue c < capacity then
      appendFraction (10 * m + digitValue c) (s + 1) cs
    else if digitValue c < 5 then some (m, s)
    else if m + 1 < capacity then some (m + 1, s)
    else if s = 0 then none
    else some ((m + 5) / 10, s - 1)

/-- The amount of an unsigned plain numeral under the given sign; a zero is positive. -/
def ofUnsigned? (negative : Bool) (cs : List Char) : Option Decimal := do
  let (whole, fraction) ← splitNumeral cs
  let m := Nat.ofDigitChars 10 whole 0
  guard (m < capacity)
  let (m, s) ← appendFraction m 0 fraction
  ofParts? (negative && m ≠ 0) m s

/-- Reads the plain form. -/
def ofPlain? : List Char → Option Decimal
  | '-' :: cs => ofUnsigned? true cs
  | '+' :: cs => ofUnsigned? false cs
  | cs => ofUnsigned? false cs

/-- The number written by a nonempty run of digits, below the bound. -/
def digitsBelow? (bound : Nat) (cs : List Char) : Option Nat :=
  let n := Nat.ofDigitChars 10 cs 0
  if cs ≠ [] ∧ cs.all Char.isDigit ∧ n < bound then some n else none

/-- A number below the bound: an optional `+` and digits. -/
def natBelow? (bound : Nat) : List Char → Option Nat
  | '+' :: cs => digitsBelow? bound cs
  | cs => digitsBelow? bound cs

/-- An amount times `10^k`. The fraction takes the power up as far as it reaches. -/
def raise? (d : Decimal) (k : Nat) : Option Decimal :=
  if k ≤ d.scale then ofParts? d.negative d.mantissa (d.scale - k)
  else if 28 < k then none
  else ofParts? d.negative (d.mantissa * tenTo (k - d.scale)) 0

/-- An amount over `10^k`. Digits past the 28th are rounded half up, and the sign stays. -/
def lower? (d : Decimal) (k : Nat) : Option Decimal :=
  if 28 < k then none
  else if d.scale + k ≤ 28 then ofParts? d.negative d.mantissa (d.scale + k)
  else
    let p := tenTo (d.scale + k - 28)
    ofParts? d.negative ((d.mantissa + p / 2) / p) 28

/-- Exponents are below this, 2^32. -/
def exponentBound : Nat := 4294967296

/-- The part of a numeral behind its exponent mark, applied to the part before it. -/
def scaleBy? (d : Decimal) : List Char → Option Decimal
  | '-' :: cs => natBelow? exponentBound cs >>= d.lower?
  | cs => natBelow? exponentBound cs >>= d.raise?

def isExponentMark (c : Char) : Bool :=
  c = 'e' || c = 'E'

/-- Reads either form. -/
def ofNumeral? (cs : List Char) : Option Decimal := do
  let d ← ofPlain? (cs.takeWhile (fun c => !isExponentMark c))
  match cs.dropWhile (fun c => !isExponentMark c) with
  | [] => some d
  | _ :: exponent => d.scaleBy? exponent

def ofText? (text : String) : Option Decimal :=
  ofNumeral? text.toList

end Invoicing.Decimal
