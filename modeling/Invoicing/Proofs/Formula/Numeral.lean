import Invoicing.Proofs.Decimal.Text
import Invoicing.Proofs.Formula.Machine

/-!
# Amounts as formulas

The text of an amount is a formula that comes to this very amount, with its
places and its sign. The sign is not read as part of the number but applied to
it, so even a negative zero is kept. In parentheses, which is how a value is put
into another formula, it comes to the same.
-/
namespace Invoicing.Formula

variable {c : Char} {d : Decimal} {s : State} {pending : List Frame}

/-- The tokens that the text of an amount is taken apart into. -/
def amountTokens (d : Decimal) : List Token :=
  if d.negative then [.additive .minus, .number d.abs] else [.number d]

theorem isNumberChar_of_mem_unsignedDigits (h : c ∈ d.unsignedDigits) : isNumberChar c := by
  rw [Decimal.unsignedDigits, List.mem_append] at h
  rcases h with h | h
  · rw [isNumberChar, Decimal.isDigit_of_mem_toDigits h, Bool.true_or]
  · split at h
    · cases h
    · rcases List.mem_cons.mp h with rfl | h
      · rfl
      · rw [isNumberChar, Decimal.isDigit_of_mem_lastDigits h, Bool.true_or]

theorem scans_unsignedDigits (d : Decimal) : Scans d.unsignedDigits [.number d.abs] := by
  have hall : ∀ c ∈ d.unsignedDigits, isNumberChar c := fun _ => isNumberChar_of_mem_unsignedDigits
  have hvalue := Decimal.ofPlain?_unsignedDigits d
  cases hdigits : d.unsignedDigits with
  | nil => exact absurd hdigits d.unsignedDigits_ne_nil
  | cons c run =>
    rw [hdigits] at hall hvalue
    have hscans : Scans (c :: run ++ []) [.number d.abs] := .number hall (by simp) hvalue .nil
    rwa [List.append_nil] at hscans

theorem scans_toText (d : Decimal) : Scans d.toText.toList (amountTokens d) := by
  rw [Decimal.toText, String.toList_ofList, Decimal.digits_eq, amountTokens]
  cases hsign : d.negative with
  | true => exact .symbol rfl (scans_unsignedDigits d)
  | false =>
    have hscans := scans_unsignedDigits d
    rwa [Decimal.abs_of_not_negative hsign] at hscans

/-- An amount stands where one operand may, if there is room for its sign. -/
theorem steps_amountTokens (hd : depth pending < maxNesting) (hs : supply d pending = .ok s) :
    Steps (.operand pending) (amountTokens d) s := by
  rw [amountTokens]
  cases hsign : d.negative with
  | true =>
    have hsupply : supply d.abs (.sign .minus :: pending) = .ok s := by
      rw [← hs, supply, Additive.sign, Decimal.neg_abs_of_negative hsign]
    exact .cons (.sign hd) (Step.number hsupply).steps
  | false => exact (Step.number hs).steps

/-- The text of an amount comes to this amount. -/
theorem evaluateExpression_toText (d : Decimal) : evaluateExpression d.toText = .ok d := by
  refine evaluateExpression_eq_ok.mpr ⟨_, scans_toText d, .operator d [], ?_, rfl⟩
  exact steps_amountTokens (by decide) rfl

/-- And so it does in parentheses. -/
theorem evaluateExpression_parenthesized_toText (d : Decimal) :
    evaluateExpression ("(" ++ d.toText ++ ")") = .ok d := by
  have hchars : ("(" ++ d.toText ++ ")").toList = '(' :: (d.toText.toList ++ [')']) := by
    rw [String.toList_append, String.toList_append]
    rfl
  have hopen : Token.ofSymbol? '(' = some .leftParen := rfl
  have hclose : Token.ofSymbol? ')' = some .rightParen := rfl
  have hscans := Scans.symbol hopen ((scans_toText d).append_symbol hclose .nil)
  have hinside : Steps (.operand [.group]) (amountTokens d) (.operator d [.group]) :=
    steps_amountTokens (by decide) rfl
  have hsteps := Steps.cons (.group (by decide)) (hinside.append (Step.close rfl rfl).steps)
  refine evaluateExpression_eq_ok.mpr ⟨_, ?_, .operator d [], hsteps, rfl⟩
  rw [hchars]
  exact hscans

/-- Different amounts have different texts. -/
theorem toText_injective : Function.Injective Decimal.toText := by
  intro a b h
  have hb := evaluateExpression_toText b
  rw [← h, evaluateExpression_toText a] at hb
  exact Except.ok.inj hb

end Invoicing.Formula
