import Invoicing.Money
import Invoicing.Proofs.Decimal.Normal
import Invoicing.Proofs.Formula.Numeral

/-!
# Computed values as texts

A computed value is stored as a text, and the next formula reads it from there.
Nothing is lost on the way: the text comes to the amount that was written, to
the cent, and is written in the same way again. An amount has one text only, a
numeral that nothing can be left out of.
-/
namespace Invoicing.Money

open Decimal Formula

variable {d x y : Decimal}

/-- The amount that a text of a computed value stands for. -/
def written (x : Decimal) : Decimal :=
  (round2 x).normalize

theorem formatted_eq (x : Decimal) : formatted x = (written x).toText := rfl

theorem normal_written (x : Decimal) : Normal (written x) :=
  normal_normalize (round2 x)

theorem scale_written_le (x : Decimal) : (written x).scale ≤ 2 :=
  (scale_normalize_le (round2 x)).trans (scale_round_le x 2)

@[simp] theorem toRat_written (x : Decimal) : (written x).toRat = (round2 x).toRat :=
  toRat_normalize (round2 x)

/-- Writing a value that was written and read changes nothing. -/
@[simp] theorem written_written (x : Decimal) : written (written x) = written x := by
  have hround : round2 (written x) = written x := round_of_scale_le (scale_written_le x)
  rw [written, hround]
  exact (normal_written x).normalize_eq

theorem written_eq_iff : written x = written y ↔ (round2 x).toRat = (round2 y).toRat :=
  normalize_eq_iff

/-- Only a zero with a sign is written as `-0`, and that is not in shortest form. -/
theorem toText_ne_minusZero (h : Normal d) : d.toText ≠ "-0" := by
  intro htext
  have hzero : (⟨true, 0, 0, by decide, by decide⟩ : Decimal).toText = "-0" := by decide +kernel
  have hd := toText_injective (htext.trans hzero.symm)
  have hplain := h.zero (by rw [hd])
  rw [hd] at hplain
  cases hplain

/-- The text of a computed value comes to the amount in whole cents, by itself and in parentheses,
and that is written as the same text again. It is a shortest numeral with at most two places, and
two values have the same text just if their whole cents are the same. -/
theorem formatted_canonical (x : Decimal) :
    (∃ v, evaluateExpression (formatted x) = .ok v ∧
      evaluateExpression ("(" ++ formatted x ++ ")") = .ok v ∧
      v.toRat = (round2 x).toRat ∧ formatted v = formatted x) ∧
    (∃ negative whole fraction, (formatted x).toList = numeral negative whole fraction ∧
      Shortest negative whole fraction ∧ fraction.length ≤ 2) ∧
    formatted x ≠ "-0" ∧
    ∀ y, formatted x = formatted y ↔ (round2 x).toRat = (round2 y).toRat := by
  simp only [formatted_eq]
  refine ⟨⟨written x, ?_, ?_, ?_, ?_⟩, ⟨_, _, _, ?_, (normal_written x).shortest, ?_⟩, ?_, ?_⟩
  · exact evaluateExpression_toText (written x)
  · exact evaluateExpression_parenthesized_toText (written x)
  · exact toRat_written x
  · rw [written_written]
  · rw [toText, String.toList_ofList, digits_eq_numeral]
  · rw [length_lastDigits]
    exact scale_written_le x
  · exact toText_ne_minusZero (normal_written x)
  · intro y
    rw [toText_injective.eq_iff, written_eq_iff]

end Invoicing.Money
