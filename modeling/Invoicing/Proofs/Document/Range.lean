import Invoicing.Proofs.Document.Acceptance
import Invoicing.Proofs.Document.Totals

/-!
# Totals stay within range

The amounts of a line may have either sign and any scale, but each is no larger
than a line may hold. A sum over as many lines as any configuration allows is
then no larger than as many times that, whatever is rounded on the way, and the
sums can be added to each other and brought to a whole amount.
-/
namespace Invoicing

namespace Line

/-- Amounts that pass their check are no larger than a line may hold. -/
theorem within_of_excess?_eq_none {amounts : Amounts} (h : amounts.excess? = none) :
    ∀ e ∈ amounts.named, Decimal.Within lineBound lineBound e.2 := by
  intro e he
  rw [Amounts.excess?, Option.map_eq_none_iff, List.find?_eq_none] at h
  have hle : e.2.abs ≤ maxLineAmount := by
    by_contra hlarge
    exact h e he (decide_eq_true (Decimal.not_le.mp hlarge))
  have hzero : Decimal.zero ≤ e.2.abs := by
    rw [Decimal.le_def, Decimal.coefficient_abs]
    simp [Decimal.zero, Decimal.whole, Decimal.coefficient]
  exact Decimal.Within.abs_iff.mp (Decimal.within_zero_iff.mpr ⟨hzero, hle⟩)

end Line

namespace Document

open Decimal (Within capacity)
open Line (lineBound totalOf)

variable {limits : Limits} {lines : List Line} {a b : Decimal} {m n : Nat}

/-- Every amount of a line is no larger than a line may hold. -/
def Bounded (line : Line) : Prop :=
  ∀ e ∈ line.amounts.named, Within lineBound lineBound e.2

theorem sumOf_within (amount : Line.Amounts → Decimal) (hcount : lines.length ≤ lineItemsCeiling)
    (hlines : ∀ line ∈ lines, Within lineBound lineBound (amount line.amounts)) :
    ∃ d, sumOf lines amount = .ok d ∧ Within sumBound sumBound d := by
  have hds : ∀ a ∈ lines.map fun line => amount line.amounts, Within lineBound lineBound a :=
    List.forall_mem_map.mpr hlines
  have hbound : 0 + (lines.map fun line => amount line.amounts).length * lineBound ≤ sumBound := by
    rw [List.length_map, Nat.zero_add]
    exact Nat.mul_le_mul_right lineBound hcount
  have hcap : sumBound < capacity := by decide
  have hzero : Within 0 0 Decimal.zero := .zero
  obtain ⟨total, htotal, ht⟩ := Decimal.addAll_within hzero hds (by omega) (by omega)
  exact ⟨Money.round2 total, map_eq_ok.mpr ⟨total, htotal, rfl⟩,
    Decimal.round_within 2 (ht.mono hbound hbound)⟩

theorem combined_within (ha : Within m m a) (hb : Within n n b) (hfit : m + n < capacity) :
    ∃ d, combined a b = .ok d ∧ Within (m + n) (m + n) d := by
  obtain ⟨total, htotal, ht⟩ := Decimal.add_within ha hb hfit hfit
  exact ⟨Money.round2 total, map_eq_ok.mpr ⟨total, htotal, rfl⟩, Decimal.round_within 2 ht⟩

theorem settled_of_within {exact : Decimal} (h : Within n n exact) (hfit : n + n < capacity)
    (shouldRoundOff : Bool) : ∃ final, settled shouldRoundOff exact = .ok final := by
  cases shouldRoundOff with
  | true =>
    obtain ⟨correction, hcorrection, -⟩ :=
      Decimal.sub_within (Decimal.round_within 0 h) h hfit hfit
    exact ⟨_, bind_eq_ok.mpr ⟨correction, hcorrection, rfl⟩⟩
  | false => exact ⟨_, rfl⟩

/-- Lines whose amounts are bounded, no more of them than any configuration allows, have totals. -/
theorem aggregated_of_bounded (hcount : lines.length ≤ lineItemsCeiling)
    (hlines : ∀ line ∈ lines, Bounded line) (shouldRoundOff includeTax : Bool) :
    ∃ t, Aggregated lines shouldRoundOff includeTax t := by
  simp only [Bounded, Line.Amounts.named, List.forall_mem_cons, forall_and] at hlines
  obtain ⟨-, hsub, hdiscount, hcentral, hstate, hintegrated, hadValorem, hspecific,
    hstateAdValorem, hstateSpecific, -⟩ := hlines
  obtain ⟨subTotal, h₁, hsub⟩ := sumOf_within (·.subTotal) hcount hsub
  obtain ⟨discount, h₂, -⟩ := sumOf_within (·.discount) hcount hdiscount
  obtain ⟨central, h₃, hcentral⟩ := sumOf_within (·.gst.central) hcount hcentral
  obtain ⟨state, h₄, hstate⟩ := sumOf_within (·.gst.state) hcount hstate
  obtain ⟨integrated, h₅, hintegrated⟩ := sumOf_within (·.gst.integrated) hcount hintegrated
  obtain ⟨adValorem, h₆, hadValorem⟩ := sumOf_within (·.cess.adValorem) hcount hadValorem
  obtain ⟨specific, h₇, hspecific⟩ := sumOf_within (·.cess.specific) hcount hspecific
  obtain ⟨stateAdValorem, h₈, hstateAdValorem⟩ :=
    sumOf_within (·.cess.stateAdValorem) hcount hstateAdValorem
  obtain ⟨stateSpecific, h₉, hstateSpecific⟩ :=
    sumOf_within (·.cess.stateSpecific) hcount hstateSpecific
  obtain ⟨cess, hcess, hcw⟩ := combined_within hadValorem hspecific (by decide)
  obtain ⟨stateCess, hstateCess, hsw⟩ := combined_within hstateAdValorem hstateSpecific (by decide)
  have hcharges : ∀ d ∈ [central, state, integrated, cess, stateCess],
      Within (sumBound + sumBound) (sumBound + sumBound) d := by
    have hle : sumBound ≤ sumBound + sumBound := Nat.le_add_right _ _
    simp only [List.forall_mem_cons]
    exact ⟨hcentral.mono hle hle, hstate.mono hle hle, hintegrated.mono hle hle, hcw, hsw,
      List.forall_mem_nil _⟩
  -- Eleven sums make the total, and the correction is within twice as many.
  have hlength : [central, state, integrated, cess, stateCess].length = 5 := rfl
  have hcap : sumBound + 5 * (sumBound + sumBound) +
      (sumBound + 5 * (sumBound + sumBound)) < capacity := by decide
  rw [← hlength] at hcap
  obtain ⟨exact, hexact, hew⟩ :=
    Line.totalOf_within_length hsub hcharges (Nat.lt_of_le_of_lt (Nat.le_add_right _ _) hcap)
      includeTax
  obtain ⟨⟨roundOff, total⟩, hfinal⟩ := settled_of_within hew hcap shouldRoundOff
  exact ⟨⟨subTotal, discount, ⟨central, state, integrated⟩, cess, stateCess, roundOff, total⟩,
    h₁, h₂, h₃, h₄, h₅, ⟨adValorem, specific, h₆, h₇, hcess⟩,
    ⟨stateAdValorem, stateSpecific, h₈, h₉, hstateCess⟩, ⟨exact, hexact, hfinal⟩⟩

/-- Under accepted limits, lines that pass the check of their amounts are added up without
overflow, with or without tax and rounding off. -/
theorem aggregate_of_validate (hlimits : limits.validate = .ok ())
    (hcount : lines.length ≤ limits.lineItems)
    (hlines : ∀ line ∈ lines, line.amounts.excess? = none) (shouldRoundOff includeTax : Bool) :
    ∃ t, aggregate lines shouldRoundOff includeTax = .ok t := by
  obtain ⟨-, -, hceiling⟩ := Limits.validate_eq_ok.mp hlimits
  obtain ⟨t, ht⟩ := aggregated_of_bounded (Nat.le_trans hcount hceiling)
    (fun line hline => Line.within_of_excess?_eq_none (hlines line hline)) shouldRoundOff includeTax
  exact ⟨t, aggregate_eq_ok.mpr ht⟩

/-- A negative amount with all the fraction digits that there can be. -/
def fineAmount : Decimal :=
  ⟨true, 12345678901234567890123456789, 28, by decide, Nat.le_refl 28⟩

/-- Amounts at the limit, with this one for the others. -/
def extremeLine (d : Decimal) : Line where
  rate := .zero
  quantity := .zero
  discount := {}
  gstRate := none
  isInterState := false
  cess := .none
  amounts := ⟨Line.maxLineAmount, d, Line.maxLineAmount,
    ⟨d, Line.maxLineAmount, -Line.maxLineAmount⟩,
    ⟨-Line.maxLineAmount, d, Line.maxLineAmount, Line.maxLineAmount⟩, d⟩

theorem aggregate_extremeLines :
    let lines := [extremeLine Line.maxLineAmount, extremeLine fineAmount,
      extremeLine (-Line.maxLineAmount)]
    (∀ line ∈ lines, line.amounts.excess? = none) ∧ ∃ t, aggregate lines true true = .ok t := by
  intro lines
  have hlimits : Limits.validate {} = .ok () := rfl
  have hlines : ∀ line ∈ lines, line.amounts.excess? = none := by decide +kernel
  exact ⟨hlines, aggregate_of_validate hlimits (by decide) hlines true true⟩

end Document

end Invoicing
