import Invoicing.Document.Calculation
import Invoicing.Proofs.Success

/-!
# Which documents are calculated

A document is calculated if its number of lines is allowed and if every line is
valid. The lines of the result are those of the request, each priced in its
place, and its totals are the totals of those lines.
-/
namespace Invoicing

theorem Limits.validate_eq_ok {limits : Limits} : limits.validate = .ok () ↔
    limits.requestsPerMinute ≠ 0 ∧ (limits.formulaFields ≠ 0 ∧ limits.lineItems ≠ 0) ∧
      limits.lineItems ≤ lineItemsCeiling := by
  rw [Limits.validate, ite_error_eq_ok, ite_error_eq_ok, ite_error_eq_ok, not_or, Nat.not_lt]
  exact and_congr_right' (and_congr_right' (and_iff_left rfl))

namespace Document

variable {limits : Limits} {request : Request} {c : Calculation}

/-- A requested line is valid, and this is what it is priced as. -/
def Prices (includeTax : Bool) (r : Line.Request) (line : Line) : Prop :=
  ∃ item, r.validate = .ok item ∧ item.price includeTax = .ok line

theorem inRange_eq_ok {α : Type} {x : Except Decimal.Overflow α} {a : α} :
    inRange x = .ok a ↔ x = .ok a :=
  mapError_eq_ok

theorem checkLineCount_eq_ok {count : Nat} :
    checkLineCount limits count = .ok () ↔ count ≤ limits.lineItems := by
  rw [checkLineCount, ite_error_eq_ok, Nat.not_lt]
  exact and_iff_left rfl

theorem validateLines_eq_ok {number : Nat} {rs : List Line.Request} {items : List Line.Input} :
    validateLines number rs = .ok items ↔
      List.Forall₂ (fun r item => r.validate = .ok item) rs items := by
  induction rs generalizing number items with
  | nil =>
    rw [validateLines, List.forall₂_nil_left_iff, Except.ok.injEq, eq_comm]
  | cons r rs ih =>
    simp only [validateLines, bind_eq_ok, mapError_eq_ok, List.forall₂_cons_left_iff, ih]
    constructor
    · intro ⟨item, hitem, rest, hrest, h⟩
      cases h
      exact ⟨item, rest, hitem, hrest, rfl⟩
    · intro ⟨item, rest, hitem, hrest, h⟩
      exact ⟨item, hitem, rest, hrest, h ▸ rfl⟩

theorem prices_of_items {includeTax : Bool} {rs : List Line.Request} {items : List Line.Input}
    {lines : List Line} (hitems : List.Forall₂ (fun r item => r.validate = .ok item) rs items)
    (hlines : List.Forall₂ (fun item line => item.price includeTax = .ok line) items lines) :
    List.Forall₂ (Prices includeTax) rs lines := by
  induction hitems generalizing lines with
  | nil =>
    cases hlines
    exact .nil
  | cons hitem _ ih =>
    cases hlines with
    | cons hline hlines => exact .cons ⟨_, hitem, hline⟩ (ih hlines)

/-- What holds of the lines and the totals of a calculated document. -/
structure Calculated (limits : Limits) (request : Request) (c : Calculation) : Prop where
  count : request.lines.length ≤ limits.lineItems
  lines : List.Forall₂ (Prices request.includeTax) request.lines c.lines
  totals : aggregate c.lines request.shouldRoundOff request.includeTax = .ok c.totals

theorem calculated_of_calculate (h : calculate limits request = .ok c) :
    Calculated limits request c := by
  unfold calculate at h
  by_cases hempty : request.lines.isEmpty
  · rw [if_pos hempty] at h
    cases h
  rw [if_neg hempty] at h
  simp only [bind_eq_ok] at h
  obtain ⟨_, hcount, items, hitems, lines, hlines, totals, htotals, h⟩ := h
  have hprices := prices_of_items (validateLines_eq_ok.mp hitems)
    (mapM_eq_ok.mp (inRange_eq_ok.mp hlines))
  have hsame : c.lines = lines ∧ c.totals = totals := by
    cases hcustom : request.customFields with
    | none =>
      rw [hcustom] at h
      cases h
      exact ⟨rfl, rfl⟩
    | some custom =>
      rw [hcustom] at h
      obtain ⟨resolution, -, h⟩ := bind_eq_ok.mp h
      cases h
      exact ⟨rfl, rfl⟩
  obtain ⟨rfl, rfl⟩ := hsame
  exact ⟨checkLineCount_eq_ok.mp hcount, hprices, inRange_eq_ok.mp htotals⟩

end Document

end Invoicing
