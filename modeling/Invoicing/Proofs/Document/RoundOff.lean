import Invoicing.Proofs.Document.Parts

/-!
# Rounding off

The sums over lines are in whole cents whatever digits the amounts had, and small
enough for all that follows to be exact. So the whole total is the one nearest
to the exact total, the correction is just what they differ by, and nothing else
depends on whether there is one.
-/
namespace Invoicing.Document

open Decimal (InCents Within halfAway)
open Line (lineBound)

variable {lines : List Line} {shouldRoundOff includeTax : Bool} {t : Totals} {d : Decimal}

/-- A sum over lines is brought to cents, so it is in whole cents also where its amounts are not. -/
theorem sumOf_inCents {amount : Line.Amounts → Decimal} (hcount : lines.length ≤ lineItemsCeiling)
    (hlines : ∀ line ∈ lines, Within lineBound lineBound (amount line.amounts))
    (h : sumOf lines amount = .ok d) : InCents sumBound d := by
  have hwithin := of_exists_ok (sumOf_within amount hcount hlines) h
  obtain ⟨total, -, rfl⟩ := map_eq_ok.mp h
  exact ⟨Decimal.scale_round_le total 2, hwithin⟩

/-- Two sums put together. -/
theorem combined_inCents {first second : Line.Amounts → Decimal}
    (hcount : lines.length ≤ lineItemsCeiling)
    (hfirst : ∀ line ∈ lines, Within lineBound lineBound (first line.amounts))
    (hsecond : ∀ line ∈ lines, Within lineBound lineBound (second line.amounts))
    (h : ∃ x y, sumOf lines first = .ok x ∧ sumOf lines second = .ok y ∧ combined x y = .ok d) :
    InCents (sumBound + sumBound) d := by
  obtain ⟨x, y, hx, hy, hd⟩ := h
  exact (combined_exact (sumOf_inCents hcount hfirst hx) (sumOf_inCents hcount hsecond hy)
    (by decide) hd).1

/-- All that the total is taken of is in whole cents. -/
theorem Aggregated.inCents (hcount : lines.length ≤ lineItemsCeiling)
    (hlines : ∀ line ∈ lines, Bounded line) (h : Aggregated lines shouldRoundOff includeTax t) :
    InCents sumBound t.subTotal ∧
      ∀ d ∈ t.gst.toList ++ [t.cess, t.stateCess], InCents (sumBound + sumBound) d := by
  simp only [Bounded, Line.Amounts.named, List.forall_mem_cons, forall_and] at hlines
  obtain ⟨-, hsub, -, hcentral, hstate, hintegrated, hadValorem, hspecific, hstateAdValorem,
    hstateSpecific, -⟩ := hlines
  have hle : sumBound ≤ sumBound + sumBound := Nat.le_add_right _ _
  simp only [Line.Gst.toList, List.cons_append, List.nil_append, List.forall_mem_cons]
  exact ⟨sumOf_inCents hcount hsub h.subTotal,
    (sumOf_inCents hcount hcentral h.central).mono hle,
    (sumOf_inCents hcount hstate h.state).mono hle,
    (sumOf_inCents hcount hintegrated h.integrated).mono hle,
    combined_inCents hcount hadValorem hspecific h.cess,
    combined_inCents hcount hstateAdValorem hstateSpecific h.stateCess, List.forall_mem_nil _⟩

/-- How totals that were rounded off differ from those that were not. -/
structure RoundsOff (exact rounded : Totals) : Prop where
  whole : rounded.total.scale = 0
  nearest : rounded.total.toRat = halfAway 0 exact.total.toRat
  difference : rounded.roundOff.toRat = rounded.total.toRat - exact.total.toRat
  small : |rounded.roundOff.toRat| ≤ 1 / 2
  unrounded : exact.roundOff = .zero
  same : rounded = { exact with roundOff := rounded.roundOff, total := rounded.total }

/-- The same totals, but rounded off. -/
theorem Aggregated.rounded (hcount : lines.length ≤ lineItemsCeiling)
    (hlines : ∀ line ∈ lines, Bounded line) (h : Aggregated lines false includeTax t) :
    ∃ rounded, Aggregated lines true includeTax rounded ∧ RoundsOff t rounded := by
  obtain ⟨hsub, hcharges⟩ := h.inCents hcount hlines
  obtain ⟨exact, hexact, hfinal, hcents, -⟩ := h.exact_total hsub hcharges
  obtain ⟨hzero, htotal⟩ : .zero = t.roundOff ∧ exact = t.total :=
    Prod.mk.inj (Except.ok.inj hfinal)
  obtain ⟨⟨roundOff, total⟩, hround⟩ := settled_of_within hcents.within (by decide) true
  have hnearest : total.toRat = halfAway 0 exact.toRat := toRat_of_settled hround
  have hdifference : roundOff.toRat = total.toRat - exact.toRat := by
    linarith [settled_exact hcents (by decide) hround]
  refine ⟨{ t with roundOff, total }, ⟨h.subTotal, h.discount, h.central, h.state, h.integrated,
    h.cess, h.stateCess, exact, hexact, hround⟩, ?_, ?_, ?_, ?_, hzero.symm, rfl⟩
  · obtain ⟨difference, -, heq⟩ := bind_eq_ok.mp hround
    cases heq
    exact Nat.le_zero.mp (Decimal.scale_round_le exact 0)
  · rw [← htotal]
    exact hnearest
  · rw [← htotal]
    exact hdifference
  · have hhalf := Decimal.abs_halfAway_sub_le 0 exact.toRat
    change |roundOff.toRat| ≤ 1 / 2
    rw [hdifference, hnearest]
    simpa using hhalf

/-- Of lines that pass the check of their amounts, no more than any configuration allows, the totals
with and without rounding off are the same except for the total and the correction: the total
becomes the nearest whole amount, a half away from zero, and the correction is the exact difference,
half a unit at most. -/
theorem aggregate_rounded_off (hcount : lines.length ≤ lineItemsCeiling)
    (hlines : ∀ line ∈ lines, line.amounts.excess? = none) (includeTax : Bool) :
    ∃ exact rounded, aggregate lines false includeTax = .ok exact ∧
      aggregate lines true includeTax = .ok rounded ∧ RoundsOff exact rounded := by
  have hbounded : ∀ line ∈ lines, Bounded line := fun line hline =>
    Line.within_of_excess?_eq_none (hlines line hline)
  obtain ⟨exact, hexact⟩ := aggregated_of_bounded hcount hbounded false includeTax
  obtain ⟨rounded, hrounded, hdiffers⟩ := hexact.rounded hcount hbounded
  exact ⟨exact, rounded, aggregate_eq_ok.mpr hexact, aggregate_eq_ok.mpr hrounded, hdiffers⟩

/-- A line with this to be paid and nothing charged on it. -/
def plainLine (d : Decimal) : Line where
  rate := .zero
  quantity := .zero
  discount := {}
  gstRate := none
  isInterState := false
  cess := .none
  amounts := ⟨.zero, d, .zero, ⟨.zero, .zero, .zero⟩, ⟨.zero, .zero, .zero, .zero⟩, d⟩

/-- A negative total half-way between two whole amounts goes to the one further from zero. -/
theorem aggregate_negativeLines_rounded_off :
    let lines := [plainLine (-Line.maxLineAmount),
      plainLine ⟨true, 4999, 4, by decide, Nat.le_add_right 4 24⟩]
    (∀ line ∈ lines, line.amounts.excess? = none) ∧
      ∃ exact rounded, aggregate lines false true = .ok exact ∧
        aggregate lines true true = .ok rounded ∧ RoundsOff exact rounded ∧
        exact.total.toRat = -10000000000000000000 - 1 / 2 ∧
        rounded.total.toRat = -10000000000000000001 := by
  intro lines
  have hlines : ∀ line ∈ lines, line.amounts.excess? = none := by decide +kernel
  have hworth : (aggregate lines false true).map (fun t => t.total.toRat) =
      .ok (-10000000000000000000 - 1 / 2) := by decide +kernel
  have hworth' : (aggregate lines true true).map (fun t => t.total.toRat) =
      .ok (-10000000000000000001) := by decide +kernel
  obtain ⟨exact, rounded, hexact, hrounded, hdiffers⟩ :=
    aggregate_rounded_off (by decide) hlines true
  rw [hexact] at hworth
  rw [hrounded] at hworth'
  exact ⟨hlines, exact, rounded, hexact, hrounded, hdiffers, Except.ok.inj hworth,
    Except.ok.inj hworth'⟩

end Invoicing.Document
