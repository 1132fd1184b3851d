import Invoicing.Proofs.Document.Acceptance
import Invoicing.Proofs.Document.Totals
import Mathlib.Tactic.Ring

/-!
# Totals agree with their lines

The total of a line is taken across its charges, the total of a document charge
by charge across its lines. Since nothing is rounded away on either side, both
orders come to the same amount.
-/
namespace Invoicing.Document

open Decimal (InCents capacity)
open Line (lineBound)

variable {limits : Limits} {request : Request} {c : Calculation} {lines : List Line}
  {shouldRoundOff includeTax : Bool} {t : Totals}

/-- Every total is exactly what its amount comes to over the lines. -/
structure Agrees (lines : List Line) (t : Totals) : Prop where
  subTotal : t.subTotal.toRat = worth lines (·.subTotal)
  discount : t.discount.toRat = worth lines (·.discount)
  central : t.gst.central.toRat = worth lines (·.gst.central)
  state : t.gst.state.toRat = worth lines (·.gst.state)
  integrated : t.gst.integrated.toRat = worth lines (·.gst.integrated)
  cess : t.cess.toRat = worth lines (·.cess.adValorem) + worth lines (·.cess.specific)
  stateCess : t.stateCess.toRat =
    worth lines (·.cess.stateAdValorem) + worth lines (·.cess.stateSpecific)
  total : t.total.toRat - t.roundOff.toRat = worth lines (·.total)

/-- Every sum is in whole cents and exactly what its amounts come to over the lines. -/
structure Summed (lines : List Line) (t : Totals) : Prop where
  subTotal : InCents sumBound t.subTotal ∧ t.subTotal.toRat = worth lines (·.subTotal)
  discount : InCents sumBound t.discount ∧ t.discount.toRat = worth lines (·.discount)
  central : InCents sumBound t.gst.central ∧ t.gst.central.toRat = worth lines (·.gst.central)
  state : InCents sumBound t.gst.state ∧ t.gst.state.toRat = worth lines (·.gst.state)
  integrated : InCents sumBound t.gst.integrated ∧
    t.gst.integrated.toRat = worth lines (·.gst.integrated)
  cess : InCents (sumBound + sumBound) t.cess ∧
    t.cess.toRat = worth lines (·.cess.adValorem) + worth lines (·.cess.specific)
  stateCess : InCents (sumBound + sumBound) t.stateCess ∧
    t.stateCess.toRat = worth lines (·.cess.stateAdValorem) + worth lines (·.cess.stateSpecific)

/-- The total comes of eleven sums. As much again, which the correction may take, leaves room. -/
def totalBound : Nat := sumBound + 5 * (sumBound + sumBound)

/-- A priced line: its amounts are whole cents, and its total is what they come to. -/
structure Sound (includeTax : Bool) (line : Line) : Prop where
  inCents : line.amounts.InCents
  total : line.amounts.total.toRat = line.amounts.subTotal.toRat +
    if includeTax then (line.amounts.charges.map Decimal.toRat).sum else 0

theorem Prices.sound {r : Line.Request} {line : Line} (h : Prices includeTax r line) :
    Sound includeTax line := by
  obtain ⟨item, hvalid, hprice⟩ := h
  obtain ⟨_, -, -, hitem⟩ := Line.validate_eq_ok.mp hvalid
  obtain ⟨amounts, hamounts, hline⟩ := bind_eq_ok.mp hprice
  cases hline
  have hpriced := Line.amounts_eq_ok.mp hamounts
  exact ⟨hpriced.inCents hitem, hpriced.toRat_total hitem⟩

theorem sound_of_prices {rs : List Line.Request} (h : List.Forall₂ (Prices includeTax) rs lines) :
    ∀ line ∈ lines, Sound includeTax line := by
  induction h with
  | nil => exact List.forall_mem_nil _
  | cons hline _ ih => exact List.forall_mem_cons.mpr ⟨hline.sound, ih⟩

/-- What is charged on all lines together, charge by charge. -/
theorem worth_charges (lines : List Line) :
    (lines.map fun line => (line.amounts.charges.map Decimal.toRat).sum).sum =
      worth lines (·.gst.central) + worth lines (·.gst.state) + worth lines (·.gst.integrated) +
        (worth lines (·.cess.adValorem) + worth lines (·.cess.specific)) +
        (worth lines (·.cess.stateAdValorem) + worth lines (·.cess.stateSpecific)) := by
  unfold worth
  simp only [← List.sum_map_add]
  congr 1
  apply List.map_congr_left
  intro line _
  simp only [Line.Amounts.charges, Line.Gst.toList, Cess.toList, List.cons_append,
    List.nil_append, List.map_cons, List.map_nil, List.sum_cons, List.sum_nil]
  ring

/-- The totals of the lines themselves come to the taxable amounts and the charges. -/
theorem worth_total (hlines : ∀ line ∈ lines, Sound includeTax line) :
    worth lines (·.total) = worth lines (·.subTotal) +
      if includeTax then (lines.map fun line => (line.amounts.charges.map Decimal.toRat).sum).sum
      else 0 := by
  unfold worth
  rw [List.map_congr_left fun line hline => (hlines line hline).total, List.sum_map_add]
  cases includeTax with
  | true => rfl
  | false => simp

/-- The correction is what the total that is told differs by from the exact one. -/
theorem settled_exact {exact roundOff total : Decimal} {n : Nat} (hexact : InCents n exact)
    (hfit : (n + n) * 100 < capacity) (h : settled shouldRoundOff exact = .ok (roundOff, total)) :
    total.toRat - roundOff.toRat = exact.toRat := by
  cases shouldRoundOff with
  | true => exact roundedOff_exact hexact hfit h
  | false =>
    cases h
    rw [Decimal.toRat_zero, sub_zero]

/-- Sums in whole cents are put together exactly, before their total is rounded off. -/
theorem Aggregated.exact_total (hsub : InCents sumBound t.subTotal)
    (hcharges : ∀ d ∈ t.gst.toList ++ [t.cess, t.stateCess], InCents (sumBound + sumBound) d)
    (h : Aggregated lines shouldRoundOff includeTax t) :
    ∃ exact, Line.totalOf t.subTotal (t.gst.toList ++ [t.cess, t.stateCess]) includeTax =
        .ok exact ∧
      settled shouldRoundOff exact = .ok (t.roundOff, t.total) ∧ InCents totalBound exact ∧
      exact.toRat = t.subTotal.toRat +
        if includeTax then ((t.gst.toList ++ [t.cess, t.stateCess]).map Decimal.toRat).sum
        else 0 := by
  have hlength : (t.gst.toList ++ [t.cess, t.stateCess]).length = 5 := rfl
  have hcap : (sumBound + 5 * (sumBound + sumBound)) * 100 < capacity := by decide
  have hbound : sumBound + 5 * (sumBound + sumBound) = totalBound := rfl
  rw [← hlength] at hcap hbound
  obtain ⟨exact, hexact, hfinal⟩ := h.total
  exact ⟨exact, hexact, hfinal, hbound ▸ Line.totalOf_exact hsub hcharges hcap hexact⟩

section

variable (hcount : lines.length ≤ lineItemsCeiling) (hlines : ∀ line ∈ lines, Sound includeTax line)
include hcount hlines

/-- A charge added up over sound lines. -/
theorem charge_exact {amount : Line.Amounts → Decimal} {d : Decimal}
    (hmem : ∀ a : Line.Amounts, amount a ∈ a.charges) (h : sumOf lines amount = .ok d) :
    InCents sumBound d ∧ d.toRat = worth lines amount := by
  refine sumOf_exact hcount ?_ h
  intro line hline
  exact (hlines line hline).inCents.charges _ (hmem line.amounts)

/-- Two charges added up over sound lines and put together. -/
theorem charges_exact {first second : Line.Amounts → Decimal} {d : Decimal}
    (hfirst : ∀ a : Line.Amounts, first a ∈ a.charges)
    (hsecond : ∀ a : Line.Amounts, second a ∈ a.charges)
    (h : ∃ x y, sumOf lines first = .ok x ∧ sumOf lines second = .ok y ∧ combined x y = .ok d) :
    InCents (sumBound + sumBound) d ∧ d.toRat = worth lines first + worth lines second := by
  obtain ⟨x, y, hx, hy, hd⟩ := h
  obtain ⟨hxc, hxw⟩ := charge_exact hcount hlines hfirst hx
  obtain ⟨hyc, hyw⟩ := charge_exact hcount hlines hsecond hy
  obtain ⟨hdc, hdw⟩ := combined_exact hxc hyc (by decide) hd
  exact ⟨hdc, by rw [hdw, hxw, hyw]⟩

/-- Every sum over sound lines is in whole cents and exact. -/
theorem Aggregated.summed (h : Aggregated lines shouldRoundOff includeTax t) : Summed lines t := by
  have hgst : ∀ a : Line.Amounts, ∀ d ∈ a.gst.toList, d ∈ a.charges :=
    fun a d hd => List.mem_append_left _ hd
  have hcess : ∀ a : Line.Amounts, ∀ d ∈ a.cess.toList, d ∈ a.charges :=
    fun a d hd => List.mem_append_right _ hd
  simp only [Line.Gst.toList, Cess.toList, List.forall_mem_cons, forall_and] at hgst hcess
  have hsub : ∀ line ∈ lines, InCents lineBound line.amounts.subTotal :=
    fun line hline => (hlines line hline).inCents.subTotal
  have hdiscount : ∀ line ∈ lines, InCents lineBound line.amounts.discount :=
    fun line hline => (hlines line hline).inCents.discount
  exact {
    subTotal := sumOf_exact hcount hsub h.subTotal
    discount := sumOf_exact hcount hdiscount h.discount
    central := charge_exact hcount hlines hgst.1 h.central
    state := charge_exact hcount hlines hgst.2.1 h.state
    integrated := charge_exact hcount hlines hgst.2.2.1 h.integrated
    cess := charges_exact hcount hlines hcess.1 hcess.2.1 h.cess
    stateCess := charges_exact hcount hlines hcess.2.2.1 hcess.2.2.2.1 h.stateCess }

/-- Before it is rounded off, the total is in whole cents and what the totals of the lines come
to. -/
theorem Aggregated.unsettled (h : Aggregated lines shouldRoundOff includeTax t) :
    ∃ exact, InCents totalBound exact ∧ exact.toRat = worth lines (·.total) ∧
      settled shouldRoundOff exact = .ok (t.roundOff, t.total) := by
  obtain ⟨⟨hsub, hsubTotal⟩, -, ⟨hc, hcentral⟩, ⟨hs, hstate⟩, ⟨hi, hintegrated⟩, ⟨hu, hunion⟩,
    ⟨hsc, hstateCess⟩⟩ := h.summed hcount hlines
  have hcharges : ∀ d ∈ t.gst.toList ++ [t.cess, t.stateCess], InCents (sumBound + sumBound) d := by
    simp only [Line.Gst.toList, List.cons_append, List.nil_append, List.forall_mem_cons]
    have hle : sumBound ≤ sumBound + sumBound := Nat.le_add_right _ _
    exact ⟨hc.mono hle, hs.mono hle, hi.mono hle, hu, hsc, List.forall_mem_nil _⟩
  obtain ⟨exact, -, hfinal, hcents, hvalue⟩ := h.exact_total hsub hcharges
  refine ⟨exact, hcents, ?_, hfinal⟩
  rw [hvalue, worth_total hlines, worth_charges, hsubTotal]
  simp only [Line.Gst.toList, List.cons_append, List.nil_append, List.map_cons, List.map_nil,
    List.sum_cons, List.sum_nil, hcentral, hstate, hintegrated, hunion, hstateCess]
  congr 2
  ring

/-- The totals of sound lines, no more of them than any configuration allows, agree with them. -/
theorem Aggregated.agrees (h : Aggregated lines shouldRoundOff includeTax t) : Agrees lines t := by
  have hsums := h.summed hcount hlines
  obtain ⟨exact, hcents, hvalue, hfinal⟩ := h.unsettled hcount hlines
  refine ⟨hsums.subTotal.2, hsums.discount.2, hsums.central.2, hsums.state.2, hsums.integrated.2,
    hsums.cess.2, hsums.stateCess.2, ?_⟩
  rw [settled_exact hcents (by decide) hfinal, hvalue]

end

/-- The totals of a calculated document agree exactly with the lines beside them. -/
theorem calculate_agrees (hlimits : limits.validate = .ok ())
    (h : calculate limits request = .ok c) : Agrees c.lines c.totals := by
  obtain ⟨-, -, hceiling⟩ := Limits.validate_eq_ok.mp hlimits
  have hc := calculated_of_calculate h
  have hcount : c.lines.length ≤ lineItemsCeiling := by
    rw [← hc.lines.length_eq]
    exact Nat.le_trans hc.count hceiling
  exact (aggregate_eq_ok.mp hc.totals).agrees hcount (sound_of_prices hc.lines)

/-- A discounted line within the state and one beyond it, to be rounded off. -/
def sampleRequest : Request where
  lines := [
    { rate := some Money.hundred
      quantity := some Line.two
      discount := ⟨some Line.one, some Line.two⟩
      gstRate := some Line.one
      isInterState := none
      cess := ⟨some Line.two, none, none, some Line.one⟩ },
    { rate := some Money.hundred
      quantity := none
      discount := {}
      gstRate := some Line.two
      isInterState := some true
      cess := .none }]
  shouldRoundOff := true

theorem calculate_sampleRequest_agrees :
    ∃ c, calculate {} sampleRequest = .ok c ∧ Agrees c.lines c.totals := by
  have hsome : (calculate {} sampleRequest).toOption.isSome := by decide +kernel
  cases h : calculate {} sampleRequest with
  | ok c => exact ⟨c, rfl, calculate_agrees rfl h⟩
  | error fault =>
    rw [h] at hsome
    cases hsome

end Invoicing.Document
