import Invoicing.Proofs.Line.ByHand

/-!
# The accounts of a line

What is left of the base amount and the discount make it up again, and the total
is what is left and all that is charged on it. The amounts are whole cents and
small enough, so no sum or difference of them is rounded, however many digits the
numbers of the request have. Whether tax is included makes a difference to the
total alone.
-/
namespace Invoicing.Line

variable {item : Input} {includeTax : Bool} {amounts : Amounts}

/-- How the amounts of a line account for one another. -/
structure Balanced (item : Input) (amounts : Amounts) : Prop where
  base : amounts.subTotal.toRat + amounts.discount.toRat = amounts.base.toRat
  tax : ∃ tax, amounts.tax = .ok tax ∧ tax.toRat = (amounts.charges.map Decimal.toRat).sum
  across : item.isInterState = true → amounts.gst.central = .zero ∧ amounts.gst.state = .zero
  within : item.isInterState = false →
    amounts.gst.integrated = .zero ∧ amounts.gst.central = amounts.gst.state
  cents : ∀ e ∈ amounts.named, e.2.scale ≤ 2

/-- The sum of all charges is worth what they are worth one by one. -/
theorem Amounts.InCents.tax (h : amounts.InCents) :
    ∃ tax, amounts.tax = .ok tax ∧ tax.toRat = (amounts.charges.map Decimal.toRat).sum := by
  obtain ⟨hcentral, hothers⟩ := List.forall_mem_cons.mp h.charges
  have hfit : (lineBound + 6 * lineBound) * 100 < Decimal.capacity := by decide
  obtain ⟨tax, htax, -, hvalue⟩ := hcentral.addAll hothers hfit
  rw [← List.sum_cons, ← List.map_cons] at hvalue
  exact ⟨tax, htax, hvalue⟩

theorem Input.Priced.balanced (hitem : item.Acceptable) (h : item.Priced includeTax amounts) :
    Balanced item amounts := by
  have hworked := h.workedOut hitem
  refine ⟨?_, (h.inCents hitem).tax, ?_, ?_, h.scale_le⟩
  · rw [hworked.subTotal, sub_add_cancel]
  · intro hstate
    obtain ⟨hcentral, hzero, -⟩ := hworked.whole hstate
    exact ⟨hcentral, hzero⟩
  · intro hstate
    obtain ⟨hequal, hzero, -⟩ := hworked.halves hstate
    exact ⟨hzero, hequal.symm⟩

/-- Without tax a line has the same amounts, and its total is the taxable amount. -/
theorem Input.Priced.untaxed (h : item.Priced includeTax amounts) :
    item.Priced false { amounts with total := amounts.subTotal } where
  base := h.base
  discount := h.discount
  subTotal := h.subTotal
  gst := h.gst
  cess := h.cess
  total := rfl

/-- The amounts of every accepted request balance, whether or not tax is included. If it is, the
total is exactly the taxable amount and the seven charges on it, else it is that amount, and nothing
else is different. -/
theorem price_balanced {r : Request} (h : r.validate = .ok item) :
    ∃ taxed untaxed, item.price true = .ok taxed ∧ item.price false = .ok untaxed ∧
      Balanced item taxed.amounts ∧ Balanced item untaxed.amounts ∧
      taxed.amounts.total.toRat =
        taxed.amounts.subTotal.toRat + (taxed.amounts.charges.map Decimal.toRat).sum ∧
      untaxed.amounts.total = untaxed.amounts.subTotal ∧
      taxed = { untaxed with
        amounts := { untaxed.amounts with total := taxed.amounts.total } } := by
  obtain ⟨_, -, -, hitem⟩ := validate_eq_ok.mp h
  obtain ⟨amounts, hamounts, -⟩ := amounts_within hitem true
  have htaxed := amounts_eq_ok.mp hamounts
  have huntaxed := htaxed.untaxed
  refine ⟨_, _, bind_eq_ok.mpr ⟨amounts, hamounts, rfl⟩,
    bind_eq_ok.mpr ⟨_, amounts_eq_ok.mpr huntaxed, rfl⟩, htaxed.balanced hitem,
    huntaxed.balanced hitem, ?_, rfl, rfl⟩
  have htotal := htaxed.toRat_total hitem
  rwa [if_pos rfl] at htotal

theorem price_discountedRequest_balanced :
    ∃ item taxed, discountedRequest.validate = .ok item ∧ item.price true = .ok taxed ∧
      Balanced item taxed.amounts ∧ taxed.amounts.total.toRat =
        taxed.amounts.subTotal.toRat + (taxed.amounts.charges.map Decimal.toRat).sum := by
  have hvalid : discountedRequest.validate = .ok (discountedRequest.item discountedRate) := rfl
  obtain ⟨taxed, _, htaxed, -, hbalanced, -, htotal, -⟩ := price_balanced hvalid
  exact ⟨_, taxed, hvalid, htaxed, hbalanced, htotal⟩

end Invoicing.Line
