import Invoicing.Proofs.Decimal.Exact
import Invoicing.Proofs.Line.Range

/-!
# The amounts of a line are whole cents

Every amount of a line is rounded as soon as it is worked out, so all of them
are whole cents. The total of an accepted line therefore is exactly the taxable
amount and all that is charged on it.
-/
namespace Invoicing.Line

open Decimal (InCents)

variable {a d rate : Decimal} {item : Input} {includeTax : Bool} {amounts : Amounts}

/-- The amounts of a line, each worked out from those before it. -/
structure Input.Priced (item : Input) (includeTax : Bool) (amounts : Amounts) : Prop where
  base : ∃ product, item.rate.mul item.effectiveQuantity = .ok product ∧
    Money.round2 product = amounts.base
  discount : discountOn amounts.base item.discount = .ok amounts.discount
  subTotal : ∃ difference, amounts.base.sub amounts.discount = .ok difference ∧
    Money.round2 difference = amounts.subTotal
  gst : gstOn amounts.subTotal (item.gstRate.getD .zero) item.isInterState = .ok amounts.gst
  cess : cessOn amounts.subTotal item.cess = .ok amounts.cess
  total : totalOf amounts.subTotal (amounts.gst.toList ++ amounts.cess.toList) includeTax =
    .ok amounts.total

theorem amounts_eq_ok : item.amounts includeTax = .ok amounts ↔ item.Priced includeTax amounts := by
  unfold Input.amounts
  simp only [bind_eq_ok]
  constructor
  · intro ⟨product, hproduct, discount, hdiscount, difference, hdifference, gst, hgst, cess, hcess,
      total, htotal, hamounts⟩
    cases hamounts
    exact ⟨⟨product, hproduct, rfl⟩, hdiscount, ⟨difference, hdifference, rfl⟩, hgst, hcess, htotal⟩
  · intro h
    obtain ⟨base, subTotal, discount, gst, cess, total⟩ := amounts
    obtain ⟨product, hproduct, rfl⟩ := h.base
    obtain ⟨difference, hdifference, rfl⟩ := h.subTotal
    exact ⟨product, hproduct, discount, h.discount, difference, hdifference, gst, h.gst, cess,
      h.cess, total, h.total, rfl⟩

theorem scale_percentOf_le (h : Money.percentOf a rate = .ok d) : d.scale ≤ 2 := by
  obtain ⟨product, -, h⟩ := bind_eq_ok.mp h
  obtain ⟨share, -, h⟩ := bind_eq_ok.mp h
  cases h
  exact Decimal.scale_round_le share 2

theorem scale_component_le {rate? : Option Decimal} (h : component a rate? = .ok d) :
    d.scale ≤ 2 := by
  cases rate? with
  | none => cases h; exact Nat.zero_le 2
  | some rate => exact scale_percentOf_le h

theorem scale_discountOn_le {discount : Discount} (h : discountOn a discount = .ok d) :
    d.scale ≤ 2 := by
  obtain ⟨share, -, h⟩ := bind_eq_ok.mp h
  obtain ⟨total, -, h⟩ := bind_eq_ok.mp h
  cases h
  exact Decimal.scale_round_le total 2

theorem scale_gstOn_le {gst : Gst} {isInterState : Bool} (h : gstOn a rate isInterState = .ok gst) :
    ∀ d ∈ gst.toList, d.scale ≤ 2 := by
  simp only [Gst.toList, List.forall_mem_cons]
  cases isInterState with
  | true =>
    obtain ⟨tax, htax, rfl⟩ := gstOn_true.mp h
    exact ⟨Nat.zero_le 2, Nat.zero_le 2, scale_percentOf_le htax, List.forall_mem_nil _⟩
  | false =>
    obtain ⟨half, -, tax, htax, rfl⟩ := gstOn_false.mp h
    exact ⟨scale_percentOf_le htax, scale_percentOf_le htax, Nat.zero_le 2, List.forall_mem_nil _⟩

theorem scale_cessOn_le {rates : CessRates} {cess : Cess Decimal} (h : cessOn a rates = .ok cess) :
    ∀ d ∈ cess.toList, d.scale ≤ 2 := by
  unfold cessOn at h
  simp only [bind_eq_ok] at h
  obtain ⟨adValorem, h₁, specific, h₂, stateAdValorem, h₃, stateSpecific, h₄, h⟩ := h
  cases h
  simp only [Cess.toList, List.forall_mem_cons]
  exact ⟨scale_component_le h₁, scale_component_le h₂, scale_component_le h₃,
    scale_component_le h₄, List.forall_mem_nil _⟩

theorem scale_totalOf_le {charges : List Decimal} (ha : a.scale ≤ 2)
    (h : totalOf a charges includeTax = .ok d) : d.scale ≤ 2 := by
  cases includeTax with
  | true =>
    obtain ⟨total, -, rfl⟩ := map_eq_ok.mp h
    exact Decimal.scale_round_le total 2
  | false => cases h; exact ha

theorem Input.Priced.scale_le (h : item.Priced includeTax amounts) :
    ∀ e ∈ amounts.named, e.2.scale ≤ 2 := by
  obtain ⟨product, -, hbase⟩ := h.base
  obtain ⟨difference, -, hdifference⟩ := h.subTotal
  have hsub : amounts.subTotal.scale ≤ 2 := hdifference ▸ Decimal.scale_round_le difference 2
  have hgst := scale_gstOn_le h.gst
  have hcess := scale_cessOn_le h.cess
  simp only [Gst.toList, Cess.toList, List.forall_mem_cons] at hgst hcess
  obtain ⟨hcentral, hstate, hintegrated, -⟩ := hgst
  obtain ⟨hadValorem, hspecific, hstateAdValorem, hstateSpecific, -⟩ := hcess
  simp only [Amounts.named, List.forall_mem_cons]
  exact ⟨hbase ▸ Decimal.scale_round_le product 2, hsub, scale_discountOn_le h.discount, hcentral,
    hstate, hintegrated, hadValorem, hspecific, hstateAdValorem, hstateSpecific,
    scale_totalOf_le hsub h.total, List.forall_mem_nil _⟩

/-- What is charged on a line. -/
def Amounts.charges (amounts : Amounts) : List Decimal :=
  amounts.gst.toList ++ amounts.cess.toList

/-- Every amount is in whole cents and no larger than a line may hold. -/
structure Amounts.InCents (amounts : Amounts) : Prop where
  base : Decimal.InCents lineBound amounts.base
  subTotal : Decimal.InCents lineBound amounts.subTotal
  discount : Decimal.InCents lineBound amounts.discount
  charges : ∀ d ∈ amounts.charges, Decimal.InCents lineBound d
  total : Decimal.InCents lineBound amounts.total

theorem Input.Priced.inCents (hitem : item.Acceptable) (h : item.Priced includeTax amounts) :
    amounts.InCents := by
  have hwithin := of_exists_ok (amounts_within hitem includeTax) (amounts_eq_ok.mpr h)
  have hcents : ∀ e ∈ amounts.named, Decimal.InCents lineBound e.2 := by
    intro e he
    exact ⟨h.scale_le e he, hwithin e he⟩
  simp only [Amounts.named, List.forall_mem_cons] at hcents
  obtain ⟨hbase, hsub, hdiscount, hcentral, hstate, hintegrated, hadValorem, hspecific,
    hstateAdValorem, hstateSpecific, htotal, -⟩ := hcents
  refine ⟨hbase, hsub, hdiscount, ?_, htotal⟩
  simp only [Amounts.charges, Gst.toList, Cess.toList, List.cons_append, List.nil_append,
    List.forall_mem_cons]
  exact ⟨hcentral, hstate, hintegrated, hadValorem, hspecific, hstateAdValorem, hstateSpecific,
    List.forall_mem_nil _⟩

/-- What is to be paid is exactly the amount, and with tax all that is charged on it. -/
theorem totalOf_exact {charges : List Decimal} {m n : Nat} (ha : Decimal.InCents m a)
    (hcharges : ∀ d ∈ charges, Decimal.InCents n d)
    (hfit : (m + charges.length * n) * 100 < Decimal.capacity)
    (h : totalOf a charges includeTax = .ok d) :
    Decimal.InCents (m + charges.length * n) d ∧
      d.toRat = a.toRat + if includeTax then (charges.map Decimal.toRat).sum else 0 := by
  cases includeTax with
  | true =>
    rw [if_pos rfl]
    exact Decimal.InCents.of_rounded (ha.addAll hcharges hfit) h
  | false =>
    obtain rfl : a = d := Except.ok.inj h
    rw [if_neg Bool.false_ne_true, add_zero]
    exact ⟨ha.mono (Nat.le_add_right m _), rfl⟩

theorem Input.Priced.toRat_total (hitem : item.Acceptable) (h : item.Priced includeTax amounts) :
    amounts.total.toRat = amounts.subTotal.toRat +
      if includeTax then (amounts.charges.map Decimal.toRat).sum else 0 := by
  have hcents := h.inCents hitem
  have hlength : amounts.charges.length = 7 := rfl
  have hfit : (lineBound + amounts.charges.length * lineBound) * 100 < Decimal.capacity := by
    rw [hlength]
    decide
  exact (totalOf_exact hcents.subTotal hcents.charges hfit h.total).2

end Invoicing.Line
