import Invoicing.Proofs.Line.ByHand

/-!
# Supply within a state and between states

Where a supply goes to decides in which parts the tax on it is charged, and
nothing else. The halves are brought to cents one by one, and so is the whole.
Each of these roundings moves by half a cent at most, and what was rounded
before by far less, so the halves make up the whole up to one cent.
-/
namespace Invoicing.Line

open Decimal (Within)

variable {a half rate share whole : Decimal} {r : Request} {item : Input}
  {includeTax destination destination' : Bool} {amounts amounts' : Amounts} {within across : Gst}

/-- The same request for supply between states, or else within one. -/
def Request.supplied (r : Request) (isInterState : Bool) : Request :=
  { r with isInterState := some isInterState }

/-- The same line for supply between states, or else within one. -/
def Input.supplied (item : Input) (isInterState : Bool) : Input :=
  { item with isInterState }

theorem Input.Acceptable.supplied (h : item.Acceptable) (isInterState : Bool) :
    (item.supplied isInterState).Acceptable :=
  ⟨h.rate, h.quantity, h.fixedDiscount, h.percentageDiscount, h.gstRate, h.cess⟩

/-- No check looks at where the supply goes to. -/
theorem validate_supplied (h : r.validate = .ok item) (isInterState : Bool) :
    (r.supplied isInterState).validate = .ok (item.supplied isInterState) := by
  obtain ⟨rate, hrate, rfl, hitem⟩ := validate_eq_ok.mp h
  exact validate_eq_ok.mpr ⟨rate, hrate, rfl, hitem.supplied isInterState⟩

/-- How much more the two halves of a tax come to than the whole. -/
def splitDifference (within across : Gst) : ℚ :=
  within.central.toRat + within.state.toRat - across.integrated.toRat

/-- The shares of an amount that a rate and half of it make, each in cents. -/
theorem halves_near (ha : Within taxableBound taxableBound a) (hr : Within 0 100 rate)
    (hhalf : rate.div two = .ok half) (hshare : Money.percentOf a half = .ok share)
    (hwhole : Money.percentOf a rate = .ok whole) :
    |share.toRat + share.toRat - whole.toRat| ≤ 1 / 100 := by
  obtain ⟨hwithin, hfaith⟩ := half_faithful hr hhalf
  obtain ⟨y, hy, hnear⟩ := Money.percentOf_faithful (k := 9) (c := 500000500000000000) (by decide)
    ha hwithin (by decide) (by decide) hshare
  obtain ⟨z, hz, hnear'⟩ := Money.percentOf_faithful (k := 8) (by decide) ha hr (Nat.le_refl _)
    (by decide) hwhole
  have hclose := halfShare_close ha hfaith
  have hy' := (hnear.mono (by decide : 10 ≤ 9 + 2)).abs_sub_le
  have hz' := hnear'.abs_sub_le
  rw [← Money.tolerance_eq] at hy' hz'
  rw [hy, hz]
  refine Money.halfAway_two_halves ?_
  have htolerance : Money.tolerance = 1 / 10000000000 := rfl
  rw [htolerance] at hclose hy' hz'
  rw [abs_le] at hclose hy' hz'
  rw [abs_lt]
  constructor <;> linarith

theorem splitDifference_near (ha : Within taxableBound taxableBound a) (hr : Within 0 100 rate)
    (hwithin : gstOn a rate false = .ok within) (hacross : gstOn a rate true = .ok across) :
    |splitDifference within across| ≤ 1 / 100 := by
  obtain ⟨half, hhalf, share, hshare, rfl⟩ := gstOn_false.mp hwithin
  obtain ⟨whole, hwhole, rfl⟩ := gstOn_true.mp hacross
  exact halves_near ha hr hhalf hshare hwhole

/-- Charges with the same cess differ as the halves do from the whole. -/
theorem sum_charges_sub (hwithin : gstOn a rate false = .ok within)
    (hacross : gstOn a rate true = .ok across) (cess : Cess Decimal) :
    ((within.toList ++ cess.toList).map Decimal.toRat).sum -
      ((across.toList ++ cess.toList).map Decimal.toRat).sum = splitDifference within across := by
  obtain ⟨half, -, share, -, rfl⟩ := gstOn_false.mp hwithin
  obtain ⟨whole, -, rfl⟩ := gstOn_true.mp hacross
  simp only [Gst.toList, splitDifference, List.cons_append, List.nil_append, List.map_cons, List.sum_cons,
    Decimal.toRat_zero]
  ring

/-- Up to the tax all amounts are worked out in the same way, and the cess is as well. -/
theorem Input.Priced.same_but_gst (h : (item.supplied destination).Priced includeTax amounts)
    (h' : (item.supplied destination').Priced includeTax amounts') :
    amounts = { amounts' with gst := amounts.gst, total := amounts.total } := by
  obtain ⟨product, hproduct, hround⟩ := h.base
  obtain ⟨product', hproduct', hround'⟩ := h'.base
  have hbase : amounts.base = amounts'.base := by
    rw [← hround, ← hround', Except.ok.inj (hproduct.symm.trans hproduct')]
  have hdiscount : amounts.discount = amounts'.discount := by
    have hd := h.discount
    rw [hbase] at hd
    exact Except.ok.inj (hd.symm.trans h'.discount)
  have hsubTotal : amounts.subTotal = amounts'.subTotal := by
    obtain ⟨difference, hdifference, hround⟩ := h.subTotal
    obtain ⟨difference', hdifference', hround'⟩ := h'.subTotal
    rw [hbase, hdiscount] at hdifference
    rw [← hround, ← hround', Except.ok.inj (hdifference.symm.trans hdifference')]
  have hcess : amounts.cess = amounts'.cess := by
    have hc := h.cess
    rw [hsubTotal] at hc
    exact Except.ok.inj (hc.symm.trans h'.cess)
  obtain ⟨base, subTotal, discount, gst, cess, total⟩ := amounts
  cases hbase
  cases hdiscount
  cases hsubTotal
  cases hcess
  rfl

theorem Input.Priced.total_sub (hitem : item.Acceptable)
    (h : (item.supplied false).Priced true amounts)
    (h' : (item.supplied true).Priced true amounts') :
    amounts.total.toRat - amounts'.total.toRat = splitDifference amounts.gst amounts'.gst := by
  have hsame := h.same_but_gst h'
  have hsubTotal : amounts.subTotal = amounts'.subTotal := by rw [hsame]
  have hcess : amounts.cess = amounts'.cess := by rw [hsame]
  have hgst := h.gst
  rw [hsubTotal] at hgst
  rw [h.toRat_total (hitem.supplied false), h'.toRat_total (hitem.supplied true), if_pos rfl,
    if_pos rfl, hsubTotal, add_sub_add_left_eq_sub, Amounts.charges, Amounts.charges, hcess]
  exact sum_charges_sub hgst h'.gst amounts'.cess

theorem Input.Priced.total_eq (h : (item.supplied destination).Priced false amounts)
    (h' : (item.supplied destination').Priced false amounts') : amounts.total = amounts'.total := by
  have hsubTotal : amounts.subTotal = amounts'.subTotal := by rw [h.same_but_gst h']
  rw [← Except.ok.inj h.total, ← Except.ok.inj h'.total, hsubTotal]

/-- How the price of a supply within a state differs from that of the same supply between states. -/
structure DiffersInTax (includeTax : Bool) (within across : Line) : Prop where
  near : |splitDifference within.amounts.gst across.amounts.gst| ≤ 1 / 100
  taxed : includeTax = true → within.amounts.total.toRat - across.amounts.total.toRat =
    splitDifference within.amounts.gst across.amounts.gst
  untaxed : includeTax = false → within.amounts.total = across.amounts.total
  same : within = { across with
    isInterState := false
    amounts := { across.amounts with
      gst := within.amounts.gst
      total := within.amounts.total } }

/-- An accepted request is priced either way, and the prices differ in the tax alone: the halves are
the whole up to a cent, and a total with tax differs by just as much. -/
theorem price_supplied (h : r.validate = .ok item) (includeTax : Bool) :
    ∃ within across,
      (r.supplied false).validate = .ok (item.supplied false) ∧
      (item.supplied false).price includeTax = .ok within ∧
      (r.supplied true).validate = .ok (item.supplied true) ∧
      (item.supplied true).price includeTax = .ok across ∧
      DiffersInTax includeTax within across := by
  obtain ⟨_, -, -, hitem⟩ := validate_eq_ok.mp h
  have hwithin := hitem.supplied false
  have hacross := hitem.supplied true
  obtain ⟨amounts, hamounts, -⟩ := amounts_within hwithin includeTax
  obtain ⟨amounts', hamounts', -⟩ := amounts_within hacross includeTax
  have hpriced := amounts_eq_ok.mp hamounts
  have hpriced' := amounts_eq_ok.mp hamounts'
  have hsame := hpriced.same_but_gst hpriced'
  have hsubTotal : amounts.subTotal = amounts'.subTotal := by rw [hsame]
  have hgst' := hpriced'.gst
  rw [← hsubTotal] at hgst'
  refine ⟨_, _, validate_supplied h false, bind_eq_ok.mpr ⟨amounts, hamounts, rfl⟩,
    validate_supplied h true, bind_eq_ok.mpr ⟨amounts', hamounts', rfl⟩, ?_, ?_, ?_, ?_⟩
  · exact splitDifference_near (hpriced.subTotal_within hwithin).2 hitem.gstRate.getD_within
      hpriced.gst hgst'
  · rintro rfl
    exact hpriced.total_sub hitem hpriced'
  · rintro rfl
    exact hpriced.total_eq hpriced'
  · rw [← hsame]
    rfl

/-- A tax of one percent on one unit is a cent, and either half of it half a cent. -/
def onePercentRequest : Request where
  rate := some one
  quantity := none
  discount := {}
  gstRate := some one
  isInterState := none
  cess := .none

/-- The halves come to a cent each, so it does make a difference of one cent. -/
theorem price_onePercentRequest_supplied :
    ∃ item within across, onePercentRequest.validate = .ok item ∧
      (item.supplied false).price true = .ok within ∧
      (item.supplied true).price true = .ok across ∧
      DiffersInTax true within across ∧
      within.amounts.total.toRat - across.amounts.total.toRat = 1 / 100 := by
  let item := onePercentRequest.item one
  have hvalid : onePercentRequest.validate = .ok item := rfl
  have htotal : ((item.supplied false).price true).map (fun line => line.amounts.total.toRat) =
      .ok (102 / 100) := by decide +kernel
  have htotal' : ((item.supplied true).price true).map (fun line => line.amounts.total.toRat) =
      .ok (101 / 100) := by decide +kernel
  obtain ⟨within, across, -, hwithin, -, hacross, hdiffer⟩ := price_supplied hvalid true
  refine ⟨item, within, across, hvalid, hwithin, hacross, hdiffer, ?_⟩
  rw [hwithin] at htotal
  rw [hacross] at htotal'
  have hworth : within.amounts.total.toRat = 102 / 100 := Except.ok.inj htotal
  have hworth' : across.amounts.total.toRat = 101 / 100 := Except.ok.inj htotal'
  rw [hworth, hworth']
  norm_num

end Invoicing.Line
