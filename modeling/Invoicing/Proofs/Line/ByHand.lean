import Invoicing.Proofs.Line.Cents
import Invoicing.Proofs.Money.HalfCents

/-!
# Lines by hand

Each amount of a line is worked out by exact numbers from the amounts before it
and brought to cents, a half away from zero. A number with more digits than an
amount can hold is rounded before, so where it lies beside a half cent the line
may be a cent off. Up to ten places that cannot happen, and the line is what it
comes to by hand.
-/
namespace Invoicing.Line

open Decimal (Within Faithful HasPlaces capacity halfAway)
open Money (ByHand)

variable {a d half rate : Decimal} {rate? : Option Decimal} {item : Input} {includeTax : Bool}
  {amounts : Amounts} {x y : ℚ}

/-- What a number that may be left out counts for. -/
def worthOf (value? : Option Decimal) : ℚ :=
  (value?.getD .zero).toRat

/-- Half a rate is exact up to 26 places, and may be off in the last place beyond. -/
def halvingError (rate : Decimal) : ℚ :=
  if rate.scale ≤ 26 then 0 else Money.tolerance

theorem half_faithful (hr : Within 0 100 rate) (h : rate.div two = .ok half) :
    Within 0 50 half ∧ Faithful 27 (rate.toRat / 2) half.toRat := by
  have hr' : Within (0 * 2) (50 * 2) rate := hr
  obtain ⟨hwithin, hfaith⟩ := of_exists_ok (Decimal.div_whole_faithful (k := 27) (h := by decide)
    (by decide) (by decide) (by decide) (by decide) hr') h
  exact ⟨hwithin, by simpa using hfaith⟩

theorem half_exact (hscale : rate.scale ≤ 26) (h : Faithful 27 (rate.toRat / 2) y) :
    y = rate.toRat / 2 := by
  refine h.eq_of_hasPlaces ⟨rate.unitsAt 26 * 5, ?_⟩
  rw [Int.cast_mul, Decimal.unitsAt_eq hscale, tenTo_succ]
  push_cast
  ring

theorem taxableBound_halved : (taxableBound * (1 / tenTo 27) : ℚ) ≤ 20 * Money.tolerance := by
  have hbound : taxableBound = 1000001000000000000 := rfl
  have hten : tenTo 27 = 1000000000000000000000000000 := rfl
  rw [hbound, hten]
  norm_num [Money.tolerance]

/-- The share that half a rate makes, which is nearly a half of the share that the rate makes. -/
theorem halfShare_close (ha : Within taxableBound taxableBound a)
    (hfaith : Faithful 27 (rate.toRat / 2) half.toRat) :
    |a.toRat * half.toRat / 100 - a.toRat * rate.toRat / 200| ≤ Money.tolerance / 5 := by
  have heq : a.toRat * half.toRat / 100 - a.toRat * rate.toRat / 200 =
      a.toRat * (half.toRat - rate.toRat / 2) / 100 := by ring
  rw [heq, abs_div, abs_mul, abs_of_pos (by norm_num : (0 : ℚ) < 100)]
  have hle := mul_le_mul ha.abs_toRat_le hfaith.abs_sub_le (abs_nonneg _) (Nat.cast_nonneg _)
  linarith [taxableBound_halved]

/-- Shares of one amount have one sign. -/
theorem shares_same_sign {p q : ℚ} (a : ℚ) (hp : 0 ≤ p) (hq : 0 ≤ q) :
    0 ≤ a * p ∧ 0 ≤ a * q ∨ a * p ≤ 0 ∧ a * q ≤ 0 := by
  rcases le_total 0 a with ha | ha
  · exact .inl ⟨mul_nonneg ha hp, mul_nonneg ha hq⟩
  · exact .inr ⟨mul_nonpos_of_nonpos_of_nonneg ha hp, mul_nonpos_of_nonpos_of_nonneg ha hq⟩

/-- Either half of a tax. -/
theorem halfTax_byHand (ha : Within taxableBound taxableBound a) (hr : Within 0 100 rate)
    (hhalf : rate.div two = .ok half) (h : Money.percentOf a half = .ok d) :
    ByHand (halvingError rate) (a.toRat * rate.toRat / 200) d.toRat := by
  obtain ⟨hwithin, hfaith⟩ := half_faithful hr hhalf
  obtain ⟨y, hy, hs⟩ := Money.percentOf_faithful (k := 9) (c := 500000500000000000) (by decide) ha
    hwithin (by decide) (by decide) h
  rw [hy, halvingError]
  by_cases hscale : rate.scale ≤ 26
  · rw [if_pos hscale]
    rw [half_exact hscale hfaith] at hs
    have heq : a.toRat * (rate.toRat / 2) / 100 = a.toRat * rate.toRat / 200 := by ring
    exact Money.byHand_of_faithful (heq ▸ hs.mono (by decide))
  · rw [if_neg hscale]
    refine Money.byHand_of_close ?_ (halfShare_close ha hfaith) hs
    rcases shares_same_sign a.toRat hr.toRat_nonneg hwithin.toRat_nonneg with h | h
    · exact .inl ⟨by linarith, by linarith⟩
    · exact .inr ⟨by linarith, by linarith⟩

theorem base_byHand {product : Decimal} (h : item.Acceptable)
    (hproduct : item.rate.mul item.effectiveQuantity = .ok product) :
    ByHand 0 (item.rate.toRat * item.effectiveQuantity.toRat) (Money.round2 product).toRat := by
  obtain ⟨-, hfaith⟩ := of_exists_ok (Decimal.mul_faithful (k := 10) (by decide) h.rate.within
    (effectiveQuantity_within h) (by decide) (by decide)) hproduct
  rw [Money.round2, Decimal.toRat_round]
  exact Money.byHand_of_faithful hfaith

/-- A discount is rounded twice, first what the percentage makes and then with what is fixed. -/
theorem discountOn_byHand {base discount : Decimal} (h : item.Acceptable)
    (hb : Within 0 baseBound base) (hd : discountOn base item.discount = .ok discount) :
    ∃ share, ByHand 0 (base.toRat * worthOf item.discount.percentage / 100) share ∧
      ByHand 0 (share + worthOf item.discount.fixed) discount.toRat := by
  have hpercent := h.percentageDiscount.getD_within
  obtain ⟨share, hshare, hd⟩ := bind_eq_ok.mp hd
  obtain ⟨total, htotal, hd⟩ := bind_eq_ok.mp hd
  have hwithin := of_exists_ok (percentOf_within hb hpercent (by decide) (by decide)) hshare
  obtain ⟨-, hfaith⟩ := of_exists_ok (Decimal.add_faithful (k := 10) (by decide) hwithin
    h.fixedDiscount.getD_within (by decide) (by decide)) htotal
  cases hd
  refine ⟨share.toRat, ?_, ?_⟩
  · exact Money.percentOf_byHand (hb.mono (Nat.zero_le baseBound) (Nat.le_refl _)) hpercent
      (by decide) hshare
  · rw [Money.round2, Decimal.toRat_round]
    exact Money.byHand_of_faithful hfaith

theorem byHand_zero : ByHand 0 0 0 := by
  have h := Money.byHand_of_faithful (.refl 10 0)
  rwa [Decimal.halfAway_zero] at h

theorem component_byHand (ha : Within taxableBound taxableBound a)
    (hr : Allowed Money.hundred rate?) (h : component a rate? = .ok d) :
    ByHand 0 (a.toRat * worthOf rate? / 100) d.toRat := by
  cases rate? with
  | none =>
    cases h
    rw [worthOf, Option.getD_none, Decimal.toRat_zero, mul_zero, zero_div]
    exact byHand_zero
  | some rate => exact Money.percentOf_byHand ha hr.within (by decide) h

/-- A line whose amounts follow from one another as a computation by hand has them, up to how
each exact number is brought to cents. -/
structure WorkedOut (rounds : ℚ → ℚ → ℚ → Prop) (item : Input) (amounts : Amounts) : Prop where
  base : rounds 0 (item.rate.toRat * item.effectiveQuantity.toRat) amounts.base.toRat
  discount : ∃ share, rounds 0 (amounts.base.toRat * worthOf item.discount.percentage / 100) share ∧
    rounds 0 (share + worthOf item.discount.fixed) amounts.discount.toRat
  subTotal : amounts.subTotal.toRat = amounts.base.toRat - amounts.discount.toRat
  halves : item.isInterState = false → amounts.gst.state = amounts.gst.central ∧
    amounts.gst.integrated = .zero ∧ rounds (halvingError (item.gstRate.getD .zero))
      (amounts.subTotal.toRat * worthOf item.gstRate / 200) amounts.gst.central.toRat
  whole : item.isInterState = true → amounts.gst.central = .zero ∧ amounts.gst.state = .zero ∧
    rounds 0 (amounts.subTotal.toRat * worthOf item.gstRate / 100) amounts.gst.integrated.toRat
  cess : List.Forall₂ (fun rate? amount =>
      rounds 0 (amounts.subTotal.toRat * worthOf rate? / 100) amount.toRat)
    item.cess.toList amounts.cess.toList

/-- Brought to cents by the exact rule. -/
def Exactly (_above x cents : ℚ) : Prop :=
  cents = halfAway 2 x

theorem Input.Priced.subTotal_within (hitem : item.Acceptable)
    (h : item.Priced includeTax amounts) :
    Within 0 baseBound amounts.base ∧ Within taxableBound taxableBound amounts.subTotal := by
  obtain ⟨product, hproduct, hbase⟩ := h.base
  have hb := of_exists_ok (base_within hitem) hproduct
  rw [hbase] at hb
  have hd := of_exists_ok (discountOn_within hitem hb) h.discount
  obtain ⟨difference, hdifference, hsub⟩ := h.subTotal
  have hdiff := of_exists_ok (Decimal.sub_within hb hd (by decide) (by decide)) hdifference
  exact ⟨hb, hsub ▸ Decimal.round_within 2 (hdiff.mono (by decide) (by decide))⟩

theorem Input.Priced.toRat_subTotal (hitem : item.Acceptable)
    (h : item.Priced includeTax amounts) :
    amounts.subTotal.toRat = amounts.base.toRat - amounts.discount.toRat := by
  have hcents := h.inCents hitem
  obtain ⟨difference, hdifference, hsub⟩ := h.subTotal
  obtain ⟨hdiff, hvalue⟩ := of_exists_ok (hcents.base.sub hcents.discount (by decide)) hdifference
  rw [← hsub, hdiff.round2, hvalue]

theorem Input.Priced.workedOut (hitem : item.Acceptable) (h : item.Priced includeTax amounts) :
    WorkedOut ByHand item amounts := by
  obtain ⟨hbase, hsub⟩ := h.subTotal_within hitem
  have hrate := hitem.gstRate.getD_within
  have hgst := h.gst
  refine ⟨?_, discountOn_byHand hitem hbase h.discount, h.toRat_subTotal hitem, ?_, ?_, ?_⟩
  · obtain ⟨product, hproduct, hround⟩ := h.base
    exact hround ▸ base_byHand hitem hproduct
  · intro hstate
    rw [hstate] at hgst
    obtain ⟨half, hhalf, tax, htax, hgst⟩ := gstOn_false.mp hgst
    rw [← hgst]
    exact ⟨rfl, rfl, halfTax_byHand hsub hrate hhalf htax⟩
  · intro hstate
    rw [hstate] at hgst
    obtain ⟨tax, htax, hgst⟩ := gstOn_true.mp hgst
    rw [← hgst]
    exact ⟨rfl, rfl, Money.percentOf_byHand hsub hrate (by decide) htax⟩
  · have hcess := h.cess
    have hrates := hitem.cess
    unfold cessOn at hcess
    simp only [bind_eq_ok] at hcess
    obtain ⟨adValorem, h₁, specific, h₂, stateAdValorem, h₃, stateSpecific, h₄, hcess⟩ := hcess
    simp only [Cess.toList, List.forall_mem_cons] at hrates
    obtain ⟨hr₁, hr₂, hr₃, hr₄, -⟩ := hrates
    rw [← Except.ok.inj hcess]
    exact .cons (component_byHand hsub hr₁ h₁) (.cons (component_byHand hsub hr₂ h₂)
      (.cons (component_byHand hsub hr₃ h₃) (.cons (component_byHand hsub hr₄ h₄) .nil)))

/-- So few digits that everything worked out from them has ten places at most. -/
structure Input.FewDigits (item : Input) : Prop where
  base : item.rate.scale + item.effectiveQuantity.scale ≤ 10
  fixedDiscount : (item.discount.fixed.getD .zero).scale ≤ 10
  percentageDiscount : (item.discount.percentage.getD .zero).scale ≤ 5
  gstRate : (item.gstRate.getD .zero).scale ≤ 5
  cess : ∀ rate? ∈ item.cess.toList, (rate?.getD .zero).scale ≤ 5

theorem percent_hasPlaces (hx : HasPlaces 2 x) (hrate : rate.scale ≤ 5) :
    HasPlaces 10 (x * rate.toRat / 100) := by
  have h := ((hx.mul (.of_scale_le hrate)).div_tenTo 2).mono (by decide : 2 + 5 + 2 ≤ 10)
  rwa [Money.cast_tenTo_two] at h

theorem halfPercent_hasPlaces (hx : HasPlaces 2 x) (hrate : rate.scale ≤ 5) :
    HasPlaces 10 (x * rate.toRat / 200) := by
  have hfive : HasPlaces 0 5 := ⟨5, by simp⟩
  have h := ((hx.mul (.of_scale_le hrate)).mul hfive).div_tenTo 3
  have hten : (tenTo 3 : ℚ) = 1000 := by
    have h : tenTo 3 = 1000 := rfl
    rw [h, Nat.cast_ofNat]
  have heq : x * rate.toRat * 5 / 1000 = x * rate.toRat / 200 := by ring
  rwa [hten, heq] at h

theorem exactly_of_hasPlaces (hx : HasPlaces 10 x) (h : ByHand 0 x y) : Exactly 0 x y :=
  h.exact (Money.not_beside_of_hasPlaces hx)

theorem Input.Priced.exactly (hitem : item.Acceptable) (h : item.Priced includeTax amounts)
    (hdigits : item.FewDigits) : WorkedOut Exactly item amounts := by
  have hcents := h.inCents hitem
  have hbase : HasPlaces 2 amounts.base.toRat := .of_scale_le hcents.base.scale_le
  have hsub : HasPlaces 2 amounts.subTotal.toRat := .of_scale_le hcents.subTotal.scale_le
  have hw := h.workedOut hitem
  obtain ⟨share, hshare, hdiscount⟩ := hw.discount
  have hshare' := exactly_of_hasPlaces (percent_hasPlaces hbase hdigits.percentageDiscount) hshare
  have hplaces : HasPlaces 10 share := by
    rw [hshare']
    exact (Decimal.halfAway_hasPlaces 2 _).mono (by decide)
  refine ⟨?_, ⟨share, hshare', ?_⟩, hw.subTotal, ?_, ?_, ?_⟩
  · refine exactly_of_hasPlaces ?_ hw.base
    exact ((HasPlaces.of_scale_le (Nat.le_refl _)).mul (.of_scale_le (Nat.le_refl _))).mono
      hdigits.base
  · exact exactly_of_hasPlaces (hplaces.add (.of_scale_le hdigits.fixedDiscount)) hdiscount
  · intro hstate
    obtain ⟨heq, hzero, htax⟩ := hw.halves hstate
    have hexact : halvingError (item.gstRate.getD .zero) = 0 :=
      if_pos (Nat.le_trans hdigits.gstRate (by decide))
    rw [hexact] at htax ⊢
    exact ⟨heq, hzero, exactly_of_hasPlaces (halfPercent_hasPlaces hsub hdigits.gstRate) htax⟩
  · intro hstate
    obtain ⟨hcentral, hstate, htax⟩ := hw.whole hstate
    exact ⟨hcentral, hstate, exactly_of_hasPlaces (percent_hasPlaces hsub hdigits.gstRate) htax⟩
  · exact ((List.forall₂_and_left _ _).mpr ⟨hdigits.cess, hw.cess⟩).imp fun rate? amount hrate =>
      exactly_of_hasPlaces (percent_hasPlaces hsub hrate.1) hrate.2

/-- Every accepted request is priced as by hand, and to the cent wherever it has few digits. -/
theorem price_by_hand {r : Request} (h : r.validate = .ok item) (includeTax : Bool) :
    ∃ line, item.price includeTax = .ok line ∧ WorkedOut ByHand item line.amounts ∧
      (item.FewDigits → WorkedOut Exactly item line.amounts) := by
  obtain ⟨_, -, -, hitem⟩ := validate_eq_ok.mp h
  obtain ⟨amounts, hamounts, -⟩ := amounts_within hitem includeTax
  have hpriced := amounts_eq_ok.mp hamounts
  exact ⟨_, bind_eq_ok.mpr ⟨amounts, hamounts, rfl⟩, hpriced.workedOut hitem, hpriced.exactly hitem⟩

/-- The price of three units, with a discount and taxes. -/
def discountedRate : Decimal :=
  ⟨false, 1999, 2, by decide, Nat.le_add_right 2 26⟩

def discountedRequest : Request where
  rate := some discountedRate
  quantity := some (.whole 3)
  discount := ⟨some one, some (.whole 5)⟩
  gstRate := some (.whole 18)
  isInterState := none
  cess := ⟨some one, none, none, some two⟩

theorem price_discountedRequest_by_hand :
    ∃ item, discountedRequest.validate = .ok item ∧ ∃ line, item.price true = .ok line ∧
      WorkedOut ByHand item line.amounts ∧ WorkedOut Exactly item line.amounts := by
  have hvalid : discountedRequest.validate = .ok (discountedRequest.item discountedRate) := rfl
  have hdigits : (discountedRequest.item discountedRate).FewDigits :=
    ⟨by decide, by decide, by decide, by decide, by decide⟩
  obtain ⟨line, hline, hnear, hexact⟩ := price_by_hand hvalid true
  exact ⟨_, hvalid, line, hline, hnear, hexact hdigits⟩

/-- A third in 28 digits. -/
def third : Decimal :=
  ⟨false, 3333333333333333333333333333, 28, by decide, Nat.le_add_right 28 0⟩

def thirdRequest : Request where
  rate := some third
  quantity := some ⟨false, 15, 3, by decide, Nat.le_add_right 3 25⟩
  discount := {}
  gstRate := none
  isInterState := none
  cess := .none

/-- The exact base amount is less than half a cent, and in 28 places half a cent. -/
theorem price_thirdRequest_differs :
    ∃ item, thirdRequest.validate = .ok item ∧ ∃ line, item.price true = .ok line ∧
      line.amounts.base.toRat = 1 / 100 ∧
      halfAway 2 (item.rate.toRat * item.effectiveQuantity.toRat) = 0 ∧
      ¬ WorkedOut Exactly item line.amounts := by
  have hbase : ((thirdRequest.item third).price true).map (fun line => line.amounts.base.toRat) =
      .ok (1 / 100) := by decide +kernel
  have hexact :
      halfAway 2 (third.toRat * (thirdRequest.item third).effectiveQuantity.toRat) = 0 := by
    decide +kernel
  obtain ⟨line, hline, hbase⟩ := map_eq_ok.mp hbase
  refine ⟨thirdRequest.item third, rfl, line, hline, hbase, hexact, ?_⟩
  intro hw
  have hrounded : line.amounts.base.toRat = 0 := hw.base.trans hexact
  rw [hbase] at hrounded
  norm_num at hrounded

/-- A rate that does not keep its last digit when it is halved, where the exact half of the tax is
half a cent. -/
example : (gstOn ⟨false, 1073741824, 2, by decide, by decide⟩
      ⟨false, 931322574615478515625, 28, by decide, by decide⟩ false).map (fun gst =>
        gst.central.toRat) = .ok 0 ∧
    halfAway 2 (1073741824 / 100 * (931322574615478515625 / 10000000000000000000000000000) / 200) =
      1 / 100 := by
  decide +kernel

end Invoicing.Line
