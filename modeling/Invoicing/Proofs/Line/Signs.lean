import Invoicing.Proofs.Line.ByHand
import Mathlib.Algebra.Order.Group.Pointwise.Interval
import Mathlib.Data.Sign.Basic

/-!
# Signs and sizes of the amounts of a line

A percentage of an amount lies between nothing and the amount. Both ends are
whole cents, and no rounding passes a whole cent: so every charge lies there
too, however many digits were dropped before. A discount is more than the base
amount only by what is fixed, and by the cent that rounding may add to it.
-/
namespace Invoicing

namespace Decimal

variable {x y z : ℚ} {k : Nat}

/-- What lies between nothing and a number on the grid stays there. -/
theorem Faithful.mem_uIcc (h : Faithful k x y) (hz : HasPlaces k z) (hx : x ∈ Set.uIcc 0 z) :
    y ∈ Set.uIcc 0 z := by
  rcases Set.mem_uIcc.mp hx with ⟨hlow, hhigh⟩ | ⟨hlow, hhigh⟩
  · exact Set.mem_uIcc.mpr (.inl ⟨h.nonneg hlow, h.le_of_hasPlaces hz hhigh⟩)
  · exact Set.mem_uIcc.mpr
      (.inr ⟨h.ge_of_hasPlaces hz hlow, h.le_of_hasPlaces (.zero k) hhigh⟩)

end Decimal

namespace Line

open Decimal (Within Faithful HasPlaces)

variable {a d rate : Decimal} {rate? : Option Decimal} {item : Input} {includeTax : Bool}
  {amounts : Amounts} {x z : ℚ}

/-- A number is nothing, or on the same side of zero as another one. -/
def SharesSign (x z : ℚ) : Prop :=
  x = 0 ∨ SignType.sign x = SignType.sign z

theorem sharesSign_of_mem (h : x ∈ Set.uIcc 0 z) : SharesSign x z := by
  rcases lt_trichotomy x 0 with hx | hx | hx
  · have hz : z < 0 := by
      rcases Set.mem_uIcc.mp h with ⟨hlow, -⟩ | ⟨hlow, -⟩
      · linarith
      · linarith
    exact .inr (by rw [sign_neg hx, sign_neg hz])
  · exact .inl hx
  · have hz : 0 < z := by
      rcases Set.mem_uIcc.mp h with ⟨-, hhigh⟩ | ⟨-, hhigh⟩
      · linarith
      · linarith
    exact .inr (by rw [sign_pos hx, sign_pos hz])

theorem abs_le_of_mem (h : x ∈ Set.uIcc 0 z) : |x| ≤ |z| := by
  simpa using Set.abs_sub_left_of_mem_uIcc h

/-- A percentage of a number lies between nothing and the number. -/
theorem percent_mem (z : ℚ) {p : ℚ} (hlow : 0 ≤ p) (hhigh : p ≤ 100) :
    z * p / 100 ∈ Set.uIcc 0 z := by
  rw [Set.mem_uIcc]
  rcases le_total 0 z with hz | hz
  · have hle : z * p ≤ z * 100 := mul_le_mul_of_nonneg_left hhigh hz
    have hnonneg : 0 ≤ z * p := mul_nonneg hz hlow
    left
    constructor <;> linarith
  · have hge : z * 100 ≤ z * p := mul_le_mul_of_nonpos_left hhigh hz
    have hnonpos : z * p ≤ 0 := mul_nonpos_of_nonpos_of_nonneg hz hlow
    right
    constructor <;> linarith

theorem rate_le (hr : Within 0 100 rate) : rate.toRat ≤ 100 := by
  have habs := (hr.mono (Nat.zero_le 100) (Nat.le_refl 100)).abs_toRat_le
  exact le_trans (le_abs_self _) (by simpa using habs)

/-- The percentage of an amount that is charged or taken off passes no whole cent. -/
theorem percentOf_cents (ha : Within taxableBound taxableBound a) (hr : Within 0 100 rate)
    (h : Money.percentOf a rate = .ok d) : Faithful 2 (a.toRat * rate.toRat / 100) d.toRat := by
  obtain ⟨y, hy, hfaith⟩ := Money.percentOf_faithful (k := 0) (by decide) ha hr (Nat.le_refl _)
    (by decide) h
  rw [hy]
  exact hfaith.trans (Decimal.faithful_halfAway 2 y)

theorem percentOf_mem (ha : Within taxableBound taxableBound a) (hcents : a.scale ≤ 2)
    (hr : Within 0 100 rate) (h : Money.percentOf a rate = .ok d) :
    d.toRat ∈ Set.uIcc 0 a.toRat :=
  (percentOf_cents ha hr h).mem_uIcc (.of_scale_le hcents)
    (percent_mem _ hr.toRat_nonneg (rate_le hr))

/-- Every charge of a line is nothing, or a percentage of the taxable amount. -/
theorem Input.Priced.charge_eq (hitem : item.Acceptable) (h : item.Priced includeTax amounts) :
    ∀ d ∈ amounts.charges, d = .zero ∨
      ∃ rate, Within 0 100 rate ∧ Money.percentOf amounts.subTotal rate = .ok d := by
  have hcomponent {rate? : Option Decimal} {d : Decimal} (hr : Allowed Money.hundred rate?)
      (hd : component amounts.subTotal rate? = .ok d) : d = .zero ∨
        ∃ rate, Within 0 100 rate ∧ Money.percentOf amounts.subTotal rate = .ok d := by
    cases rate? with
    | none => exact .inl (Except.ok.inj hd).symm
    | some rate => exact .inr ⟨rate, hr.within, hd⟩
  have hrate := hitem.gstRate.getD_within
  have hgst := h.gst
  have hcess := h.cess
  have hrates := hitem.cess
  intro d hd
  rcases List.mem_append.mp hd with hd | hd
  · cases hstate : item.isInterState with
    | true =>
      rw [hstate] at hgst
      obtain ⟨tax, htax, heq⟩ := gstOn_true.mp hgst
      simp only [← heq, Gst.toList, List.mem_cons, List.not_mem_nil, or_false] at hd
      rcases hd with rfl | rfl | rfl
      · exact .inl rfl
      · exact .inl rfl
      · exact .inr ⟨_, hrate, htax⟩
    | false =>
      rw [hstate] at hgst
      obtain ⟨half, hhalf, tax, htax, heq⟩ := gstOn_false.mp hgst
      have hwithin := (half_faithful hrate hhalf).1.mono (Nat.le_refl 0) (by decide : 50 ≤ 100)
      simp only [← heq, Gst.toList, List.mem_cons, List.not_mem_nil, or_false] at hd
      rcases hd with rfl | rfl | rfl
      · exact .inr ⟨half, hwithin, htax⟩
      · exact .inr ⟨half, hwithin, htax⟩
      · exact .inl rfl
  · unfold cessOn at hcess
    simp only [bind_eq_ok] at hcess
    obtain ⟨adValorem, h₁, specific, h₂, stateAdValorem, h₃, stateSpecific, h₄, heq⟩ := hcess
    simp only [Cess.toList, List.forall_mem_cons] at hrates
    obtain ⟨hr₁, hr₂, hr₃, hr₄, -⟩ := hrates
    simp only [← Except.ok.inj heq, Cess.toList, List.mem_cons, List.not_mem_nil, or_false] at hd
    rcases hd with rfl | rfl | rfl | rfl
    · exact hcomponent hr₁ h₁
    · exact hcomponent hr₂ h₂
    · exact hcomponent hr₃ h₃
    · exact hcomponent hr₄ h₄

theorem Input.Priced.charge_mem (hitem : item.Acceptable) (h : item.Priced includeTax amounts) :
    ∀ d ∈ amounts.charges, d.toRat ∈ Set.uIcc 0 amounts.subTotal.toRat := by
  intro d hd
  rcases h.charge_eq hitem d hd with rfl | ⟨rate, hr, hpercent⟩
  · rw [Decimal.toRat_zero]
    exact Set.left_mem_uIcc
  · exact percentOf_mem (h.subTotal_within hitem).2 (h.inCents hitem).subTotal.scale_le hr hpercent

/-- A discount is no more than the base amount and what is fixed, up to a cent, and no more than the
base amount alone if nothing is fixed. -/
theorem discountOn_between {base discount : Decimal} (h : item.Acceptable)
    (hb : Within 0 baseBound base) (hcents : base.scale ≤ 2)
    (hd : discountOn base item.discount = .ok discount) :
    0 ≤ discount.toRat ∧
      discount.toRat ≤ base.toRat + worthOf item.discount.fixed + 1 / 100 ∧
      (worthOf item.discount.fixed = 0 → discount.toRat ≤ base.toRat) := by
  have hpercent := h.percentageDiscount.getD_within
  have hfixed := h.fixedDiscount.getD_within
  obtain ⟨share, hshare, hd⟩ := bind_eq_ok.mp hd
  obtain ⟨total, htotal, hd⟩ := bind_eq_ok.mp hd
  have hwithin := of_exists_ok (percentOf_within hb hpercent (by decide) (by decide)) hshare
  have hmem := percentOf_mem (hb.mono (Nat.zero_le _) (by decide)) hcents hpercent hshare
  rw [Set.uIcc_of_le hb.toRat_nonneg] at hmem
  have hfixed' : 0 ≤ worthOf item.discount.fixed := hfixed.toRat_nonneg
  obtain ⟨-, hsum⟩ := of_exists_ok (Decimal.add_faithful (k := 2) (by decide) hwithin hfixed
    (by decide) (by decide)) htotal
  have hfaith : Faithful 2 (share.toRat + worthOf item.discount.fixed) discount.toRat := by
    rw [← Except.ok.inj hd, Money.round2, Decimal.toRat_round]
    exact hsum.trans (Decimal.faithful_halfAway 2 _)
  refine ⟨hfaith.nonneg (add_nonneg hmem.1 hfixed'), ?_, ?_⟩
  · have hnear := (abs_le.mp hfaith.abs_sub_le).2
    rw [Money.cast_tenTo_two] at hnear
    linarith [hmem.2]
  · intro hzero
    rw [hzero, add_zero] at hfaith
    exact hfaith.le_of_hasPlaces (.of_scale_le hcents) hmem.2

/-- What is to be paid with all charges is further from zero than the amount, on its side. -/
theorem Input.Priced.total_beyond (hitem : item.Acceptable) (h : item.Priced true amounts) :
    (0 ≤ amounts.subTotal.toRat → amounts.subTotal.toRat ≤ amounts.total.toRat) ∧
      (amounts.subTotal.toRat ≤ 0 → amounts.total.toRat ≤ amounts.subTotal.toRat) := by
  have htotal := h.toRat_total hitem
  have hcharges := h.charge_mem hitem
  rw [if_pos rfl] at htotal
  constructor
  · intro hsub
    have hsum : 0 ≤ (amounts.charges.map Decimal.toRat).sum := by
      apply List.sum_nonneg
      intro x hx
      obtain ⟨d, hd, rfl⟩ := List.mem_map.mp hx
      have hmem := hcharges d hd
      rw [Set.uIcc_of_le hsub] at hmem
      exact hmem.1
    linarith
  · intro hsub
    have hle : ∀ x ∈ amounts.charges.map Decimal.toRat, x ≤ 0 := by
      intro x hx
      obtain ⟨d, hd, rfl⟩ := List.mem_map.mp hx
      have hmem := hcharges d hd
      rw [Set.uIcc_of_ge hsub] at hmem
      exact hmem.2
    have hsum := List.sum_le_card_nsmul _ 0 hle
    rw [nsmul_zero] at hsum
    linarith

/-- The ranges of the amounts of a line, and on which side of zero they are. -/
structure Ranged (item : Input) (includeTax : Bool) (amounts : Amounts) : Prop where
  base : 0 ≤ amounts.base.toRat
  discount : 0 ≤ amounts.discount.toRat
  le_subTotal : -(worthOf item.discount.fixed + 1 / 100) ≤ amounts.subTotal.toRat
  subTotal_le : amounts.subTotal.toRat ≤ amounts.base.toRat
  subTotal_nonneg : (∀ fixed ∈ item.discount.fixed, fixed.isZero) → 0 ≤ amounts.subTotal.toRat
  charges : ∀ d ∈ amounts.charges, SharesSign d.toRat amounts.subTotal.toRat ∧
    |d.toRat| ≤ |amounts.subTotal.toRat|
  total : includeTax = true → SharesSign amounts.total.toRat amounts.subTotal.toRat ∧
    |amounts.subTotal.toRat| ≤ |amounts.total.toRat|

theorem worthOf_eq_zero {value? : Option Decimal} (h : ∀ value ∈ value?, value.isZero) :
    worthOf value? = 0 := by
  cases value? with
  | none => exact Decimal.toRat_zero
  | some value => exact Decimal.toRat_of_isZero (h value rfl)

theorem Input.Priced.ranged (hitem : item.Acceptable) (h : item.Priced includeTax amounts) :
    Ranged item includeTax amounts := by
  have hbase := (h.subTotal_within hitem).1
  have hsub := h.toRat_subTotal hitem
  obtain ⟨hdiscount, hle, hle'⟩ :=
    discountOn_between hitem hbase (h.inCents hitem).base.scale_le h.discount
  refine ⟨hbase.toRat_nonneg, hdiscount, ?_, ?_, ?_, ?_, ?_⟩
  · linarith
  · linarith
  · intro hzero
    have hle := hle' (worthOf_eq_zero hzero)
    linarith
  · intro d hd
    have hmem := h.charge_mem hitem d hd
    exact ⟨sharesSign_of_mem hmem, abs_le_of_mem hmem⟩
  · rintro rfl
    obtain ⟨habove, hbelow⟩ := h.total_beyond hitem
    rcases lt_trichotomy amounts.subTotal.toRat 0 with hneg | hzero | hpos
    · have htotal := hbelow hneg.le
      refine ⟨.inr ?_, ?_⟩
      · rw [sign_neg hneg, sign_neg (by linarith)]
      · rw [abs_of_neg hneg, abs_of_neg (by linarith)]
        linarith
    · have htotal : amounts.total.toRat = 0 := by
        linarith [habove hzero.ge, hbelow hzero.le]
      refine ⟨.inl htotal, ?_⟩
      rw [hzero, htotal]
    · have htotal := habove hpos.le
      refine ⟨.inr ?_, ?_⟩
      · rw [sign_pos hpos, sign_pos (by linarith)]
      · rw [abs_of_pos hpos, abs_of_pos (by linarith)]
        exact htotal

/-- Every accepted request is priced within its ranges. Only a fixed discount makes the taxable
amount negative, and then by a cent more than itself at most; every charge is on the side of that
amount and no larger, and a total with tax is on its side and no smaller. -/
theorem price_ranged {r : Request} (h : r.validate = .ok item) (includeTax : Bool) :
    ∃ line, item.price includeTax = .ok line ∧ Ranged item includeTax line.amounts := by
  obtain ⟨_, -, -, hitem⟩ := validate_eq_ok.mp h
  obtain ⟨amounts, hamounts, -⟩ := amounts_within hitem includeTax
  exact ⟨_, bind_eq_ok.mpr ⟨amounts, hamounts, rfl⟩, (amounts_eq_ok.mp hamounts).ranged hitem⟩

/-- A unit at no price, with half a cent off. -/
def freeRequest : Request where
  rate := some .zero
  quantity := none
  discount := ⟨some ⟨false, 50, 4, by decide, Nat.le_of_ble_eq_true rfl⟩, none⟩
  gstRate := some Money.hundred
  isInterState := some true
  cess := .none

/-- The half cent is brought to a cent, which makes the taxable amount negative by more than the
discount; a tax of a hundred percent is just as large, and the total twice as large. -/
theorem price_freeRequest_ranged :
    ∃ item line, freeRequest.validate = .ok item ∧ item.price true = .ok line ∧
      Ranged item true line.amounts ∧ line.amounts.subTotal.toRat = -1 / 100 ∧
      line.amounts.gst.integrated.toRat = -1 / 100 ∧ line.amounts.total.toRat = -2 / 100 := by
  have hvalid : freeRequest.validate = .ok (freeRequest.item .zero) := rfl
  have hworth : ((freeRequest.item .zero).price true).map (fun line =>
      (line.amounts.subTotal.toRat, line.amounts.gst.integrated.toRat, line.amounts.total.toRat)) =
      .ok (-1 / 100, -1 / 100, -2 / 100) := by decide +kernel
  obtain ⟨line, hline, hranged⟩ := price_ranged hvalid true
  rw [hline] at hworth
  obtain ⟨hsub, htax, htotal⟩ := Prod.mk.inj (Except.ok.inj hworth) |>.imp_right Prod.mk.inj
  exact ⟨_, line, hvalid, hline, hranged, hsub, htax, htotal⟩

end Line

end Invoicing
