import Invoicing.Line.Pricing
import Invoicing.Proofs.Decimal.Range
import Invoicing.Proofs.Line.Acceptance

/-!
# The amounts of an accepted line

A base amount is at most the product of the limits of its factors, and a
discount at most that much and the largest fixed discount. Neither is negative,
so what is left lies between the two bounds, and no tax on it is larger than it
is itself. Added up, all of this stays within what a line may hold.
-/
namespace Invoicing.Line

open Decimal (Within capacity)

variable {a rate : Decimal} {rate? : Option Decimal} {below above : Nat} {item : Input}

/-- The largest base amount, in whole units. -/
def baseBound : Nat := 1000000000000000000

/-- The largest amount that is left after a discount, or that a discount exceeds the base by. -/
def taxableBound : Nat := baseBound + 1000000000000

/-- The largest amount of a line. -/
def lineBound : Nat := 10000000000000000000

theorem Allowed.within {n : Nat} {hn : n < capacity} (h : Allowed (.whole n hn) (some a)) :
    Within 0 n a :=
  Decimal.within_zero_iff.mpr (h a rfl)

theorem Allowed.getD_within {n : Nat} {hn : n < capacity} (h : Allowed (.whole n hn) rate?) :
    Within 0 n (rate?.getD .zero) := by
  cases rate? with
  | none => exact .zero
  | some rate => exact h.within

/-- A percentage of an amount is no larger than the amount. -/
theorem percentOf_within (ha : Within below above a) (hr : Within 0 100 rate)
    (hlow : below * 100 < capacity) (hhigh : above * 100 < capacity) :
    ∃ d, Money.percentOf a rate = .ok d ∧ Within below above d := by
  obtain ⟨product, hproduct, hp⟩ := Decimal.mul_within ha hr hlow hhigh
  obtain ⟨share, hshare, hs⟩ := Decimal.div_whole_within (h := by decide) (by decide)
    (by omega) (by omega) hp
  refine ⟨Money.round2 share, ?_, Decimal.round_within 2 hs⟩
  exact bind_eq_ok.mpr ⟨product, hproduct, bind_eq_ok.mpr ⟨share, hshare, rfl⟩⟩

theorem component_within (ha : Within below above a) (hr : Allowed Money.hundred rate?)
    (hlow : below * 100 < capacity) (hhigh : above * 100 < capacity) :
    ∃ d, component a rate? = .ok d ∧ Within below above d := by
  cases rate? with
  | none => exact ⟨.zero, rfl, .zero⟩
  | some rate => exact percentOf_within ha hr.within hlow hhigh

theorem effectiveQuantity_within (h : item.Acceptable) :
    Within 0 1000000 item.effectiveQuantity := by
  have hone : Within 0 1000000 one := by decide
  unfold Input.effectiveQuantity
  cases hq : item.quantity with
  | none => exact hone
  | some quantity =>
    by_cases hzero : quantity.isZero
    · simp only [hzero, if_true]
      exact hone
    · simp only [hzero]
      exact (hq ▸ h.quantity : Allowed maxQuantity (some quantity)).within

theorem base_within (h : item.Acceptable) :
    ∃ product, item.rate.mul item.effectiveQuantity = .ok product ∧
      Within 0 baseBound (Money.round2 product) := by
  obtain ⟨product, hproduct, hp⟩ := Decimal.mul_within h.rate.within (effectiveQuantity_within h)
    (by decide) (by decide)
  exact ⟨product, hproduct, Decimal.round_within 2 hp⟩

theorem discountOn_within {base : Decimal} (h : item.Acceptable) (hb : Within 0 baseBound base) :
    ∃ discount, discountOn base item.discount = .ok discount ∧
      Within 0 taxableBound discount := by
  obtain ⟨share, hshare, hs⟩ := percentOf_within hb h.percentageDiscount.getD_within
    (by decide) (by decide)
  obtain ⟨total, htotal, ht⟩ := Decimal.add_within hs h.fixedDiscount.getD_within
    (by decide) (by decide)
  refine ⟨Money.round2 total, ?_, Decimal.round_within 2 ht⟩
  exact bind_eq_ok.mpr ⟨share, hshare, bind_eq_ok.mpr ⟨total, htotal, rfl⟩⟩

/-- Between states the tax is charged as one. -/
theorem gstOn_true {gst : Gst} : gstOn a rate true = .ok gst ↔
    ∃ tax, Money.percentOf a rate = .ok tax ∧ ⟨.zero, .zero, tax⟩ = gst := by
  rw [gstOn, if_pos rfl, bind_eq_ok]
  refine exists_congr fun tax => and_congr_right fun _ => ?_
  exact ⟨Except.ok.inj, congrArg Except.ok⟩

/-- Within a state it is charged in two halves, which are worked out alike. -/
theorem gstOn_false {gst : Gst} : gstOn a rate false = .ok gst ↔
    ∃ half, rate.div two = .ok half ∧
      ∃ tax, Money.percentOf a half = .ok tax ∧ ⟨tax, tax, .zero⟩ = gst := by
  rw [gstOn, if_neg Bool.false_ne_true, bind_eq_ok]
  refine exists_congr fun half => and_congr_right fun _ => ?_
  constructor
  · intro h
    obtain ⟨central, hcentral, h⟩ := bind_eq_ok.mp h
    obtain ⟨state, hstate, h⟩ := bind_eq_ok.mp h
    obtain rfl : central = state := Except.ok.inj (hcentral.symm.trans hstate)
    exact ⟨central, hcentral, Except.ok.inj h⟩
  · intro ⟨tax, htax, h⟩
    exact bind_eq_ok.mpr ⟨tax, htax, bind_eq_ok.mpr ⟨tax, htax, congrArg Except.ok h⟩⟩

/-- Neither the tax nor a half of it is larger than the amount. -/
theorem gstOn_within (ha : Within below above a) (hr : Within 0 100 rate)
    (hlow : below * 100 < capacity) (hhigh : above * 100 < capacity) (isInterState : Bool) :
    ∃ gst, gstOn a rate isInterState = .ok gst ∧ ∀ d ∈ gst.toList, Within below above d := by
  cases isInterState with
  | true =>
    obtain ⟨tax, htax, ht⟩ := percentOf_within ha hr hlow hhigh
    refine ⟨⟨.zero, .zero, tax⟩, gstOn_true.mpr ⟨tax, htax, rfl⟩, ?_⟩
    simp only [Gst.toList, List.forall_mem_cons]
    exact ⟨.zero, .zero, ht, List.forall_mem_nil _⟩
  | false =>
    have hr' : Within (0 * 2) (50 * 2) rate := hr
    obtain ⟨half, hhalf, hh⟩ := Decimal.div_whole_within (h := by decide) (by decide) (by decide)
      (by decide) hr'
    obtain ⟨tax, htax, ht⟩ :=
      percentOf_within ha (hh.mono (Nat.le_refl 0) (by decide)) hlow hhigh
    refine ⟨⟨tax, tax, .zero⟩, gstOn_false.mpr ⟨half, hhalf, tax, htax, rfl⟩, ?_⟩
    simp only [Gst.toList, List.forall_mem_cons]
    exact ⟨ht, ht, .zero, List.forall_mem_nil _⟩

theorem cessOn_within {rates : CessRates} (ha : Within below above a)
    (hrates : ∀ rate ∈ rates.toList, Allowed Money.hundred rate)
    (hlow : below * 100 < capacity) (hhigh : above * 100 < capacity) :
    ∃ cess, cessOn a rates = .ok cess ∧ ∀ d ∈ cess.toList, Within below above d := by
  simp only [Cess.toList, List.forall_mem_cons] at hrates
  obtain ⟨hadValorem, hspecific, hstateAdValorem, hstateSpecific, -⟩ := hrates
  obtain ⟨adValorem, h₁, hw₁⟩ := component_within ha hadValorem hlow hhigh
  obtain ⟨specific, h₂, hw₂⟩ := component_within ha hspecific hlow hhigh
  obtain ⟨stateAdValorem, h₃, hw₃⟩ := component_within ha hstateAdValorem hlow hhigh
  obtain ⟨stateSpecific, h₄, hw₄⟩ := component_within ha hstateSpecific hlow hhigh
  refine ⟨⟨adValorem, specific, stateAdValorem, stateSpecific⟩, ?_, ?_⟩
  · unfold cessOn
    rw [h₁, h₂, h₃, h₄]
    rfl
  · simp only [Cess.toList, List.forall_mem_cons]
    exact ⟨hw₁, hw₂, hw₃, hw₄, List.forall_mem_nil _⟩

/-- However many charges there are, an amount and all of them add up within their bounds. -/
theorem totalOf_within_length {charges : List Decimal} {m n : Nat} (ha : Within m m a)
    (hcharges : ∀ d ∈ charges, Within n n d) (hfit : m + charges.length * n < capacity)
    (includeTax : Bool) :
    ∃ total, totalOf a charges includeTax = .ok total ∧
      Within (m + charges.length * n) (m + charges.length * n) total := by
  cases includeTax with
  | true =>
    obtain ⟨total, htotal, ht⟩ := Decimal.addAll_within ha hcharges hfit hfit
    exact ⟨Money.round2 total, map_eq_ok.mpr ⟨total, htotal, rfl⟩, Decimal.round_within 2 ht⟩
  | false => exact ⟨a, rfl, ha.mono (Nat.le_add_right _ _) (Nat.le_add_right _ _)⟩

/-- The taxable amount and the seven charges on it add up to what a line may hold. -/
theorem totalOf_within {gst : Gst} {cess : Cess Decimal} (ha : Within taxableBound taxableBound a)
    (hgst : ∀ d ∈ gst.toList, Within taxableBound taxableBound d)
    (hcess : ∀ d ∈ cess.toList, Within taxableBound taxableBound d) (includeTax : Bool) :
    ∃ total, totalOf a (gst.toList ++ cess.toList) includeTax = .ok total ∧
      Within lineBound lineBound total := by
  have hlength : (gst.toList ++ cess.toList).length = 7 := rfl
  have hcharges : ∀ d ∈ gst.toList ++ cess.toList, Within taxableBound taxableBound d := by
    intro d hd
    rcases List.mem_append.mp hd with hd | hd
    · exact hgst d hd
    · exact hcess d hd
  have hcap : taxableBound + 7 * taxableBound < capacity := by decide
  have hline : taxableBound + 7 * taxableBound ≤ lineBound := by decide
  rw [← hlength] at hcap hline
  obtain ⟨total, htotal, ht⟩ := totalOf_within_length ha hcharges hcap includeTax
  exact ⟨total, htotal, ht.mono hline hline⟩

/-- Pricing an accepted line fails nowhere, and no amount is larger than a line may hold. -/
theorem amounts_within (h : item.Acceptable) (includeTax : Bool) :
    ∃ amounts, item.amounts includeTax = .ok amounts ∧
      ∀ e ∈ amounts.named, Within lineBound lineBound e.2 := by
  obtain ⟨product, hproduct, hbase⟩ := base_within h
  obtain ⟨discount, hdiscount, hd⟩ := discountOn_within h hbase
  obtain ⟨difference, hdifference, hdiff⟩ := Decimal.sub_within hbase hd (by decide) (by decide)
  have hsub : Within taxableBound taxableBound (Money.round2 difference) :=
    Decimal.round_within 2 (hdiff.mono (by decide) (by decide))
  obtain ⟨gst, hgst, hg⟩ := gstOn_within hsub h.gstRate.getD_within (by decide) (by decide)
    item.isInterState
  obtain ⟨cess, hcess, hc⟩ := cessOn_within hsub h.cess (by decide) (by decide)
  obtain ⟨total, htotal, ht⟩ := totalOf_within hsub hg hc includeTax
  refine ⟨⟨Money.round2 product, Money.round2 difference, discount, gst, cess, total⟩, ?_, ?_⟩
  · exact bind_eq_ok.mpr ⟨product, hproduct, bind_eq_ok.mpr ⟨discount, hdiscount,
      bind_eq_ok.mpr ⟨difference, hdifference, bind_eq_ok.mpr ⟨gst, hgst,
      bind_eq_ok.mpr ⟨cess, hcess, bind_eq_ok.mpr ⟨total, htotal, rfl⟩⟩⟩⟩⟩⟩
  · have hbound : taxableBound ≤ lineBound := by decide
    have hbase' := hbase.mono (Nat.zero_le lineBound) (by decide : baseBound ≤ lineBound)
    simp only [Gst.toList, Cess.toList, List.forall_mem_cons] at hg hc
    obtain ⟨hcentral, hstate, hintegrated, -⟩ := hg
    obtain ⟨hadValorem, hspecific, hstateAdValorem, hstateSpecific, -⟩ := hc
    simp only [Amounts.named, List.forall_mem_cons]
    exact ⟨hbase', hsub.mono hbound hbound, hd.mono (Nat.zero_le _) hbound,
      hcentral.mono hbound hbound, hstate.mono hbound hbound, hintegrated.mono hbound hbound,
      hadValorem.mono hbound hbound, hspecific.mono hbound hbound,
      hstateAdValorem.mono hbound hbound, hstateSpecific.mono hbound hbound, ht,
      List.forall_mem_nil _⟩

theorem abs_le_maxLineAmount (h : Within lineBound lineBound a) : a.abs ≤ maxLineAmount :=
  (Decimal.within_zero_iff.mp h.abs).2

theorem excess?_eq_none {amounts : Amounts} (h : ∀ e ∈ amounts.named, e.2.abs ≤ maxLineAmount) :
    amounts.excess? = none := by
  unfold Amounts.excess?
  rw [Option.map_eq_none_iff, List.find?_eq_none]
  intro e he hlarge
  have hlt : maxLineAmount < e.2.abs := of_decide_eq_true hlarge
  exact Decimal.not_le.mpr hlt (h e he)

/-- Every accepted request is priced without overflow, and the line passes the check of its
amounts. -/
theorem price_of_validate {r : Request} (h : r.validate = .ok item) (includeTax : Bool) :
    ∃ line, item.price includeTax = .ok line ∧
      (∀ e ∈ line.amounts.named, e.2.abs ≤ maxLineAmount) ∧ line.amounts.excess? = none := by
  obtain ⟨_, -, -, hitem⟩ := validate_eq_ok.mp h
  obtain ⟨amounts, hamounts, hwithin⟩ := amounts_within hitem includeTax
  have hle : ∀ e ∈ amounts.named, e.2.abs ≤ maxLineAmount := by
    intro e he
    exact abs_le_maxLineAmount (hwithin e he)
  exact ⟨_, bind_eq_ok.mpr ⟨amounts, hamounts, rfl⟩, hle, excess?_eq_none hle⟩

/-- A request with every number at its limit. -/
def largestRequest : Request where
  rate := some maxUnitAmount
  quantity := some maxQuantity
  discount := ⟨some maxUnitAmount, some Money.hundred⟩
  gstRate := some Money.hundred
  isInterState := some true
  cess := ⟨some Money.hundred, some Money.hundred, some Money.hundred, some Money.hundred⟩

theorem price_largestRequest :
    ∃ item, largestRequest.validate = .ok item ∧ ∃ line, item.price true = .ok line ∧
      (∀ e ∈ line.amounts.named, e.2.abs ≤ maxLineAmount) ∧ line.amounts.excess? = none := by
  have hvalid : largestRequest.validate = .ok (largestRequest.item maxUnitAmount) := rfl
  exact ⟨largestRequest.item maxUnitAmount, hvalid, price_of_validate hvalid true⟩

end Invoicing.Line
