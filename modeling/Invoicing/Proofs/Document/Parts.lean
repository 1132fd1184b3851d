import Invoicing.Proofs.Decimal.HalfAway
import Invoicing.Proofs.Document.Agreement
import Invoicing.Proofs.Document.Json
import Invoicing.Proofs.Document.Range

/-!
# Documents in parts

The lines of a document can be priced one at a time, and its totals taken of
lines that are read back from JSON. Both come to what the document comes to: its
lines pass the check of their amounts, and totals depend on nothing but what the
amounts are worth.
-/
namespace Invoicing

namespace Decimal

variable {below above n : Nat} {d : Decimal}

theorem Within.reread (h : Within below above d) : Within below above d.reread :=
  within_of_le h (sign_or_zero d.negative d.mantissa)

theorem InCents.reread (h : InCents n d) : InCents n d.reread :=
  ⟨h.scale_le, h.within.reread⟩

end Decimal

namespace Document

open Decimal (InCents capacity halfAway)

variable {limits : Limits} {request : Request} {c : Calculation} {lines : List Line} {line : Line}
  {shouldRoundOff includeTax : Bool} {t u : Totals}

theorem checkAmounts_eq_ok {number : Nat} :
    checkAmounts number lines = .ok () ↔ ∀ line ∈ lines, line.amounts.excess? = none := by
  induction lines generalizing number with
  | nil => exact iff_of_true rfl (List.forall_mem_nil _)
  | cons line lines ih =>
    rw [checkAmounts, List.forall_mem_cons]
    cases line.amounts.excess? with
    | none => rw [ih, and_iff_right rfl]
    | some excess => simp

theorem totalsOf_eq_ok : totalsOf limits lines shouldRoundOff includeTax = .ok t ↔
    lines.length ≤ limits.lineItems ∧ (∀ line ∈ lines, line.amounts.excess? = none) ∧
      Aggregated lines shouldRoundOff includeTax t := by
  simp only [totalsOf, bind_eq_ok, inRange_eq_ok, aggregate_eq_ok]
  constructor
  · intro ⟨_, hcount, _, hamounts, ht⟩
    exact ⟨checkLineCount_eq_ok.mp hcount, checkAmounts_eq_ok.mp hamounts, ht⟩
  · intro ⟨hcount, hamounts, ht⟩
    exact ⟨(), checkLineCount_eq_ok.mpr hcount, (), checkAmounts_eq_ok.mpr hamounts, ht⟩

theorem Prices.priceLine {item : Line.Request} (h : Prices includeTax item line) :
    priceLine item includeTax = .ok line := by
  obtain ⟨input, hvalid, hprice⟩ := h
  exact bind_eq_ok.mpr ⟨input, mapError_eq_ok.mpr hvalid, inRange_eq_ok.mpr hprice⟩

theorem Sound.bounded (h : Sound includeTax line) : Bounded line := by
  have hcharges := h.inCents.charges
  simp only [Line.Amounts.charges, Line.Gst.toList, Cess.toList, List.cons_append,
    List.nil_append, List.forall_mem_cons] at hcharges
  obtain ⟨hcentral, hstate, hintegrated, hadValorem, hspecific, hstateAdValorem, hstateSpecific,
    -⟩ := hcharges
  simp only [Bounded, Line.Amounts.named, List.forall_mem_cons]
  exact ⟨h.inCents.base.within, h.inCents.subTotal.within, h.inCents.discount.within,
    hcentral.within, hstate.within, hintegrated.within, hadValorem.within, hspecific.within,
    hstateAdValorem.within, hstateSpecific.within, h.inCents.total.within, List.forall_mem_nil _⟩

theorem Sound.excess?_eq_none (h : Sound includeTax line) : line.amounts.excess? = none :=
  Line.excess?_eq_none fun e he => Line.abs_le_maxLineAmount (h.bounded e he)

theorem charges_reread (line : Line) :
    line.reread.amounts.charges = line.amounts.charges.map Decimal.reread := rfl

/-- A sound line is read back as one. -/
theorem Sound.reread (h : Sound includeTax line) : Sound includeTax line.reread where
  inCents := {
    base := h.inCents.base.reread
    subTotal := h.inCents.subTotal.reread
    discount := h.inCents.discount.reread
    charges := by
      rw [charges_reread]
      intro d hd
      obtain ⟨d', hd', rfl⟩ := List.mem_map.mp hd
      exact (h.inCents.charges d' hd').reread
    total := h.inCents.total.reread }
  total := by
    have hcharges : line.reread.amounts.charges.map Decimal.toRat =
        line.amounts.charges.map Decimal.toRat := by
      rw [charges_reread, List.map_map]
      exact List.map_congr_left fun d _ => Decimal.toRat_reread d
    have htotal : line.reread.amounts.total.toRat = line.amounts.total.toRat :=
      Decimal.toRat_reread _
    have hsub : line.reread.amounts.subTotal.toRat = line.amounts.subTotal.toRat :=
      Decimal.toRat_reread _
    rw [hcharges, htotal, hsub]
    exact h.total

theorem sound_reread (h : ∀ line ∈ lines, Sound includeTax line) :
    ∀ line ∈ lines.map Line.reread, Sound includeTax line := by
  intro line hline
  obtain ⟨line', hline', rfl⟩ := List.mem_map.mp hline
  exact (h line' hline').reread

/-- What an amount comes to over lines that are read back. -/
theorem worth_reread {amount : Line.Amounts → Decimal}
    (h : ∀ a : Line.Amounts, amount a.reread = (amount a).reread) :
    worth (lines.map Line.reread) amount = worth lines amount := by
  rw [worth, worth, List.map_map]
  congr 1
  apply List.map_congr_left
  intro line _
  exact (congrArg Decimal.toRat (h line.amounts)).trans (Decimal.toRat_reread _)

/-- The total that is told is the exact one or the whole amount nearest to it. -/
theorem toRat_of_settled {exact roundOff total : Decimal}
    (h : settled shouldRoundOff exact = .ok (roundOff, total)) :
    total.toRat = if shouldRoundOff then halfAway 0 exact.toRat else exact.toRat := by
  cases shouldRoundOff with
  | true =>
    obtain ⟨difference, -, h⟩ := bind_eq_ok.mp h
    cases h
    exact Decimal.toRat_round exact 0
  | false =>
    cases h
    rfl

/-- Totals that are worth the same in every field. -/
structure Totals.Matches (t u : Totals) : Prop where
  subTotal : t.subTotal.toRat = u.subTotal.toRat
  discount : t.discount.toRat = u.discount.toRat
  central : t.gst.central.toRat = u.gst.central.toRat
  state : t.gst.state.toRat = u.gst.state.toRat
  integrated : t.gst.integrated.toRat = u.gst.integrated.toRat
  cess : t.cess.toRat = u.cess.toRat
  stateCess : t.stateCess.toRat = u.stateCess.toRat
  roundOff : t.roundOff.toRat = u.roundOff.toRat
  total : t.total.toRat = u.total.toRat

section

variable (hcount : lines.length ≤ lineItemsCeiling) (hlines : ∀ line ∈ lines, Sound includeTax line)
include hcount hlines

theorem Aggregated.toRat_total (h : Aggregated lines shouldRoundOff includeTax t) :
    t.total.toRat =
      if shouldRoundOff then halfAway 0 (worth lines (·.total)) else worth lines (·.total) := by
  obtain ⟨exact, -, hvalue, hfinal⟩ := h.unsettled hcount hlines
  rw [toRat_of_settled hfinal, hvalue]

/-- Lines that are read back have totals that match. -/
theorem Aggregated.matches_reread (ht : Aggregated lines shouldRoundOff includeTax t)
    (hu : Aggregated (lines.map Line.reread) shouldRoundOff includeTax u) : u.Matches t := by
  have hcount' : (lines.map Line.reread).length ≤ lineItemsCeiling := by
    rwa [List.length_map]
  have hlines' := sound_reread hlines
  have htotal : u.total.toRat = t.total.toRat := by
    rw [ht.toRat_total hcount hlines, hu.toRat_total hcount' hlines', worth_reread fun _ => rfl]
  have hagrees := ht.agrees hcount hlines
  have hagrees' := hu.agrees hcount' hlines'
  refine ⟨?_, ?_, ?_, ?_, ?_, ?_, ?_, ?_, htotal⟩
  · rw [hagrees'.subTotal, hagrees.subTotal, worth_reread fun _ => rfl]
  · rw [hagrees'.discount, hagrees.discount, worth_reread fun _ => rfl]
  · rw [hagrees'.central, hagrees.central, worth_reread fun _ => rfl]
  · rw [hagrees'.state, hagrees.state, worth_reread fun _ => rfl]
  · rw [hagrees'.integrated, hagrees.integrated, worth_reread fun _ => rfl]
  · rw [hagrees'.cess, hagrees.cess, worth_reread fun _ => rfl, worth_reread fun _ => rfl]
  · rw [hagrees'.stateCess, hagrees.stateCess, worth_reread fun _ => rfl, worth_reread fun _ => rfl]
  · have h := hagrees.total
    have h' := hagrees'.total
    rw [worth_reread fun _ => rfl] at h'
    linarith

end

/-- The parts of a document that are asked for one at a time: its lines, and its totals from a text
that sends the lines with the same flags. -/
structure InParts (limits : Limits) (request : Request) (c : Calculation) : Prop where
  lines : List.Forall₂ (fun item line => priceLine item request.includeTax = .ok line)
    request.lines c.lines
  totals : ∃ received t, TotalsRequest.ofText? (TotalsRequest.toJson
      ⟨c.lines, request.shouldRoundOff, request.includeTax⟩).toText = some received ∧
    totalsOf limits received.lines received.shouldRoundOff received.includeTax = .ok t ∧
    t.Matches c.totals

/-- A calculated document can be had in parts as well. -/
theorem calculate_in_parts (hlimits : limits.validate = .ok ())
    (h : calculate limits request = .ok c) : InParts limits request c := by
  obtain ⟨-, -, hceiling⟩ := Limits.validate_eq_ok.mp hlimits
  have hc := calculated_of_calculate h
  have hsound := sound_of_prices hc.lines
  have hcount : c.lines.length ≤ limits.lineItems := by
    rw [← hc.lines.length_eq]
    exact hc.count
  have hcount' : (c.lines.map Line.reread).length ≤ limits.lineItems := by
    rwa [List.length_map]
  have hsound' := sound_reread hsound
  obtain ⟨t, ht⟩ := aggregated_of_bounded (Nat.le_trans hcount' hceiling)
    (fun line hline => (hsound' line hline).bounded) request.shouldRoundOff request.includeTax
  refine ⟨hc.lines.imp fun _ _ => Prices.priceLine, _, t, TotalsRequest.ofText?_toText _, ?_, ?_⟩
  · exact totalsOf_eq_ok.mpr
      ⟨hcount', fun line hline => (hsound' line hline).excess?_eq_none, ht⟩
  · exact (aggregate_eq_ok.mp hc.totals).matches_reread (Nat.le_trans hcount hceiling) hsound ht

theorem calculate_sampleRequest_in_parts :
    ∃ c, calculate {} sampleRequest = .ok c ∧ InParts {} sampleRequest c := by
  have hlimits : Limits.validate {} = .ok () := rfl
  have hsome : (calculate {} sampleRequest).toOption.isSome := by decide +kernel
  cases h : calculate {} sampleRequest with
  | ok c => exact ⟨c, rfl, calculate_in_parts hlimits h⟩
  | error fault =>
    rw [h] at hsome
    cases hsome

end Document

end Invoicing
