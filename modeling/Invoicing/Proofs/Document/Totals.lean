import Invoicing.Document.Totals
import Invoicing.Limits
import Invoicing.Proofs.Line.Cents

/-!
# Totals of lines in whole cents

As many lines as any configuration allows, each with amounts in whole cents that
a line may hold, are added up without a single rounding. Rounding off moves as
much from the total as the correction tells.
-/
namespace Invoicing.Document

open Decimal (InCents Overflow capacity)
open Line (lineBound totalOf)

variable {lines : List Line} {shouldRoundOff includeTax : Bool} {t : Totals} {a b d total : Decimal}
  {m n : Nat}

/-- The correction, if there is to be one, and the total. -/
def settled (shouldRoundOff : Bool) (exact : Decimal) : Except Overflow (Decimal × Decimal) :=
  if shouldRoundOff then roundedOff exact else .ok (.zero, exact)

/-- The totals, each worked out from those before it. -/
structure Aggregated (lines : List Line) (shouldRoundOff includeTax : Bool) (t : Totals) :
    Prop where
  subTotal : sumOf lines (·.subTotal) = .ok t.subTotal
  discount : sumOf lines (·.discount) = .ok t.discount
  central : sumOf lines (·.gst.central) = .ok t.gst.central
  state : sumOf lines (·.gst.state) = .ok t.gst.state
  integrated : sumOf lines (·.gst.integrated) = .ok t.gst.integrated
  cess : ∃ adValorem specific, sumOf lines (·.cess.adValorem) = .ok adValorem ∧
    sumOf lines (·.cess.specific) = .ok specific ∧ combined adValorem specific = .ok t.cess
  stateCess : ∃ adValorem specific, sumOf lines (·.cess.stateAdValorem) = .ok adValorem ∧
    sumOf lines (·.cess.stateSpecific) = .ok specific ∧
    combined adValorem specific = .ok t.stateCess
  total : ∃ exact, totalOf t.subTotal (t.gst.toList ++ [t.cess, t.stateCess]) includeTax =
      .ok exact ∧
    settled shouldRoundOff exact = .ok (t.roundOff, t.total)

theorem aggregate_eq (lines : List Line) (shouldRoundOff includeTax : Bool) :
    aggregate lines shouldRoundOff includeTax = (do
      let subTotal ← sumOf lines (·.subTotal)
      let discount ← sumOf lines (·.discount)
      let central ← sumOf lines (·.gst.central)
      let state ← sumOf lines (·.gst.state)
      let integrated ← sumOf lines (·.gst.integrated)
      let adValorem ← sumOf lines (·.cess.adValorem)
      let specific ← sumOf lines (·.cess.specific)
      let stateAdValorem ← sumOf lines (·.cess.stateAdValorem)
      let stateSpecific ← sumOf lines (·.cess.stateSpecific)
      let cess ← combined adValorem specific
      let stateCess ← combined stateAdValorem stateSpecific
      let exact ← totalOf subTotal [central, state, integrated, cess, stateCess] includeTax
      let final ← settled shouldRoundOff exact
      return ⟨subTotal, discount, ⟨central, state, integrated⟩, cess, stateCess, final.1,
        final.2⟩) := by
  cases shouldRoundOff <;> cases includeTax <;> rfl

theorem aggregate_eq_ok :
    aggregate lines shouldRoundOff includeTax = .ok t ↔
      Aggregated lines shouldRoundOff includeTax t := by
  rw [aggregate_eq]
  simp only [bind_eq_ok]
  constructor
  · intro ⟨subTotal, hsub, discount, hdiscount, central, hcentral, state, hstate, integrated,
      hintegrated, adValorem, had, specific, hspec, stateAdValorem, hsad, stateSpecific, hsspec,
      cess, hcess, stateCess, hstateCess, exact, hexact, ⟨roundOff, total⟩, htotal, h⟩
    cases h
    exact ⟨hsub, hdiscount, hcentral, hstate, hintegrated, ⟨adValorem, specific, had, hspec, hcess⟩,
      ⟨stateAdValorem, stateSpecific, hsad, hsspec, hstateCess⟩, ⟨exact, hexact, htotal⟩⟩
  · intro h
    obtain ⟨subTotal, discount, ⟨central, state, integrated⟩, cess, stateCess, roundOff, total⟩ := t
    obtain ⟨adValorem, specific, had, hspec, hcess⟩ := h.cess
    obtain ⟨stateAdValorem, stateSpecific, hsad, hsspec, hstateCess⟩ := h.stateCess
    obtain ⟨exact, hexact, htotal⟩ := h.total
    exact ⟨_, h.subTotal, _, h.discount, _, h.central, _, h.state, _, h.integrated, _, had, _,
      hspec, _, hsad, _, hsspec, _, hcess, _, hstateCess, exact, hexact, _, htotal, rfl⟩

/-- What an amount comes to over all lines, exactly. -/
def worth (lines : List Line) (amount : Line.Amounts → Decimal) : Rat :=
  (lines.map fun line => (amount line.amounts).toRat).sum

/-- The largest size of a sum over as many lines as there may be. -/
def sumBound : Nat := lineItemsCeiling * lineBound

theorem sumOf_exact {amount : Line.Amounts → Decimal} (hcount : lines.length ≤ lineItemsCeiling)
    (hlines : ∀ line ∈ lines, InCents lineBound (amount line.amounts))
    (h : sumOf lines amount = .ok d) : InCents sumBound d ∧ d.toRat = worth lines amount := by
  have hds : ∀ a ∈ lines.map fun line => amount line.amounts, InCents lineBound a :=
    List.forall_mem_map.mpr hlines
  have hbound : (lines.map fun line => amount line.amounts).length * lineBound ≤ sumBound := by
    rw [List.length_map]
    exact Nat.mul_le_mul_right lineBound hcount
  have hcap : sumBound * 100 < capacity := by decide
  obtain ⟨hcents, hvalue⟩ := InCents.of_rounded (InCents.sum hds (by omega)) h
  refine ⟨hcents.mono hbound, ?_⟩
  rw [hvalue, List.map_map, worth]
  rfl

theorem combined_exact (ha : InCents m a) (hb : InCents n b) (hfit : (m + n) * 100 < capacity)
    (h : combined a b = .ok d) : InCents (m + n) d ∧ d.toRat = a.toRat + b.toRat :=
  InCents.of_rounded (ha.add hb hfit) h

/-- The whole total less the correction is the total that was rounded off. -/
theorem roundedOff_exact {correction whole : Decimal} (htotal : InCents n total)
    (hfit : (n + n) * 100 < capacity) (h : roundedOff total = .ok (correction, whole)) :
    whole.toRat - correction.toRat = total.toRat := by
  obtain ⟨difference, hdiff, h⟩ := bind_eq_ok.mp h
  cases h
  obtain ⟨hcents, hvalue⟩ := of_exists_ok (htotal.roundToInteger.sub htotal hfit) hdiff
  rw [hcents.round2, hvalue, sub_sub_cancel]

end Invoicing.Document
