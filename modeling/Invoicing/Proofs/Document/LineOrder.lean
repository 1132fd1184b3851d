import Invoicing.Proofs.Decimal.Lossless
import Invoicing.Proofs.Document.RoundOff

/-!
# The order of lines

Sums are rounded to cents, but where large amounts meet long fractions an
addition drops digits before that, and totals can tell in which order the lines
came. How far they can is bounded, and where no digit is lost, as with amounts of
up to four places, they cannot.
-/
namespace Invoicing.Document

open Decimal (Fits HasPlaces Within capacity halfAway)
open Line (lineBound)

variable {lines lines' : List Line} {shouldRoundOff includeTax : Bool} {t u : Totals}
  {a b : Decimal} {amount : Line.Amounts → Decimal}
  {amounts amounts' : List (Line.Amounts → Decimal)} {x x' y y' : ℚ}

/-- An amount that is added up over the lines without losing a digit. -/
def Lossless (lines : List Line) (amount : Line.Amounts → Decimal) : Prop :=
  Fits (lines.map fun line => amount line.amounts)

/-- How far apart the sums of one amount can be in two orders. Both are rounded to cents, and every
addition may cost one unit in the fourth place. -/
def drift (lines : List Line) : ℚ :=
  2 * (1 / 2 / 100 + lines.length / 10000)

theorem worth_perm (h : lines.Perm lines') (amount : Line.Amounts → Decimal) :
    worth lines amount = worth lines' amount :=
  List.Perm.sum_eq (h.map fun line => (amount line.amounts).toRat)

theorem Lossless.perm (h : lines.Perm lines') (hlossless : Lossless lines amount) :
    Lossless lines' amount :=
  Fits.perm (h.map fun line => amount line.amounts) hlossless

/-- What a sum comes to if only its result is rounded. -/
theorem toRat_sumOf_of_lossless (hlossless : Lossless lines amount)
    (h : sumOf lines amount = .ok a) : a.toRat = halfAway 2 (worth lines amount) := by
  obtain ⟨total, htotal, rfl⟩ := map_eq_ok.mp h
  have hvalue := of_exists_ok hlossless.sum htotal
  rw [List.map_map] at hvalue
  exact (Decimal.toRat_round total 2).trans (congrArg (halfAway 2) hvalue)

/-- Any sum is near to what its amounts are worth. -/
theorem sumOf_near (hcount : lines.length ≤ lineItemsCeiling)
    (hlines : ∀ line ∈ lines, Within lineBound lineBound (amount line.amounts))
    (h : sumOf lines amount = .ok a) : |a.toRat - worth lines amount| ≤ drift lines / 2 := by
  obtain ⟨total, htotal, rfl⟩ := map_eq_ok.mp h
  have hfit : (0 + (lines.map fun line => amount line.amounts).length * lineBound) * tenTo 4 <
      capacity := by
    rw [List.length_map, Nat.zero_add]
    have hbound : lines.length * lineBound ≤ sumBound := Nat.mul_le_mul_right lineBound hcount
    have hcap : sumBound * tenTo 4 < capacity := by decide
    exact Nat.lt_of_le_of_lt (Nat.mul_le_mul_right _ hbound) hcap
  have hsum := of_exists_ok
    (Decimal.addAll_near (by decide) .zero (List.forall_mem_map.mpr hlines) hfit) htotal
  rw [Decimal.toRat_zero, zero_add, List.map_map, List.length_map] at hsum
  have hround := Decimal.abs_halfAway_sub_le 2 total.toRat
  rw [← Decimal.toRat_round] at hround
  have htriangle := abs_sub_le (Money.round2 total).toRat total.toRat (worth lines amount)
  have hten : (tenTo 2 : ℚ) = 100 := by norm_num [tenTo]
  have hten' : (tenTo 4 : ℚ) = 10000 := by norm_num [tenTo]
  rw [hten'] at hsum
  rw [hten] at hround
  refine htriangle.trans ((add_le_add hround hsum).trans ?_)
  rw [drift, mul_div_cancel_left₀ _ two_ne_zero]

/-- Results from the same lines in two orders, each put together from the sums of some amounts. They
differ by no more than these sums may, and not at all if none of them loses a digit. -/
structure Compares (lines : List Line) (amounts : List (Line.Amounts → Decimal)) (x y : ℚ) :
    Prop where
  near : |x - y| ≤ amounts.length * drift lines
  eq : (∀ amount ∈ amounts, Lossless lines amount) → x = y

theorem Compares.add (h : Compares lines amounts x y) (h' : Compares lines amounts' x' y') :
    Compares lines (amounts ++ amounts') (x + x') (y + y') where
  near := by
    have hsplit : x + x' - (y + y') = x - y + (x' - y') := by ring
    rw [hsplit, List.length_append, Nat.cast_add, add_mul]
    exact (abs_add_le _ _).trans (add_le_add h.near h'.near)
  eq := by
    intro hlossless
    obtain ⟨hfirst, hsecond⟩ := List.forall_mem_append.mp hlossless
    rw [h.eq hfirst, h'.eq hsecond]

/-- What is charged on lines, amount by amount. -/
def charged : List (Line.Amounts → Decimal) :=
  [(·.gst.central), (·.gst.state), (·.gst.integrated), (·.cess.adValorem), (·.cess.specific),
    (·.cess.stateAdValorem), (·.cess.stateSpecific)]

/-- The amounts that a total is put together from. -/
def paid (includeTax : Bool) : List (Line.Amounts → Decimal) :=
  (·.subTotal) :: if includeTax then charged else []

/-- The amounts that are added up over lines. -/
def summed : List (Line.Amounts → Decimal) :=
  (·.discount) :: paid true

theorem paid_subset_summed (includeTax : Bool) : paid includeTax ⊆ summed := by
  cases includeTax with
  | true => exact List.subset_cons_self _ _
  | false => simp [paid, summed]

/-- How the totals of the same lines in two orders compare. Rounded off totals need not be near to
each other, but they come of exact totals that are. -/
structure Reordered (lines : List Line) (includeTax : Bool) (t u : Totals) : Prop where
  subTotal : Compares lines [(·.subTotal)] t.subTotal.toRat u.subTotal.toRat
  discount : Compares lines [(·.discount)] t.discount.toRat u.discount.toRat
  central : Compares lines [(·.gst.central)] t.gst.central.toRat u.gst.central.toRat
  state : Compares lines [(·.gst.state)] t.gst.state.toRat u.gst.state.toRat
  integrated : Compares lines [(·.gst.integrated)] t.gst.integrated.toRat u.gst.integrated.toRat
  cess : Compares lines [(·.cess.adValorem), (·.cess.specific)] t.cess.toRat u.cess.toRat
  stateCess : Compares lines [(·.cess.stateAdValorem), (·.cess.stateSpecific)] t.stateCess.toRat
    u.stateCess.toRat
  unrounded : Compares lines (paid includeTax) (t.total.toRat - t.roundOff.toRat)
    (u.total.toRat - u.roundOff.toRat)
  total : (∀ amount ∈ paid includeTax, Lossless lines amount) → t.total.toRat = u.total.toRat

section

variable (hcount : lines.length ≤ lineItemsCeiling) (hperm : lines.Perm lines')
include hcount hperm

theorem compares_sumOf
    (hlines : ∀ line ∈ lines, Within lineBound lineBound (amount line.amounts))
    (ha : sumOf lines amount = .ok a) (hb : sumOf lines' amount = .ok b) :
    Compares lines [amount] a.toRat b.toRat where
  near := by
    have hlength := hperm.length_eq
    have hlines' : ∀ line ∈ lines', Within lineBound lineBound (amount line.amounts) :=
      fun line hline => hlines line (hperm.mem_iff.mpr hline)
    have hnear := sumOf_near hcount hlines ha
    have hnear' := sumOf_near (hlength ▸ hcount) hlines' hb
    rw [← worth_perm hperm, abs_sub_comm, drift, ← hlength, ← drift] at hnear'
    have htriangle := abs_sub_le a.toRat (worth lines amount) b.toRat
    rw [List.length_singleton, Nat.cast_one, one_mul]
    linarith
  eq := by
    intro hlossless
    have hamount := hlossless amount List.mem_cons_self
    rw [toRat_sumOf_of_lossless hamount ha, toRat_sumOf_of_lossless (hamount.perm hperm) hb,
      worth_perm hperm]

theorem compares_combined {first second : Line.Amounts → Decimal}
    (hfirst : ∀ line ∈ lines, Within lineBound lineBound (first line.amounts))
    (hsecond : ∀ line ∈ lines, Within lineBound lineBound (second line.amounts))
    (ha : ∃ x y, sumOf lines first = .ok x ∧ sumOf lines second = .ok y ∧ combined x y = .ok a)
    (hb : ∃ x y, sumOf lines' first = .ok x ∧ sumOf lines' second = .ok y ∧
      combined x y = .ok b) :
    Compares lines [first, second] a.toRat b.toRat := by
  have hcount' : lines'.length ≤ lineItemsCeiling := hperm.length_eq ▸ hcount
  obtain ⟨x, y, hx, hy, ha⟩ := ha
  obtain ⟨x', y', hx', hy', hb⟩ := hb
  have hvalue := (combined_exact (sumOf_inCents hcount hfirst hx)
    (sumOf_inCents hcount hsecond hy) (by decide) ha).2
  have hvalue' := (combined_exact
    (sumOf_inCents hcount' (fun line hline => hfirst line (hperm.mem_iff.mpr hline)) hx')
    (sumOf_inCents hcount' (fun line hline => hsecond line (hperm.mem_iff.mpr hline)) hy')
    (by decide) hb).2
  rw [hvalue, hvalue']
  exact (compares_sumOf hcount hperm hfirst hx hx').add (compares_sumOf hcount hperm hsecond hy hy')

theorem Aggregated.reordered (hlines : ∀ line ∈ lines, Bounded line)
    (ht : Aggregated lines shouldRoundOff includeTax t)
    (hu : Aggregated lines' shouldRoundOff includeTax u) : Reordered lines includeTax t u := by
  have hcount' : lines'.length ≤ lineItemsCeiling := hperm.length_eq ▸ hcount
  have hlines' : ∀ line ∈ lines', Bounded line :=
    fun line hline => hlines line (hperm.mem_iff.mpr hline)
  obtain ⟨hcents, hcharges⟩ := ht.inCents hcount hlines
  obtain ⟨hcents', hcharges'⟩ := hu.inCents hcount' hlines'
  obtain ⟨exact, -, hfinal, hexact, hvalue⟩ := ht.exact_total hcents hcharges
  obtain ⟨exact', -, hfinal', hexact', hvalue'⟩ := hu.exact_total hcents' hcharges'
  simp only [Bounded, Line.Amounts.named, List.forall_mem_cons, forall_and] at hlines
  obtain ⟨-, hsub, hdiscount, hcentral, hstate, hintegrated, hadValorem, hspecific,
    hstateAdValorem, hstateSpecific, -⟩ := hlines
  have hsub := compares_sumOf hcount hperm hsub ht.subTotal hu.subTotal
  have hdiscount := compares_sumOf hcount hperm hdiscount ht.discount hu.discount
  have hcentral := compares_sumOf hcount hperm hcentral ht.central hu.central
  have hstate := compares_sumOf hcount hperm hstate ht.state hu.state
  have hintegrated := compares_sumOf hcount hperm hintegrated ht.integrated hu.integrated
  have hcess := compares_combined hcount hperm hadValorem hspecific ht.cess hu.cess
  have hstateCess := compares_combined hcount hperm hstateAdValorem hstateSpecific ht.stateCess
    hu.stateCess
  have htotal : Compares lines (paid includeTax) exact.toRat exact'.toRat := by
    rw [hvalue, hvalue']
    cases includeTax with
    | true =>
      have hall := hsub.add (hcentral.add (hstate.add (hintegrated.add (hcess.add hstateCess))))
      simpa [Line.Gst.toList, paid, charged] using hall
    | false => simpa [paid] using hsub
  refine ⟨hsub, hdiscount, hcentral, hstate, hintegrated, hcess, hstateCess, ?_, ?_⟩
  · rw [settled_exact hexact (by decide) hfinal, settled_exact hexact' (by decide) hfinal']
    exact htotal
  · intro hlossless
    rw [toRat_of_settled hfinal, toRat_of_settled hfinal', htotal.eq hlossless]

end

/-- Totals match if no sum loses a digit. -/
theorem Reordered.matches (h : Reordered lines includeTax t u)
    (hlossless : ∀ amount ∈ summed, Lossless lines amount) : t.Matches u := by
  have heq {amounts : List (Line.Amounts → Decimal)} {x y : ℚ} (hsub : amounts ⊆ summed)
      (hcompares : Compares lines amounts x y) : x = y :=
    hcompares.eq fun amount hamount => hlossless amount (hsub hamount)
  have hpaid := paid_subset_summed includeTax
  have htotal := h.total fun amount hamount => hlossless amount (hpaid hamount)
  have hunrounded := heq hpaid h.unrounded
  refine ⟨heq ?_ h.subTotal, heq ?_ h.discount, heq ?_ h.central, heq ?_ h.state,
    heq ?_ h.integrated, heq ?_ h.cess, heq ?_ h.stateCess, by linarith, htotal⟩
  all_goals simp [summed, paid, charged]

/-- With up to four places, as many lines as any configuration allows lose no digit. -/
theorem lossless_of_hasPlaces (hcount : lines.length ≤ lineItemsCeiling)
    (hlines : ∀ line ∈ lines, Within lineBound lineBound (amount line.amounts))
    (hplaces : ∀ line ∈ lines, HasPlaces 4 (amount line.amounts).toRat) : Lossless lines amount :=
  Fits.of_within (List.forall_mem_map.mpr hplaces) (List.forall_mem_map.mpr hlines)
    (by rwa [List.length_map]) (by decide : lineItemsCeiling * lineBound * tenTo 4 < capacity)

theorem within_of_bounded {line : Line} (h : Bounded line) :
    ∀ amount ∈ summed, Within lineBound lineBound (amount line.amounts) := by
  simp only [Bounded, Line.Amounts.named, List.forall_mem_cons] at h
  obtain ⟨-, hsub, hdiscount, hcentral, hstate, hintegrated, hadValorem, hspecific,
    hstateAdValorem, hstateSpecific, -⟩ := h
  simp only [summed, paid, charged, if_true, List.forall_mem_cons]
  exact ⟨hdiscount, hsub, hcentral, hstate, hintegrated, hadValorem, hspecific, hstateAdValorem,
    hstateSpecific, List.forall_mem_nil _⟩

/-- Lines that pass the check of their amounts, no more than any configuration allows, have totals
in every order. Each is the same in all of them if no digit is lost where its amounts are added up,
so all are if the amounts have no more than four places. -/
theorem aggregate_perm (hcount : lines.length ≤ lineItemsCeiling)
    (hlines : ∀ line ∈ lines, line.amounts.excess? = none) (hperm : lines.Perm lines')
    (shouldRoundOff includeTax : Bool) :
    ∃ t u, aggregate lines shouldRoundOff includeTax = .ok t ∧
      aggregate lines' shouldRoundOff includeTax = .ok u ∧ Reordered lines includeTax t u ∧
      ((∀ amount ∈ summed, ∀ line ∈ lines, HasPlaces 4 (amount line.amounts).toRat) →
        t.Matches u) := by
  have hbounded : ∀ line ∈ lines, Bounded line := fun line hline =>
    Line.within_of_excess?_eq_none (hlines line hline)
  obtain ⟨t, ht⟩ := aggregated_of_bounded hcount hbounded shouldRoundOff includeTax
  obtain ⟨u, hu⟩ := aggregated_of_bounded (hperm.length_eq ▸ hcount)
    (fun line hline => hbounded line (hperm.mem_iff.mpr hline)) shouldRoundOff includeTax
  have hreordered := ht.reordered hcount hperm hbounded hu
  refine ⟨t, u, aggregate_eq_ok.mpr ht, aggregate_eq_ok.mpr hu, hreordered, ?_⟩
  intro hplaces
  apply hreordered.matches
  intro amount hamount
  exact lossless_of_hasPlaces hcount
    (fun line hline => within_of_bounded (hbounded line hline) amount hamount)
    (hplaces amount hamount)

/-- A small amount between two large ones that cancel, and after them. -/
def amidLines (d : Decimal) : List Line :=
  [plainLine Line.maxLineAmount, plainLine d, plainLine (-Line.maxLineAmount)]

def lastLines (d : Decimal) : List Line :=
  [plainLine Line.maxLineAmount, plainLine (-Line.maxLineAmount), plainLine d]

theorem amidLines_perm_lastLines (d : Decimal) : (amidLines d).Perm (lastLines d) :=
  .cons _ (.swap _ _ _)

theorem aggregate_amidLines_perm :
    let short : Decimal := ⟨false, 4949, 4, by decide, Nat.le_add_right 4 24⟩
    (amidLines short).length ≤ lineItemsCeiling ∧
      (∀ line ∈ amidLines short, line.amounts.excess? = none) ∧
      (amidLines short).Perm (lastLines short) ∧
      (∀ amount ∈ summed, ∀ line ∈ amidLines short, (amount line.amounts).scale ≤ 4) ∧
      ∃ t u, aggregate (amidLines short) true true = .ok t ∧
        aggregate (lastLines short) true true = .ok u ∧ t.Matches u ∧
        t.subTotal.toRat = 49 / 100 ∧ t.roundOff.toRat = -49 / 100 := by
  intro short
  have hcount : (amidLines short).length ≤ lineItemsCeiling := by decide
  have hperm := amidLines_perm_lastLines short
  have hlines : ∀ line ∈ amidLines short, line.amounts.excess? = none := by decide +kernel
  have hscale : ∀ amount ∈ summed, ∀ line ∈ amidLines short, (amount line.amounts).scale ≤ 4 := by
    decide +kernel
  have hworth : (aggregate (amidLines short) true true).map
      (fun t => (t.subTotal.toRat, t.roundOff.toRat)) = .ok (49 / 100, -49 / 100) := by
    decide +kernel
  obtain ⟨t, u, ht, hu, -, hmatches⟩ := aggregate_perm hcount hlines hperm true true
  rw [ht] at hworth
  obtain ⟨hsub, hroundOff⟩ := Prod.mk.inj (Except.ok.inj hworth)
  refine ⟨hcount, hlines, hperm, hscale, t, u, ht, hu, ?_, hsub, hroundOff⟩
  exact hmatches fun amount hamount line hline => .of_scale_le (hscale amount hamount line hline)

/-- With more digits, nearly half a cent is rounded up where it meets a large amount, and the whole
total is another one. -/
theorem aggregate_amidLines_differs :
    let long : Decimal := ⟨false, 4949999999999999999999999999, 28, by decide, Nat.le_refl 28⟩
    (∀ line ∈ amidLines long, line.amounts.excess? = none) ∧
      (amidLines long).Perm (lastLines long) ∧
      ∃ t u, aggregate (amidLines long) true true = .ok t ∧
        aggregate (lastLines long) true true = .ok u ∧ ¬ t.Matches u ∧
        (t.subTotal.toRat, t.total.toRat) = (1 / 2, 1) ∧
        (u.subTotal.toRat, u.total.toRat) = (49 / 100, 0) := by
  intro long
  have hlines : ∀ line ∈ amidLines long, line.amounts.excess? = none := by decide +kernel
  have hamid : (aggregate (amidLines long) true true).map
      (fun t => (t.subTotal.toRat, t.total.toRat)) = .ok (1 / 2, 1) := by decide +kernel
  have hlast : (aggregate (lastLines long) true true).map
      (fun t => (t.subTotal.toRat, t.total.toRat)) = .ok (49 / 100, 0) := by decide +kernel
  obtain ⟨t, ht, htworth⟩ := map_eq_ok.mp hamid
  obtain ⟨u, hu, huworth⟩ := map_eq_ok.mp hlast
  refine ⟨hlines, amidLines_perm_lastLines long, t, u, ht, hu, ?_, htworth, huworth⟩
  intro hmatches
  have htotal := hmatches.total
  rw [(Prod.mk.inj htworth).2, (Prod.mk.inj huworth).2] at htotal
  norm_num at htotal

end Invoicing.Document
