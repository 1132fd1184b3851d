import Invoicing.Line.Validation
import Invoicing.Proofs.Success

/-!
# Which requests are accepted

A request is accepted if it has a rate and if all its numbers lie between zero
and their limits. The line to be priced holds the numbers of the request as they
are.
-/
namespace Invoicing.Line

/-- A number that may be left out and is otherwise between zero and a limit. -/
def Allowed (limit : Decimal) (value? : Option Decimal) : Prop :=
  ∀ value ∈ value?, Decimal.zero ≤ value ∧ value ≤ limit

theorem allowed_none (limit : Decimal) : Allowed limit none := by
  intro value hv
  cases hv

theorem allowed_some {limit value : Decimal} :
    Allowed limit (some value) ↔ ¬ value < .zero ∧ ¬ limit < value := by
  rw [← Decimal.not_le, ← Decimal.not_le, Classical.not_not, Classical.not_not]
  simp [Allowed]

theorem checkAmount_eq_ok {name : String} {limit : Decimal} {value? : Option Decimal} :
    checkAmount name limit value? = .ok () ↔ Allowed limit value? := by
  cases value? with
  | none =>
    constructor
    · intro _; exact allowed_none limit
    · intro _; rfl
  | some value =>
    rw [checkAmount, ite_error_eq_ok, ite_error_eq_ok, allowed_some]
    constructor
    · intro ⟨hlow, hhigh, _⟩; exact ⟨hlow, hhigh⟩
    · intro ⟨hlow, hhigh⟩; exact ⟨hlow, hhigh, rfl⟩

theorem checkPercentage_eq_ok {name : String} {value? : Option Decimal} :
    checkPercentage name value? = .ok () ↔ Allowed Money.hundred value? := by
  cases value? with
  | none =>
    constructor
    · intro _; exact allowed_none Money.hundred
    · intro _; rfl
  | some value =>
    rw [checkPercentage, ite_error_eq_ok, not_or, allowed_some]
    constructor
    · intro h; exact h.1
    · intro h; exact ⟨h, rfl⟩

/-- Every number of a line is within its limits. -/
structure Input.Acceptable (item : Input) : Prop where
  rate : Allowed maxUnitAmount (some item.rate)
  quantity : Allowed maxQuantity item.quantity
  fixedDiscount : Allowed maxUnitAmount item.discount.fixed
  percentageDiscount : Allowed Money.hundred item.discount.percentage
  gstRate : Allowed Money.hundred item.gstRate
  cess : ∀ rate ∈ item.cess.toList, Allowed Money.hundred rate

/-- The line that is asked for at some rate. -/
def Request.item (r : Request) (rate : Decimal) : Input where
  rate := rate
  quantity := r.quantity
  discount := r.discount
  gstRate := r.gstRate
  isInterState := r.isInterState.getD false
  cess := r.cess

theorem percentages_allowed_iff {r : Request} :
    (∀ e ∈ r.percentages, Allowed Money.hundred e.2) ↔
      Allowed Money.hundred r.discount.percentage ∧ Allowed Money.hundred r.gstRate ∧
        ∀ rate ∈ r.cess.toList, Allowed Money.hundred rate := by
  simp only [Request.percentages, Cess.toList, List.forall_mem_cons, List.not_mem_nil,
    false_implies, implies_true]

theorem validate_eq_ok {r : Request} {item : Input} :
    r.validate = .ok item ↔ ∃ rate, r.rate = some rate ∧ r.item rate = item ∧ item.Acceptable := by
  unfold Request.validate
  cases hrate : r.rate with
  | none =>
    constructor
    · intro h; cases h
    · intro ⟨rate, h, _⟩; cases h
  | some rate =>
    simp only [bind_eq_ok]
    constructor
    · intro ⟨_, hrate, _, hunit, _, hquantity, _, hfixed, _, hpercent, hitem⟩
      cases hrate
      cases hitem
      have hallowed := forM_eq_ok.mp hpercent
      simp only [checkPercentage_eq_ok] at hallowed
      obtain ⟨hdiscount, hgst, hcess⟩ := percentages_allowed_iff.mp hallowed
      exact ⟨rate, rfl, rfl, checkAmount_eq_ok.mp hunit, checkAmount_eq_ok.mp hquantity,
        checkAmount_eq_ok.mp hfixed, hdiscount, hgst, hcess⟩
    · intro ⟨_, hrate, hitem, h⟩
      cases hrate
      subst hitem
      have hallowed := percentages_allowed_iff.mpr ⟨h.percentageDiscount, h.gstRate, h.cess⟩
      have hpercent : ∀ e ∈ r.percentages, checkPercentage e.1 e.2 = .ok () := by
        intro e he
        exact checkPercentage_eq_ok.mpr (hallowed e he)
      exact ⟨rate, rfl, (), checkAmount_eq_ok.mpr h.rate, (), checkAmount_eq_ok.mpr h.quantity,
        (), checkAmount_eq_ok.mpr h.fixedDiscount, (), forM_eq_ok.mpr hpercent, rfl⟩

end Invoicing.Line
