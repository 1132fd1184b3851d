import Invoicing.Decimal.Basic

/-!
Lines of a document. A line is requested by its rate, its quantity and its
terms; once it is checked it can be priced, and a priced line carries every
amount that was worked out. Rates of taxes and discounts are percentages.
-/
namespace Invoicing

/-- The four components of cess, charged by the union and by the state. -/
structure Cess (α : Type) where
  adValorem : α
  specific : α
  stateAdValorem : α
  stateSpecific : α
  deriving DecidableEq, Repr

/-- A discount of a fixed amount and of a percentage. -/
structure Discount where
  fixed : Option Decimal := none
  percentage : Option Decimal := none
  deriving DecidableEq

/-- Rates of cess, each of which may be absent. -/
abbrev CessRates := Cess (Option Decimal)

def CessRates.none : CessRates :=
  ⟨Option.none, Option.none, Option.none, Option.none⟩

namespace Line

/-- A line as it is asked for. -/
structure Request where
  rate : Option Decimal
  quantity : Option Decimal
  discount : Discount
  gstRate : Option Decimal
  isInterState : Option Bool
  cess : CessRates
  deriving DecidableEq

/-- A line ready to be priced. -/
structure Input where
  rate : Decimal
  quantity : Option Decimal
  discount : Discount := {}
  gstRate : Option Decimal := none
  isInterState : Bool := false
  cess : CessRates := .none
  deriving DecidableEq

/-- Goods and services tax: within a state one half each to the union and the state, between
states all of it as one. -/
structure Gst where
  central : Decimal
  state : Decimal
  integrated : Decimal
  deriving DecidableEq

/-- What was worked out for a line. -/
structure Amounts where
  base : Decimal
  subTotal : Decimal
  discount : Decimal
  gst : Gst
  cess : Cess Decimal
  total : Decimal
  deriving DecidableEq

end Line

/-- A priced line. -/
structure Line where
  rate : Decimal
  quantity : Decimal
  discount : Discount
  gstRate : Option Decimal
  isInterState : Bool
  cess : CessRates
  amounts : Line.Amounts
  deriving DecidableEq

namespace Line.Amounts

/-- The amounts of a priced line by their names. -/
def named (a : Amounts) : List (String × Decimal) :=
  [("baseAmount", a.base),
    ("subTotal", a.subTotal),
    ("discountAmount", a.discount),
    ("cgstAmount", a.gst.central),
    ("sgstAmount", a.gst.state),
    ("igstAmount", a.gst.integrated),
    ("cessAdValoremAmount", a.cess.adValorem),
    ("cessSpecificAmount", a.cess.specific),
    ("stateCessAdValoremAmount", a.cess.stateAdValorem),
    ("stateCessSpecificAmount", a.cess.stateSpecific),
    ("totalAmount", a.total)]

end Line.Amounts

/-- The amounts of a cess in the order in which they are charged. -/
def Cess.toList {α : Type} (c : Cess α) : List α :=
  [c.adValorem, c.specific, c.stateAdValorem, c.stateSpecific]

/-- The amounts of the tax in the order in which they are charged. -/
def Line.Gst.toList (g : Line.Gst) : List Decimal :=
  [g.central, g.state, g.integrated]

end Invoicing
