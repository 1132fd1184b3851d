import Invoicing.Line.Json
import Invoicing.Proofs.Json.Record
import Invoicing.Proofs.Json.Text

/-!
# Priced lines are read back

A priced line is read back from its JSON form with each of its amounts as that
is read from its text, and the form is read back from its own text.
-/
namespace Invoicing

open Json (Spelled required_decimal nullable_decimal ofDecimal ofOption)

variable {given : List (String × Json)} {line : Line}

namespace Line

def Amounts.reread (a : Amounts) : Amounts where
  base := a.base.reread
  subTotal := a.subTotal.reread
  discount := a.discount.reread
  gst := ⟨a.gst.central.reread, a.gst.state.reread, a.gst.integrated.reread⟩
  cess := ⟨a.cess.adValorem.reread, a.cess.specific.reread, a.cess.stateAdValorem.reread,
    a.cess.stateSpecific.reread⟩
  total := a.total.reread

/-- A priced line as it is read back. -/
def reread (line : Line) : Line where
  rate := line.rate.reread
  quantity := line.quantity.reread
  discount := ⟨line.discount.fixed.map Decimal.reread, line.discount.percentage.map Decimal.reread⟩
  gstRate := line.gstRate.map Decimal.reread
  isInterState := line.isInterState
  cess := ⟨line.cess.adValorem.map Decimal.reread, line.cess.specific.map Decimal.reread,
    line.cess.stateAdValorem.map Decimal.reread, line.cess.stateSpecific.map Decimal.reread⟩
  amounts := line.amounts.reread

/-- The fields of a priced line. -/
def fields (line : Line) : List (String × Json) :=
  termFields line.rate (some line.quantity) line.discount line.gstRate line.isInterState
    line.cess ++ line.amounts.fields

theorem keys_fields (line : Line) :
    Entries.keys line.fields = (termSlots ++ amountSlots).map Json.Slot.name := rfl

theorem nodup_slots : ((termSlots ++ amountSlots).map Json.Slot.name).Nodup := by
  decide

theorem Amounts.ofFields?_of_find {a : Amounts}
    (h : ∀ m ∈ a.fields, Entries.find m.1 given = some m.2) :
    Amounts.ofFields? given = some a.reread := by
  simp only [Amounts.fields, Amounts.named, List.map_cons, List.map_nil, List.forall_mem_cons] at h
  obtain ⟨hbase, hsub, hdiscount, hcentral, hstate, hintegrated, hadValorem, hspecific,
    hstateAdValorem, hstateSpecific, htotal, -⟩ := h
  simp only [Amounts.ofFields?, required_decimal hbase, required_decimal hsub,
    required_decimal hdiscount, required_decimal hcentral, required_decimal hstate,
    required_decimal hintegrated, required_decimal hadValorem, required_decimal hspecific,
    required_decimal hstateAdValorem, required_decimal hstateSpecific, required_decimal htotal,
    Option.bind_eq_bind, Option.bind_some]
  rfl

/-- A line is read from any record in which its fields are found. -/
theorem ofJson?_of_find {v : Json}
    (hrecord : Json.record? (termSlots ++ amountSlots) v = some given)
    (hfind : ∀ m ∈ line.fields, Entries.find m.1 given = some m.2) :
    Line.ofJson? v = some line.reread := by
  obtain ⟨hterms, hamounts⟩ := List.forall_mem_append.mp hfind
  simp only [termFields, List.forall_mem_cons] at hterms
  obtain ⟨hrate, hquantity, hfixed, hpercentage, hgst, hstate, hadValorem, hspecific,
    hstateAdValorem, hstateSpecific, -⟩ := hterms
  have hquantity' := required_decimal (d := line.quantity) hquantity
  have hstate' : Json.defaulted given "isInterState" false Json.bool? = some line.isInterState := by
    rw [Json.defaulted, hstate]
    rfl
  simp only [Line.ofJson?, hrecord, required_decimal hrate, hquantity', Discount.ofFields?,
    nullable_decimal hfixed, nullable_decimal hpercentage, nullable_decimal hgst, hstate',
    CessRates.ofFields?, nullable_decimal hadValorem, nullable_decimal hspecific,
    nullable_decimal hstateAdValorem, nullable_decimal hstateSpecific,
    Amounts.ofFields?_of_find hamounts, Option.bind_eq_bind, Option.bind_some]
  rfl

theorem ofJson?_toJson (line : Line) : Line.ofJson? line.toJson = some line.reread :=
  ofJson?_of_find (Json.record?_record line.keys_fields nodup_slots)
    (Json.find_of_keys line.keys_fields nodup_slots)

theorem spelled_toJson (line : Line) : Spelled line.toJson := by
  have hdecimal (d : Decimal) : Spelled (ofDecimal d) := Json.spelled_text d.toText
  have hoption (d? : Option Decimal) : Spelled (ofOption ofDecimal d?) := by
    cases d? with
    | none => exact Json.spelled_null
    | some d => exact hdecimal d
  have hterms : ∀ m ∈ termFields line.rate (some line.quantity) line.discount line.gstRate
      line.isInterState line.cess, Spelled m.2 := by
    simp only [termFields, List.forall_mem_cons]
    exact ⟨hdecimal _, hdecimal _, hoption _, hoption _, hoption _, Json.spelled_bool _, hoption _,
      hoption _, hoption _, hoption _, List.forall_mem_nil _⟩
  have hamounts : ∀ m ∈ line.amounts.fields, Spelled m.2 := by
    intro m hm
    obtain ⟨e, -, rfl⟩ := List.mem_map.mp hm
    exact hdecimal e.2
  exact Json.spelled_record (List.forall_mem_append.mpr ⟨hterms, hamounts⟩)

end Line

end Invoicing
