import Invoicing.Document.Json
import Invoicing.Proofs.Line.Json

/-!
# Requests for totals are read back

Priced lines are sent as a record with the flags that go with them. From its
text the request is read back, each of the lines as its own JSON form is read.
-/
namespace Invoicing.Document.TotalsRequest

/-- The fields of a request for totals. -/
def fields (r : TotalsRequest) : List (String × Json) :=
  [("lineItems", .array (r.lines.map Line.toJson)),
    ("shouldRoundOff", .bool r.shouldRoundOff), ("includeTax", .bool r.includeTax)]

/-- The JSON form of a request for totals. -/
def toJson (r : TotalsRequest) : Json :=
  .record r.fields

/-- The request for totals that a text makes. -/
def ofText? (text : String) : Option TotalsRequest :=
  (Json.ofText? text).bind TotalsRequest.ofJson?

theorem spelled_toJson (r : TotalsRequest) : Json.Spelled r.toJson := by
  refine Json.spelled_record ?_
  simp only [fields, List.forall_mem_cons]
  refine ⟨Json.spelled_array ?_, Json.spelled_bool _, Json.spelled_bool _, List.forall_mem_nil _⟩
  intro v hv
  obtain ⟨line, -, rfl⟩ := List.mem_map.mp hv
  exact line.spelled_toJson

/-- The fields that such a request may have. -/
def slots : List Json.Slot :=
  [⟨"lineItems", false⟩, ⟨"shouldRoundOff", true⟩, ⟨"includeTax", true⟩]

theorem ofJson?_toJson (r : TotalsRequest) :
    ofJson? r.toJson = some { r with lines := r.lines.map Line.reread } := by
  have hkeys : Entries.keys r.fields = slots.map Json.Slot.name := rfl
  have hslots : (slots.map Json.Slot.name).Nodup := by decide
  have hrecord : Json.record? slots r.toJson = some r.fields := Json.record?_record hkeys hslots
  have hfind : ∀ m ∈ [("lineItems", Json.array (r.lines.map Line.toJson)),
      ("shouldRoundOff", .bool r.shouldRoundOff), ("includeTax", .bool r.includeTax)],
      Entries.find m.1 r.fields = some m.2 := Json.find_of_keys hkeys hslots
  simp only [List.forall_mem_cons] at hfind
  obtain ⟨hlines, hround, htax, -⟩ := hfind
  have hread : Json.list? Line.ofJson? (.array (r.lines.map Line.toJson)) =
      some (r.lines.map Line.reread) := Json.list?_array fun line _ => line.ofJson?_toJson
  unfold slots at hrecord
  simp only [ofJson?, hrecord, Json.required, hlines, hread, Json.defaulted, hround, htax,
    Json.bool?, Option.bind_eq_bind, Option.bind_some]
  rfl

/-- A request for totals is read back from its text, its lines as each is read back. -/
theorem ofText?_toText (r : TotalsRequest) :
    ofText? r.toJson.toText = some { r with lines := r.lines.map Line.reread } := by
  rw [ofText?, Json.ofText?_toText r.spelled_toJson]
  exact r.ofJson?_toJson

end Invoicing.Document.TotalsRequest
