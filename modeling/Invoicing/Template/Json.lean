import Invoicing.Json.Record
import Invoicing.Template.Resolution

/-!
The JSON forms of fields, values and diagnostics.
-/
namespace Invoicing.Template

open Json (required nullable defaulted)

/-- The name of a type; an object with that name over null stands for it too. -/
def FieldType.ofJson? (v : Json) : Option FieldType :=
  match v with
  | .string name => name.bind ofName?
  | .object [(name, .null)] => name.bind ofName?
  | _ => none
where
  ofName? : String → Option FieldType
    | "NUMBER" => some .number
    | "TEXT" => some .text
    | "DATE" => some .date
    | "BOOLEAN" => some .boolean
    | "SELECT" => some .select
    | _ => none

def Field.ofJson? (v : Json) : Option Field := do
  let fields ← Json.record? [⟨"id", false⟩, ⟨"type", false⟩, ⟨"formula", true⟩] v
  return {
    id := ← required fields "id" Json.text?
    type := ← required fields "type" FieldType.ofJson?
    entered := ← nullable fields "formula" Json.text? }

def valueOfJson? (v : Json) : Option String := do
  required (← Json.record? [⟨"value", false⟩] v) "value" Json.text?

def Values.ofJson? (v : Json) : Option Values :=
  (Json.entries? valueOfJson? v).map .ofEntries

def Values.toJson (values : Values) : Json :=
  .record (values.entries.map fun (id, value) => (id, .record [("value", .text value)]))

def Diagnostic.toJson : Diagnostic → Json
  | .evaluationFailed id message =>
    .record [("kind", .text "EVALUATION_FAILED"), ("field_id", .text id),
      ("message", .text message)]
  | .cyclicDependency id =>
    .record [("kind", .text "CYCLIC_DEPENDENCY"), ("field_id", .text id)]
  | .blockedByCycle id =>
    .record [("kind", .text "BLOCKED_BY_CYCLE"), ("field_id", .text id)]

def Resolution.toJson (r : Resolution) : Json :=
  .record [("values", r.values.toJson),
    ("diagnostics", .array (r.diagnostics.map Diagnostic.toJson))]

end Invoicing.Template
