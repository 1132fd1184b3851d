import Invoicing.Document.Json
import Invoicing.Json.Reader
import Invoicing.Service.Configuration
import Invoicing.Service.MediaType
import Invoicing.Service.RateLimit

/-!
What the service answers. A request is answered by the route of its method and
path; content has to be JSON of the form that the route asks for.
-/
namespace Invoicing.Service

/-- How a refused document is told. An amount beyond the range of decimals is the fault of none
of the requests. -/
def failureOf : Document.Fault → Failure
  | .overflow o => .internal (Document.Fault.overflow o).message
  | fault => .validation fault.message

/-- The JSON content of a request. -/
def Request.json? (r : Request) : Option Json := do
  let type ← MediaType.ofText? (← r.contentType)
  guard type.isJson
  Json.ofText? r.content

/-- Answers content of one form; other content is a bad request. -/
def answering {α β : Type} (read : Json → Option α) (answer : α → Except Document.Fault β)
    (write : β → Json) (r : Request) : Response :=
  match r.json?.bind read with
  | none => .empty 400
  | some a =>
    match answer a with
    | .ok b => .ok (write b)
    | .error fault => .ofFailure (failureOf fault)

/-- The service is well as long as it answers. -/
def health (now : String) : Response :=
  .ok (.record [("status", .text "healthy"), ("service", .text "billing-engine"),
    ("version", .text "0.1.0"), ("timestamp", .text now)])

def resolveFormulas (limits : Limits) : Request → Response :=
  answering Document.CustomFields.ofJson? (Document.resolveFields limits)
    Template.Resolution.toJson

def calculateLine : Request → Response :=
  answering Document.LineRequest.ofJson? (fun r => Document.priceLine r.item r.includeTax)
    Line.toJson

def aggregateTotals (limits : Limits) : Request → Response :=
  answering Document.TotalsRequest.ofJson?
    (fun r => Document.totalsOf limits r.lines r.shouldRoundOff r.includeTax)
    Document.Totals.toJson

def calculateDocument (limits : Limits) : Request → Response :=
  answering Document.Request.ofJson? (Document.calculate limits) Document.Calculation.toJson

/-- The response to a request; what has no route is not found. -/
def respond (limits : Limits) (now : String) (r : Request) : Response :=
  match r.method, r.route with
  | "GET", "/health" => health now
  | "POST", "/formulas/resolve" => resolveFormulas limits r
  | "POST", "/line-items/calculate" => calculateLine r
  | "POST", "/invoices/totals" => aggregateTotals limits r
  | "POST", "/documents/calculate" => calculateDocument limits r
  | _, _ => .empty 404

/-- The responses to requests that come at one instant, each with its id. -/
def serve (limits : Limits) (quota : Option Quota) (now : String) (rs : List Request) :
    List (RequestId × Response) :=
  let responses :=
    match quota with
    | none => rs.map (respond limits now)
    | some q => q.serve (respond limits now) rs
  (rs.map Request.answerId).zip responses

end Invoicing.Service
