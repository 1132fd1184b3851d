import Invoicing.Json.Basic
import Invoicing.Service.Failure
import Invoicing.Service.Target

/-!
Requests to the service and its responses. Every response carries an id: the one
that came with the request, or a new one.
-/
namespace Invoicing.Service

structure Request where
  method : String
  target : String
  id : Option String := none
  contentType : Option String := none
  content : String := ""
  deriving DecidableEq, Repr

/-- The path of a request as it is written. -/
def Request.path (r : Request) : String :=
  String.ofList (pathOf r.target.toList)

/-- The path by which the route of a request is found. -/
def Request.route (r : Request) : String :=
  String.ofList (unescape (pathOf r.target.toList))

inductive RequestId where
  | given (id : String)
  | generated
  deriving DecidableEq, Repr

/-- The characters that an id may have: visible ones of ASCII, spaces and tabs. -/
def isIdChar (c : Char) : Bool :=
  (0x20 ≤ c.toNat && c.toNat < 0x7F) || c = '\t'

/-- The id under which a request is answered. -/
def Request.answerId (r : Request) : RequestId :=
  match r.id with
  | some id => if id ≠ "" ∧ id.toList.all isIdChar then .given id else .generated
  | none => .generated

structure Response where
  status : Nat
  body : Option Json

namespace Response

def ok (body : Json) : Response :=
  ⟨200, some body⟩

/-- A refusal without words. -/
def empty (status : Nat) : Response :=
  ⟨status, none⟩

def ofFailure (f : Failure) : Response :=
  ⟨f.status, some f.body⟩

end Response

end Invoicing.Service
