import Invoicing.Json.Basic

/-!
How the service tells that a request cannot be answered.
-/
namespace Invoicing.Service

inductive Failure where
  | validation (message : String)
  | rateLimitExceeded (message : String)
  | configuration (message : String)
  | json (message : String)
  | internal (message : String)
  deriving DecidableEq, Repr

namespace Failure

def message : Failure → String
  | .validation message => s!"Validation error: {message}"
  | .rateLimitExceeded message => s!"Rate limit exceeded: {message}"
  | .configuration message => s!"Configuration error: {message}"
  | .json message => s!"JSON error: {message}"
  | .internal message => s!"Internal error: {message}"

/-- The status of the response. -/
def status : Failure → Nat
  | .validation _ | .json _ => 400
  | .rateLimitExceeded _ => 429
  | .configuration _ | .internal _ => 500

/-- The body of the response. -/
def body (f : Failure) : Json :=
  .record [("error", .record [("message", .text f.message), ("code", .ofNat f.status)])]

end Failure

end Invoicing.Service
