import Invoicing.Formula.Substitution
import Invoicing.Template.Dependency
import Invoicing.Template.Values

/-!
Computing the fields of a record. Every formula sees the values computed before
it; one that cannot be evaluated stores a fallback, and fields on a cycle or
behind one keep what they had. Whatever did not go as defined is told in a
diagnostic.
-/
namespace Invoicing.Template

open Formula (FormulaError Vocabulary)

inductive Diagnostic where
  | evaluationFailed (id message : String)
  | cyclicDependency (id : String)
  | blockedByCycle (id : String)
  deriving DecidableEq, Repr

/-- The field that a diagnostic is about. -/
def Diagnostic.id : Diagnostic → String
  | .evaluationFailed id _ | .cyclicDependency id | .blockedByCycle id => id

def isBlankText (text : String) : Bool :=
  Text.trim text = ""

/-- What a defined field starts from: its stored value, and `0` for a number without one or with
a blank one. -/
def initial? (f : Field) (stored : Option String) : Option String :=
  if f.type = .number then some ((stored.filter (!isBlankText ·)).getD Formula.fallback)
  else stored

/-- The values that the defined fields start from. -/
def initialValues (fields : List Field) (stored : Values) : Values :=
  fields.foldl (fun values f =>
    match initial? f (stored.get? f.id) with
    | some value => values.insert f.id value
    | none => values) .empty

/-- The values of a record while its fields are computed, and the failures so far. -/
structure Progress where
  values : Values
  failures : List Diagnostic

/-- Computes one field. -/
def computeField (fields : List Field) (v : Vocabulary) (p : Progress) (id : String) : Progress :=
  match formula? fields id with
  | none => p
  | some formula =>
    match Formula.evaluate v p.values.get? formula with
    | .ok value => { p with values := p.values.insert id value }
    | .error e =>
      ⟨p.values.insert id Formula.fallback, p.failures ++ [.evaluationFailed id e.message]⟩

structure Resolution where
  values : Values
  diagnostics : List Diagnostic

namespace Resolution

/-- Whether all went as defined. -/
def isClean (r : Resolution) : Bool :=
  r.diagnostics.isEmpty

end Resolution

/-- Computes all fields of a record. Values of ids that are not defined are passed on. -/
def resolve (fields : List Field) (stored : Values) : Resolution :=
  let schedule := evaluationOrder fields
  let computed :=
    schedule.order.foldl (computeField fields (vocabulary fields)) ⟨initialValues fields stored, []⟩
  { values := stored.insertAll computed.values.entries
    diagnostics := computed.failures
      ++ schedule.cyclic.map .cyclicDependency
      ++ schedule.blocked.map .blockedByCycle }

end Invoicing.Template
