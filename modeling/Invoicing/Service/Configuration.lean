import Invoicing.Decimal.Numeral
import Invoicing.Limits
import Invoicing.Service.Failure

/-!
The configuration of the service, read from named variables. A variable that is
not set has a default; the first one that cannot be read is told.
-/
namespace Invoicing.Service

inductive LogFormat where
  | pretty | json
  deriving DecidableEq, Repr

/-- The format of a name, capitals or not. No letter beyond ASCII is a capital of one in these
names. -/
def LogFormat.ofText? (text : String) : Option LogFormat :=
  match String.ofList (text.toList.map Char.toLower) with
  | "pretty" | "text" => some .pretty
  | "json" => some .json
  | _ => none

def LogFormat.name : LogFormat → String
  | .pretty => "pretty"
  | .json => "json"

/-- Without `workers` their number is left to the machine. -/
structure Configuration where
  environment : String
  logLevel : String
  logFormat : LogFormat
  host : String
  port : Nat
  workers : Option Nat
  limits : Limits
  deriving DecidableEq, Repr

namespace Configuration

/-- Why variables are not a configuration. -/
inductive Fault where
  | logFormat (text : String)
  | notANumber (name : String)
  deriving DecidableEq, Repr

def Fault.message : Fault → String
  | .logFormat text => s!"Invalid LOG_FORMAT: {text}"
  | .notANumber name => s!"Invalid {name}"

/-- The number that a variable holds, below the bound. -/
def number? (setting : String → Option String) (name : String) (bound : Nat) :
    Except Fault (Option Nat) :=
  match setting name with
  | none => .ok none
  | some text =>
    match Decimal.natBelow? bound text.toList with
    | some n => .ok (some n)
    | none => .error (.notANumber name)

def logFormatOf (setting : String → Option String) : Except Fault LogFormat :=
  let text := (setting "LOG_FORMAT").getD "pretty"
  match LogFormat.ofText? text with
  | some format => .ok format
  | none => .error (.logFormat text)

/-- The configuration that variables describe. Ports take 16 bits, requests 32, other counts 64. -/
def ofVariables (setting : String → Option String) : Except Fault Configuration := do
  let defaults : Limits := {}
  let logFormat ← logFormatOf setting
  let port ← number? setting "SERVER_PORT" 65536
  let workers ← number? setting "SERVER_WORKERS" 18446744073709551616
  let requests ← number? setting "RATE_LIMIT_PER_MINUTE" 4294967296
  let formulaFields ← number? setting "MAX_FORMULA_FIELDS" 18446744073709551616
  let lineItems ← number? setting "MAX_LINE_ITEMS" 18446744073709551616
  return {
    environment := (setting "APP_ENV").getD "development"
    logLevel := (setting "LOG_LEVEL").getD "info"
    logFormat
    host := (setting "SERVER_HOST").getD "0.0.0.0"
    port := port.getD 8080
    workers
    limits := {
      requestsPerMinute := requests.getD defaults.requestsPerMinute
      formulaFields := formulaFields.getD defaults.formulaFields
      lineItems := lineItems.getD defaults.lineItems } }

/-- The address to listen at. -/
def bindAddress (c : Configuration) : String :=
  s!"{c.host}:{c.port}"

/-- Why a configuration cannot be used. -/
inductive Defect where
  | noPort
  | noWorkers
  | limits (fault : Limits.Fault)
  deriving DecidableEq, Repr

def Defect.message : Defect → String
  | .noPort => "Server port must be greater than 0"
  | .noWorkers => "Server workers must be greater than 0"
  | .limits fault => fault.message

def validate (c : Configuration) : Except Defect Unit :=
  if c.port = 0 then .error .noPort
  else if c.workers = some 0 then .error .noWorkers
  else c.limits.validate.mapError .limits

end Configuration

end Invoicing.Service
