import Invoicing.Entries
import Invoicing.Json.Basic
import Invoicing.Decimal.Numeral

/-!
Records in JSON. A record is an object, whose members may come in any order and
among others, or an array of its fields in their order. Each reader below gives
`none` for a value of another form.
-/
namespace Invoicing.Json

/-- A field of a record. A record in array form may end before fields that are `optional`. -/
structure Slot where
  name : String
  optional : Bool := false

/-- The named members of an object, if all of its keys are texts. -/
def named? (members : List (Option String × Json)) : Option (List (String × Json)) :=
  members.mapM fun (key, v) => key.map (·, v)

/-- The fields of a record that are present. A field that is given twice makes it none. -/
def record? (slots : List Slot) : Json → Option (List (String × Json))
  | .object members => do
    let known := (← named? members).filter fun m => slots.any (·.name = m.1)
    guard (Entries.keys known).Nodup
    return known
  | .array items => do
    guard (items.length ≤ slots.length ∧ (slots.drop items.length).all Slot.optional)
    return (slots.map Slot.name).zip items
  | _ => none

variable {α : Type}

def required (fields : List (String × Json)) (name : String) (read : Json → Option α) :
    Option α :=
  (Entries.find name fields).bind read

/-- A field that may be absent or null. -/
def nullable (fields : List (String × Json)) (name : String) (read : Json → Option α) :
    Option (Option α) :=
  match Entries.find name fields with
  | none | some .null => some none
  | some v => (read v).map some

/-- A field that may be absent, but not null. -/
def defaulted (fields : List (String × Json)) (name : String) (otherwise : α)
    (read : Json → Option α) : Option α :=
  match Entries.find name fields with
  | none => some otherwise
  | some v => read v

def bool? : Json → Option Bool
  | .bool b => some b
  | _ => none

def text? : Json → Option String
  | .string s => s
  | _ => none

/-- A whole number below the bound, written in digits alone. -/
def natBelow? (bound : Nat) : Json → Option Nat
  | .number numeral => Decimal.digitsBelow? bound numeral.toList
  | _ => none

def list? (read : Json → Option α) : Json → Option (List α)
  | .array items => items.mapM read
  | _ => none

/-- The entries of a map. A key that is given twice has two entries. -/
def entries? (read : Json → Option α) : Json → Option (List (String × α))
  | .object members => do
    (← named? members).mapM fun (key, v) => (read v).map (key, ·)
  | _ => none

/-- An amount, as a string or as a number; either is read by its text. -/
def decimal? : Json → Option Decimal
  | .string s => s.bind Decimal.ofText?
  | .number numeral => Decimal.ofText? numeral
  | _ => none

def ofDecimal (d : Decimal) : Json :=
  text d.toText

/-- An absent value is null. -/
def ofOption (write : α → Json) : Option α → Json
  | none => null
  | some a => write a

end Invoicing.Json
