/-!
JSON values as they are exchanged. Numbers keep the numeral they were written
with, objects keep their members in order and with repetitions, so that a reader
of records can refuse what is ambiguous.
-/
namespace Invoicing

inductive Json where
  | null
  | bool (value : Bool)
  | number (numeral : String)
  /-- A string; `none` stands for escapes that spell no text, which is an unpaired surrogate. -/
  | string (text : Option String)
  | array (items : List Json)
  | object (members : List (Option String × Json))

namespace Json

instance : Inhabited Json := ⟨null⟩

def text (s : String) : Json :=
  string (some s)

def ofNat (n : Nat) : Json :=
  number (String.ofList (Nat.toDigits 10 n))

/-- The object of named members. -/
def record (members : List (String × Json)) : Json :=
  object (members.map fun m => (some m.1, m.2))

end Json

end Invoicing
