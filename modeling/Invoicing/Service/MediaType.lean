/-!
Media types: `type/subtype`, a suffix of the subtype behind its last `+`, and
parameters behind semicolons. All names are the same in capitals.
-/
namespace Invoicing.Service

/-- The characters of names in a media type. -/
def isTokenChar (c : Char) : Bool :=
  c.isAlphanum || "!#$%&'*+-.^_\x60|~".toList.contains c

/-- The characters that may stand in a quoted value. -/
def isQuotedChar (c : Char) : Bool :=
  0x20 ≤ c.toNat && c.toNat < 0x7F

/-- What may come next among the parameters of a media type. -/
inductive ParameterState where
  /-- A name may start, after any number of spaces. -/
  | start
  | name
  | valueStart
  | value
  | quotedStart
  | quoted
  /-- A quoted value has ended. -/
  | closed
  deriving DecidableEq, Repr

def ParameterState.step : ParameterState → Char → Option ParameterState
  | .start, c => if c = ' ' then some .start else if isTokenChar c then some .name else none
  | .name, c => if c = '=' then some .valueStart else if isTokenChar c then some .name else none
  | .valueStart, c =>
    if c = '"' then some .quotedStart else if isTokenChar c then some .value else none
  | .value, c => if c = ';' then some .start else if isTokenChar c then some .value else none
  | .quotedStart, c => if isQuotedChar c then some .quoted else none
  | .quoted, c => if c = '"' then some .closed else if isQuotedChar c then some .quoted else none
  | .closed, c => if c = ';' then some .start else if c = ' ' then some .closed else none

/-- Whether characters may stand behind the first semicolon of a media type. -/
def areParameters (cs : List Char) : Bool :=
  match cs.foldlM ParameterState.step .start with
  | some .start | some .valueStart | some .value | some .closed => true
  | _ => false

structure MediaType where
  /-- The subtype up to its last `+`, in small letters. -/
  subtype : List Char
  suffix : Option (List Char)
  deriving DecidableEq, Repr

/-- A subtype and what stands behind its last `+`. A `+` in front is part of the subtype. -/
def splitSuffix (cs : List Char) : MediaType :=
  match cs.reverse.span (· ≠ '+') with
  | (suffix, _ :: c :: subtype) => ⟨(c :: subtype).reverse, some suffix.reverse⟩
  | _ => ⟨cs, none⟩

/-- Reads a media type. -/
def MediaType.ofText? (text : String) : Option MediaType := do
  let cs := text.toList.map Char.toLower
  let type := cs.takeWhile (· ≠ '/')
  let subtype := ((cs.dropWhile (· ≠ '/')).drop 1).takeWhile (· ≠ ';')
  let parameters := ((cs.dropWhile (· ≠ '/')).drop 1).dropWhile (· ≠ ';')
  guard (cs.contains '/')
  guard (type ≠ [] ∧ type.all isTokenChar ∧ subtype.all isTokenChar)
  guard (parameters = [] ∨ subtype ≠ [])
  guard (areParameters (parameters.drop 1))
  return splitSuffix subtype

def json : List Char := ['j', 's', 'o', 'n']

/-- Whether content of this type is JSON. -/
def MediaType.isJson (m : MediaType) : Bool :=
  m.subtype = json || m.suffix = some json

end Invoicing.Service
