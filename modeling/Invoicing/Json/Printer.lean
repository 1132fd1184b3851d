import Invoicing.Json.Token

/-!
Writing JSON: the lexemes of a value, and their text without any white space.
-/
namespace Invoicing.Json

mutual

/-- The lexemes of a value. -/
def tokens : Json → List Token
  | .array items => .leftBracket :: (itemTokens items ++ [.rightBracket])
  | .object members => .leftBrace :: (memberTokens members ++ [.rightBrace])
  | .null => [.scalar .null]
  | .bool b => [.scalar (.bool b)]
  | .number n => [.scalar (.number n)]
  | .string s => [.scalar (.string s)]

def itemTokens : List Json → List Token
  | [] => []
  | [v] => tokens v
  | v :: w :: rest => tokens v ++ .comma :: itemTokens (w :: rest)

def memberTokens : List (Option String × Json) → List Token
  | [] => []
  | [(k, v)] => .scalar (.string k) :: .colon :: tokens v
  | (k, v) :: m :: rest =>
    .scalar (.string k) :: .colon :: (tokens v ++ .comma :: memberTokens (m :: rest))

end

/-- A quote, a backslash and control characters are escaped. -/
def escape (c : Char) : List Char :=
  if c = '"' then ['\\', '"']
  else if c = '\\' then ['\\', '\\']
  else if c.toNat < 0x20 then
    ['\\', 'u', '0', '0', Nat.digitChar (c.toNat / 16), Nat.digitChar (c.toNat % 16)]
  else [c]

/-- A string that spells no text is written as one unpaired surrogate. -/
def quoted : Option String → List Char
  | some s => '"' :: (s.toList.flatMap escape ++ ['"'])
  | none => ['"', '\\', 'u', 'D', '8', '0', '0', '"']

def Token.lexeme : Token → List Char
  | .leftBrace => ['\x7b']
  | .rightBrace => ['\x7d']
  | .leftBracket => ['[']
  | .rightBracket => [']']
  | .comma => [',']
  | .colon => [':']
  | .scalar (.bool true) => ['t', 'r', 'u', 'e']
  | .scalar (.bool false) => ['f', 'a', 'l', 's', 'e']
  | .scalar (.number n) => n.toList
  | .scalar (.string s) => quoted s
  | .scalar _ => ['n', 'u', 'l', 'l']

def toText (v : Json) : String :=
  String.ofList (v.tokens.flatMap Token.lexeme)

end Invoicing.Json
