import Invoicing.Json.Basic
import Invoicing.Text.Hexadecimal

/-!
The lexemes of JSON text. A text is a sequence of lexemes and white space;
strings are read to code units first and to characters after, so that a string
whose units spell no text can still be passed over.
-/
namespace Invoicing.Json

open Text (hexValue?)

inductive Token where
  | leftBrace | rightBrace | leftBracket | rightBracket | comma | colon
  | scalar (value : Json)

def isSpace (c : Char) : Bool :=
  c = ' ' || c = '\t' || c = '\n' || c = '\r'

/-- The code unit written by four hexadecimal digits. -/
def unit? (a b c d : Char) : Option Nat := do
  return (((← hexValue? a) * 16 + (← hexValue? b)) * 16 + (← hexValue? c)) * 16 + (← hexValue? d)

def escaped? : Char → Option Nat
  | '"' => some 0x22
  | '\\' => some 0x5C
  | '/' => some 0x2F
  | 'b' => some 0x08
  | 'f' => some 0x0C
  | 'n' => some 0x0A
  | 'r' => some 0x0D
  | 't' => some 0x09
  | _ => none

/-- The codes of a string up to its closing quote, and the characters behind it. -/
def scanCodes : List Char → Option (List Nat × List Char)
  | [] => none
  | '"' :: rest => some ([], rest)
  | '\\' :: 'u' :: a :: b :: c :: d :: rest => do
    let code ← unit? a b c d
    let (codes, rest) ← scanCodes rest
    return (code :: codes, rest)
  | '\\' :: c :: rest => do
    let code ← escaped? c
    let (codes, rest) ← scanCodes rest
    return (code :: codes, rest)
  | c :: rest =>
    if c = '\\' ∨ c.toNat < 0x20 then none
    else do
      let (codes, rest) ← scanCodes rest
      return (c.toNat :: codes, rest)

theorem scanCodes_length {cs rest : List Char} {codes : List Nat}
    (h : scanCodes cs = some (codes, rest)) : rest.length < cs.length := by
  fun_induction scanCodes cs generalizing codes rest with
  | case1 => simp at h
  | case2 r =>
    obtain ⟨-, rfl⟩ : [] = codes ∧ r = rest := by simpa using h
    simp
  | case3 a b c d r ih =>
    simp only [Option.bind_eq_bind, Option.bind_eq_some_iff] at h
    obtain ⟨_, -, ⟨codes', r'⟩, hr, he⟩ := h
    obtain ⟨-, rfl⟩ : _ ∧ r' = rest := by simpa using he
    have := ih hr
    simp only [List.length_cons]
    omega
  | case4 c r _ ih =>
    simp only [Option.bind_eq_bind, Option.bind_eq_some_iff] at h
    obtain ⟨_, -, ⟨codes', r'⟩, hr, he⟩ := h
    obtain ⟨-, rfl⟩ : _ ∧ r' = rest := by simpa using he
    have := ih hr
    simp only [List.length_cons]
    omega
  | case5 => simp at h
  | case6 c r _ _ _ _ ih =>
    simp only [Option.bind_eq_bind, Option.bind_eq_some_iff] at h
    obtain ⟨⟨codes', r'⟩, hr, he⟩ := h
    obtain ⟨-, rfl⟩ : _ ∧ r' = rest := by simpa using he
    have := ih hr
    simp only [List.length_cons]
    omega

def isHighSurrogate (n : Nat) : Bool :=
  0xD800 ≤ n && n < 0xDC00

def isLowSurrogate (n : Nat) : Bool :=
  0xDC00 ≤ n && n < 0xE000

/-- The characters that codes spell. Surrogates come in pairs of a high and a low one. -/
def spell? : List Nat → Option (List Char)
  | [] => some []
  | n :: codes =>
    if isHighSurrogate n then
      match codes with
      | [] => none
      | low :: codes =>
        if isLowSurrogate low then
          (spell? codes).map (Char.ofNat (0x10000 + (n - 0xD800) * 0x400 + (low - 0xDC00)) :: ·)
        else none
    else if isLowSurrogate n then none
    else (spell? codes).map (Char.ofNat n :: ·)

def isNumeralChar (c : Char) : Bool :=
  c.isDigit || c = '-' || c = '+' || c = '.' || c = 'e' || c = 'E'

def isDigits (cs : List Char) : Bool :=
  !cs.isEmpty && cs.all Char.isDigit

def isExponent : List Char → Bool
  | '+' :: cs => isDigits cs
  | '-' :: cs => isDigits cs
  | cs => isDigits cs

/-- What may follow the whole part of a numeral: a fraction, an exponent, both or nothing. -/
def isTail : List Char → Bool
  | [] => true
  | '.' :: cs =>
    isDigits (cs.takeWhile Char.isDigit) &&
      match cs.dropWhile Char.isDigit with
      | [] => true
      | c :: rest => (c = 'e' || c = 'E') && isExponent rest
  | c :: rest => (c = 'e' || c = 'E') && isExponent rest

/-- A numeral without sign starts with a digit, and with `0` only if that is its whole part. -/
def isUnsignedNumeral : List Char → Bool
  | '0' :: cs => isTail cs
  | c :: cs => c.isDigit && isTail (cs.dropWhile Char.isDigit)
  | [] => false

def isNumeral : List Char → Bool
  | '-' :: cs => isUnsignedNumeral cs
  | cs => isUnsignedNumeral cs

/-- The first lexeme of a text that does not start with white space, and the rest. -/
def Token.next? : List Char → Option (Token × List Char)
  | '\x7b' :: rest => some (.leftBrace, rest)
  | '\x7d' :: rest => some (.rightBrace, rest)
  | '[' :: rest => some (.leftBracket, rest)
  | ']' :: rest => some (.rightBracket, rest)
  | ',' :: rest => some (.comma, rest)
  | ':' :: rest => some (.colon, rest)
  | '"' :: rest => (scanCodes rest).map fun (codes, rest) =>
    (.scalar (.string ((spell? codes).map String.ofList)), rest)
  | 't' :: 'r' :: 'u' :: 'e' :: rest => some (.scalar (.bool true), rest)
  | 'f' :: 'a' :: 'l' :: 's' :: 'e' :: rest => some (.scalar (.bool false), rest)
  | 'n' :: 'u' :: 'l' :: 'l' :: rest => some (.scalar .null, rest)
  | cs =>
    let numeral := cs.takeWhile isNumeralChar
    if isNumeral numeral then
      some (.scalar (.number (String.ofList numeral)), cs.dropWhile isNumeralChar)
    else none

theorem length_dropWhile_lt {p : Char → Bool} {cs : List Char} (h : cs.takeWhile p ≠ []) :
    (cs.dropWhile p).length < cs.length := by
  have := congrArg List.length (List.takeWhile_append_dropWhile (p := p) (l := cs))
  have := List.length_pos_iff.2 h
  simp only [List.length_append] at *
  omega

theorem isNumeral_ne_nil {cs : List Char} (h : isNumeral cs) : cs ≠ [] := by
  rintro rfl
  simp [isNumeral, isUnsignedNumeral] at h

theorem Token.next?_length {cs rest : List Char} {t : Token}
    (h : Token.next? cs = some (t, rest)) : rest.length < cs.length := by
  unfold Token.next? at h
  split at h
  case h_7 r =>
    simp only [Option.map_eq_some_iff, Prod.mk.injEq] at h
    obtain ⟨⟨codes, r'⟩, hr, -, rfl⟩ := h
    exact Nat.lt_succ_of_lt (scanCodes_length hr)
  case h_11 =>
    dsimp only at h
    split at h
    · rename_i hn
      simp only [Option.some.injEq, Prod.mk.injEq] at h
      rw [← h.2]
      exact length_dropWhile_lt (isNumeral_ne_nil hn)
    · simp at h
  all_goals
    simp only [Option.some.injEq, Prod.mk.injEq] at h
    rw [← h.2]
    simp only [List.length_cons]
    omega

/-- The lexemes of a text. -/
def Token.scan (cs : List Char) : Option (List Token) :=
  match cs with
  | [] => some []
  | c :: rest =>
    if isSpace c then Token.scan rest
    else
      match _h : Token.next? (c :: rest) with
      | none => none
      | some (t, rest) => (Token.scan rest).map (t :: ·)
termination_by cs.length
decreasing_by
  · simp
  · exact Token.next?_length _h

end Invoicing.Json
