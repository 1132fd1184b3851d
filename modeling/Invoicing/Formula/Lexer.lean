import Invoicing.Decimal.Numeral
import Invoicing.Formula.Error
import Invoicing.Text.Blank
import Invoicing.Text.Position

/-!
From the text of a formula to its lexemes. White space separates and is passed
over, a symbol is a token by itself, and a longest run of digits and points is
one number. The first place that is neither is the error.
-/
namespace Invoicing.Formula

open Text

def isNumberChar (c : Char) : Bool :=
  c.isDigit || c = '.'

theorem length_dropWhile_isNumberChar {c : Char} (h : isNumberChar c) (cs : List Char) :
    ((c :: cs).dropWhile isNumberChar).length < (c :: cs).length := by
  rw [List.dropWhile_cons_of_pos h, List.length_cons]
  exact Nat.lt_succ_of_le (List.dropWhile_suffix _).length_le

/-- The lexemes of the characters that start at a position. -/
def scan (position : Nat) : List Char → Except FormulaError (List Lexeme)
  | [] => .ok []
  | c :: cs =>
    if isBlank c then scan (position + c.utf8Size) cs
    else
      match Token.ofSymbol? c with
      | some token => (scan (position + c.utf8Size) cs).map (⟨token, position⟩ :: ·)
      | none =>
        if _h : isNumberChar c then
          let run := (c :: cs).takeWhile isNumberChar
          match Decimal.ofPlain? run with
          | none => .error (.invalidNumber (String.ofList run))
          | some value =>
            (scan (position + byteLength run) ((c :: cs).dropWhile isNumberChar)).map
              (⟨.number value, position⟩ :: ·)
        else .error (.unexpectedCharacter c position)
termination_by cs => cs.length
decreasing_by
  · simp
  · simp
  · exact length_dropWhile_isNumberChar _h cs

@[simp] theorem scan_nil (position : Nat) : scan position [] = .ok [] := by
  rw [scan]

/-- The lexemes of a whole text. -/
def lexemes (text : String) : Except FormulaError (List Lexeme) :=
  scan 0 text.toList

end Invoicing.Formula
