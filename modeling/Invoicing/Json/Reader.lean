import Invoicing.Json.Token

/-!
Reading JSON. The lexemes drive a pushdown machine whose stack holds the arrays
and objects that are still open; a text is a value if the machine ends with that
value and nothing open.
-/
namespace Invoicing.Json

/-- An array or object that is open, its last item or member still to come. -/
inductive Frame where
  | items (done : List Json)
  | members (done : List (Option String × Json)) (key : Option String)

/-- What the machine waits for. Items and members that are done stand in reverse. -/
inductive State where
  | value (outer : List Frame)
  | firstItem (outer : List Frame)
  | firstKey (outer : List Frame)
  | nextKey (done : List (Option String × Json)) (outer : List Frame)
  | colon (done : List (Option String × Json)) (key : Option String) (outer : List Frame)
  | afterItem (done : List Json) (outer : List Frame)
  | afterMember (done : List (Option String × Json)) (outer : List Frame)
  | finished (value : Json)

/-- A value that is complete goes into the innermost open frame. -/
def State.give (v : Json) : List Frame → State
  | [] => .finished v
  | .items done :: outer => .afterItem (v :: done) outer
  | .members done key :: outer => .afterMember ((key, v) :: done) outer

/-- A value starts. -/
def State.start (outer : List Frame) : Token → Option State
  | .scalar v => some (give v outer)
  | .leftBracket => some (.firstItem outer)
  | .leftBrace => some (.firstKey outer)
  | _ => none

def State.step : State → Token → Option State
  | .value outer, t => start outer t
  | .firstItem outer, .rightBracket => some (give (.array []) outer)
  | .firstItem outer, t => start (.items [] :: outer) t
  | .firstKey outer, .rightBrace => some (give (.object []) outer)
  | .firstKey outer, .scalar (.string key) => some (.colon [] key outer)
  | .nextKey done outer, .scalar (.string key) => some (.colon done key outer)
  | .colon done key outer, .colon => some (.value (.members done key :: outer))
  | .afterItem done outer, .comma => some (.value (.items done :: outer))
  | .afterItem done outer, .rightBracket => some (give (.array done.reverse) outer)
  | .afterMember done outer, .comma => some (.nextKey done outer)
  | .afterMember done outer, .rightBrace => some (give (.object done.reverse) outer)
  | _, _ => none

def State.run (s : State) (ts : List Token) : Option State :=
  ts.foldlM State.step s

@[simp] theorem State.run_nil (s : State) : s.run [] = some s := rfl

@[simp] theorem State.run_cons (s : State) (t : Token) (ts : List Token) :
    s.run (t :: ts) = (s.step t).bind (·.run ts) := by
  simp [run]

theorem State.run_append (s : State) (ts us : List Token) :
    s.run (ts ++ us) = (s.run ts).bind (·.run us) := by
  simp [run]

/-- The value that lexemes write, if they write one. -/
def ofTokens? (ts : List Token) : Option Json :=
  match (State.value []).run ts with
  | some (.finished v) => some v
  | _ => none

/-- The value that a text writes, if it writes one. -/
def ofText? (text : String) : Option Json :=
  (Token.scan text.toList).bind ofTokens?

end Invoicing.Json
