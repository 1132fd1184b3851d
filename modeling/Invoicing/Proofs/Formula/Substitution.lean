import Invoicing.Formula.Substitution
import Invoicing.Proofs.Formula.Nesting
import Invoicing.Proofs.Formula.Scanning
import Invoicing.Proofs.Formula.Words

/-!
# Values in place of references

The text that a formula is evaluated as has values in parentheses where the
formula has references. It comes to the same as the formula itself does if each
reference is read as a number, whatever operators or signs stand beside it and
however the value is made up, as long as the nesting limit has room for it.
-/
namespace Invoicing.Formula

open Text

variable {value? : String → Option String} {amount : String → Decimal} {d : Decimal} {s t : State}
  {ps : List Piece}

/-- A part of a formula: a lexeme of its own, or a reference. -/
inductive Piece where
  | own (l : Lexeme)
  | reference (r : Reference)
  deriving DecidableEq

/-- The parts of the characters from `position` on, with the references to come. -/
def piecesFrom (position : Nat) (text : List Char) :
    List Reference → Except FormulaError (List Piece)
  | [] => (scan position text).map (·.map .own)
  | r :: rs => do
    let before ← scan position (takeBytes (r.start - position) text)
    let after ← piecesFrom r.stop (dropBytes (r.stop - position) text) rs
    return before.map .own ++ .reference r :: after

/-- The parts of a formula. -/
def pieces (v : Vocabulary) (formula : String) : Except FormulaError (List Piece) :=
  piecesFrom 0 formula.toList (v.references formula)

/-- A part as a single lexeme. A reference is a number. -/
def Piece.lexeme (amount : String → Decimal) : Piece → Lexeme
  | .own l => l
  | .reference r => ⟨.number (amount r.id), r.start⟩

/-- The lexemes of the value of an id, if it can be taken apart. -/
def valueLexemes (value? : String → Option String) (id : String) : List Lexeme :=
  (((value? id).map trim).bind fun text => (lexemes text).toOption).getD []

/-- The tokens of a part with a value in place of a reference. -/
def Piece.substituted (value? : String → Option String) : Piece → List Token
  | .own l => [l.token]
  | .reference r =>
    .leftParen :: ((valueLexemes value? r.id).map Lexeme.token ++ [.rightParen])

/-- The value of an id is an expression that comes to its amount. -/
def Evaluates (value? : String → Option String) (amount : String → Decimal) (id : String) : Prop :=
  ∃ text, value? id = some text ∧ evaluateExpression (trim text) = .ok (amount id)

/-- Where the evaluator comes to a reference, the nesting limit has room for parentheses and for
the nesting of its value. -/
def HasRoom (value? : String → Option String) (amount : String → Decimal) (s : State)
    (ps : List Piece) : Prop :=
  ∀ e ∈ ps.zip (s.trace (ps.map (Piece.lexeme amount))), ∀ r, e.1 = .reference r →
    e.2.depth + 1 + nesting (valueLexemes value? r.id) ≤ maxNesting

theorem evaluates_iff {id : String} : Evaluates value? amount id ↔
    ∃ text, value? id = some text ∧ lexemes (trim text) = .ok (valueLexemes value? id) ∧
      parse (valueLexemes value? id) = .ok (amount id) := by
  unfold Evaluates
  refine exists_congr fun text => and_congr_right fun hvalue => ?_
  have hlexemes : valueLexemes value? id = ((lexemes (trim text)).toOption).getD [] := by
    rw [valueLexemes, hvalue]
    rfl
  rw [evaluateExpression, bind_eq_ok, hlexemes]
  constructor
  · rintro ⟨ls, hls, hparse⟩
    rw [hls]
    exact ⟨rfl, hparse⟩
  · rintro ⟨hls, hparse⟩
    exact ⟨_, hls, hparse⟩

theorem flatMap_own (ls : List Lexeme) :
    (ls.map Piece.own).flatMap (Piece.substituted value?) = ls.map Lexeme.token := by
  induction ls with
  | nil => rfl
  | cons l ls ih => exact congrArg (l.token :: ·) ih

/-- A value in parentheses is taken apart by itself, and so is what stands on either side. -/
theorem scans_parenthesized {before rest : List Char} {value : String} {ts ws : List Token}
    (hvalue : Scans (trimChars value.toList) ws) :
    Scans (before ++ parenthesized value ++ rest) ts ↔ ∃ us vs, Scans before us ∧ Scans rest vs ∧
      us ++ (.leftParen :: (ws ++ [.rightParen]) ++ vs) = ts := by
  have hopen : Token.ofSymbol? '(' = some .leftParen := rfl
  have hclose : Token.ofSymbol? ')' = some .rightParen := rfl
  have hchars : before ++ parenthesized value ++ rest =
      before ++ '(' :: (trimChars value.toList ++ ')' :: rest) := by
    simp [parenthesized]
  rw [hchars]
  constructor
  · intro h
    obtain ⟨us, behind, hbefore, hbehind, rfl⟩ := h.of_append_symbol hopen
    obtain ⟨inside, vs, hinside, hrest, rfl⟩ := hbehind.of_append_symbol hclose
    obtain rfl := hvalue.unique hinside
    exact ⟨us, vs, hbefore, hrest, by simp⟩
  · intro ⟨us, vs, hbefore, hrest, hts⟩
    have h := hbefore.append_symbol hopen (hvalue.append_symbol hclose hrest)
    rw [← hts]
    simpa using h

/-- The text with the values is taken apart as the formula is, with the tokens of the values in
parentheses in between. -/
theorem scans_splice (position : Nat) (text : List Char) {rs : List Reference}
    (hvalues : ∀ r ∈ rs, Evaluates value? amount r.id) :
    ∃ chars, splice value? position text rs = .ok chars ∧ ∀ ts, Scans chars ts ↔
      ∃ ps, piecesFrom position text rs = .ok ps ∧ ps.flatMap (Piece.substituted value?) = ts := by
  induction rs generalizing position text with
  | nil =>
    refine ⟨text, rfl, fun ts => ?_⟩
    constructor
    · intro h
      obtain ⟨ls, hls, rfl⟩ := scan_of_scans h position
      exact ⟨ls.map .own, map_eq_ok.mpr ⟨ls, hls, rfl⟩, flatMap_own ls⟩
    · intro ⟨ps, hps, hts⟩
      obtain ⟨ls, hls, rfl⟩ := map_eq_ok.mp hps
      rw [← hts, flatMap_own]
      exact scans_of_scan hls
  | cons r rs ih =>
    obtain ⟨hr, hrs⟩ := List.forall_mem_cons.mp hvalues
    obtain ⟨value, hvalue, hinner, -⟩ := evaluates_iff.mp hr
    obtain ⟨rest, hrest, hscans⟩ := ih r.stop (dropBytes (r.stop - position) text) hrs
    have hvalueScans : Scans (trimChars value.toList)
        ((valueLexemes value? r.id).map Lexeme.token) := by
      rw [← toList_trim]
      exact scans_of_scan hinner
    let before := takeBytes (r.start - position) text
    refine ⟨before ++ parenthesized value ++ rest, ?_, fun ts => ?_⟩
    · simp only [splice, hvalue]
      exact map_eq_ok.mpr ⟨rest, hrest, rfl⟩
    rw [scans_parenthesized hvalueScans]
    constructor
    · intro ⟨us, vs, hbefore, hbehind, hts⟩
      obtain ⟨ls, hls, rfl⟩ := scan_of_scans hbefore position
      obtain ⟨ps, hps, rfl⟩ := (hscans vs).mp hbehind
      refine ⟨ls.map .own ++ .reference r :: ps,
        bind_eq_ok.mpr ⟨ls, hls, bind_eq_ok.mpr ⟨ps, hps, rfl⟩⟩, ?_⟩
      rw [List.flatMap_append, flatMap_own, List.flatMap_cons]
      exact hts
    · intro ⟨ps, hps, hts⟩
      obtain ⟨ls, hls, hps⟩ := bind_eq_ok.mp hps
      obtain ⟨after, hafter, hps⟩ := bind_eq_ok.mp hps
      cases hps
      rw [List.flatMap_append, flatMap_own, List.flatMap_cons] at hts
      exact ⟨_, _, scans_of_scan hls, (hscans _).mpr ⟨after, hafter, rfl⟩, hts⟩

theorem mem_of_mem_piecesFrom {position : Nat} {text : List Char} {rs : List Reference}
    (h : piecesFrom position text rs = .ok ps) {r : Reference} (hr : .reference r ∈ ps) :
    r ∈ rs := by
  induction rs generalizing position text ps with
  | nil =>
    obtain ⟨ls, -, rfl⟩ := map_eq_ok.mp h
    simp at hr
  | cons r' rs ih =>
    obtain ⟨ls, -, h⟩ := bind_eq_ok.mp h
    obtain ⟨after, hafter, h⟩ := bind_eq_ok.mp h
    cases h
    simp only [List.mem_append, List.mem_map, reduceCtorEq, and_false, exists_false, false_or,
      List.mem_cons, Piece.reference.injEq] at hr
    rcases hr with rfl | hr
    · exact List.mem_cons_self
    · exact List.mem_cons_of_mem r' (ih hafter hr)

theorem HasRoom.head {r : Reference} (h : HasRoom value? amount s (.reference r :: ps)) :
    s.depth + 1 + nesting (valueLexemes value? r.id) ≤ maxNesting := by
  obtain ⟨rest, hrest⟩ := s.trace_eq_cons ((Piece.reference r :: ps).map (Piece.lexeme amount))
  refine h (.reference r, s) ?_ r rfl
  rw [hrest]
  exact List.mem_cons_self

theorem HasRoom.tail {p : Piece} (h : HasRoom value? amount s (p :: ps))
    (hstep : Step s (p.lexeme amount).token t) : HasRoom value? amount t ps := by
  intro e he r hr
  refine h e ?_ r hr
  rw [List.map_cons, State.trace_cons hstep, List.zip_cons_cons]
  exact List.mem_cons_of_mem _ he

/-- There is room for a value everywhere if there is where the formula is nested most. -/
theorem HasRoom.of_nesting (h : ∀ r, .reference r ∈ ps →
    nesting (ps.map (Piece.lexeme amount)) + 1 + nesting (valueLexemes value? r.id) ≤
      maxNesting) : HasRoom value? amount (.operand []) ps := by
  intro e he r hr
  obtain ⟨hp, hs⟩ := List.of_mem_zip he
  have hdepth := depth_le_nesting hs
  have hr := h r (hr ▸ hp)
  omega

/-- The evaluator comes through the values in parentheses as it does through the numbers. -/
theorem steps_substituted_iff (hvalues : ∀ r, .reference r ∈ ps → Evaluates value? amount r.id)
    (hroom : HasRoom value? amount s ps) :
    Steps s (ps.flatMap (Piece.substituted value?)) t ↔
      Steps s ((ps.map (Piece.lexeme amount)).map Lexeme.token) t := by
  induction ps generalizing s with
  | nil => exact Iff.rfl
  | cons p ps ih =>
    have hrest : ∀ u, Step s (p.lexeme amount).token u →
        (Steps u (ps.flatMap (Piece.substituted value?)) t ↔
          Steps u ((ps.map (Piece.lexeme amount)).map Lexeme.token) t) := by
      intro u hstep
      exact ih (fun r hr => hvalues r (List.mem_cons_of_mem p hr)) (hroom.tail hstep)
    have hfirst : ∀ u, Steps s (p.substituted value?) u ↔ Step s (p.lexeme amount).token u := by
      intro u
      cases p with
      | own l =>
        rw [Piece.substituted, steps_cons_iff]
        simp only [steps_nil_iff, exists_eq_right]
        rfl
      | reference r =>
        obtain ⟨text, -, -, hparse⟩ := evaluates_iff.mp (hvalues r List.mem_cons_self)
        exact steps_group_iff hparse hroom.head
    -- The first part leads to one state on either side, from which the others are alike.
    rw [List.flatMap_cons, steps_append_iff, List.map_cons, List.map_cons, steps_cons_iff]
    simp only [hfirst]
    exact exists_congr fun u => and_congr_right (hrest u)

/-- Evaluating a formula with values in place of its references comes to what the formula itself
comes to with each reference as one number, and to nothing if that comes to nothing. -/
theorem evaluate_substitute_iff {ids : List String} {formula : String}
    (hvalues : ∀ r ∈ (Vocabulary.ofIds ids).references formula, Evaluates value? amount r.id)
    (hroom : ∀ ps, pieces (.ofIds ids) formula = .ok ps →
      HasRoom value? amount (.operand []) ps) :
    (substitute (.ofIds ids) value? formula >>= evaluateExpression) = .ok d ↔
      (pieces (.ofIds ids) formula >>= fun ps => parse (ps.map (Piece.lexeme amount))) = .ok d := by
  obtain ⟨chars, hsplice, hscans⟩ := scans_splice 0 formula.toList hvalues
  have hsubstitute : substitute (.ofIds ids) value? formula = .ok (String.ofList chars) :=
    map_eq_ok.mpr ⟨chars, hsplice, rfl⟩
  have hsteps : ∀ ps, pieces (.ofIds ids) formula = .ok ps → ∀ t,
      Steps (.operand []) (ps.flatMap (Piece.substituted value?)) t ↔
        Steps (.operand []) ((ps.map (Piece.lexeme amount)).map Lexeme.token) t := by
    intro ps hps t
    refine steps_substituted_iff (fun r hr => ?_) (hroom ps hps)
    exact hvalues r (mem_of_mem_piecesFrom hps hr)
  have hbind : (substitute (.ofIds ids) value? formula >>= evaluateExpression) =
      evaluateExpression (String.ofList chars) := by
    rw [hsubstitute]
    rfl
  rw [hbind, evaluateExpression_eq_ok, bind_eq_ok, String.toList_ofList]
  constructor
  · intro ⟨ts, hts, t, h, hfinish⟩
    obtain ⟨ps, hps, rfl⟩ := (hscans ts).mp hts
    exact ⟨ps, hps, parse_eq_ok.mpr ⟨t, (hsteps ps hps t).mp h, hfinish⟩⟩
  · intro ⟨ps, hps, h⟩
    obtain ⟨t, h, hfinish⟩ := parse_eq_ok.mp h
    exact ⟨_, (hscans _).mpr ⟨ps, hps, rfl⟩, t, (hsteps ps hps t).mpr h, hfinish⟩

/-- A value with a sign, a fraction and an operator of its own. -/
def sampleValue? (_ : String) : Option String := some " -(1.5 + 0.5)"

/-- What that comes to. -/
def sampleAmount (_ : String) : Decimal := ⟨true, 20, 1, by decide, by decide⟩

theorem evaluate_substitute_sample :
    (substitute (.ofIds ["a"]) sampleValue? "2 * a - -a" >>= evaluateExpression) =
      .ok ⟨true, 60, 1, by decide, by decide⟩ := by
  have hpieces : pieces (.ofIds ["a"]) "2 * a - -a" = .ok [
      .own ⟨.number (.whole 2), 0⟩, .own ⟨.multiplicative .times, 2⟩, .reference ⟨"a", 4, 5⟩,
      .own ⟨.additive .minus, 6⟩, .own ⟨.additive .minus, 8⟩, .reference ⟨"a", 9, 10⟩] := by
    have hwords : (Vocabulary.ofIds ["a"]).words = ["a"] := by decide +kernel
    have hisWord : ∀ id ∈ (Vocabulary.ofIds ["a"]).words, IsWord id.toList := by
      rw [hwords]
      decide +kernel
    rw [pieces, Vocabulary.references_eq_of_words hisWord, hwords]
    decide +kernel
  have hamount : evaluateExpression (trim " -(1.5 + 0.5)") =
      .ok ⟨true, 20, 1, by decide, by decide⟩ := by
    decide +kernel
  have hvalues : ∀ r ∈ (Vocabulary.ofIds ["a"]).references "2 * a - -a",
      Evaluates sampleValue? sampleAmount r.id := by
    intro r _
    exact ⟨" -(1.5 + 0.5)", rfl, hamount⟩
  have hroom : ∀ ps, pieces (.ofIds ["a"]) "2 * a - -a" = .ok ps →
      HasRoom sampleValue? sampleAmount (.operand []) ps := by
    intro ps hps
    cases hpieces.symm.trans hps
    refine HasRoom.of_nesting fun r _ => ?_
    have hvalue : nesting (valueLexemes sampleValue? r.id) = 2 := by
      change nesting (valueLexemes sampleValue? "a") = 2
      decide +kernel
    rw [hvalue]
    decide +kernel
  refine (evaluate_substitute_iff hvalues hroom).mpr ?_
  rw [hpieces]
  decide +kernel

end Invoicing.Formula
