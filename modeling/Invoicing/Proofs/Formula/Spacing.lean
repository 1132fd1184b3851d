import Mathlib.Logic.Relation
import Invoicing.Proofs.Formula.Lexemes
import Invoicing.Proofs.Formula.Machine

/-!
# White space in a formula

White space that is put into a text, or taken out of it, moves what is behind it
and does nothing else, as long as no run of digits and points is parted or joined
there. A scan of the text finds the same tokens or fails in the same way, and the
evaluator, which reads the tokens, comes to the same value.
-/
namespace Invoicing.Formula

open Text

/-- An error without the position it tells. -/
def FormulaError.unplaced : FormulaError → FormulaError
  | .unexpectedCharacter c _ => .unexpectedCharacter c 0
  | .unexpectedToken found _ => .unexpectedToken found 0
  | e => e

/-- What a scan comes to, without any position. -/
def unplaced (found : Except FormulaError (List Lexeme)) : Except FormulaError (List Token) :=
  (found.map (·.map Lexeme.token)).mapError FormulaError.unplaced

/-- The second text is the first one with white space put in where no run of digits and points
goes on. -/
def Spaced (narrow wide : String) : Prop :=
  ∃ front blanks behind, narrow.toList = front ++ behind ∧
    wide.toList = front ++ blanks ++ behind ∧ (∀ c ∈ blanks, isBlank c) ∧ Parted front behind

/-- One text comes from the other by putting in and taking out such white space. -/
def Respaced : String → String → Prop :=
  Relation.EqvGen Spaced

variable {c : Char} {cs as bs front behind blanks : List Char} {ts : List Token}
  {a b : String} {v : Decimal} {token : Token} {position : Nat}

theorem unplaced_map (found : Except FormulaError (List Lexeme)) :
    unplaced (found.map (⟨token, position⟩ :: ·)) = (unplaced found).map (token :: ·) := by
  cases found <;> rfl

theorem Parted.of_append (h : Parted (front ++ cs) behind) : Parted cs behind := by
  intro c hc
  refine h c ?_
  rw [Option.mem_def] at hc ⊢
  rw [List.getLast?_append, hc, Option.some_or]

theorem Parted.of_cons (h : Parted (c :: cs) behind) : Parted cs behind := by
  rw [← List.singleton_append] at h
  exact h.of_append

/-- A longest run is still one in front of what does not go on with it. -/
theorem Parted.trailing {run rest : List Char} (h : Parted (c :: run ++ rest) behind)
    (hrun : ∀ d ∈ c :: run, isNumberChar d) (hrest : ∀ d ∈ rest.head?, ¬ isNumberChar d) :
    ∀ d ∈ (rest ++ behind).head?, ¬ isNumberChar d := by
  cases rest with
  | nil =>
    rw [List.append_nil] at h
    have hlast : (c :: run).getLast (List.cons_ne_nil c run) ∈ (c :: run).getLast? :=
      List.getLast?_eq_some_getLast _
    exact h _ hlast (hrun _ (List.getLast_mem _))
  | cons d rest => exact hrest

/-- In front of texts that scan alike, alike texts scan alike. -/
theorem unplaced_scan_append (h : ∀ p q, unplaced (scan p as) = unplaced (scan q bs))
    (ha : Parted cs as) (hb : Parted cs bs) (p q : Nat) :
    unplaced (scan p (cs ++ as)) = unplaced (scan q (cs ++ bs)) := by
  induction cs using parts_induction generalizing p q with
  | nil => exact h p q
  | blank c cs hc ih =>
    rw [List.cons_append, List.cons_append, scan_blank hc, scan_blank hc]
    exact ih ha.of_cons hb.of_cons _ _
  | symbol c token cs hc ih =>
    rw [List.cons_append, List.cons_append, scan_symbol hc, scan_symbol hc, unplaced_map,
      unplaced_map, ih ha.of_cons hb.of_cons]
  | number c run rest hrun hrest ih =>
    have hfronta := ha.trailing hrun hrest
    have hfrontb := hb.trailing hrun hrest
    rw [List.append_assoc, List.append_assoc]
    cases hvalue : Decimal.ofPlain? (c :: run) with
    | some value =>
      rw [scan_number hrun hfronta hvalue, scan_number hrun hfrontb hvalue, unplaced_map,
        unplaced_map, ih ha.of_append hb.of_append]
    | none => rw [scan_invalidNumber hrun hfronta hvalue, scan_invalidNumber hrun hfrontb hvalue]
  | other c cs hblank hsymbol hnumber =>
    rw [List.cons_append, List.cons_append, scan_unexpectedCharacter hblank hsymbol hnumber,
      scan_unexpectedCharacter hblank hsymbol hnumber]
    rfl

/-- Where a text stands makes no difference to what is found in it. -/
theorem unplaced_scan (cs : List Char) (p q : Nat) :
    unplaced (scan p cs) = unplaced (scan q cs) := by
  have hempty : ∀ p q, unplaced (scan p []) = unplaced (scan q []) := by
    intro p q
    rw [scan_nil, scan_nil]
  have hparted : Parted cs [] := .of_head (by simp)
  simpa using unplaced_scan_append hempty hparted hparted p q

theorem unplaced_scan_blanks (h : ∀ c ∈ blanks, isBlank c) (cs : List Char) (p q : Nat) :
    unplaced (scan p (blanks ++ cs)) = unplaced (scan q cs) := by
  induction blanks generalizing p with
  | nil => exact unplaced_scan cs p q
  | cons c blanks ih =>
    obtain ⟨hc, hblanks⟩ := List.forall_mem_cons.mp h
    rw [List.cons_append, scan_blank hc]
    exact ih hblanks _

/-- A run that does not go across a place does not do so with white space there. -/
theorem Parted.blanks_append (h : Parted front behind) (hblanks : ∀ c ∈ blanks, isBlank c) :
    Parted front (blanks ++ behind) := by
  cases blanks with
  | nil => exact h
  | cons c blanks =>
    exact .before (not_isNumberChar_of_isBlank (hblanks c List.mem_cons_self))

theorem Spaced.unplaced_lexemes (h : Spaced a b) : unplaced (lexemes a) = unplaced (lexemes b) := by
  obtain ⟨front, blanks, behind, ha, hb, hblanks, hparted⟩ := h
  rw [lexemes, lexemes, ha, hb, List.append_assoc]
  exact unplaced_scan_append (fun p q => (unplaced_scan_blanks hblanks behind q p).symm) hparted
    (hparted.blanks_append hblanks) 0 0

theorem Respaced.unplaced_lexemes (h : Respaced a b) :
    unplaced (lexemes a) = unplaced (lexemes b) := by
  induction h with
  | rel _ _ h => exact h.unplaced_lexemes
  | refl => rfl
  | symm _ _ _ ih => exact ih.symm
  | trans _ _ _ _ _ ihab ihbc => exact ihab.trans ihbc

theorem scans_iff {text : String} : Scans text.toList ts ↔ unplaced (lexemes text) = .ok ts := by
  rw [unplaced, mapError_eq_ok, map_eq_ok]
  constructor
  · intro h
    exact scan_of_scans h 0
  · rintro ⟨ls, hls, rfl⟩
    exact scans_of_scan hls

/-- The value of an expression hangs on what is found in it, not on where. -/
theorem evaluateExpression_congr (h : unplaced (lexemes a) = unplaced (lexemes b)) :
    evaluateExpression a = .ok v ↔ evaluateExpression b = .ok v := by
  simp only [evaluateExpression_eq_ok, scans_iff, h]

/-- A scan succeeds exactly on what is white space, symbols and longest runs that write numbers,
one behind the other. Its lexemes are those symbols and runs, each at the byte offset of its first
character; otherwise it tells the leftmost place where nothing of this kind can be taken. White
space that parts no run and joins none moves the lexemes, and otherwise changes neither what a scan
comes to nor the value of an expression. -/
theorem lexemes_exact (text : String) :
    (∀ ls, lexemes text = .ok ls ↔
      ∃ ps, assembled ps = text.toList ∧ Fit [] ps [] ∧ ls = lexemesOf 0 ps) ∧
    (∀ e, lexemes text = .error e ↔ FirstObstacle text.toList e) ∧
    ∀ other, Respaced text other →
      unplaced (lexemes text) = unplaced (lexemes other) ∧
      ∀ v, evaluateExpression text = .ok v ↔ evaluateExpression other = .ok v := by
  refine ⟨fun ls => scan_eq_ok, fun e => scan_eq_error, fun other h => ?_⟩
  have hsame := h.unplaced_lexemes
  exact ⟨hsame, fun v => evaluateExpression_congr hsame⟩

/-- White space in front of an operator. -/
def spacedFormula : String := "1.5 *(2)"

/-- The same formula with white space of three bytes behind that operator instead. -/
def respacedFormula : String := "1.5*\u2003(2)"

/-- Taken out in front of the operator, put in behind it. -/
theorem respaced_spacedFormula : Respaced spacedFormula respacedFormula := by
  have hout : Spaced "1.5*(2)" spacedFormula :=
    ⟨"1.5".toList, [' '], "*(2)".toList, rfl, rfl, List.forall_mem_singleton.mpr rfl,
      .before (by decide)⟩
  have hin : Spaced "1.5*(2)" respacedFormula :=
    ⟨"1.5*".toList, ['\u2003'], "(2)".toList, rfl, rfl, List.forall_mem_singleton.mpr rfl,
      .before (by decide)⟩
  exact .trans _ _ _ (.symm _ _ (.rel _ _ hout)) (.rel _ _ hin)

/-- Both formulas have the same tokens and one value, and of two obstacles the first is told. -/
theorem lexemes_spacedFormula_exact :
    Respaced spacedFormula respacedFormula ∧
      unplaced (lexemes spacedFormula) = unplaced (lexemes respacedFormula) ∧
      evaluateExpression respacedFormula = .ok ⟨false, 30, 1, by decide, by decide⟩ ∧
      (∃ ps, assembled ps = respacedFormula.toList ∧ Fit [] ps [] ∧
        [⟨.number ⟨false, 15, 1, by decide, by decide⟩, 0⟩, ⟨.multiplicative .times, 3⟩,
          ⟨.leftParen, 7⟩, ⟨.number (.whole 2), 8⟩, ⟨.rightParen, 9⟩] = lexemesOf 0 ps) ∧
      FirstObstacle "1.2.3 $".toList (.invalidNumber "1.2.3") := by
  have hvalue : evaluateExpression spacedFormula = .ok ⟨false, 30, 1, by decide, by decide⟩ := by
    decide +kernel
  have hinvalid : lexemes "1.2.3 $" = .error (.invalidNumber "1.2.3") := by decide +kernel
  obtain ⟨hsame, hvalues⟩ := (lexemes_exact spacedFormula).2.2 _ respaced_spacedFormula
  have hfirst := ((lexemes_exact "1.2.3 $").2.1 _).mp hinvalid
  refine ⟨respaced_spacedFormula, hsame, (hvalues _).mp hvalue, ?_, hfirst⟩
  exact ((lexemes_exact respacedFormula).1 _).mp (by decide +kernel)

end Invoicing.Formula
