import Invoicing.Proofs.Document.Parts
import Invoicing.Proofs.Line.Refusal

/-!
# Why a document is refused

A document needs lines, no more of them than its limit, each of them valid, and
no more custom fields than their limit. It is refused for the first of these
that it lacks, in this order, and a line that is not valid is told by its number
and by the first thing that is wrong with it. Amounts that do not fit could come
in between; as many lines as any configuration allows do not bring them about.
-/
namespace Invoicing.Document

variable {limits : Limits} {request : Request} {fault : Fault} {number : Nat}

/-- What is told of the first line that is not valid, if the lines have numbers from this one. -/
def LineFault (number : Nat) (rs : List Line.Request) (fault : Fault) : Prop :=
  ∃ i r lineFault, rs[i]? = some r ∧ (∀ earlier ∈ rs.take i, earlier.Valid) ∧
    First r.faults lineFault ∧ fault = .invalidLine (number + i) lineFault

/-- What can be wrong with a document, in the order in which it is told. -/
def faults (limits : Limits) (request : Request) : List (Fault → Prop) :=
  [fun fault => request.lines = [] ∧ fault = .noLines,
    fun fault => limits.lineItems < request.lines.length ∧
      fault = .tooManyLines limits.lineItems request.lines.length,
    LineFault 1 request.lines,
    fun fault => ∃ custom ∈ request.customFields, limits.formulaFields < custom.fields.length ∧
      fault = .tooManyFields limits.formulaFields custom.fields.length]

@[simp] theorem not_lineFault_nil : ¬ LineFault number [] fault := by
  rintro ⟨i, r, lineFault, h, -⟩
  simp at h

theorem lineFault_cons {r : Line.Request} {rs : List Line.Request} :
    LineFault number (r :: rs) fault ↔
      (∃ lineFault, First r.faults lineFault ∧ fault = .invalidLine number lineFault) ∨
        r.Valid ∧ LineFault (number + 1) rs fault := by
  constructor
  · rintro ⟨i, r', lineFault, hget, hearlier, hfirst, h⟩
    cases i with
    | zero =>
      cases hget
      exact .inl ⟨lineFault, hfirst, h⟩
    | succ i =>
      obtain ⟨hr, hearlier⟩ := List.forall_mem_cons.mp hearlier
      refine .inr ⟨hr, i, r', lineFault, hget, hearlier, hfirst, ?_⟩
      rw [h, Nat.add_assoc, Nat.add_comm 1 i]
  · rintro (⟨lineFault, hfirst, h⟩ | ⟨hr, i, r', lineFault, hget, hearlier, hfirst, h⟩)
    · exact ⟨0, r, lineFault, rfl, List.forall_mem_nil _, hfirst, h⟩
    · refine ⟨i + 1, r', lineFault, hget, List.forall_mem_cons.mpr ⟨hr, hearlier⟩, hfirst, ?_⟩
      rw [h, Nat.add_assoc, Nat.add_comm 1 i]

theorem exists_lineFault_iff {rs : List Line.Request} :
    (∃ fault, LineFault number rs fault) ↔ ∃ r ∈ rs, ¬ r.Valid := by
  induction rs generalizing number with
  | nil => simp
  | cons r rs ih =>
    simp only [lineFault_cons, exists_or, exists_and_left, ih, List.mem_cons, exists_eq_or_imp]
    by_cases hr : r.Valid
    · have hnone : ¬ ∃ lineFault, First r.faults lineFault := by
        rwa [← Line.not_valid_iff, Classical.not_not]
      simp [hr, not_exists.mp hnone]
    · obtain ⟨lineFault, hfirst⟩ := Line.not_valid_iff.mp hr
      exact iff_of_true (.inl ⟨_, lineFault, hfirst, rfl⟩) (.inl hr)

theorem validateLines_eq_error {rs : List Line.Request} :
    validateLines number rs = .error fault ↔ LineFault number rs fault := by
  induction rs generalizing number with
  | nil => simp [validateLines]
  | cons r rs ih =>
    have hrest (item : Line.Input) : (do
        let items ← validateLines (number + 1) rs
        return item :: items) = .error fault ↔ LineFault (number + 1) rs fault :=
      map_eq_error.trans ih
    simp only [validateLines, bind_eq_error (x := Except.mapError _ _), mapError_eq_error,
      mapError_eq_ok, Line.validate_eq_error, hrest, exists_and_right, ← Line.valid_iff,
      lineFault_cons, eq_comm (a := fault)]

theorem checkLineCount_eq_error {count : Nat} : checkLineCount limits count = .error fault ↔
    limits.lineItems < count ∧ fault = .tooManyLines limits.lineItems count := by
  rw [checkLineCount, ite_error_eq_error]
  simp [eq_comm]

theorem checkFieldCount_eq_error {count : Nat} : checkFieldCount limits count = .error fault ↔
    limits.formulaFields < count ∧ fault = .tooManyFields limits.formulaFields count := by
  rw [checkFieldCount, ite_error_eq_error]
  simp [eq_comm]

/-- Lines that are valid can all be priced. -/
theorem exists_prices {rs : List Line.Request} {items : List Line.Input}
    (hitems : List.Forall₂ (fun r item => r.validate = .ok item) rs items) (includeTax : Bool) :
    ∃ lines, items.mapM (·.price includeTax) = .ok lines := by
  simp only [mapM_eq_ok]
  induction hitems with
  | nil => exact ⟨[], .nil⟩
  | cons hitem _ ih =>
    obtain ⟨lines, hlines⟩ := ih
    obtain ⟨line, hline, -⟩ := Line.price_of_validate hitem includeTax
    exact ⟨line :: lines, .cons hline hlines⟩

/-- The lines of a document that is let through have totals, as far as decimals reach. -/
def InRange (limits : Limits) (request : Request) : Prop :=
  request.lines.length ≤ limits.lineItems → ∀ lines,
    List.Forall₂ (Prices request.includeTax) request.lines lines →
      ∃ totals, aggregate lines request.shouldRoundOff request.includeTax = .ok totals

/-- Under accepted limits every document is in range. -/
theorem inRange_of_validate (hlimits : limits.validate = .ok ()) : InRange limits request := by
  intro hcount lines hlines
  obtain ⟨-, -, hceiling⟩ := Limits.validate_eq_ok.mp hlimits
  have hlength : lines.length ≤ lineItemsCeiling := hlines.length_eq ▸ Nat.le_trans hcount hceiling
  obtain ⟨totals, h⟩ := aggregated_of_bounded hlength
    (fun line hline => (sound_of_prices hlines line hline).bounded) request.shouldRoundOff
    request.includeTax
  exact ⟨totals, aggregate_eq_ok.mpr h⟩

/-- A document is refused for the first thing that is wrong with it. -/
theorem calculate_failsFirst (hrange : InRange limits request) :
    FailsFirst (calculate limits request) (faults limits request) := by
  unfold calculate
  refine .guard (by simp) fun _ => .bind (fun _ => checkLineCount_eq_error) fun _ hcount =>
    .bind (fun _ => validateLines_eq_error) fun items hitems => ?_
  obtain ⟨lines, hlines⟩ := exists_prices (validateLines_eq_ok.mp hitems) request.includeTax
  have hprices := prices_of_items (validateLines_eq_ok.mp hitems) (mapM_eq_ok.mp hlines)
  obtain ⟨totals, htotals⟩ := hrange (checkLineCount_eq_ok.mp hcount) lines hprices
  -- Valid lines are priced and added up, so nothing in between is a condition.
  refine .bind_ok (inRange_eq_ok.mpr hlines) (.bind_ok (inRange_eq_ok.mpr htotals) (.single ?_))
  intro fault
  cases request.customFields with
  | none =>
    refine iff_of_false ?_ (by simp)
    intro h
    cases h
  | some custom =>
    have hresolve : resolveFields limits custom = .error fault ↔
        limits.formulaFields < custom.fields.length ∧
          fault = .tooManyFields limits.formulaFields custom.fields.length :=
      map_eq_error.trans checkFieldCount_eq_error
    simp only [Option.mem_some_iff, exists_eq_left']
    exact map_eq_error.trans hresolve

/-- What becomes of a document: whether it is refused, what is told then, and the lines that it has
otherwise. -/
structure Decided (limits : Limits) (request : Request) : Prop where
  refused : (∃ fault, calculate limits request = .error fault) ↔
    request.lines = [] ∨ limits.lineItems < request.lines.length ∨
      (∃ r ∈ request.lines, ¬ r.Valid) ∨
      ∃ custom ∈ request.customFields, limits.formulaFields < custom.fields.length
  told : ∀ fault, calculate limits request = .error fault ↔ First (faults limits request) fault
  lines : ∀ c, calculate limits request = .ok c →
    List.Forall₂ (Prices request.includeTax) request.lines c.lines

/-- As far as decimals reach, a document is refused exactly if something is wrong with it. -/
theorem calculate_decided (hrange : InRange limits request) : Decided limits request where
  refused := by
    simp only [calculate_failsFirst hrange _, exists_first_iff, faults, List.mem_cons,
      List.not_mem_nil, or_false, exists_eq_or_imp, exists_eq_left, exists_lineFault_iff,
      exists_and_left, exists_eq, and_true]
    refine or_congr_right (or_congr_right (or_congr_right ?_))
    cases request.customFields <;> simp
  told := calculate_failsFirst hrange
  lines := fun _ h => (calculated_of_calculate h).lines

/-- A valid line and one with two numbers that are too large, and two fields. -/
def misratedRequest : Request where
  lines := [
    { rate := some Money.hundred
      quantity := none
      discount := {}
      gstRate := some Line.two
      isInterState := none
      cess := .none },
    { rate := some Line.maxLineAmount
      quantity := some Line.one
      discount := {}
      gstRate := some Line.maxLineAmount
      isInterState := some true
      cess := .none }]
  customFields := some ⟨[⟨"a", .number, none⟩, ⟨"b", .text, none⟩], .empty⟩

/-- The first of the numbers is told, and the fields are not reached. -/
theorem calculate_misratedRequest_decided :
    let limits : Limits := { formulaFields := 1 }
    InRange limits misratedRequest ∧ Decided limits misratedRequest ∧
      calculate limits misratedRequest = .error
        (.invalidLine 2 (.aboveLimit "rate" Line.maxUnitAmount Line.maxLineAmount)) := by
  intro limits
  have hrange : InRange limits misratedRequest := inRange_of_validate rfl
  have hdecided := calculate_decided hrange
  have hline : LineFault 1 misratedRequest.lines
      (.invalidLine 2 (.aboveLimit "rate" Line.maxUnitAmount Line.maxLineAmount)) :=
    validateLines_eq_error.mp rfl
  refine ⟨hrange, hdecided, (hdecided.told _).mpr (.later ?_ (.later ?_ (.here hline)))⟩
  · simp [misratedRequest]
  · simp [misratedRequest, limits]

end Invoicing.Document
