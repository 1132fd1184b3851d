import Invoicing.Proofs.Formula.Evaluation

/-!
# Values that are missing

A formula lacks a value only while values are put in for its references. The
expression that results can fail in other ways, but not in that one. What is told
of a missing value is told of no other failure, and names the id.
-/
namespace Invoicing.Formula

open Text

variable {α β : Type} {id : String} {x : Except FormulaError α} {f : α → Except FormulaError β}

/-- If it fails, it is not for want of a value. -/
def Complete (x : Except FormulaError α) : Prop :=
  ∀ id, x ≠ .error (.missingValue id)

namespace Complete

theorem ok (a : α) : Complete (.ok a) := by
  simp [Complete]

theorem error {e : FormulaError} (he : ∀ id, e ≠ .missingValue id) :
    Complete (.error e : Except FormulaError α) :=
  fun id h => he id (Except.error.inj h)

theorem bind (hx : Complete x) (hf : ∀ a, Complete (f a)) : Complete (x >>= f) := by
  cases x with
  | ok a => exact hf a
  | error e => exact .error fun id he => hx id (congrArg Except.error he)

theorem map (hx : Complete x) (f : α → β) : Complete (x.map f) := by
  cases x with
  | ok a => exact ok (f a)
  | error e => exact .error fun id he => hx id (congrArg Except.error he)

end Complete

theorem complete_scan (position : Nat) (cs : List Char) : Complete (scan position cs) := by
  fun_induction scan position cs with
  | case1 => exact .ok _
  | case2 position c cs _ ih => exact ih
  | case3 position c cs _ token _ ih => exact ih.map _
  | case4 => exact .error (by simp)
  | case5 position c cs _ _ _ run value _ ih => exact ih.map _
  | case6 => exact .error (by simp)

theorem complete_checked (x : Except Decimal.Overflow Decimal) : Complete (checked x) := by
  cases x with
  | ok value => exact .ok value
  | error e => exact .error (by simp)

theorem Additive.complete_apply (op : Additive) (a b : Decimal) : Complete (op.apply a b) := by
  cases op <;> exact complete_checked _

theorem Multiplicative.complete_apply (op : Multiplicative) (a b : Decimal) :
    Complete (op.apply a b) := by
  match op with
  | .times => exact complete_checked _
  | .over =>
    rw [Multiplicative.apply]
    split
    · exact .error (by simp)
    · exact complete_checked _

theorem complete_enter (frame : Frame) (pending : List Frame) :
    Complete (enter frame pending) := by
  unfold enter
  split
  · exact .error (by simp)
  · exact .ok _

theorem complete_supply (value : Decimal) (pending : List Frame) :
    Complete (supply value pending) := by
  fun_induction supply value pending with
  | case1 value op pending ih => exact ih
  | case2 value left op pending => exact (op.complete_apply left value).map _
  | case3 => exact .ok _

theorem complete_collect (value : Decimal) (pending : List Frame) :
    Complete (collect value pending) := by
  unfold collect
  split
  · exact (Additive.complete_apply _ _ _).map _
  · exact .ok _

theorem State.complete_step (s : State) (l : Lexeme) : Complete (s.step l) := by
  unfold State.step
  split
  · exact complete_supply _ _
  · exact complete_enter _ _
  · exact complete_enter _ _
  · exact .error (by simp)
  · exact .ok _
  · refine (complete_collect _ _).bind fun ⟨total, pending⟩ => ?_
    dsimp only
    split
    · exact .ok _
    · exact complete_supply _ _
    · exact .error (by simp)

theorem State.complete_finish (s : State) : Complete s.finish := by
  cases s with
  | operand => exact .error (by simp)
  | operator value pending =>
    refine (complete_collect _ _).bind fun ⟨total, pending⟩ => ?_
    dsimp only
    split
    · exact .ok _
    · exact .error (by simp)

theorem State.complete_run (s : State) (ls : List Lexeme) : Complete (s.run ls) := by
  induction ls generalizing s with
  | nil => exact s.complete_finish
  | cons l ls ih => exact (s.complete_step l).bind fun t => ih t

theorem complete_parse (ls : List Lexeme) : Complete (parse ls) := by
  unfold parse
  split
  · exact .error (by simp)
  · exact State.complete_run _ _

theorem complete_evaluateExpression (text : String) : Complete (evaluateExpression text) :=
  (complete_scan 0 text.toList).bind complete_parse

/-- A value is told to be missing only if the formula refers to it. -/
theorem mem_dependencies_of_evaluate {v : Vocabulary} {value? : String → Option String}
    {formula id : String} (h : evaluate v value? formula = .error (.missingValue id)) :
    id ∈ v.dependencies formula := by
  rw [evaluate] at h
  cases hsubstitute : substitute v value? formula with
  | ok expression =>
    rw [hsubstitute] at h
    have hcomplete := (complete_evaluateExpression expression).map Money.formatted
    exact absurd h (hcomplete id)
  | error e =>
    rw [hsubstitute] at h
    rw [substitute] at hsubstitute
    cases hsplice : splice value? 0 formula.toList (v.references formula) with
    | ok chars =>
      rw [hsplice] at hsubstitute
      cases hsubstitute
    | error e' =>
      rw [hsplice] at hsubstitute
      obtain ⟨r, hr, rfl⟩ := missing_of_splice hsplice
      cases hsubstitute
      cases h
      exact mem_distinct.mpr (List.mem_map_of_mem hr)

/-! ## How it is told -/

theorem head?_toList_append {a : String} {c : Char} (h : a.toList.head? = some c) (b : String) :
    (a ++ b).toList.head? = some c := by
  rw [String.toList_append, List.head?_append, h]
  rfl

/-- Only how a missing value is told begins with an `R`. -/
theorem FormulaError.head?_message {e : FormulaError} (he : ∀ id, e ≠ .missingValue id) :
    e.message.toList.head? ≠ some 'R' := by
  have hother : ∀ c, c ≠ 'R' → e.message.toList.head? = some c →
      e.message.toList.head? ≠ some 'R' := by
    intro c hc h hR
    exact hc (Option.some.inj (h.symm.trans hR))
  cases e with
  | empty => exact hother 'F' (by decide) (by decide +kernel)
  | unexpectedCharacter character position =>
    have h : ("Unexpected character '").toList.head? = some 'U' := by decide +kernel
    refine hother 'U' (by decide) ?_
    exact head?_toList_append (head?_toList_append (head?_toList_append h _) _) _
  | invalidNumber literal =>
    have h : ("Invalid number literal '").toList.head? = some 'I' := by decide +kernel
    exact hother 'I' (by decide) (head?_toList_append (head?_toList_append h _) _)
  | unexpectedToken found position =>
    have h : ("Unexpected token '").toList.head? = some 'U' := by decide +kernel
    refine hother 'U' (by decide) ?_
    exact head?_toList_append (head?_toList_append (head?_toList_append h _) _) _
  | unexpectedEnd => exact hother 'U' (by decide) (by decide +kernel)
  | divisionByZero => exact hother 'D' (by decide) (by decide +kernel)
  | overflow => exact hother 'A' (by decide) (by decide +kernel)
  | tooDeep limit =>
    have h : ("Formula nested deeper than ").toList.head? = some 'F' := by decide +kernel
    exact hother 'F' (by decide) (head?_toList_append (head?_toList_append h _) _)
  | missingValue id => exact absurd rfl (he id)

theorem FormulaError.message_missingValue (id : String) :
    (FormulaError.missingValue id).message = "Referenced field '" ++ id ++ "' has no value" :=
  rfl

/-- The message tells which id it is that has no value. -/
theorem FormulaError.message_eq_iff {e : FormulaError} :
    e.message = (FormulaError.missingValue id).message ↔ e = .missingValue id := by
  constructor
  · intro h
    by_cases he : ∃ other, e = .missingValue other
    · obtain ⟨other, rfl⟩ := he
      rw [message_missingValue, message_missingValue, ← String.toList_inj, String.toList_append,
        String.toList_append, String.toList_append, String.toList_append,
        List.append_cancel_right_eq, List.append_cancel_left_eq, String.toList_inj] at h
      rw [h]
    · have hhead : (FormulaError.missingValue id).message.toList.head? = some 'R' :=
        head?_toList_append (head?_toList_append (by decide +kernel) _) _
      rw [← h] at hhead
      exact absurd hhead (head?_message fun other hother => he ⟨other, hother⟩)
  · rintro rfl
    rfl

end Invoicing.Formula
