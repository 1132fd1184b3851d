import Invoicing.Proofs.Template.Reordering
import Invoicing.Proofs.Template.Stability

/-!
# Ids that are defined more than once

The first definition of an id gives its formula, and with it all that fields
depend on and the order in which they are computed. What an id starts from is up
to all of its definitions, though: without a value it is zero if any of them is a
number, and with a blank one if the last of them is. So later definitions make
no difference exactly where they agree with the first one on that.
-/
namespace Invoicing.Template

variable {fields : List Field} {stored : Values} {id value : String}

theorem definitions_definitions (fields : List Field) :
    definitions (definitions fields) = definitions fields :=
  distinctBy_eq_self Field.id (nodup_ids fields)

theorem sameFormulas_definitions (fields : List Field) :
    SameFormulas fields (definitions fields) where
  vocabulary := Formula.Vocabulary.ofIds_congr fun id _ => (mem_map_distinctBy Field.id fields id).symm
  formula? := fun id => formula?_eq fields id

/-- Only first definitions count for the order. -/
theorem evaluationOrder_definitions (fields : List Field) :
    evaluationOrder (definitions fields) = evaluationOrder fields := by
  have hvocabulary := (sameFormulas_definitions fields).vocabulary
  have hprecedence : precedence (definitions fields) = precedence fields := by
    unfold precedence computedIds dependencyTable
    simp only [definitions_definitions, ← hvocabulary]
  rw [evaluationOrder, evaluationOrder, hprecedence]

/-- The definition is there and is a number. -/
def isNumber (f : Option Field) : Bool :=
  f.any (·.type = .number)

/-- The later definitions of an id do not say otherwise than the first one what the id starts
from with this value. -/
def FirstDecides (fields : List Field) (id : String) : Option String → Prop
  | none => ∀ f ∈ fields, f.id = id → f.type = .number → isNumber (fields.find? (·.id = id))
  | some value => isBlankText value →
    isNumber (fields.find? (·.id = id)) = isNumber (fields.reverse.find? (·.id = id))

/-- The first definition of an id alone tells what it starts from if later ones are left out. -/
theorem get?_initialValues_definitions (fields : List Field) (stored : Values) (id : String) :
    (initialValues (definitions fields) stored).get? id =
      (fields.find? (·.id = id)).bind fun f => initial? f (stored.get? id) := by
  rw [get?_initialValues_of_nodup (nodup_ids fields), find?_definitions]

/-- What a definition makes of a value that is there. -/
def startFrom (value : String) (f : Field) : String :=
  if f.type = .number ∧ isBlankText value then Formula.fallback else value

theorem initial?_some (f : Field) (value : String) :
    initial? f (some value) = some (startFrom value f) := by
  rw [initial?_eq, startFrom, Option.all_some]
  split <;> rfl

theorem isNumber_iff {f : Option Field} : isNumber f ↔ ∃ g, f = some g ∧ g.type = .number := by
  cases f <;> simp [isNumber]

/-- Without a value a definition tells something if it is a number, and then zero. -/
theorem bind_initial?_none (f : Option Field) :
    (f.bind fun f => initial? f none) = if isNumber f then some Formula.fallback else none := by
  cases f <;> simp [isNumber, initial?_eq]

/-- With a value, what an id starts from is up to its last definition. -/
theorem starting_some (fields : List Field) (id value : String) :
    starting fields id (some value) =
      (fields.reverse.find? (·.id = id)).map (startFrom value) := by
  unfold starting
  generalize fields.reverse = fields
  induction fields with
  | nil => rfl
  | cons f fields ih =>
    by_cases hid : f.id = id
    · simp [hid, initial?_some]
    · simpa [hid] using ih

/-- Without a value, an id starts from zero if any of its definitions is a number. -/
theorem starting_none (fields : List Field) (id : String) :
    starting fields id none =
      if ∃ f ∈ fields, f.id = id ∧ f.type = .number then some Formula.fallback else none := by
  split
  case isTrue h =>
    obtain ⟨f, hf, hid, hnumber⟩ := h
    have hsome : (starting fields id none).isSome := by
      rw [starting, List.findSome?_isSome_iff]
      exact ⟨f, List.mem_reverse.mpr hf, by simp [hid, initial?, hnumber]⟩
    obtain ⟨start, hstart⟩ := Option.isSome_iff_exists.mp hsome
    obtain ⟨g, -, hg⟩ := List.exists_of_findSome?_eq_some hstart
    split at hg
    · rw [hstart, (initial?_eq_some hg).resolve_left (by simp)]
    · cases hg
  case isFalse h =>
    rw [starting, List.findSome?_eq_none_iff]
    intro f hf
    by_cases hid : f.id = id
    · have hnumber : f.type ≠ .number := fun hnumber =>
        h ⟨f, List.mem_reverse.mp hf, hid, hnumber⟩
      simp [initial?, hnumber]
    · simp [hid]

/-- Zero instead of a blank value is what makes a number. -/
theorem startFrom_eq_iff {f g : Field} :
    startFrom value f = startFrom value g ↔
      (isBlankText value → isNumber (some f) = isNumber (some g)) := by
  have hfallback : isBlankText Formula.fallback = false := by decide +kernel
  by_cases hblank : isBlankText value
  · have hne : value ≠ Formula.fallback := by
      rintro rfl
      rw [hfallback] at hblank
      cases hblank
    by_cases hf : f.type = .number <;> by_cases hg : g.type = .number <;>
      simp [startFrom, isNumber, hblank, hf, hg, hne, hne.symm]
  · simp [startFrom, hblank]

/-- Either the first and the last definition of an id are there, or neither is. -/
theorem find?_reverse_eq_none_iff :
    fields.reverse.find? (·.id = id) = none ↔ fields.find? (·.id = id) = none := by
  rw [List.find?_eq_none, List.find?_eq_none]
  simp

/-- An id starts from what its first definition tells exactly if later ones do not say
otherwise. -/
theorem firstDecides_iff : FirstDecides fields id (stored.get? id) ↔
    (initialValues fields stored).get? id = (initialValues (definitions fields) stored).get? id := by
  rw [get?_initialValues_definitions, get?_initialValues_eq_starting]
  cases stored.get? id with
  | none =>
    rw [starting_none, bind_initial?_none, FirstDecides]
    by_cases hfirst : isNumber (fields.find? (·.id = id))
    · obtain ⟨f, hfind, hnumber⟩ := isNumber_iff.mp hfirst
      have hany : ∃ f ∈ fields, f.id = id ∧ f.type = .number :=
        ⟨f, List.mem_of_find?_eq_some hfind, by simpa using List.find?_some hfind, hnumber⟩
      simp [hfirst, hany]
    · simp [hfirst]
  | some value =>
    rw [starting_some, FirstDecides]
    cases hfirst : fields.find? (·.id = id) with
    | none =>
      rw [find?_reverse_eq_none_iff.mpr hfirst]
      simp
    | some f =>
      cases hlast : fields.reverse.find? (·.id = id) with
      | none =>
        rw [find?_reverse_eq_none_iff.mp hlast] at hfirst
        cases hfirst
      | some g =>
        rw [Option.map_some, Option.bind_some, initial?_some, Option.some.injEq, startFrom_eq_iff]
        exact ⟨fun h hblank => (h hblank).symm, fun h hblank => (h hblank).symm⟩

/-- An id with a value starts without one only if it is not declared. -/
theorem get?_initialValues_eq_none_iff (h : stored.get? id = some value) :
    (initialValues fields stored).get? id = none ↔ id ∉ fields.map Field.id := by
  rw [get?_initialValues_eq_starting, h, starting_some, Option.map_eq_none_iff, List.find?_eq_none]
  simp

/-- An id that is not computed ends with the same only if it starts from the same. -/
theorem get?_initialValues_of_get?_resolve (hid : id ∉ (evaluationOrder fields).order)
    (h : (resolve fields stored).values.get? id =
      (resolve (definitions fields) stored).values.get? id) :
    (initialValues fields stored).get? id = (initialValues (definitions fields) stored).get? id := by
  have hid' : id ∉ (evaluationOrder (definitions fields)).order := by
    rwa [evaluationOrder_definitions]
  rw [get?_resolve_of_not_mem_order hid, get?_resolve_of_not_mem_order hid',
    ← get?_initialValues_eq_starting, ← get?_initialValues_eq_starting] at h
  cases hvalue : stored.get? id with
  | none => simpa [hvalue] using h
  | some value =>
    have hnone : (initialValues fields stored).get? id = none ↔
        (initialValues (definitions fields) stored).get? id = none := by
      rw [get?_initialValues_eq_none_iff hvalue, get?_initialValues_eq_none_iff hvalue, definitions,
        mem_map_distinctBy]
    cases hstart : (initialValues fields stored).get? id with
    | none => exact (hnone.mp hstart).symm
    | some start =>
      cases hstart' : (initialValues (definitions fields) stored).get? id with
      | none =>
        rw [hnone.mpr hstart'] at hstart
        cases hstart
      | some start' => simpa [hstart, hstart'] using h

/-- A template comes to the same as its first definitions alone, with the same diagnostics in the
same order, exactly if no id outside the order has later definitions that say otherwise than the
first one what it starts from. -/
theorem resolve_definitions_iff (fields : List Field) (stored : Values) :
    ((∀ id, (resolve fields stored).values.get? id =
        (resolve (definitions fields) stored).values.get? id) ∧
      (resolve fields stored).diagnostics = (resolve (definitions fields) stored).diagnostics) ↔
    ∀ id, id ∉ (evaluationOrder fields).order → FirstDecides fields id (stored.get? id) := by
  have hsame := sameFormulas_definitions fields
  constructor
  · intro ⟨hvalues, _⟩ id hid
    exact firstDecides_iff.mpr (get?_initialValues_of_get?_resolve hid (hvalues id))
  · intro h
    have hvalues : ∀ id, (resolve fields stored).values.get? id =
        (resolve (definitions fields) stored).values.get? id := fun id =>
      hsame.get?_resolve_of_not_mem_order fun id hid => firstDecides_iff.mp (h id hid)
    have hfailures : failures fields (resolve fields stored).values =
        failures (definitions fields) (resolve (definitions fields) stored).values := by
      funext id
      rw [hsame.failures, failures, failures, outcome_congr fun d _ => hvalues d]
    refine ⟨hvalues, ?_⟩
    rw [diagnostics_resolve, diagnostics_resolve (definitions fields), hfailures,
      evaluationOrder_definitions]

/-- A text that is defined as a number once more. -/
def retypedFields : List Field := [
  { id := "x", type := .text },
  { id := "x", type := .number }]

/-- The later definition puts a zero where the first one leaves nothing. -/
theorem resolve_retypedFields_differs :
    definitions retypedFields = [{ id := "x", type := .text }] ∧
      (resolve retypedFields .empty).values.get? "x" = some "0" ∧
      (resolve (definitions retypedFields) .empty).values.get? "x" = none := by
  refine ⟨by decide, by decide +kernel, by decide +kernel⟩

end Invoicing.Template
