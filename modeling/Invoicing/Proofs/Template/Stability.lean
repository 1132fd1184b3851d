import Invoicing.Proofs.Template.Consistency

/-!
# Resolved values stay as they are

What a resolved record stores for a field that is not computed is what the field
starts from when the record is resolved again, and from there the equations of
the computed fields have the solution that they had before. So a second
resolution puts every value where it is already, and tells the same.
-/
namespace Invoicing.Template

variable {fields : List Field} {stored : Values} {id : String}

/-- What an id starts from, given what is stored for it. -/
def starting (fields : List Field) (id : String) (value : Option String) : Option String :=
  fields.reverse.findSome? fun f => if f.id = id then initial? f value else none

theorem get?_initialValues_eq_starting (fields : List Field) (stored : Values) (id : String) :
    (initialValues fields stored).get? id = starting fields id (stored.get? id) :=
  get?_initialValues fields stored id

/-- A field starts from what is stored, or from the fallback. -/
theorem initial?_eq_some {f : Field} {value : Option String} {start : String}
    (h : initial? f value = some start) : value = some start ∨ start = Formula.fallback := by
  rw [initial?_eq] at h
  split at h
  · exact .inr (Option.some.inj h).symm
  · exact .inl h

/-- Every field that stores the fallback starts from it. -/
theorem initial?_fallback (f : Field) :
    initial? f (some Formula.fallback) = some Formula.fallback := by
  rw [initial?_eq]
  split <;> rfl

/-- Once the start of an id is stored, the id starts from it again. -/
theorem starting_of_starting {value : Option String} {start : String}
    (h : starting fields id value = some start) : starting fields id (some start) = some start := by
  obtain ⟨f, hf, hstart⟩ := List.exists_of_findSome?_eq_some h
  split at hstart
  case isFalse => cases hstart
  case isTrue hid =>
    rcases initial?_eq_some hstart with rfl | rfl
    · exact h
    · -- Whichever definition is asked first, it gives the fallback back.
      have hsome : (starting fields id (some Formula.fallback)).isSome := by
        rw [starting, List.findSome?_isSome_iff]
        exact ⟨f, hf, by rw [if_pos hid, initial?_fallback]; rfl⟩
      obtain ⟨start, hagain⟩ := Option.isSome_iff_exists.mp hsome
      obtain ⟨g, -, hg⟩ := List.exists_of_findSome?_eq_some hagain
      split at hg
      · rw [initial?_fallback] at hg
        rw [hagain, ← hg]
      · cases hg

/-- An id that is not computed ends with what it starts from, or else with what is stored. -/
theorem get?_resolve_of_not_mem_order (hid : id ∉ (evaluationOrder fields).order)
    (stored : Values) :
    (resolve fields stored).values.get? id =
      (starting fields id (stored.get? id)).or (stored.get? id) := by
  rw [get?_resolve, computedValues, get?_computeAll_of_not_mem hid, get?_initialValues_eq_starting]

/-- And it ends with the same once more. -/
theorem get?_resolve_resolve_of_not_mem_order (hid : id ∉ (evaluationOrder fields).order) :
    (resolve fields (resolve fields stored).values).values.get? id =
      (resolve fields stored).values.get? id := by
  have hfirst := get?_resolve_of_not_mem_order hid stored
  rw [get?_resolve_of_not_mem_order hid (resolve fields stored).values]
  cases hstart : starting fields id (stored.get? id) with
  | some start =>
    rw [hstart, Option.some_or] at hfirst
    rw [hfirst, starting_of_starting hstart, Option.some_or]
  | none =>
    rw [hstart, Option.none_or] at hfirst
    rw [hfirst, hstart, Option.none_or]

theorem get?_resolve_resolve (fields : List Field) (stored : Values) (id : String) :
    (resolve fields (resolve fields stored).values).values.get? id =
      (resolve fields stored).values.get? id := by
  by_cases hid : id ∈ (evaluationOrder fields).order
  · exact solution_unique (ordered_evaluationOrder fields)
      (fun _ hx => mem_computedIds_of_mem_order hx)
      (fun _ hk => get?_resolve_resolve_of_not_mem_order hk)
      (fun _ hk => solves_resolve (resolve fields stored).values hk)
      (fun _ hk => solves_resolve stored hk) id hid
  · exact get?_resolve_resolve_of_not_mem_order hid

/-- All that a second resolution computes is stored already. -/
theorem values_resolve_resolve (fields : List Field) (stored : Values) :
    (resolve fields (resolve fields stored).values).values = (resolve fields stored).values := by
  refine Values.insertAll_eq_self ?_
  intro e he
  let computed := (computedValues fields (resolve fields stored).values).values
  have hfind : computed.get? e.1 = some e.2 := Entries.find_of_mem computed.nodup he
  rw [← get?_resolve_resolve, get?_resolve, hfind, Option.some_or]

/-- Resolving a resolved record changes nothing, whatever its template: the values are the same,
and so is all that is told of them. -/
theorem resolve_resolve (fields : List Field) (stored : Values) :
    resolve fields (resolve fields stored).values = resolve fields stored := by
  have hvalues := values_resolve_resolve fields stored
  have htold : (resolve fields (resolve fields stored).values).diagnostics =
      (resolve fields stored).diagnostics := by
    rw [diagnostics_resolve, diagnostics_resolve fields stored, hvalues]
  generalize resolve fields (resolve fields stored).values = again at *
  cases again
  cases hvalues
  cases htold
  rfl

end Invoicing.Template
