import Invoicing.Formula.Reference
import Invoicing.Precedence.Schedule
import Invoicing.Template.Field
import Invoicing.Entries

/-!
What the fields of a template are computed from. A repeated id keeps its first
definition; a formula depends on the ids of the template that it refers to, and
only fields with formulas have to be put in order.
-/
namespace Invoicing.Template

/-- The definitions that count. -/
def definitions (fields : List Field) : List Field :=
  distinctBy Field.id fields

/-- The ids of the fields, in order of definition. -/
def ids (fields : List Field) : List String :=
  (definitions fields).map Field.id

/-- The ids of the fields with formulas, in order of definition. -/
def computedIds (fields : List Field) : List String :=
  ((definitions fields).filter Field.hasFormula).map Field.id

/-- The formula of an id, by its first definition. -/
def formula? (fields : List Field) (id : String) : Option String :=
  (fields.find? (·.id = id)).bind Field.formula

/-- The ids that formulas may refer to. -/
def vocabulary (fields : List Field) : Formula.Vocabulary :=
  .ofIds (fields.map Field.id)

/-- The ids that a field refers to, in order of first occurrence. -/
def dependencies (v : Formula.Vocabulary) (f : Field) : List String :=
  (f.formula.map v.dependencies).getD []

/-- Each id with the ids that it refers to. -/
def dependencyTable (fields : List Field) : List (String × List String) :=
  let v := vocabulary fields
  (definitions fields).map fun f => (f.id, dependencies v f)

/-- The ids that an id refers to. -/
def dependenciesOf (fields : List Field) (id : String) : List String :=
  (Entries.find id (dependencyTable fields)).getD []

theorem nodup_ids (fields : List Field) : (ids fields).Nodup :=
  nodup_map_distinctBy Field.id fields

theorem nodup_computedIds (fields : List Field) : (computedIds fields).Nodup :=
  (List.filter_sublist.map Field.id).nodup (nodup_ids fields)

/-- The order in which computed fields need each other. -/
def precedence (fields : List Field) : Precedence String :=
  let computed := computedIds fields
  let table := (dependencyTable fields).map fun e => (e.1, e.2.filter (· ∈ computed))
  { items := computed
    needs := fun id => (Entries.find id table).getD []
    nodup := nodup_computedIds fields
    needs_mem := by
      intro a b h
      cases hf : Entries.find a table with
      | none => simp [hf] at h
      | some ds =>
        obtain ⟨e, -, he⟩ := List.mem_map.1 (Entries.mem_of_find_eq_some hf)
        obtain ⟨-, rfl⟩ := Prod.mk.inj he
        rw [hf, Option.getD_some, List.mem_filter] at h
        exact of_decide_eq_true h.2 }

/-- The computed fields in the order in which they can be evaluated. -/
def evaluationOrder (fields : List Field) : Precedence.Schedule String :=
  (precedence fields).fullSchedule

/-- The order for some ids and what they need. -/
def orderFrom (fields : List Field) (roots : List String) : Precedence.Schedule String :=
  (precedence fields).schedule roots

end Invoicing.Template
