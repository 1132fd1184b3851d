import Invoicing.Proofs.Template.Consistency

/-!
# Fields in another order

With the order of the fields their evaluation may run in another order as well.
The equations to be solved stay the same, though, and so do the fields that are
on a cycle or behind one; hence the solution is the same, and so is what is told
of each field.
-/
namespace Invoicing.Template

variable {fields fields' : List Field} {stored : Values} {id : String}

/-- Two templates in which the same ids have the same formulas and may be referred to. -/
structure SameFormulas (fields fields' : List Field) : Prop where
  vocabulary : vocabulary fields = vocabulary fields'
  formula? : ∀ id, formula? fields id = formula? fields' id

namespace SameFormulas

variable (h : SameFormulas fields fields')
include h

theorem outcome (values : Values) (id : String) :
    outcome fields values id = outcome fields' values id := by
  rw [Template.outcome, Template.outcome, h.vocabulary, h.formula?]

theorem failures (values : Values) (id : String) :
    failures fields values id = failures fields' values id := by
  rw [Template.failures, Template.failures, h.outcome]

theorem mem_computedIds : id ∈ computedIds fields ↔ id ∈ computedIds fields' := by
  rw [mem_computedIds_iff, mem_computedIds_iff, h.formula?]

theorem dependsOn : DependsOn fields = DependsOn fields' := by
  funext f g
  rw [DependsOn, DependsOn, dependenciesOf_eq, dependenciesOf_eq, h.formula?, h.vocabulary,
    h.mem_computedIds]

theorem evaluationOrder_matches : (evaluationOrder fields).Matches (evaluationOrder fields') := by
  refine Precedence.fullSchedule_matches ?_ fun _ => h.mem_computedIds
  rw [needs_precedence, needs_precedence, h.dependsOn]

/-- Fields that start from the same values where they are not in the order end with the same
values. -/
theorem get?_resolve_of_not_mem_order (hinitial : ∀ id, id ∉ (evaluationOrder fields).order →
    (initialValues fields stored).get? id = (initialValues fields' stored).get? id) :
    (resolve fields stored).values.get? id = (resolve fields' stored).values.get? id := by
  have horder := h.evaluationOrder_matches.order
  have helsewhere : ∀ k, k ∉ (evaluationOrder fields).order →
      (resolve fields stored).values.get? k = (resolve fields' stored).values.get? k := by
    intro k hk
    have hk' : k ∉ (evaluationOrder fields').order := fun hm => hk (horder.mem_iff.mpr hm)
    rw [Template.get?_resolve, Template.get?_resolve, computedValues, computedValues,
      get?_computeAll_of_not_mem hk, get?_computeAll_of_not_mem hk', hinitial k hk]
  have hsolves : ∀ k ∈ (evaluationOrder fields).order,
      Solves fields (resolve fields' stored).values k := by
    intro k hk
    have hs : Solves fields' (resolve fields' stored).values k :=
      solves_resolve stored (horder.mem_iff.mp hk)
    rwa [Solves, ← h.outcome] at hs
  by_cases hid : id ∈ (evaluationOrder fields).order
  · exact solution_unique (ordered_evaluationOrder fields)
      (fun _ hx => mem_computedIds_of_mem_order hx) helsewhere
      (fun _ hk => solves_resolve stored hk) hsolves id hid
  · exact helsewhere id hid

/-- Fields that start from the same values end with the same values. -/
theorem get?_resolve (hinitial : ∀ id,
    (initialValues fields stored).get? id = (initialValues fields' stored).get? id) :
    (resolve fields stored).values.get? id = (resolve fields' stored).values.get? id :=
  h.get?_resolve_of_not_mem_order fun k _ => hinitial k

/-- And then the same is told of them. -/
theorem diagnostics_resolve (hinitial : ∀ id,
    (initialValues fields stored).get? id = (initialValues fields' stored).get? id) :
    (resolve fields stored).diagnostics.Perm (resolve fields' stored).diagnostics := by
  obtain ⟨horder, hcyclic, hblocked⟩ := h.evaluationOrder_matches
  have hfailures : Template.failures fields (resolve fields stored).values =
      Template.failures fields' (resolve fields' stored).values := by
    funext id
    rw [h.failures, Template.failures, Template.failures,
      outcome_congr fun d _ => h.get?_resolve hinitial]
  rw [Template.diagnostics_resolve, Template.diagnostics_resolve, hfailures]
  exact ((horder.flatMap_right _).append (hcyclic.map _)).append (hblocked.map _)

end SameFormulas

/-- Fields of distinct ids are found in whatever order they come. -/
theorem find?_eq_of_perm (hids : (fields.map Field.id).Nodup) (h : fields.Perm fields') :
    fields.find? (·.id = id) = fields'.find? (·.id = id) := by
  have hids' := (h.map Field.id).nodup_iff.mp hids
  cases hfind : fields.find? (·.id = id) with
  | some f =>
    obtain rfl : f.id = id := by simpa using List.find?_some hfind
    exact (find?_of_nodup hids' (h.mem_iff.mp (List.mem_of_find?_eq_some hfind))).symm
  | none =>
    rw [eq_comm, List.find?_eq_none]
    intro f hf
    exact List.find?_eq_none.mp hfind f (h.mem_iff.mpr hf)

/-- With distinct ids the only definition of an id says what it starts from. -/
theorem get?_initialValues_of_nodup (hids : (fields.map Field.id).Nodup) :
    (initialValues fields stored).get? id =
      (fields.find? (·.id = id)).bind fun f => initial? f (stored.get? id) := by
  rw [get?_initialValues]
  induction fields with
  | nil => rfl
  | cons f fields ih =>
    obtain ⟨hf, hrest⟩ := List.nodup_cons.mp hids
    rw [List.reverse_cons, List.findSome?_append, ih hrest]
    by_cases hid : f.id = id
    · have hnone : fields.find? (·.id = id) = none := by
        rw [List.find?_eq_none]
        intro g hg hgid
        exact hf (List.mem_map.mpr ⟨g, hg, (of_decide_eq_true hgid).trans hid.symm⟩)
      simp [hid, hnone]
    · simp [hid]

theorem sameFormulas_of_perm (hids : (fields.map Field.id).Nodup) (h : fields.Perm fields') :
    SameFormulas fields fields' where
  vocabulary := Formula.Vocabulary.ofIds_congr fun _ _ => (h.map Field.id).mem_iff
  formula? := by
    intro id
    rw [Template.formula?, Template.formula?, find?_eq_of_perm hids h]

/-- Fields of distinct ids may be defined in any order: the same values come out, the same
fields are computed, and the same is told of them. -/
theorem resolve_perm (hids : (fields.map Field.id).Nodup) (h : fields.Perm fields')
    (stored : Values) :
    (∀ id, (resolve fields stored).values.get? id = (resolve fields' stored).values.get? id) ∧
      (resolve fields stored).diagnostics.Perm (resolve fields' stored).diagnostics ∧
      (evaluationOrder fields).order.Perm (evaluationOrder fields').order := by
  have hsame := sameFormulas_of_perm hids h
  have hinitial : ∀ id,
      (initialValues fields stored).get? id = (initialValues fields' stored).get? id := by
    intro id
    rw [get?_initialValues_of_nodup hids,
      get?_initialValues_of_nodup ((h.map Field.id).nodup_iff.mp hids), find?_eq_of_perm hids h]
  exact ⟨fun _ => hsame.get?_resolve hinitial, hsame.diagnostics_resolve hinitial,
    hsame.evaluationOrder_matches.order⟩

/-- A number, a formula that fails on it and one that waits for that, and a cycle. -/
def sampleFields : List Field := [
  { id := "n", type := .number },
  { id := "total", type := .number, entered := some "ratio + n" },
  { id := "ratio", type := .number, entered := some "1 / n" },
  { id := "loop", type := .number, entered := some "loop + total" }]

theorem resolve_reverse_sampleFields :
    (∀ id, (resolve sampleFields .empty).values.get? id =
        (resolve sampleFields.reverse .empty).values.get? id) ∧
      (resolve sampleFields .empty).diagnostics.Perm
        (resolve sampleFields.reverse .empty).diagnostics ∧
      (evaluationOrder sampleFields).order.Perm (evaluationOrder sampleFields.reverse).order :=
  resolve_perm (by decide) sampleFields.reverse_perm.symm .empty

end Invoicing.Template
