import Invoicing.Proofs.Formula.Omission
import Invoicing.Proofs.Precedence.Extension
import Invoicing.Proofs.Template.Frame

/-!
# A template with one more field

A field may be added anywhere to a template in which no formula refers to it. It
is looked for in every formula and may take its turn between any two fields, yet
the other fields have the same references as before, stand in the same order and
come to the same values.
-/
namespace Invoicing.Template

variable {fields extended : List Field} {stored values values' : Values} {new id : String}

/-- A template with distinct ids and one more field of a new id, which no formula of the others
refers to. -/
structure ExtendedBy (fields extended : List Field) (new : String) : Prop where
  ids : (extended.map Field.id).Nodup
  others : extended.filter (·.id ≠ new) = fields
  unused : ∀ f ∈ fields, new ∉ dependencies (vocabulary extended) f

namespace ExtendedBy

variable (h : ExtendedBy fields extended new)
include h

theorem nodup : (fields.map Field.id).Nodup :=
  h.others ▸ (List.filter_sublist.map Field.id).nodup h.ids

theorem mem_fields_iff {f : Field} : f ∈ fields ↔ f ∈ extended ∧ f.id ≠ new := by
  rw [← h.others, List.mem_filter, decide_eq_true_eq]

theorem find?_eq (hid : id ≠ new) : extended.find? (·.id = id) = fields.find? (·.id = id) := by
  rw [← h.others, List.find?_filter]
  congr 1
  funext f
  by_cases hf : f.id = id
  · simp [hf, hid]
  · simp [hf]

theorem formula? (hid : id ≠ new) : formula? extended id = formula? fields id := by
  rw [Template.formula?, Template.formula?, h.find?_eq hid]

theorem vocabulary : vocabulary fields = (vocabulary extended).without new := by
  refine Formula.Vocabulary.eq_of_mem_words fun k => ?_
  rw [Formula.Vocabulary.mem_words_without, Template.vocabulary, Template.vocabulary,
    Formula.Vocabulary.mem_words_ofIds, Formula.Vocabulary.mem_words_ofIds, List.mem_map,
    List.mem_map]
  constructor
  · rintro ⟨⟨f, hf, rfl⟩, hne⟩
    obtain ⟨hf, hnew⟩ := h.mem_fields_iff.mp hf
    exact ⟨⟨⟨f, hf, rfl⟩, hne⟩, hnew⟩
  · rintro ⟨⟨⟨f, hf, rfl⟩, hne⟩, hnew⟩
    exact ⟨⟨f, h.mem_fields_iff.mpr ⟨hf, hnew⟩, rfl⟩, hne⟩

/-- No formula but its own refers to the new id. -/
theorem not_mem_dependencies {formula : String} (hformula : Template.formula? fields id = some formula) :
    new ∉ (Template.vocabulary extended).dependencies formula := by
  obtain ⟨f, hfind, hf⟩ := Option.bind_eq_some_iff.mp hformula
  have hunused := h.unused f (List.mem_of_find?_eq_some hfind)
  rwa [dependencies, hf] at hunused

theorem dependenciesOf (hid : id ≠ new) : dependenciesOf extended id = dependenciesOf fields id := by
  rw [dependenciesOf_eq, dependenciesOf_eq, h.formula? hid, h.vocabulary]
  cases hformula : Template.formula? fields id with
  | none => rfl
  | some formula =>
    have hsame := Formula.Vocabulary.dependencies_without (h.not_mem_dependencies hformula)
    simp [hsame]

theorem not_mem_dependenciesOf : new ∉ Template.dependenciesOf fields id := by
  intro hmem
  obtain ⟨f, hf, hnew⟩ := mem_ids_of_mem_dependenciesOf hmem
  exact (h.mem_fields_iff.mp hf).2 hnew

theorem outcome (hid : id ≠ new) (values : Values) :
    outcome extended values id = outcome fields values id := by
  rw [Template.outcome, Template.outcome, h.formula? hid, h.vocabulary]
  cases hformula : Template.formula? fields id with
  | none => rfl
  | some formula =>
    exact congrArg some (Formula.evaluate_without (h.not_mem_dependencies hformula) _).symm

theorem computedIds : computedIds fields = (computedIds extended).filter (· ≠ new) := by
  rw [Template.computedIds, Template.computedIds, definitions, definitions,
    distinctBy_eq_self Field.id h.nodup, distinctBy_eq_self Field.id h.ids, List.filter_map,
    ← h.others, List.filter_comm]
  rfl

theorem mem_computedIds_iff : id ∈ Template.computedIds fields ↔
    id ∈ Template.computedIds extended ∧ id ≠ new := by
  rw [h.computedIds, List.mem_filter, decide_eq_true_eq]

/-- The fields there were before need each other as they did. -/
theorem partOf : (precedence fields).PartOf (precedence extended) where
  items := by
    change (Template.computedIds extended).filter (· ∈ Template.computedIds fields) =
      Template.computedIds fields
    rw [h.computedIds]
    refine List.filter_congr fun k hk => ?_
    simp [hk]
  needs := by
    intro k hk
    have hne : k ≠ new := (h.mem_computedIds_iff.mp hk).2
    rw [needs_eq, needs_eq, h.dependenciesOf hne]
    refine List.filter_congr fun d hd => ?_
    have hd : d ≠ new := fun hnew => h.not_mem_dependenciesOf (hnew ▸ hd)
    simp [h.mem_computedIds_iff, hd]

/-- The new field may stand anywhere in the order, on a cycle, or behind one; all others stay. -/
theorem evaluationOrder :
    evaluationOrder fields = (evaluationOrder extended).filter (· ≠ new) := by
  have hschedule : Template.evaluationOrder fields = (Template.evaluationOrder extended).filter
      (· ∈ Template.computedIds fields) := h.partOf.fullSchedule_eq_filter
  rw [hschedule]
  refine Precedence.Schedule.filter_congr fun k hk => ?_
  have hk : k ∈ Template.computedIds extended :=
    Precedence.mem_items_of_mem_scope (Precedence.mem_schedule_iff.mp hk)
  simp [h.mem_computedIds_iff, hk]

theorem mem_order_iff (hid : id ≠ new) : id ∈ (Template.evaluationOrder fields).order ↔
    id ∈ (Template.evaluationOrder extended).order := by
  rw [h.evaluationOrder, Precedence.Schedule.filter, List.mem_filter, decide_eq_true_eq]
  exact and_iff_left hid

theorem get?_initialValues (hid : id ≠ new) :
    (initialValues extended stored).get? id = (initialValues fields stored).get? id := by
  rw [get?_initialValues_of_nodup h.ids, get?_initialValues_of_nodup h.nodup, h.find?_eq hid]

theorem get?_resolve_of_not_mem_order (hid : id ≠ new)
    (hn : id ∉ (Template.evaluationOrder fields).order) :
    (resolve extended stored).values.get? id = (resolve fields stored).values.get? id := by
  have hn' : id ∉ (Template.evaluationOrder extended).order := fun hm =>
    hn ((h.mem_order_iff hid).mpr hm)
  rw [Template.get?_resolve, Template.get?_resolve, computedValues, computedValues,
    get?_computeAll_of_not_mem hn, get?_computeAll_of_not_mem hn', h.get?_initialValues hid]

/-- Along the order what a field refers to has its value already, and so the field has. -/
theorem get?_resolve (hid : id ≠ new) :
    (resolve extended stored).values.get? id = (resolve fields stored).values.get? id := by
  by_cases hmem : id ∈ (Template.evaluationOrder fields).order
  · refine (ordered_evaluationOrder fields).induction (P := fun k =>
      (resolve extended stored).values.get? k = (resolve fields stored).values.get? k)
      (by simp) ?_ id hmem
    intro k hk hneeds
    have hne : k ≠ new := (h.mem_computedIds_iff.mp (mem_computedIds_of_mem_order hk)).2
    have hsolves : Solves extended (resolve extended stored).values k :=
      solves_resolve stored ((h.mem_order_iff hne).mp hk)
    have hsolves' : Solves fields (resolve fields stored).values k := solves_resolve stored hk
    rw [hsolves, hsolves', h.outcome hne]
    refine congrArg (Option.map storedFor) (outcome_congr fun d hd => ?_)
    by_cases hd' : d ∈ (Template.evaluationOrder fields).order
    · refine hneeds d ?_
      rw [← Precedence.Needs, needs_precedence]
      exact ⟨hd, mem_computedIds_of_mem_order hd'⟩
    · exact h.get?_resolve_of_not_mem_order (fun hnew => h.not_mem_dependenciesOf (hnew ▸ hd)) hd'
  · exact h.get?_resolve_of_not_mem_order hid hmem

theorem failures (hid : id ≠ new) :
    failures extended (resolve extended stored).values id =
      failures fields (resolve fields stored).values id := by
  have hout : Template.outcome fields (resolve extended stored).values id =
      Template.outcome fields (resolve fields stored).values id :=
    outcome_congr fun d hd => h.get?_resolve fun hnew => h.not_mem_dependenciesOf (hnew ▸ hd)
  rw [Template.failures, Template.failures, h.outcome hid, hout]

/-- Of the failures told of some fields, those that name another field than the new one. -/
theorem filter_flatMap_failures (items : List String) :
    (items.flatMap (Template.failures extended (resolve extended stored).values)).filter
        (·.id ≠ new) =
      (items.filter (· ≠ new)).flatMap
        (Template.failures fields (resolve fields stored).values) := by
  induction items with
  | nil => rfl
  | cons k items ih =>
    have hid : ∀ d ∈ Template.failures extended (resolve extended stored).values k, d.id = k := by
      intro d hd
      have hsub := (sublist_map_id_failures extended (resolve extended stored).values k).subset
      exact List.mem_singleton.mp (hsub (List.mem_map_of_mem hd))
    rw [List.flatMap_cons, List.filter_append, ih]
    by_cases hk : k = new
    · have hnone : (Template.failures extended (resolve extended stored).values k).filter
          (·.id ≠ new) = [] := by
        rw [List.filter_eq_nil_iff]
        intro d hd
        simp [hid d hd, hk]
      rw [hnone, List.filter_cons_of_neg (by simpa using hk), List.nil_append]
    · have hall : (Template.failures extended (resolve extended stored).values k).filter
          (·.id ≠ new) = Template.failures extended (resolve extended stored).values k := by
        rw [List.filter_eq_self]
        intro d hd
        simp [hid d hd, hk]
      rw [hall, List.filter_cons_of_pos (by simpa using hk), List.flatMap_cons, h.failures hk]

/-- All that is told of the other fields is what was told of them before. -/
theorem filter_diagnostics : (resolve extended stored).diagnostics.filter (·.id ≠ new) =
    (resolve fields stored).diagnostics := by
  rw [diagnostics_resolve, diagnostics_resolve fields, h.evaluationOrder, Precedence.Schedule.filter,
    List.filter_append, List.filter_append, h.filter_flatMap_failures, List.filter_map,
    List.filter_map]
  rfl

end ExtendedBy

variable {before after : List Field} {f : Field}

theorem extendedBy_of_nodup (hids : ((before ++ f :: after).map Field.id).Nodup)
    (hunused : ∀ g ∈ before ++ after, f.id ∉ dependencies (vocabulary (before ++ f :: after)) g) :
    ExtendedBy (before ++ after) (before ++ f :: after) f.id where
  ids := hids
  others := by
    have hmiddle := (List.nodup_middle (a := f.id)).mp (by simpa using hids)
    have hothers : ∀ g ∈ before ++ after, g.id ≠ f.id := by
      rintro g hg hid
      refine (List.nodup_cons.mp hmiddle).1 ?_
      rw [← List.map_append, ← hid]
      exact List.mem_map_of_mem hg
    rw [List.filter_append, List.filter_cons_of_neg (by simp), ← List.filter_append,
      List.filter_eq_self]
    exact fun g hg => decide_eq_true (hothers g hg)
  unused := hunused

/-- A field of a new id may be put anywhere among fields of distinct ids none of which refers to
it, though it is looked for in all of their formulas. Every other id comes to the same value, the
fields there were before stand in the same order and are on a cycle or behind one as before, and
what is told of them is the same, in the same order. -/
theorem resolve_extended (hids : ((before ++ f :: after).map Field.id).Nodup)
    (hunused : ∀ g ∈ before ++ after, f.id ∉ dependencies (vocabulary (before ++ f :: after)) g)
    (stored : Values) :
    let fields := before ++ after
    let extended := before ++ f :: after
    (∀ id, id ≠ f.id →
        (resolve extended stored).values.get? id = (resolve fields stored).values.get? id) ∧
      evaluationOrder fields = (evaluationOrder extended).filter (· ≠ f.id) ∧
      (resolve extended stored).diagnostics.filter (·.id ≠ f.id) =
        (resolve fields stored).diagnostics := by
  intro fields extended
  have h : ExtendedBy fields extended f.id := extendedBy_of_nodup hids hunused
  exact ⟨fun _ hid => h.get?_resolve hid, h.evaluationOrder, h.filter_diagnostics⟩

/-- A number of two words, its double, and a field that needs itself. -/
def doubledFields : List Field := [
  { id := "n a", type := .number },
  { id := "d", type := .number, entered := some "n a * 2" }]

def loopFields : List Field := [
  { id := "l", type := .number, entered := some "l + d" }]

/-- A field whose id is found in another formula, where a longer id has taken its place. -/
def successorField : Field := { id := "a", type := .number, entered := some "d + l" }

theorem resolve_doubledFields_extended :
    let fields := doubledFields ++ loopFields
    let extended := doubledFields ++ successorField :: loopFields
    let stored := Values.ofEntries [("n a", "3"), ("a", "9")]
    (resolve extended stored).values.get? "d" = (resolve fields stored).values.get? "d" ∧
      evaluationOrder fields = (evaluationOrder extended).filter (· ≠ "a") ∧
      (resolve extended stored).diagnostics.filter (·.id ≠ "a") =
        (resolve fields stored).diagnostics := by
  intro fields extended stored
  have hids : (extended.map Field.id).Nodup := by decide
  have hvocabulary : vocabulary extended =
      ⟨["n a", "a", "d", "l"], by decide, by decide, by decide⟩ :=
    Formula.Vocabulary.ofIds_eq (by decide +kernel) (by decide +kernel)
  have htaken : ∀ g ∈ fields, ∀ formula ∈ g.formula,
      ¬ ∃ r ∈ Formula.occupyAll ["n a", "a", "d", "l"] formula.toList, r.id = "a" := by
    decide +kernel
  have hunused : ∀ g ∈ fields, "a" ∉ dependencies (vocabulary extended) g := by
    intro g hg
    rw [dependencies]
    cases hformula : g.formula with
    | none => simp
    | some formula =>
      rw [Option.map_some, Option.getD_some, hvocabulary,
        Formula.Vocabulary.mem_dependencies_iff]
      exact htaken g hg formula hformula
  obtain ⟨hvalues, horder, hdiagnostics⟩ := resolve_extended hids hunused stored
  exact ⟨hvalues "d" (by decide), horder, hdiagnostics⟩

end Invoicing.Template
