import Invoicing.Proofs.Formula.Words
import Invoicing.Proofs.Precedence.Schedule
import Invoicing.Template.Dependency
import Mathlib.Data.List.Nodup

/-!
# The order of the computed fields

A computed field depends on another one if its formula refers to it. Asked for
some fields, the schedule divides the computed fields that they reach into those
that can be put in order, those on a cycle, and those behind one.
-/
namespace Invoicing.Template

open Relation (ReflTransGen TransGen)

theorem find?_definitions (fields : List Field) (id : String) :
    (definitions fields).find? (·.id = id) = fields.find? (·.id = id) :=
  find?_distinctBy Field.id fields id

theorem formula?_eq (fields : List Field) (id : String) :
    formula? fields id = ((definitions fields).find? (·.id = id)).bind Field.formula := by
  rw [formula?, find?_definitions]

/-- Of fields with distinct ids each is found by its id. -/
theorem find?_of_nodup {fields : List Field} (hids : (fields.map Field.id).Nodup) {f : Field}
    (hf : f ∈ fields) : fields.find? (·.id = f.id) = some f := by
  cases h : fields.find? (·.id = f.id) with
  | none => exact absurd (List.find?_eq_none.mp h f hf) (by simp)
  | some g =>
    have hid : g.id = f.id := by simpa using List.find?_some h
    exact congrArg some (List.inj_on_of_nodup_map hids (List.mem_of_find?_eq_some h) hf hid)

theorem formula?_of_mem {fields : List Field} {f : Field} (hf : f ∈ definitions fields) :
    formula? fields f.id = f.formula := by
  rw [formula?_eq, find?_of_nodup (nodup_ids fields) hf, Option.bind_some]

/-- An id is computed if its first definition has a formula. -/
theorem mem_computedIds_iff {fields : List Field} {id : String} :
    id ∈ computedIds fields ↔ ∃ formula, formula? fields id = some formula := by
  simp only [computedIds, List.mem_map, List.mem_filter]
  constructor
  · rintro ⟨f, ⟨hf, hformula⟩, rfl⟩
    rw [formula?_of_mem hf]
    exact Option.isSome_iff_exists.mp hformula
  · rintro ⟨formula, h⟩
    rw [formula?_eq] at h
    obtain ⟨f, hfind, hformula⟩ := Option.bind_eq_some_iff.mp h
    have hid : f.id = id := by simpa using List.find?_some hfind
    exact ⟨f, ⟨List.mem_of_find?_eq_some hfind, by simp [Field.hasFormula, hformula]⟩, hid⟩

theorem dependenciesOf_eq (fields : List Field) (id : String) :
    dependenciesOf fields id =
      ((formula? fields id).map (vocabulary fields).dependencies).getD [] := by
  rw [dependenciesOf, dependencyTable, Entries.find_map, formula?_eq]
  cases (definitions fields).find? (·.id = id) with
  | none => rfl
  | some f => rfl

/-- Where ids are words, a formula refers to those of its words that are ids, so the table can be
worked out without the search for one id after the other. -/
theorem dependencyTable_of_words {fields : List Field}
    (hids : ∀ f ∈ fields, Formula.IsWord f.id.toList) :
    dependencyTable fields = (definitions fields).map fun f =>
      (f.id, (f.formula.map fun formula =>
        distinct (((Formula.runs formula).map Formula.Reference.id).filter
          (· ∈ fields.map Field.id))).getD []) := by
  have hids : ∀ id ∈ fields.map Field.id, Formula.IsWord id.toList := by
    rw [List.forall_mem_map]
    exact hids
  have hwords : ∀ id, id ∈ (vocabulary fields).words ↔ id ∈ fields.map Field.id := fun _ =>
    Formula.mem_ofIds_iff_of_words hids
  have hisWord : ∀ id ∈ (vocabulary fields).words, Formula.IsWord id.toList := fun id hid =>
    hids id ((hwords id).mp hid)
  have hdependencies : (vocabulary fields).dependencies = fun formula => distinct
      (((Formula.runs formula).map Formula.Reference.id).filter (· ∈ fields.map Field.id)) := by
    funext formula
    rw [Formula.Vocabulary.dependencies_eq_of_words hisWord]
    simp only [hwords]
  simp only [dependencyTable, dependencies, hdependencies]

/-- The formula of one field refers to another field that has a formula. -/
def DependsOn (fields : List Field) (f g : String) : Prop :=
  g ∈ dependenciesOf fields f ∧ g ∈ computedIds fields

theorem dependsOn_iff {fields : List Field} {f g : String} :
    DependsOn fields f g ↔
      (∃ formula, formula? fields f = some formula ∧ g ∈ (vocabulary fields).dependencies formula) ∧
      g ∈ computedIds fields := by
  rw [DependsOn, dependenciesOf_eq]
  cases formula? fields f with
  | none => simp
  | some formula => simp

/-- Of the ids that a field refers to it needs those that are computed. -/
theorem needs_eq (fields : List Field) (id : String) :
    (precedence fields).needs id = (dependenciesOf fields id).filter (· ∈ computedIds fields) := by
  have htable : Entries.find id ((dependencyTable fields).map
      fun e => (e.1, e.2.filter (· ∈ computedIds fields))) =
      (Entries.find id (dependencyTable fields)).map (·.filter (· ∈ computedIds fields)) := by
    rw [dependencyTable, List.map_map]
    simp only [Function.comp_def]
    rw [Entries.find_map, Entries.find_map, Option.map_map]
    rfl
  rw [dependenciesOf, precedence]
  simp only [htable]
  cases Entries.find id (dependencyTable fields) with
  | none => rfl
  | some ds => rfl

theorem waitingIn_precedence (fields : List Field) (scope : List String) :
    (precedence fields).waitingIn scope = scope.map fun id =>
      (id, ((dependenciesOf fields id).filter (· ∈ computedIds fields)).filter (· ∈ scope)) := by
  simp only [Precedence.waitingIn, needs_eq]

theorem needs_precedence (fields : List Field) : (precedence fields).Needs = DependsOn fields := by
  funext f g
  rw [Precedence.Needs, needs_eq, DependsOn, List.mem_filter, decide_eq_true_eq]

theorem order_evaluationOrder (fields : List Field) :
    (evaluationOrder fields).order = (precedence fields).order (computedIds fields) := by
  rw [evaluationOrder, Precedence.fullSchedule_eq]
  rfl

/-- A single computed field is put in order unless it refers to itself. -/
theorem order_eq_singleton {fields : List Field} {f : String} (hcomputed : computedIds fields = [f])
    (hself : f ∉ dependenciesOf fields f) : (evaluationOrder fields).order = [f] := by
  have hnone : (dependenciesOf fields f).filter (· ∈ [f]) = [] := by
    rw [List.filter_eq_nil_iff]
    intro d hd hdf
    obtain rfl : d = f := by simpa using hdf
    exact hself hd
  rw [order_evaluationOrder, Precedence.order, waitingIn_precedence, hcomputed, List.map_singleton,
    hnone]
  simp [Precedence.freed, Precedence.held, Precedence.release, Precedence.place]

/-- The fields with formulas among the roots, and those that they depend on directly or
through others. -/
def InScope (fields : List Field) (roots : List String) (f : String) : Prop :=
  ∃ r ∈ roots, r ∈ computedIds fields ∧ ReflTransGen (DependsOn fields) r f

theorem mem_scope_precedence_iff {fields : List Field} {roots : List String} {f : String} :
    f ∈ (precedence fields).scope roots ↔ InScope fields roots f := by
  rw [Precedence.mem_scope_iff]
  simp only [Precedence.Reaches, needs_precedence]
  rfl

theorem onCycle_precedence_iff {fields : List Field} {f : String} :
    (precedence fields).OnCycle f ↔ TransGen (DependsOn fields) f f := by
  rw [Precedence.OnCycle, needs_precedence]

theorem reachesCycle_precedence_iff {fields : List Field} {f : String} :
    (precedence fields).ReachesCycle f ↔
      ∃ c, ReflTransGen (DependsOn fields) f c ∧ TransGen (DependsOn fields) c c := by
  simp only [Precedence.ReachesCycle, Precedence.Reaches, onCycle_precedence_iff, needs_precedence]

/-- A schedule divides the fields in scope by the cycles they reach, and puts those that
reach none in order. -/
structure Divides (fields : List Field) (roots : List String)
    (s : Precedence.Schedule String) : Prop where
  once : (s.order ++ s.cyclic ++ s.blocked).Nodup
  scope : ∀ f, f ∈ s.order ++ s.cyclic ++ s.blocked ↔ InScope fields roots f
  cyclic : ∀ f, f ∈ s.cyclic ↔ InScope fields roots f ∧ TransGen (DependsOn fields) f f
  blocked : ∀ f, f ∈ s.blocked ↔
    InScope fields roots f ∧ ¬ TransGen (DependsOn fields) f f ∧
      ∃ c, ReflTransGen (DependsOn fields) f c ∧ TransGen (DependsOn fields) c c
  order : ∀ f, f ∈ s.order ↔
    InScope fields roots f ∧
      ¬ ∃ c, ReflTransGen (DependsOn fields) f c ∧ TransGen (DependsOn fields) c c
  before : ∀ f ∈ s.order, ∀ g, DependsOn fields f g →
    ∃ i j, s.position g = some i ∧ s.position f = some j ∧ i < j

/-- Whatever is asked for, the fields in scope are divided without loss and without
repetition, and every dependency stands strictly before the field that has it. -/
theorem orderFrom_divides (fields : List Field) (roots : List String) :
    Divides fields roots (orderFrom fields roots) where
  once := Precedence.nodup_schedule _ roots
  scope := by
    intro f
    rw [← mem_scope_precedence_iff]
    exact Precedence.mem_schedule_iff
  cyclic := by
    intro f
    rw [← mem_scope_precedence_iff, ← onCycle_precedence_iff]
    exact Precedence.mem_cyclic_iff
  blocked := by
    intro f
    rw [← mem_scope_precedence_iff, ← onCycle_precedence_iff, ← reachesCycle_precedence_iff]
    exact Precedence.mem_blocked_iff
  order := by
    intro f
    rw [← mem_scope_precedence_iff, ← reachesCycle_precedence_iff]
    exact Precedence.mem_order_iff
  before := by
    intro f hf g hfg
    rw [← needs_precedence] at hfg
    exact Precedence.position_lt hf hfg

end Invoicing.Template
