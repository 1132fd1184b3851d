import Invoicing.Proofs.Precedence.Restriction
import Invoicing.Proofs.Precedence.Sequence
import Invoicing.Proofs.Template.Ordering

/-!
# Where a computed field stands

Asked for some fields, the schedule has them as the schedule of the whole template
has them, and leaves out what they do not depend on. A field stands where the last
of its dependencies and its definition put it.
-/
namespace Invoicing.Template

variable {fields : List Field} {roots order : List String} {f g id : String}

instance (fields : List Field) (roots : List String) (f : String) :
    Decidable (InScope fields roots f) :=
  decidable_of_iff _ mem_scope_precedence_iff

/-- The schedule for some roots is that of all computed fields, in the same order, without those
that no root with a formula depends on. -/
theorem orderFrom_eq_filter (fields : List Field) (roots : List String) :
    orderFrom fields roots = (evaluationOrder fields).filter (InScope fields roots ·) := by
  rw [orderFrom, Precedence.schedule_eq_filter, evaluationOrder]
  simp only [mem_scope_precedence_iff]

/-- The place of the first definition of an id. -/
def definitionPlace (fields : List Field) (id : String) : Nat :=
  (fields.map Field.id).idxOf id

/-- The place in an order of the last field with a formula that a field depends on, and -1 if it
depends on none. -/
def lastDependency (fields : List Field) (order : List String) (f : String) : Int :=
  Precedence.lastPlace order ((dependenciesOf fields f).filter (· ∈ computedIds fields))

theorem lastDependency_eq (fields : List Field) (order : List String) (f : String) :
    lastDependency fields order f = Precedence.lastPlace order ((precedence fields).needs f) := by
  rw [lastDependency, needs_eq]

/-- Fields that depend on the same fields with formulas have the same last one. -/
theorem lastDependency_congr (h : ∀ d, DependsOn fields f d ↔ DependsOn fields g d) :
    lastDependency fields order f = lastDependency fields order g := by
  refine Precedence.lastPlace_congr fun d => ?_
  simp only [List.mem_filter, decide_eq_true_eq]
  exact h d

/-- Keys that are kept once stand in the order in which each first occurs. -/
theorem pairwise_idxOf_distinctBy {α β : Type} [DecidableEq β] (key : α → β) (as : List α) :
    ((distinctBy key as).map key).Pairwise
      fun k l => (as.map key).idxOf k < (as.map key).idxOf l := by
  induction as with
  | nil => exact .nil
  | cons a as ih =>
    have hne : ∀ k ∈ ((distinctBy key as).filter (key · ≠ key a)).map key, key a ≠ k := by
      intro k hk
      obtain ⟨b, hb, rfl⟩ := List.mem_map.mp hk
      exact (of_decide_eq_true (List.mem_filter.mp hb).2).symm
    rw [distinctBy_cons]
    refine List.pairwise_cons.mpr ⟨fun k hk => ?_, ?_⟩
    · rw [List.map_cons, List.idxOf_cons_self, List.idxOf_cons_ne _ (hne k hk)]
      exact Nat.succ_pos _
    · refine (ih.sublist (List.filter_sublist.map key)).imp_of_mem fun hk hl hlt => ?_
      rw [List.map_cons, List.idxOf_cons_ne _ (hne _ hk), List.idxOf_cons_ne _ (hne _ hl)]
      exact Nat.succ_lt_succ hlt

theorem pairwise_definitionPlace (fields : List Field) :
    (computedIds fields).Pairwise fun f g => definitionPlace fields f < definitionPlace fields g :=
  (pairwise_idxOf_distinctBy Field.id fields).sublist (List.filter_sublist.map Field.id)

/-- Of two fields of an order the one stands first whose last dependency stands first; where both
have the same last dependency or none, the one that is defined first. So fields that depend on the
same fields with formulas stand in the order of their definitions. -/
theorem orderFrom_before_iff (hf : f ∈ (orderFrom fields roots).order)
    (hg : g ∈ (orderFrom fields roots).order) (hne : f ≠ g) :
    let order := (orderFrom fields roots).order
    (order.idxOf f < order.idxOf g ↔
      lastDependency fields order f < lastDependency fields order g ∨
        lastDependency fields order f = lastDependency fields order g ∧
          definitionPlace fields f < definitionPlace fields g) ∧
    ((∀ d, DependsOn fields f d ↔ DependsOn fields g d) →
      (order.idxOf f < order.idxOf g ↔ definitionPlace fields f < definitionPlace fields g)) := by
  intro order
  have hbefore : order.idxOf f < order.idxOf g ↔
      lastDependency fields order f < lastDependency fields order g ∨
        lastDependency fields order f = lastDependency fields order g ∧
          definitionPlace fields f < definitionPlace fields g := by
    rw [lastDependency_eq, lastDependency_eq]
    exact Precedence.idxOf_order_lt_iff (pairwise_definitionPlace fields) hf hg hne
  refine ⟨hbefore, fun hsame => ?_⟩
  rw [hbefore, lastDependency_congr hsame]
  simp

/-- A sum that is defined before what it adds. -/
def sumFirstFields : List Field := [
  { id := "s", type := .number, entered := some "b + a" },
  { id := "b", type := .number, entered := some "1" },
  { id := "a", type := .number, entered := some "2" }]

/-- What is added needs nothing and stands first, in the order of definition, whatever the sum
names first. -/
theorem orderFrom_before_sumFirstFields :
    let order := (orderFrom sumFirstFields ["s"]).order
    order = ["b", "a", "s"] ∧ lastDependency sumFirstFields order "a" = -1 ∧
      lastDependency sumFirstFields order "s" = 1 ∧ order.idxOf "a" < order.idxOf "s" ∧
      order.idxOf "b" < order.idxOf "a" := by
  have hcomputed : computedIds sumFirstFields = ["s", "b", "a"] := by decide +kernel
  have htable : dependencyTable sumFirstFields = [("s", ["b", "a"]), ("b", []), ("a", [])] := by
    rw [dependencyTable_of_words (by decide +kernel)]
    decide +kernel
  have hscope : (precedence sumFirstFields).scope ["s"] = ["s", "b", "a"] := by
    simp [Precedence.scope, Precedence.reach, Precedence.explore, precedence, htable, hcomputed,
      Entries.find]
  have horder : (orderFrom sumFirstFields ["s"]).order = ["b", "a", "s"] := by
    rw [orderFrom, Precedence.order_schedule, hscope, Precedence.order, waitingIn_precedence]
    simp only [dependenciesOf, htable, hcomputed]
    decide +kernel
  have hmem : ∀ f ∈ ["b", "a", "s"], f ∈ (orderFrom sumFirstFields ["s"]).order := by simp [horder]
  have hlast : lastDependency sumFirstFields (orderFrom sumFirstFields ["s"]).order "a" = -1 ∧
      lastDependency sumFirstFields (orderFrom sumFirstFields ["s"]).order "s" = 1 := by
    rw [lastDependency, lastDependency, horder, hcomputed, dependenciesOf, dependenciesOf, htable]
    decide
  have hfirst := (orderFrom_before_iff (hmem "a" (by simp)) (hmem "s" (by simp)) (by decide)).1
  have hsame := (orderFrom_before_iff (hmem "b" (by simp)) (hmem "a" (by simp)) (by decide)).2
  refine ⟨horder, hlast.1, hlast.2, hfirst.mpr (.inl ?_), (hsame fun d => ?_).mpr (by decide)⟩
  · rw [hlast.1, hlast.2]
    decide
  · simp [DependsOn, dependenciesOf, htable, Entries.find]

end Invoicing.Template
