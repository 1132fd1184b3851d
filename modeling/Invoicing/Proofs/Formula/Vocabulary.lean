import Mathlib.Data.List.Destutter
import Invoicing.Proofs.Formula.Evaluation
import Invoicing.Template.Values

/-!
# Ids in whatever order they come

The ids that a formula may refer to are looked for in an order of their own. So it
does not matter how they are listed: in which order, how often, and whether an
empty one is among them. In particular a record may list the ids that have values
in any order.
-/
namespace Invoicing.Formula

open Template (Values)

variable {ids ids' : List String} {values values' : Values}

instance : Std.Antisymm Ranks :=
  ⟨fun _ _ => Ranks.antisymm⟩

namespace Vocabulary

theorem pairwise_ranks (ids : List String) :
    (ids.mergeSort fun a b => Ranks a b).Pairwise Ranks := by
  refine (List.pairwise_mergeSort (fun a b c hab hbc => ?_) (fun a b => ?_) ids).imp
    of_decide_eq_true
  · simp only [decide_eq_true_eq] at *
    exact hab.trans hbc
  · simpa using Ranks.total a b

/-- Ids may be sorted before their repetitions are dropped, each being then a repetition of the
one in front of it. -/
theorem words_ofIds (ids : List String) : (ofIds ids).words =
    ((ids.filter (· ≠ "")).mergeSort fun a b => Ranks a b).destutter (· ≠ ·) := by
  have hsorted := pairwise_ranks (ids.filter (· ≠ ""))
  rw [hsorted.destutter_eq_dedup]
  have hperm : (ofIds ids).words.Perm
      ((ids.filter (· ≠ "")).mergeSort fun a b => Ranks a b).dedup := by
    refine (List.perm_ext_iff_of_nodup (ofIds ids).nodup (List.nodup_dedup _)).mpr fun id => ?_
    rw [mem_words_ofIds, List.mem_dedup, List.mem_mergeSort, List.mem_filter, decide_eq_true_eq]
  exact hperm.eq_of_pairwise (fun _ _ _ _ hab hba => hab.antisymm hba) (ofIds ids).ranked
    (hsorted.sublist (List.dedup_sublist _))

end Vocabulary

/-- The references of a formula depend on which ids there are, not on how they are listed: sorted
and rid of repeated neighbours, either list is what is looked for. Hence a record whose ids are
those with values gives the same expression and the same value in whatever order it lists them. -/
theorem references_of_same_ids (hids : ∀ id, id ≠ "" → (id ∈ ids ↔ id ∈ ids'))
    (hvalues : values.entries.Perm values'.entries) (formula : String) :
    (Vocabulary.ofIds ids).words =
        ((ids'.filter (· ≠ "")).mergeSort fun a b => Ranks a b).destutter (· ≠ ·) ∧
      (Vocabulary.ofIds ids).references formula = (Vocabulary.ofIds ids').references formula ∧
      substitute (.ofIds values.ids) values.get? formula =
        substitute (.ofIds values'.ids) values'.get? formula ∧
      evaluate (.ofIds values.ids) values.get? formula =
        evaluate (.ofIds values'.ids) values'.get? formula ∧
      evaluateOrFallback (.ofIds values.ids) values.get? formula =
        evaluateOrFallback (.ofIds values'.ids) values'.get? formula := by
  have hsame : Vocabulary.ofIds ids = Vocabulary.ofIds ids' := Vocabulary.ofIds_congr hids
  have hkeys : Vocabulary.ofIds values.ids = Vocabulary.ofIds values'.ids :=
    Vocabulary.ofIds_congr fun _ _ => (hvalues.map Prod.fst).mem_iff
  have hget : values.get? = values'.get? := Values.get?_eq_of_perm hvalues
  refine ⟨?_, ?_, ?_, ?_, ?_⟩
  · rw [hsame, Vocabulary.words_ofIds]
  · rw [hsame]
  all_goals rw [hkeys, hget]

/-- A record with two values, and the same one listed from its end. -/
def sampleRecord : Values := ⟨[("qty", "4"), ("gross-qty", "5")], by decide⟩

def sampleRecordReversed : Values := ⟨[("gross-qty", "5"), ("qty", "4")], by decide⟩

/-- Repeated and empty ids are left out, and the ids of a record come from either end. -/
theorem references_of_repeated_ids :
    (Vocabulary.ofIds ["qty", "", "gross-qty", "qty"]).references "gross-qty / qty" =
        (Vocabulary.ofIds ["gross-qty", "qty"]).references "gross-qty / qty" ∧
      evaluate (.ofIds ["qty", "gross-qty"]) sampleRecord.get? "gross-qty / qty" =
        evaluate (.ofIds ["gross-qty", "qty"]) sampleRecordReversed.get? "gross-qty / qty" := by
  have hids : ∀ id, id ≠ "" →
      (id ∈ ["qty", "", "gross-qty", "qty"] ↔ id ∈ ["gross-qty", "qty"]) := by
    simp +contextual [or_comm]
  have hentries : sampleRecord.entries.Perm sampleRecordReversed.entries := .swap _ _ _
  have h := references_of_same_ids hids hentries "gross-qty / qty"
  exact ⟨h.2.1, h.2.2.2.1⟩

end Invoicing.Formula
