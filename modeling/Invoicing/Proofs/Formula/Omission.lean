import Invoicing.Proofs.Formula.Evaluation
import Invoicing.Proofs.Formula.References

/-!
# Ids that a formula does not refer to

An id may be looked for in a formula and found, and still be refused wherever it
stands. It has then taken no place from any other id. So a formula has the same
references, and the same value, if it is never looked for.
-/
namespace Invoicing.Formula

variable {rs taken : List Reference} {v : Vocabulary} {id formula : String}

/-- References that take no place may be left out. -/
theorem foldl_occupy_filter (keep : Reference → Bool)
    (h : ∀ r ∈ rs.foldl occupy taken, keep r) :
    (rs.filter keep).foldl occupy taken = rs.foldl occupy taken := by
  induction rs generalizing taken with
  | nil => rfl
  | cons r rs ih =>
    by_cases hkeep : keep r
    · rw [List.filter_cons_of_pos hkeep]
      exact ih h
    · have htaken : occupy taken r = taken := by
        unfold occupy
        split
        · rfl
        · rename_i hfree
          have hr : r ∈ (r :: rs).foldl occupy taken := by
            rw [List.foldl_cons, occupy, if_neg hfree]
            exact mem_foldl_occupy_of_mem List.mem_cons_self
          exact absurd (h r hr) hkeep
      rw [List.foldl_cons, htaken] at h
      rw [List.filter_cons_of_neg hkeep, List.foldl_cons, htaken]
      exact ih h

theorem flatMap_candidates_filter (words : List String) (text : List Char) (id : String) :
    (words.filter (· ≠ id)).flatMap (candidates text) =
      (words.flatMap (candidates text)).filter (·.id ≠ id) := by
  induction words with
  | nil => rfl
  | cons word words ih =>
    rw [List.flatMap_cons, List.filter_append, ← ih]
    by_cases hword : word = id
    · have hnone : (candidates text word).filter (·.id ≠ id) = [] := by
        rw [List.filter_eq_nil_iff]
        intro r hr
        simp [id_of_mem_candidates hr, hword]
      rw [hnone, List.nil_append, List.filter_cons_of_neg (by simpa using hword)]
    · have hall : (candidates text word).filter (·.id ≠ id) = candidates text word := by
        rw [List.filter_eq_self]
        intro r hr
        simp [id_of_mem_candidates hr, hword]
      rw [hall, List.filter_cons_of_pos (by simpa using hword), List.flatMap_cons]

namespace Vocabulary

/-- All words but one. -/
def without (v : Vocabulary) (id : String) : Vocabulary where
  words := v.words.filter (· ≠ id)
  nodup := v.nodup.filter _
  ranked := v.ranked.filter _
  nonempty := fun h => v.nonempty (List.mem_of_mem_filter h)

theorem mem_words_without {k : String} : k ∈ (v.without id).words ↔ k ∈ v.words ∧ k ≠ id := by
  simp [without]

/-- An id that is not referred to need not be looked for. -/
theorem references_without (h : id ∉ v.dependencies formula) :
    (v.without id).references formula = v.references formula := by
  have hids : ∀ r ∈ occupyAll v.words formula.toList, decide (r.id ≠ id) := by
    intro r hr
    rw [decide_eq_true_eq]
    rintro rfl
    exact h (mem_dependencies_iff.mpr ⟨r, hr, rfl⟩)
  have hplaces : occupyAll (v.without id).words formula.toList =
      occupyAll v.words formula.toList := by
    rw [occupyAll_eq] at hids ⊢
    rw [occupyAll_eq, without, flatMap_candidates_filter]
    exact foldl_occupy_filter _ hids
  rw [references, references, hplaces]

theorem dependencies_without (h : id ∉ v.dependencies formula) :
    (v.without id).dependencies formula = v.dependencies formula := by
  rw [dependencies, dependencies, references_without h]

end Vocabulary

theorem evaluate_without (h : id ∉ v.dependencies formula) (value? : String → Option String) :
    evaluate (v.without id) value? formula = evaluate v value? formula := by
  rw [evaluate, evaluate, substitute, substitute, Vocabulary.references_without h]

end Invoicing.Formula
