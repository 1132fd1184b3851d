import Invoicing.Formula.Substitution

/-!
# What an evaluation reads

The value of a formula is determined by the values of the ids it refers to, and
by nothing else that is stored. Which ids those are depends on what ids there
are, not on the order in which they are given.
-/
namespace Invoicing.Formula

variable {value? value?' : String → Option String}

theorem splice_congr {position : Nat} {text : List Char} {references : List Reference}
    (h : ∀ r ∈ references, value? r.id = value?' r.id) :
    splice value? position text references = splice value?' position text references := by
  induction references generalizing position text with
  | nil => rfl
  | cons r references ih =>
    have hr := h r List.mem_cons_self
    have hrest := fun s hs => h s (List.mem_cons_of_mem r hs)
    simp only [splice, hr]
    cases value?' r.id with
    | none => rfl
    | some value => simp only [ih hrest]

/-- Only for want of a value that is referred to values cannot be put in. -/
theorem missing_of_splice {position : Nat} {text : List Char} {references : List Reference}
    {e : FormulaError} (h : splice value? position text references = .error e) :
    ∃ r ∈ references, e = .missingValue r.id := by
  induction references generalizing position text with
  | nil => cases h
  | cons r references ih =>
    rw [splice] at h
    cases hvalue : value? r.id with
    | none =>
      rw [hvalue] at h
      exact ⟨r, List.mem_cons_self, (Except.error.inj h).symm⟩
    | some value =>
      rw [hvalue] at h
      cases hrest : splice value? r.stop (dropBytes (r.stop - position) text) references with
      | error e' =>
        simp only [hrest] at h
        cases h
        obtain ⟨s, hs, he⟩ := ih hrest
        exact ⟨s, List.mem_cons_of_mem r hs, he⟩
      | ok rest =>
        simp only [hrest] at h
        cases h

variable {v : Vocabulary} {formula : String}

theorem substitute_congr (h : ∀ id ∈ v.dependencies formula, value? id = value?' id) :
    substitute v value? formula = substitute v value?' formula := by
  unfold substitute
  rw [splice_congr]
  intro r hr
  exact h r.id (mem_distinct.mpr (List.mem_map_of_mem hr))

theorem evaluate_congr (h : ∀ id ∈ v.dependencies formula, value? id = value?' id) :
    evaluate v value? formula = evaluate v value?' formula := by
  unfold evaluate
  rw [substitute_congr h]

/-- Which ids there are determines the order in which they are looked for. -/
theorem Vocabulary.eq_of_mem_words {w : Vocabulary} (h : ∀ id, id ∈ v.words ↔ id ∈ w.words) :
    v = w := by
  have hperm : v.words.Perm w.words := (List.perm_ext_iff_of_nodup v.nodup w.nodup).mpr h
  have hwords : v.words = w.words :=
    hperm.eq_of_pairwise (fun _ _ _ _ hab hba => hab.antisymm hba) v.ranked w.ranked
  cases v
  cases w
  cases hwords
  rfl

/-- A vocabulary is that of any ids which are its words. -/
theorem Vocabulary.ofIds_eq {ids : List String} (hids : ∀ id ∈ ids, id ≠ "" → id ∈ v.words)
    (hwords : ∀ id ∈ v.words, id ∈ ids) : ofIds ids = v := by
  refine eq_of_mem_words fun id => ?_
  rw [mem_words_ofIds]
  constructor
  · intro ⟨hid, hne⟩
    exact hids id hid hne
  · intro hid
    refine ⟨hwords id hid, ?_⟩
    rintro rfl
    exact v.nonempty hid

/-- Lists of the same ids, apart from empty ones, are the same vocabulary. -/
theorem Vocabulary.ofIds_congr {ids ids' : List String}
    (h : ∀ id, id ≠ "" → (id ∈ ids ↔ id ∈ ids')) : ofIds ids = ofIds ids' := by
  refine eq_of_mem_words fun id => ?_
  rw [mem_words_ofIds, mem_words_ofIds]
  exact and_congr_left fun hid => h id hid

end Invoicing.Formula
