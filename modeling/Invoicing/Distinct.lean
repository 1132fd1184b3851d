/-!
The first elements of a list: of elements with one key only the first is kept,
and those kept stay in order. Its keys are distinct and are all the keys there
are.
-/
namespace Invoicing

variable {α β : Type}

/-- The elements whose key no earlier element has. -/
def distinctBy [DecidableEq β] (key : α → β) : List α → List α
  | [] => []
  | a :: as => a :: (distinctBy key as).filter (key · ≠ key a)

/-- The elements of a list in order of first occurrence. -/
def distinct [DecidableEq α] (as : List α) : List α :=
  distinctBy id as

variable [DecidableEq β] (key : α → β)

@[simp] theorem distinctBy_nil : distinctBy key [] = [] := rfl

theorem distinctBy_cons (a : α) (as : List α) :
    distinctBy key (a :: as) = a :: (distinctBy key as).filter (key · ≠ key a) := rfl

theorem distinctBy_sublist (as : List α) : (distinctBy key as).Sublist as := by
  induction as with
  | nil => exact .slnil
  | cons a as ih => exact (List.filter_sublist.trans ih).cons_cons a

theorem nodup_map_distinctBy (as : List α) : ((distinctBy key as).map key).Nodup := by
  induction as with
  | nil => exact .nil
  | cons a as ih =>
    rw [distinctBy_cons, List.map_cons, List.nodup_cons]
    refine ⟨?_, (List.filter_sublist.map key).nodup ih⟩
    simp only [List.mem_map, List.mem_filter, decide_eq_true_eq, not_exists, not_and]
    exact fun b hb => hb.2

/-- Where keys are distinct, all elements are kept. -/
theorem distinctBy_eq_self {as : List α} (h : (as.map key).Nodup) : distinctBy key as = as := by
  induction as with
  | nil => rfl
  | cons a as ih =>
    obtain ⟨ha, has⟩ := List.nodup_cons.1 h
    rw [distinctBy_cons, ih has, List.filter_eq_self.2]
    intro b hb
    rw [decide_eq_true_eq]
    intro hkey
    exact ha (hkey ▸ List.mem_map_of_mem hb)

/-- An element with the key of another is kept for it. -/
theorem mem_map_distinctBy (as : List α) (k : β) :
    k ∈ (distinctBy key as).map key ↔ k ∈ as.map key := by
  induction as with
  | nil => exact Iff.rfl
  | cons a as ih =>
    simp only [distinctBy_cons, List.map_cons, List.mem_cons, List.mem_map, List.mem_filter,
      decide_eq_true_eq] at ih ⊢
    constructor
    · rintro (rfl | ⟨b, ⟨hb, -⟩, rfl⟩)
      · exact .inl rfl
      · exact .inr (ih.1 ⟨b, hb, rfl⟩)
    · rintro (rfl | hk)
      · exact .inl rfl
      · obtain ⟨b, hb, rfl⟩ := ih.2 hk
        by_cases h : key b = key a
        · exact .inl h
        · exact .inr ⟨b, ⟨hb, h⟩, rfl⟩

/-- The first element of a key is the one that is kept. -/
theorem find?_distinctBy (as : List α) (k : β) :
    (distinctBy key as).find? (key · = k) = as.find? (key · = k) := by
  induction as with
  | nil => rfl
  | cons a as ih =>
    by_cases h : key a = k
    · simp [distinctBy_cons, h]
    · rw [distinctBy_cons, List.find?_cons_of_neg (by simpa using h),
        List.find?_cons_of_neg (by simpa using h), List.find?_filter, ← ih]
      apply congrArg (List.find? · _)
      funext b
      by_cases hb : key b = k
      · simp [hb, Ne.symm h]
      · simp [hb]

theorem nodup_distinct [DecidableEq α] (as : List α) : (distinct as).Nodup := by
  simpa [distinct] using nodup_map_distinctBy id as

@[simp] theorem mem_distinct [DecidableEq α] {as : List α} {a : α} :
    a ∈ distinct as ↔ a ∈ as := by
  simpa [distinct] using mem_map_distinctBy id as a

end Invoicing
