/-!
Lists of entries under string keys. The first entry of a key is the one that is
found; putting an entry replaces that one, or adds one at the end.
-/
namespace Invoicing.Entries

variable {α : Type}

def keys (es : List (String × α)) : List String :=
  es.map Prod.fst

/-- What the first entry of a key holds. -/
def find (key : String) : List (String × α) → Option α
  | [] => none
  | e :: es => if e.1 = key then some e.2 else find key es

/-- Entries with one replaced, or added at the end. -/
def put (key : String) (a : α) : List (String × α) → List (String × α)
  | [] => [(key, a)]
  | e :: es => if e.1 = key then (key, a) :: es else e :: put key a es

@[simp] theorem find_nil (key : String) : find key ([] : List (String × α)) = none := rfl

theorem find_cons (key : String) (e : String × α) (es : List (String × α)) :
    find key (e :: es) = if e.1 = key then some e.2 else find key es := rfl

/-- What is found is in the list. -/
theorem mem_of_find_eq_some {key : String} {a : α} {es : List (String × α)}
    (h : find key es = some a) : (key, a) ∈ es := by
  induction es with
  | nil => simp at h
  | cons e es ih =>
    rw [find_cons] at h
    split at h
    · rename_i he
      simp [← he, ← Option.some.inj h]
    · exact List.mem_cons_of_mem _ (ih h)

/-- Where keys are distinct, every entry is found. -/
theorem find_of_mem {key : String} {a : α} {es : List (String × α)} (hkeys : (keys es).Nodup)
    (h : (key, a) ∈ es) : find key es = some a := by
  induction es with
  | nil => cases h
  | cons e es ih =>
    obtain ⟨he, hkeys⟩ := List.nodup_cons.1 hkeys
    rcases List.mem_cons.1 h with rfl | h
    · simp [find_cons]
    · have hne : e.1 ≠ key := by
        rintro rfl
        exact he (List.mem_map.2 ⟨_, h, rfl⟩)
      rw [find_cons, if_neg hne, ih hkeys h]

theorem find_isSome_iff {key : String} {es : List (String × α)} :
    (find key es).isSome ↔ key ∈ keys es := by
  induction es with
  | nil => simp [keys]
  | cons e es ih =>
    rw [find_cons]
    split
    · rename_i he
      simp [keys, he]
    · rename_i he
      simp only [keys, List.map_cons, List.mem_cons, ih]
      exact ⟨.inr, Or.rec (absurd ·.symm he) id⟩

/-- What is found among entries made from a list is made from the first element of that key. -/
theorem find_map {β : Type} (key : β → String) (f : β → α) (bs : List β) (k : String) :
    find k (bs.map fun b => (key b, f b)) = (bs.find? (key · = k)).map f := by
  induction bs with
  | nil => rfl
  | cons b bs ih =>
    by_cases h : key b = k
    · simp [find_cons, h]
    · simp [find_cons, h, ih]

theorem find_put (key : String) (a : α) (es : List (String × α)) (k : String) :
    find k (put key a es) = if k = key then some a else find k es := by
  induction es with
  | nil => simp [put, find, eq_comm]
  | cons e es ih =>
    by_cases he : e.1 = key
    · by_cases hk : k = key
      · simp [put, find, he, hk]
      · simp [put, find, he, hk, Ne.symm hk]
    · by_cases hk : e.1 = k
      · simp [put, find, hk, hk ▸ he]
      · simp [put, find, he, hk, ih]

/-- Putting what is found already changes nothing. -/
theorem put_of_find {key : String} {a : α} {es : List (String × α)} (h : find key es = some a) :
    put key a es = es := by
  induction es with
  | nil => cases h
  | cons e es ih =>
    rw [find_cons] at h
    simp only [put]
    split at h
    · rename_i he
      rw [if_pos he, ← Option.some.inj h, ← he]
    · rename_i he
      rw [if_neg he, ih h]

theorem find_filter_ne (key : String) (es : List (String × α)) (k : String) :
    find k (es.filter (·.1 ≠ key)) = if k = key then none else find k es := by
  induction es with
  | nil => simp [find]
  | cons e es ih =>
    simp only [ne_eq, decide_not] at ih
    by_cases he : e.1 = key
    · by_cases hk : k = key
      · subst hk
        simpa [he] using ih
      · simp [find, he, hk, Ne.symm hk, ih]
    · by_cases hk : e.1 = k
      · simp [find, hk, hk ▸ he]
      · simp [find, he, hk, ih]

theorem mem_keys_put {key : String} {a : α} {es : List (String × α)} {k : String} :
    k ∈ keys (put key a es) ↔ k = key ∨ k ∈ keys es := by
  rw [← find_isSome_iff, ← find_isSome_iff, find_put]
  split <;> simp [*]

theorem nodup_keys_put (key : String) (a : α) {es : List (String × α)} (h : (keys es).Nodup) :
    (keys (put key a es)).Nodup := by
  induction es with
  | nil => simp [put, keys]
  | cons e es ih =>
    have h := List.nodup_cons.1 h
    simp only [put]
    split
    · rename_i he
      exact List.nodup_cons.2 (he ▸ h)
    · rename_i he
      refine List.nodup_cons.2 ⟨fun hm => ?_, ih h.2⟩
      rcases mem_keys_put.1 hm with hm | hm
      · exact he hm
      · exact h.1 hm

end Invoicing.Entries
