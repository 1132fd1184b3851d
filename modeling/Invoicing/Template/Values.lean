import Invoicing.Entries

/-!
The field values of a record: each id has at most one. Storing a value leaves
all others as they are.
-/
namespace Invoicing.Template

structure Values where
  entries : List (String × String)
  nodup : (Entries.keys entries).Nodup

namespace Values

def empty : Values := ⟨[], .nil⟩

instance : Inhabited Values := ⟨empty⟩

/-- The value of an id. -/
def get? (values : Values) (id : String) : Option String :=
  Entries.find id values.entries

/-- The ids that have a value. -/
def ids (values : Values) : List String :=
  Entries.keys values.entries

/-- Stores a value. -/
def insert (values : Values) (id value : String) : Values :=
  ⟨Entries.put id value values.entries, Entries.nodup_keys_put id value values.nodup⟩

/-- Removes a value. -/
def erase (values : Values) (id : String) : Values :=
  ⟨values.entries.filter (·.1 ≠ id), (List.filter_sublist.map Prod.fst).nodup values.nodup⟩

/-- Stores all values of a list, the last of an id over those before. -/
def insertAll (values : Values) (entries : List (String × String)) : Values :=
  entries.foldl (fun values e => values.insert e.1 e.2) values

def ofEntries (entries : List (String × String)) : Values :=
  empty.insertAll entries

@[simp] theorem get?_empty (id : String) : empty.get? id = none := rfl

@[simp] theorem get?_insert (values : Values) (id value k : String) :
    (values.insert id value).get? k = if k = id then some value else values.get? k :=
  Entries.find_put id value values.entries k

@[simp] theorem get?_erase (values : Values) (id k : String) :
    (values.erase id).get? k = if k = id then none else values.get? k :=
  Entries.find_filter_ne id values.entries k

/-- Of all values stored at once, each takes the place of the one before. -/
theorem get?_insertAll (values other : Values) (k : String) :
    (values.insertAll other.entries).get? k = (other.get? k).or (values.get? k) := by
  obtain ⟨entries, nodup⟩ := other
  simp only [get?]
  induction entries generalizing values with
  | nil => rfl
  | cons e entries ih =>
    obtain ⟨he, nodup⟩ := List.nodup_cons.1 nodup
    have hrest : Entries.find e.1 entries = none := by
      rw [← Option.not_isSome_iff_eq_none, Entries.find_isSome_iff]
      exact he
    refine (ih (values.insert e.1 e.2) nodup).trans ?_
    simp only [insert, Entries.find_put, Entries.find_cons]
    by_cases hk : e.1 = k
    · subst hk
      simp [hrest]
    · simp [hk, Ne.symm hk]

/-- Storing what is stored already changes nothing. -/
theorem insertAll_eq_self {values : Values} {entries : List (String × String)}
    (h : ∀ e ∈ entries, values.get? e.1 = some e.2) : values.insertAll entries = values := by
  induction entries with
  | nil => rfl
  | cons e entries ih =>
    obtain ⟨he, hrest⟩ := List.forall_mem_cons.1 h
    have hsame : values.insert e.1 e.2 = values := by
      unfold insert
      congr 1
      exact Entries.put_of_find he
    have hcons : values.insertAll (e :: entries) = (values.insert e.1 e.2).insertAll entries := rfl
    rw [hcons, hsame, ih hrest]

theorem mem_ids_iff {values : Values} {id : String} :
    id ∈ values.ids ↔ (values.get? id).isSome :=
  Entries.find_isSome_iff.symm

theorem get?_eq_some_iff {values : Values} {id value : String} :
    values.get? id = some value ↔ (id, value) ∈ values.entries :=
  ⟨Entries.mem_of_find_eq_some, Entries.find_of_mem values.nodup⟩

/-- What is found does not depend on the order of the entries. -/
theorem get?_eq_of_perm {values values' : Values} (h : values.entries.Perm values'.entries) :
    values.get? = values'.get? := by
  funext id
  refine Option.ext fun value => ?_
  rw [get?_eq_some_iff, get?_eq_some_iff, h.mem_iff]

end Values

end Invoicing.Template
