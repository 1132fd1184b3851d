import Invoicing.Distinct
import Invoicing.Text.Position

/-!
The ids that a formula may refer to, in the order in which they are looked for:
longer ids first, ids of one length in their own order. A vocabulary depends only
on which ids there are.
-/
namespace Invoicing.Formula

open Text

/-- The length of an id in bytes. -/
def width (id : String) : Nat :=
  byteLength id.toList

/-- One id is looked for no later than the other. -/
def Ranks (a b : String) : Prop :=
  width b < width a ∨ width a = width b ∧ a ≤ b

instance (a b : String) : Decidable (Ranks a b) :=
  inferInstanceAs (Decidable (_ ∨ _))

theorem Ranks.trans {a b c : String} (hab : Ranks a b) (hbc : Ranks b c) : Ranks a c := by
  rcases hab with hab | ⟨hab, hab'⟩ <;> rcases hbc with hbc | ⟨hbc, hbc'⟩
  · exact .inl (by omega)
  · exact .inl (by omega)
  · exact .inl (by omega)
  · exact .inr ⟨by omega, String.le_trans hab' hbc'⟩

theorem Ranks.total (a b : String) : Ranks a b ∨ Ranks b a := by
  rcases Nat.lt_trichotomy (width a) (width b) with h | h | h
  · exact .inr (.inl h)
  · rcases String.le_total a b with h' | h'
    · exact .inl (.inr ⟨h, h'⟩)
    · exact .inr (.inr ⟨h.symm, h'⟩)
  · exact .inl (.inl h)

theorem Ranks.antisymm {a b : String} (hab : Ranks a b) (hba : Ranks b a) : a = b := by
  rcases hab with hab | ⟨_, hab'⟩ <;> rcases hba with hba | ⟨_, hba'⟩
  · omega
  · omega
  · omega
  · exact String.le_antisymm hab' hba'

structure Vocabulary where
  words : List String
  nodup : words.Nodup
  ranked : words.Pairwise Ranks
  nonempty : "" ∉ words

namespace Vocabulary

/-- The vocabulary of these ids. An empty id is none. -/
def ofIds (ids : List String) : Vocabulary where
  words := (distinct (ids.filter (· ≠ ""))).mergeSort (fun a b => Ranks a b)
  nodup := (List.mergeSort_perm _ _).nodup_iff.2 (nodup_distinct _)
  ranked := (List.pairwise_mergeSort
    (fun _ _ _ hab hbc => by
      simp only [decide_eq_true_eq] at *
      exact hab.trans hbc)
    (fun a b => by simpa using Ranks.total a b) _).imp of_decide_eq_true
  nonempty := by simp

@[simp] theorem mem_words_ofIds {ids : List String} {id : String} :
    id ∈ (ofIds ids).words ↔ id ∈ ids ∧ id ≠ "" := by
  simp [ofIds]

end Vocabulary

end Invoicing.Formula
