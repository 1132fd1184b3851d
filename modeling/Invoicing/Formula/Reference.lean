import Invoicing.Formula.Vocabulary
import Invoicing.Text.Alphanumeric

/-!
References of a formula to ids. Each id is looked for from left to right, and
the search goes on behind the place where it was found. A place counts if the id
is not joined to a word there and no id that was looked for before has taken any
of it.
-/
namespace Invoicing.Formula

open Text

/-- An id and the bytes of the formula where it stands, from `start` up to `stop`. -/
structure Reference where
  id : String
  start : Nat
  stop : Nat
  deriving DecidableEq, Repr

/-- A place where a word was found, and the characters next to it. -/
structure Occurrence where
  start : Nat
  before : Option Char
  after : Option Char
  deriving DecidableEq, Repr

/-- The places of a word, none overlapping the one before. The first `skip` characters belong to
a place already found; `position` and `before` tell where the characters start and what
precedes them. -/
def occurrences (word : List Char) (skip position : Nat) (before : Option Char) :
    List Char → List Occurrence
  | [] => []
  | c :: cs =>
    match skip with
    | skip + 1 => occurrences word skip (position + c.utf8Size) (some c) cs
    | 0 =>
      if word.isPrefixOf (c :: cs) then
        ⟨position, before, ((c :: cs).drop word.length).head?⟩ ::
          occurrences word (word.length - 1) (position + c.utf8Size) (some c) cs
      else occurrences word 0 (position + c.utf8Size) (some c) cs

/-- Two neighbouring characters are of one word. -/
def joined (a b : Option Char) : Bool :=
  a.any isWordChar && b.any isWordChar

/-- A word at this place is not part of a longer one. -/
def Occurrence.isWhole (o : Occurrence) (word : List Char) : Bool :=
  !joined o.before word.head? && !joined word.getLast? o.after

def Occurrence.reference (o : Occurrence) (id : String) : Reference :=
  ⟨id, o.start, o.start + width id⟩

def Reference.overlaps (r s : Reference) : Bool :=
  r.start < s.stop && s.start < r.stop

/-- A reference is taken unless some of its place is taken already. -/
def occupy (taken : List Reference) (r : Reference) : List Reference :=
  if taken.any r.overlaps then taken else r :: taken

/-- The places of an id that count by themselves. -/
def candidates (text : List Char) (id : String) : List Reference :=
  ((occurrences id.toList 0 0 none text).filter (·.isWhole id.toList)).map (·.reference id)

/-- All references, those of longer ids taken first. -/
def occupyAll (words : List String) (text : List Char) : List Reference :=
  words.foldl (fun taken id => (candidates text id).foldl occupy taken) []

namespace Vocabulary

/-- The references of a formula in the order in which they stand. -/
def references (v : Vocabulary) (formula : String) : List Reference :=
  (occupyAll v.words formula.toList).mergeSort (fun r s => r.start ≤ s.start)

/-- The ids that a formula refers to, in order of first occurrence. -/
def dependencies (v : Vocabulary) (formula : String) : List String :=
  distinct ((v.references formula).map Reference.id)

end Vocabulary

theorem id_of_mem_candidates {text : List Char} {id : String} {r : Reference}
    (h : r ∈ candidates text id) : r.id = id := by
  simp only [candidates, List.mem_map, List.mem_filter] at h
  obtain ⟨o, -, rfl⟩ := h
  rfl

theorem mem_of_mem_occupy {taken : List Reference} {r s : Reference} (h : s ∈ occupy taken r) :
    s ∈ taken ∨ s = r := by
  unfold occupy at h
  split at h
  · exact .inl h
  · exact (List.mem_cons.1 h).symm

theorem mem_of_mem_foldl_occupy {rs taken : List Reference} {s : Reference}
    (h : s ∈ rs.foldl occupy taken) : s ∈ taken ∨ s ∈ rs := by
  induction rs generalizing taken with
  | nil => exact .inl h
  | cons r rs ih =>
    rcases ih h with h | h
    · exact (mem_of_mem_occupy h).imp_right (by simp +contextual)
    · exact .inr (List.mem_cons_of_mem r h)

/-- What is taken is a candidate of one of the ids. -/
theorem mem_of_mem_occupyAll {words : List String} {text : List Char} {r : Reference}
    (h : r ∈ occupyAll words text) : ∃ id ∈ words, r ∈ candidates text id := by
  suffices ∀ taken, r ∈ words.foldl (fun taken id => (candidates text id).foldl occupy taken) taken →
      r ∈ taken ∨ ∃ id ∈ words, r ∈ candidates text id by
    simpa using this [] h
  clear h
  induction words with
  | nil => exact fun _ h => .inl h
  | cons id words ih =>
    intro taken h
    rcases ih _ h with h | ⟨id', hid', h⟩
    · rcases mem_of_mem_foldl_occupy h with h | h
      · exact .inl h
      · exact .inr ⟨id, List.mem_cons_self, h⟩
    · exact .inr ⟨id', List.mem_cons_of_mem id hid', h⟩

/-- A formula depends on known ids only. -/
theorem Vocabulary.mem_words_of_mem_dependencies {v : Vocabulary} {formula id : String}
    (h : id ∈ v.dependencies formula) : id ∈ v.words := by
  simp only [dependencies, references, mem_distinct, List.mem_map, List.mem_mergeSort] at h
  obtain ⟨r, hr, rfl⟩ := h
  obtain ⟨id, hid, hr⟩ := mem_of_mem_occupyAll hr
  exact id_of_mem_candidates hr ▸ hid

end Invoicing.Formula
