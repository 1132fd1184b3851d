import Invoicing.Proofs.Precedence.Rounds
import Invoicing.Proofs.Template.Locality

/-!
# Ways from a field back to itself

A field is on a cycle if it refers to itself, directly or through others. Only
fields with formulas refer to anything, so the search among those finds every
cycle there is, and the way it tells goes through no other field twice.
-/
namespace Invoicing.Template

open Relation (TransGen)

variable {fields : List Field} {f g : String} {path : List String}

/-- A way from a field to one that it refers to, and on until it is back at the field. No other
field is met twice. -/
structure LeadsBack (fields : List Field) (f : String) (path : List String) : Prop where
  length : 2 ≤ path.length
  head : path.head? = some f
  last : path.getLast? = some f
  chain : path.IsChain (RefersTo fields)
  nodup : path.dropLast.Nodup

/-- Only a field with a formula refers to anything. -/
theorem RefersTo.mem_computedIds (h : RefersTo fields f g) : f ∈ computedIds fields := by
  rw [RefersTo, dependenciesOf_eq] at h
  cases hformula : formula? fields f with
  | none =>
    rw [hformula] at h
    cases h
  | some formula => exact mem_computedIds_iff.mpr ⟨formula, hformula⟩

theorem mem_computedIds_of_transGen (h : TransGen (RefersTo fields) f g) :
    f ∈ computedIds fields := by
  obtain ⟨d, hd, -⟩ := Relation.TransGen.head'_iff.mp h
  exact hd.mem_computedIds

/-- What lies between a field and one with a formula has a formula too. -/
theorem transGen_dependsOn (h : TransGen (RefersTo fields) f g) (hg : g ∈ computedIds fields) :
    TransGen (DependsOn fields) f g := by
  induction h using Relation.TransGen.head_induction_on with
  | single hfg => exact .single ⟨hfg, hg⟩
  | head hfd hdg ih => exact .head ⟨hfd, mem_computedIds_of_transGen hdg⟩ ih

/-- So a field that refers to itself, directly or through others, does so through formulas. -/
theorem transGen_refersTo_iff :
    TransGen (RefersTo fields) f f ↔ TransGen (DependsOn fields) f f := by
  constructor
  · intro h
    exact transGen_dependsOn h (mem_computedIds_of_transGen h)
  · intro h
    have hle : DependsOn fields ≤ RefersTo fields := fun _ _ hfg => hfg.1
    exact Relation.TransGen.mono hle f f h

theorem computedIds_subset_ids (fields : List Field) : computedIds fields ⊆ ids fields :=
  (List.filter_sublist.map Field.id).subset

theorem leadsBack_of_isCycle (h : (precedence fields).IsCycle f path) :
    LeadsBack fields f path := by
  obtain ⟨inner, rfl, hnodup, hchain⟩ := h
  rw [needs_precedence] at hchain
  refine ⟨by simp, rfl, List.getLast?_concat, hchain.imp fun _ _ hfg => hfg.1, ?_⟩
  rwa [List.dropLast_concat]

/-- The search for a way from a field back to itself ends, after no more rounds than there are
fields with formulas and dependencies between them. It finds one exactly if the field refers to
itself, directly or through others. -/
theorem cycleThrough_tells (fields : List Field) (f : String) :
    (f ∈ computedIds fields → ∃ n ≤ (precedence fields).size,
      (precedence fields).EndsAfter f n [(f, (precedence fields).needs f)] [f]
        ((precedence fields).cycleThrough f)) ∧
    (((precedence fields).cycleThrough f).isSome ↔
      f ∈ ids fields ∧ TransGen (RefersTo fields) f f) ∧
    ∀ path ∈ (precedence fields).cycleThrough f, LeadsBack fields f path := by
  refine ⟨Precedence.cycleThrough_endsAfter (p := precedence fields), ?_, ?_⟩
  · have hcyclic := Precedence.isCyclic_iff (p := precedence fields) (a := f)
    rw [Precedence.isCyclic, onCycle_precedence_iff, ← transGen_refersTo_iff] at hcyclic
    rw [hcyclic]
    constructor
    · intro h
      exact ⟨computedIds_subset_ids fields (mem_computedIds_of_transGen h), h⟩
    · exact And.right
  · intro path hpath
    exact leadsBack_of_isCycle (Precedence.isCycle_of_cycleThrough hpath)

/-- Two cycles with two fields in common. -/
def crossingFields : List Field := [
  { id := "u", type := .number, entered := some "a + w" },
  { id := "a", type := .number, entered := some "u" },
  { id := "w", type := .number, entered := some "a" }]

/-- The way back to the last field goes through a cycle that does not lead back to it. -/
theorem cycleThrough_crossingFields :
    (precedence crossingFields).cycleThrough "w" = some ["w", "a", "u", "w"] ∧
      LeadsBack crossingFields "w" ["w", "a", "u", "w"] ∧
      TransGen (RefersTo crossingFields) "w" "w" ∧
      ∃ n ≤ 7, (precedence crossingFields).EndsAfter "w" n [("w", ["a"])] ["w"]
        (some ["w", "a", "u", "w"]) := by
  have hcomputed : computedIds crossingFields = ["u", "a", "w"] := by decide +kernel
  have htable : dependencyTable crossingFields =
      [("u", ["a", "w"]), ("a", ["u"]), ("w", ["a"])] := by
    rw [dependencyTable_of_words (by decide +kernel)]
    decide +kernel
  have hfound : (precedence crossingFields).cycleThrough "w" = some ["w", "a", "u", "w"] := by
    simp [Precedence.cycleThrough, Precedence.search, Precedence.path, precedence, htable,
      hcomputed, Entries.find]
  have hsize : (precedence crossingFields).size = 7 := by
    simp [Precedence.size, precedence, htable, hcomputed, Entries.find]
  have hneeds : (precedence crossingFields).needs "w" = ["a"] := by
    simp [precedence, htable, hcomputed, Entries.find]
  obtain ⟨hends, hiff, hpath⟩ := cycleThrough_tells crossingFields "w"
  rw [hfound] at hends hiff hpath
  rw [hsize, hneeds] at hends
  exact ⟨hfound, hpath _ rfl, (hiff.mp rfl).2, hends (by rw [hcomputed]; decide)⟩

end Invoicing.Template
