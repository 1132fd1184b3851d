import Invoicing.Proofs.Template.Consistency

/-!
# What the value of a field can depend on

The value of a computed field goes back to the stored values of the ids that its
formula refers to, directly or through other formulas, and that are not computed
themselves. Whatever else is stored, old results of formulas included, makes no
difference to it. Whether a blank value counts as none is up to the last
definition of an id, even where the first one is the one that counts.
-/
namespace Invoicing.Template

open Relation (ReflTransGen TransGen)

variable {fields : List Field} {stored stored' : Values} {id f : String}

/-- The formula of a field refers to an id. -/
def RefersTo (fields : List Field) (f d : String) : Prop :=
  d ∈ dependenciesOf fields f

/-- Nothing is stored, or only white space. -/
def Vacant (value : Option String) : Prop :=
  value.filter (!isBlankText ·) = none

/-- What is stored for an id is the same, or nothing on either side where the last definition
of the id is a number. -/
def AgreeOn (fields : List Field) (stored stored' : Values) (id : String) : Prop :=
  stored.get? id = stored'.get? id ∨
    Vacant (stored.get? id) ∧ Vacant (stored'.get? id) ∧
      ∃ f, fields.reverse.find? (·.id = id) = some f ∧ f.type = .number

theorem vacant_iff {value : Option String} : Vacant value ↔ value.all isBlankText := by
  cases value with
  | none => simp [Vacant]
  | some text => cases hblank : isBlankText text <;> simp [Vacant, Option.filter_some, hblank]

theorem initial?_of_vacant {f : Field} {value : Option String} (htype : f.type = .number)
    (h : Vacant value) : initial? f value = some Formula.fallback := by
  rw [initial?_eq, if_pos ⟨htype, vacant_iff.mp h⟩]

/-- An id starts from what its last definition says, if that says anything. -/
theorem get?_initialValues_of_last {f : Field} {value : String}
    (hlast : fields.reverse.find? (·.id = id) = some f)
    (h : initial? f (stored.get? id) = some value) :
    (initialValues fields stored).get? id = some value := by
  obtain ⟨hid, later, earlier, hsplit, hlater⟩ := List.find?_eq_some_iff_append.mp hlast
  have hnone : later.findSome? (fun g => if g.id = id then initial? g (stored.get? id) else none) =
      none := by
    rw [List.findSome?_eq_none_iff]
    intro g hg
    have hne : g.id ≠ id := by simpa using hlater g hg
    exact if_neg hne
  rw [get?_initialValues, hsplit, List.findSome?_append, hnone, Option.none_or,
    List.findSome?_cons, if_pos (of_decide_eq_true hid), h]

/-- Where two records agree, an id starts from the same. -/
theorem AgreeOn.get?_initialValues (h : AgreeOn fields stored stored' id) :
    (initialValues fields stored).get? id = (initialValues fields stored').get? id := by
  rcases h with h | ⟨hvacant, hvacant', f, hlast, htype⟩
  · rw [Template.get?_initialValues, Template.get?_initialValues, h]
  · rw [get?_initialValues_of_last hlast (initial?_of_vacant htype hvacant),
      get?_initialValues_of_last hlast (initial?_of_vacant htype hvacant')]

/-- What a formula refers to and what is not computed keeps the value that it starts from. -/
theorem get?_resolve_of_not_computed {d : String} (hd : RefersTo fields f d)
    (hn : d ∉ computedIds fields) :
    (resolve fields stored).values.get? d = (initialValues fields stored).get? d := by
  obtain ⟨field, hfield, rfl⟩ := mem_ids_of_mem_dependenciesOf hd
  have hnot : field.id ∉ (evaluationOrder fields).order := fun hm =>
    hn (mem_computedIds_of_mem_order hm)
  rw [get?_resolve_of_declared hfield, computedValues, get?_computeAll_of_not_mem hnot]

theorem get?_resolve_of_mem_order (stored : Values) (hid : id ∈ (evaluationOrder fields).order) :
    (resolve fields stored).values.get? id =
      (outcome fields (resolve fields stored).values id).map storedFor :=
  solves_resolve stored hid

/-- A formula that refers to nothing that is computed sees what the fields start from. -/
theorem outcome_resolve_of_not_computed
    (h : ∀ d ∈ dependenciesOf fields f, d ∉ computedIds fields) :
    outcome fields (resolve fields stored).values f =
      outcome fields (initialValues fields stored) f :=
  outcome_congr fun d hd => get?_resolve_of_not_computed (f := f) hd (h d hd)

/-- Along the order, fields whose formulas go back to ids on which two records agree have the
same outcome in both. -/
theorem outcome_local {root : String}
    (hagree : ∀ d, TransGen (RefersTo fields) root d → d ∉ computedIds fields →
      AgreeOn fields stored stored' d) :
    ∀ f ∈ (evaluationOrder fields).order, ReflTransGen (RefersTo fields) root f →
      outcome fields (resolve fields stored).values f =
        outcome fields (resolve fields stored').values f := by
  -- A need of a field has its outcome by induction, and its value from being in the order itself.
  have hall := (ordered_evaluationOrder fields).induction
    (P := fun f => f ∈ (evaluationOrder fields).order ∧ (ReflTransGen (RefersTo fields) root f →
      outcome fields (resolve fields stored).values f =
        outcome fields (resolve fields stored').values f)) (by simp) ?_
  · exact fun f hf => (hall f hf).2
  intro f hf hneeds
  refine ⟨hf, fun hreach => outcome_congr ?_⟩
  intro d hd
  by_cases hcomputed : d ∈ computedIds fields
  · have hneed : (precedence fields).Needs f d := by
      rw [needs_precedence]
      exact ⟨hd, hcomputed⟩
    obtain ⟨hmem, hout⟩ := hneeds d hneed
    rw [get?_resolve_of_mem_order stored hmem, get?_resolve_of_mem_order stored' hmem,
      hout (hreach.tail hd)]
  · rw [get?_resolve_of_not_computed hd hcomputed, get?_resolve_of_not_computed hd hcomputed]
    exact (hagree d (.tail' hreach hd) hcomputed).get?_initialValues

/-- Two records that agree on every id that is not computed and that the formula of a field goes
back to give the field the same value and the same failure, if any. -/
theorem resolve_local (hf : f ∈ (evaluationOrder fields).order)
    (hagree : ∀ d, TransGen (RefersTo fields) f d → d ∉ computedIds fields →
      AgreeOn fields stored stored' d) :
    (resolve fields stored).values.get? f = (resolve fields stored').values.get? f ∧
      (resolve fields stored).messages f = (resolve fields stored').messages f := by
  have hout := outcome_local hagree f hf .refl
  constructor
  · rw [get?_resolve_of_mem_order stored hf, get?_resolve_of_mem_order stored' hf, hout]
  · rw [messages_resolve stored hf, messages_resolve stored' hf, failures, failures, hout]

/-- An increment of a number. -/
def incrementFields : List Field := [
  { id := "x", type := .number },
  { id := "f", type := .number, entered := some "x + 1" }]

theorem vacant_blank : Vacant (some " ") := by
  have hblank : isBlankText " " = true := by decide +kernel
  rw [Vacant, Option.filter_some, hblank]
  rfl

/-- A blank value and an old result are as good as nothing. -/
theorem resolve_incrementFields_local :
    (resolve incrementFields (.ofEntries [("x", " "), ("f", "7")])).values.get? "f" =
        (resolve incrementFields .empty).values.get? "f" ∧
      (resolve incrementFields (.ofEntries [("x", " "), ("f", "7")])).messages "f" =
        (resolve incrementFields .empty).messages "f" := by
  have hcomputed : computedIds incrementFields = ["f"] := by decide +kernel
  have hself : "f" ∉ dependenciesOf incrementFields "f" := by
    rw [dependenciesOf, dependencyTable_of_words (by decide +kernel)]
    decide +kernel
  have horder := order_eq_singleton hcomputed hself
  refine resolve_local (by simp [horder]) ?_
  intro d _ hd
  by_cases hx : d = "x"
  · subst hx
    exact .inr ⟨vacant_blank, rfl, _, rfl, rfl⟩
  · have hf : d ≠ "f" := by simpa [hcomputed] using hd
    refine .inl ?_
    simp [Values.ofEntries, Values.insertAll, hx, hf]

/-- An id that is a number at first and then a text. -/
def repeatedFields : List Field := [
  { id := "x", type := .number },
  { id := "x", type := .text },
  { id := "f", type := .number, entered := some "x + 1" }]

theorem dependenciesOf_repeatedFields : dependenciesOf repeatedFields "f" = ["x"] := by
  rw [dependenciesOf, dependencyTable_of_words (by decide +kernel)]
  decide +kernel

theorem order_repeatedFields : (evaluationOrder repeatedFields).order = ["f"] :=
  order_eq_singleton (by decide +kernel) (by simp [dependenciesOf_repeatedFields])

/-- The formula sees what the repeated id starts from. -/
theorem get?_resolve_repeatedFields (stored : Values) :
    (resolve repeatedFields stored).values.get? "f" =
      (outcome repeatedFields (initialValues repeatedFields stored) "f").map storedFor := by
  have hx : "x" ∉ computedIds repeatedFields := by decide +kernel
  rw [get?_resolve_of_mem_order _ (by simp [order_repeatedFields]),
    outcome_resolve_of_not_computed (by simpa [dependenciesOf_repeatedFields] using hx)]

theorem vocabulary_repeatedFields :
    vocabulary repeatedFields = ⟨["f", "x"], by decide, by decide, by decide⟩ :=
  Formula.Vocabulary.ofIds_eq (by decide +kernel) (by decide +kernel)

/-- By the definition that counts the id is a number, yet a blank value is not taken for none. -/
theorem resolve_repeatedFields_differs :
    (evaluationOrder repeatedFields).order = ["f"] ∧
      (definitions repeatedFields).map (fun f => (f.id, f.type)) =
        [("x", .number), ("f", .number)] ∧
      (∀ id, id ≠ "x" → (Values.ofEntries [("x", " ")]).get? id = Values.empty.get? id) ∧
      Vacant ((Values.ofEntries [("x", " ")]).get? "x") ∧ Vacant (Values.empty.get? "x") ∧
      (resolve repeatedFields (.ofEntries [("x", " ")])).values.get? "f" = some "0" ∧
      (resolve repeatedFields .empty).values.get? "f" = some "1" := by
  -- A blank value stays where the last definition is a text, and the formula then fails on it.
  have hblank : (resolve repeatedFields (.ofEntries [("x", " ")])).values.get? "f" = some "0" := by
    rw [get?_resolve_repeatedFields, outcome, vocabulary_repeatedFields]
    decide +kernel
  have hnothing : (resolve repeatedFields .empty).values.get? "f" = some "1" := by
    rw [get?_resolve_repeatedFields, outcome, vocabulary_repeatedFields]
    decide +kernel
  refine ⟨order_repeatedFields, by decide +kernel, ?_, vacant_blank, rfl, hblank, hnothing⟩
  intro id hid
  simp [Values.ofEntries, Values.insertAll, hid]

end Invoicing.Template
