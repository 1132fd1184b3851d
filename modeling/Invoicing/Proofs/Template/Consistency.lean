import Invoicing.Proofs.Formula.Evaluation
import Invoicing.Proofs.Template.Ordering
import Invoicing.Template.Resolution

/-!
# Resolved values are consistent

A formula is evaluated while later fields are still open, yet nothing that it
reads changes afterwards: what it refers to is not computed at all, or was
computed before. So the values of a resolved record solve the equations of all
fields in the order, and no other values do that agree with them elsewhere.
-/
namespace Invoicing.Template

open Formula (FormulaError)

/-- What the formula of a field gives under some values. -/
def outcome (fields : List Field) (values : Values) (id : String) :
    Option (Except FormulaError String) :=
  (formula? fields id).map (Formula.evaluate (vocabulary fields) values.get?)

/-- The value stored for an outcome. -/
def storedFor : Except FormulaError String → String
  | .ok value => value
  | .error _ => Formula.fallback

/-- The failure told for an outcome. -/
def toldFor (id : String) : Except FormulaError String → List Diagnostic
  | .ok _ => []
  | .error e => [.evaluationFailed id e.message]

/-- A field holds what its formula gives under the values themselves. -/
def Solves (fields : List Field) (values : Values) (id : String) : Prop :=
  values.get? id = (outcome fields values id).map storedFor

/-- The failures that the formula of a field gives rise to. -/
def failures (fields : List Field) (values : Values) (id : String) : List Diagnostic :=
  ((outcome fields values id).map (toldFor id)).getD []

theorem outcome_congr {fields : List Field} {values values' : Values} {id : String}
    (h : ∀ d ∈ dependenciesOf fields id, values.get? d = values'.get? d) :
    outcome fields values id = outcome fields values' id := by
  rw [dependenciesOf_eq] at h
  unfold outcome
  cases hf : formula? fields id with
  | none => rfl
  | some formula =>
    rw [hf] at h
    exact congrArg some (Formula.evaluate_congr h)

/-- Only declared ids are referred to. -/
theorem mem_ids_of_mem_dependenciesOf {fields : List Field} {id d : String}
    (h : d ∈ dependenciesOf fields id) : ∃ f ∈ fields, f.id = d := by
  rw [dependenciesOf_eq] at h
  cases hf : formula? fields id with
  | none => simp [hf] at h
  | some formula =>
    rw [hf] at h
    have hw := (Formula.Vocabulary.mem_words_ofIds.mp
      (Formula.Vocabulary.mem_words_of_mem_dependencies h)).1
    obtain ⟨f, hfield, hid⟩ := List.mem_map.mp hw
    exact ⟨f, hfield, hid⟩

/-- One step stores what the formula gives and tells if that is a failure. -/
theorem computeField_eq {fields : List Field} {p : Progress} {id : String}
    {o : Except FormulaError String} (h : outcome fields p.values id = some o) :
    computeField fields (vocabulary fields) p id =
      ⟨p.values.insert id (storedFor o), p.failures ++ toldFor id o⟩ := by
  obtain ⟨formula, hf, rfl⟩ := Option.map_eq_some_iff.mp h
  cases ho : Formula.evaluate (vocabulary fields) p.values.get? formula with
  | ok value => simp [computeField, hf, ho, storedFor, toldFor]
  | error e => simp [computeField, hf, ho, storedFor, toldFor]

theorem outcome_of_mem_computedIds {fields : List Field} {id : String}
    (h : id ∈ computedIds fields) (values : Values) : ∃ o, outcome fields values id = some o := by
  obtain ⟨formula, hf⟩ := mem_computedIds_iff.mp h
  exact ⟨_, by rw [outcome, hf]; rfl⟩

/-- Computes fields one after the other. -/
def computeAll (fields : List Field) (items : List String) (p : Progress) : Progress :=
  items.foldl (computeField fields (vocabulary fields)) p

@[simp] theorem computeAll_nil (fields : List Field) (p : Progress) :
    computeAll fields [] p = p := rfl

@[simp] theorem computeAll_cons (fields : List Field) (id : String) (items : List String)
    (p : Progress) :
    computeAll fields (id :: items) p =
      computeAll fields items (computeField fields (vocabulary fields) p id) := rfl

variable {fields : List Field} {items : List String}

/-- Computing a field touches no other value. -/
theorem get?_computeField {p : Progress} {id k : String} (hk : k ≠ id) :
    (computeField fields (vocabulary fields) p id).values.get? k = p.values.get? k := by
  cases h : outcome fields p.values id with
  | none =>
    have hf : formula? fields id = none := Option.map_eq_none_iff.mp h
    simp [computeField, hf]
  | some o => simp [computeField_eq h, hk]

theorem get?_computeAll_of_not_mem {k : String} (hk : k ∉ items) (p : Progress) :
    (computeAll fields items p).values.get? k = p.values.get? k := by
  induction items generalizing p with
  | nil => rfl
  | cons id items ih =>
    obtain ⟨hne, hrest⟩ : k ≠ id ∧ k ∉ items := by simpa using hk
    rw [computeAll_cons, ih hrest, get?_computeField hne]

/-- What a field refers to is not computed after it, and not at the same time. -/
theorem not_mem_of_dependency {done : List String} {id d : String}
    (hordered : Precedence.Ordered (precedence fields).needs done (id :: items))
    (hitems : ∀ x ∈ id :: items, x ∈ computedIds fields) (hd : d ∈ dependenciesOf fields id) :
    d ∉ id :: items := by
  intro hm
  have hneed : (precedence fields).Needs id d := by
    rw [needs_precedence]
    exact ⟨hd, hitems d hm⟩
  exact hordered.not_mem_done hm (hordered.2.1 d hneed)

/-- The outcome at the time when a field is computed is the outcome at the end. -/
theorem outcome_computeAll {done : List String} {id : String}
    (hordered : Precedence.Ordered (precedence fields).needs done (id :: items))
    (hitems : ∀ x ∈ id :: items, x ∈ computedIds fields) (p : Progress) :
    outcome fields (computeAll fields (id :: items) p).values id = outcome fields p.values id := by
  apply outcome_congr
  intro d hd
  exact get?_computeAll_of_not_mem (not_mem_of_dependency hordered hitems hd) p

/-- Fields computed in order solve their equations under the values at the end. -/
theorem solves_computeAll {done : List String}
    (hordered : Precedence.Ordered (precedence fields).needs done items)
    (hitems : ∀ x ∈ items, x ∈ computedIds fields) (p : Progress) :
    ∀ id ∈ items, Solves fields (computeAll fields items p).values id := by
  induction items generalizing done p with
  | nil => intro id hid; cases hid
  | cons a items ih =>
    intro id hid
    rcases List.mem_cons.mp hid with rfl | hid
    · obtain ⟨o, ho⟩ := outcome_of_mem_computedIds (hitems id List.mem_cons_self) p.values
      have hnot : id ∉ items := (List.nodup_cons.mp hordered.nodup).1
      rw [Solves, outcome_computeAll hordered hitems, ho, computeAll_cons,
        get?_computeAll_of_not_mem hnot, computeField_eq ho]
      simp
    · exact ih hordered.2.2 (fun x hx => hitems x (List.mem_cons_of_mem a hx)) _ id hid

/-- The failures told are those that the formulas give rise to under the values at the
end, in order. -/
theorem failures_computeAll {done : List String}
    (hordered : Precedence.Ordered (precedence fields).needs done items)
    (hitems : ∀ x ∈ items, x ∈ computedIds fields) (p : Progress) :
    (computeAll fields items p).failures =
      p.failures ++ items.flatMap (failures fields (computeAll fields items p).values) := by
  induction items generalizing done p with
  | nil => simp
  | cons a items ih =>
    obtain ⟨o, ho⟩ := outcome_of_mem_computedIds (hitems a List.mem_cons_self) p.values
    have hfirst : failures fields (computeAll fields (a :: items) p).values a = toldFor a o := by
      rw [failures, outcome_computeAll hordered hitems, ho]
      rfl
    have hrest := ih hordered.2.2 (fun x hx => hitems x (List.mem_cons_of_mem a hx))
      (computeField fields (vocabulary fields) p a)
    rw [List.flatMap_cons, hfirst, computeAll_cons, hrest, computeField_eq ho]
    simp

/-- A definition changes what is stored only for a number with nothing in it. -/
theorem initial?_eq (f : Field) (value : Option String) : initial? f value =
    if f.type = .number ∧ value.all isBlankText then some Formula.fallback else value := by
  by_cases hnumber : f.type = .number
  · cases value with
    | none => simp [initial?, hnumber]
    | some text =>
      cases hblank : isBlankText text <;> simp [initial?, hnumber, hblank, Option.filter_some]
  · simp [initial?, hnumber]

theorem initial?_eq_none {f : Field} {stored : Option String} (h : initial? f stored = none) :
    stored = none := by
  rw [initial?_eq] at h
  split at h
  · cases h
  · exact h

/-- An id starts from what the last of its definitions says that says anything. -/
theorem get?_initialValues (fields : List Field) (stored : Values) (id : String) :
    (initialValues fields stored).get? id =
      fields.reverse.findSome? fun f =>
        if f.id = id then initial? f (stored.get? id) else none := by
  have hor (o : Option String) : o = o.or (Values.empty.get? id) := by simp
  rw [hor (fields.reverse.findSome? _)]
  unfold initialValues
  -- What the fold has stored so far comes behind what it stores from here on.
  generalize Values.empty = start
  induction fields generalizing start with
  | nil => rfl
  | cons f fields ih =>
    rw [List.foldl_cons, ih, List.reverse_cons, List.findSome?_append, Option.or_assoc]
    by_cases hid : f.id = id
    · subst hid
      cases hi : initial? f (stored.get? f.id) with
      | none => simp [hi]
      | some value => simp [hi]
    · cases hi : initial? f (stored.get? f.id) with
      | none => simp [hid]
      | some value => simp [hid, Ne.symm hid]

/-- A declared id starts without a value only if nothing is stored for it. -/
theorem get?_eq_none_of_initialValues {stored : Values} {f : Field} (hf : f ∈ fields)
    (h : (initialValues fields stored).get? f.id = none) : stored.get? f.id = none := by
  rw [get?_initialValues, List.findSome?_eq_none_iff] at h
  exact initial?_eq_none (by simpa using h f (List.mem_reverse.mpr hf))

/-- The values of the defined fields after the computation. -/
def computedValues (fields : List Field) (stored : Values) : Progress :=
  computeAll fields (evaluationOrder fields).order ⟨initialValues fields stored, []⟩

theorem resolve_eq (fields : List Field) (stored : Values) : resolve fields stored =
    ⟨stored.insertAll (computedValues fields stored).values.entries,
      (computedValues fields stored).failures
        ++ (evaluationOrder fields).cyclic.map .cyclicDependency
        ++ (evaluationOrder fields).blocked.map .blockedByCycle⟩ :=
  rfl

theorem get?_resolve (fields : List Field) (stored : Values) (id : String) :
    (resolve fields stored).values.get? id =
      ((computedValues fields stored).values.get? id).or (stored.get? id) :=
  Values.get?_insertAll stored _ id

theorem mem_computedIds_of_mem_order {id : String} (h : id ∈ (evaluationOrder fields).order) :
    id ∈ computedIds fields :=
  Precedence.mem_items_of_mem_scope (Precedence.mem_of_mem_order h)

theorem ordered_evaluationOrder (fields : List Field) :
    Precedence.Ordered (precedence fields).needs [] (evaluationOrder fields).order :=
  (precedence fields).ordered_order _

/-- A declared id ends with the value it has after the computation. -/
theorem get?_resolve_of_declared {f : Field} (hf : f ∈ fields) (stored : Values) :
    (resolve fields stored).values.get? f.id = (computedValues fields stored).values.get? f.id := by
  rw [get?_resolve]
  cases h : (computedValues fields stored).values.get? f.id with
  | some value => rfl
  | none =>
    have hn : f.id ∉ (evaluationOrder fields).order := by
      intro hm
      obtain ⟨o, ho⟩ := outcome_of_mem_computedIds (mem_computedIds_of_mem_order hm)
        (computedValues fields stored).values
      have hs := solves_computeAll (ordered_evaluationOrder fields)
        (fun x hx => mem_computedIds_of_mem_order hx) ⟨initialValues fields stored, []⟩ f.id hm
      change Solves fields (computedValues fields stored).values f.id at hs
      rw [Solves, h, ho] at hs
      cases hs
    have hi : (computedValues fields stored).values.get? f.id =
        (initialValues fields stored).get? f.id := get?_computeAll_of_not_mem hn _
    rw [Option.none_or]
    exact get?_eq_none_of_initialValues hf (hi.symm.trans h)

theorem outcome_resolve (fields : List Field) (stored : Values) (id : String) :
    outcome fields (resolve fields stored).values id =
      outcome fields (computedValues fields stored).values id := by
  apply outcome_congr
  intro d hd
  obtain ⟨f, hf, rfl⟩ := mem_ids_of_mem_dependenciesOf hd
  exact get?_resolve_of_declared hf stored

/-- Resolved values solve the equations of all fields in the order. -/
theorem solves_resolve (stored : Values) {id : String}
    (hid : id ∈ (evaluationOrder fields).order) :
    Solves fields (resolve fields stored).values id := by
  have hs := solves_computeAll (ordered_evaluationOrder fields)
    (fun x hx => mem_computedIds_of_mem_order hx) ⟨initialValues fields stored, []⟩ id hid
  obtain ⟨o, ho⟩ := outcome_of_mem_computedIds (mem_computedIds_of_mem_order hid)
    (computedValues fields stored).values
  change Solves fields (computedValues fields stored).values id at hs
  rw [Solves, ho] at hs
  rw [Solves, outcome_resolve, ho, get?_resolve, hs]
  rfl

/-- Values that solve the equations of fields in order are determined by the values of all
other ids. -/
theorem solution_unique {done : List String} {values values' : Values}
    (hordered : Precedence.Ordered (precedence fields).needs done items)
    (hitems : ∀ x ∈ items, x ∈ computedIds fields)
    (hagree : ∀ id, id ∉ items → values.get? id = values'.get? id)
    (hsolves : ∀ id ∈ items, Solves fields values id)
    (hsolves' : ∀ id ∈ items, Solves fields values' id) :
    ∀ id ∈ items, values.get? id = values'.get? id := by
  induction items generalizing done with
  | nil => intro id hid; cases hid
  | cons a items ih =>
    have hout : outcome fields values a = outcome fields values' a := by
      apply outcome_congr
      intro d hd
      exact hagree d (not_mem_of_dependency hordered hitems hd)
    have ha : values.get? a = values'.get? a := by
      rw [hsolves a List.mem_cons_self, hsolves' a List.mem_cons_self, hout]
    have hrest := ih hordered.2.2 (fun x hx => hitems x (List.mem_cons_of_mem a hx))
      (by
        intro id hid
        by_cases hia : id = a
        · rw [hia, ha]
        · exact hagree id (by simp [hia, hid]))
      (fun id hid => hsolves id (List.mem_cons_of_mem a hid))
      (fun id hid => hsolves' id (List.mem_cons_of_mem a hid))
    intro id hid
    rcases List.mem_cons.mp hid with rfl | hid
    · exact ha
    · exact hrest id hid

/-- The message of a diagnostic that tells the failure of a field. -/
def Diagnostic.failureOf? (id : String) : Diagnostic → Option String
  | .evaluationFailed failed message => if failed = id then some message else none
  | .cyclicDependency _ | .blockedByCycle _ => none

/-- The messages of all failures of a field. -/
def Resolution.messages (r : Resolution) (id : String) : List String :=
  r.diagnostics.filterMap (·.failureOf? id)

theorem filterMap_failures (values : Values) (id k : String) :
    (failures fields values k).filterMap (·.failureOf? id) =
      if k = id then (failures fields values k).filterMap (·.failureOf? id) else [] := by
  unfold failures
  cases outcome fields values k with
  | none => simp
  | some o =>
    by_cases hk : k = id
    · simp [hk]
    · cases o with
      | ok value => simp [toldFor]
      | error e => simp [toldFor, Diagnostic.failureOf?, hk]

/-- Among the failures of different fields those of one field are its own. -/
theorem filterMap_flatMap_failures (values : Values) {id : String} (hitems : items.Nodup)
    (hid : id ∈ items) :
    (items.flatMap (failures fields values)).filterMap (·.failureOf? id) =
      (failures fields values id).filterMap (·.failureOf? id) := by
  have hother : ∀ ks : List String, id ∉ ks →
      (ks.flatMap (failures fields values)).filterMap (·.failureOf? id) = [] := by
    intro ks hks
    induction ks with
    | nil => rfl
    | cons k ks ih =>
      obtain ⟨hne, hks⟩ : id ≠ k ∧ id ∉ ks := by simpa using hks
      rw [List.flatMap_cons, List.filterMap_append, filterMap_failures, if_neg hne.symm, ih hks]
      rfl
  induction items with
  | nil => cases hid
  | cons k items ih =>
    obtain ⟨hk, hitems⟩ := List.nodup_cons.mp hitems
    rw [List.flatMap_cons, List.filterMap_append]
    rcases List.mem_cons.mp hid with rfl | hid
    · rw [hother items hk, List.append_nil]
    · have hne : k ≠ id := by
        rintro rfl
        exact hk hid
      rw [filterMap_failures, if_neg hne, ih hitems hid]
      rfl

/-- What is told of a resolved record. -/
theorem diagnostics_resolve (fields : List Field) (stored : Values) :
    (resolve fields stored).diagnostics =
      (evaluationOrder fields).order.flatMap (failures fields (resolve fields stored).values)
      ++ (evaluationOrder fields).cyclic.map .cyclicDependency
      ++ (evaluationOrder fields).blocked.map .blockedByCycle := by
  have hall := failures_computeAll (ordered_evaluationOrder fields)
    (fun x hx => mem_computedIds_of_mem_order hx) ⟨initialValues fields stored, []⟩
  have hsame : failures fields (resolve fields stored).values =
      failures fields (computedValues fields stored).values := by
    funext id
    rw [failures, failures, outcome_resolve]
  rw [hsame, resolve_eq]
  dsimp only
  rw [computedValues, hall, List.nil_append]

/-- The failures told of a field in the order are those of its own formula. -/
theorem messages_resolve (stored : Values) {id : String}
    (hid : id ∈ (evaluationOrder fields).order) :
    (resolve fields stored).messages id =
      (failures fields (resolve fields stored).values id).filterMap (·.failureOf? id) := by
  have hcyclic : ∀ ids : List String,
      (ids.map Diagnostic.cyclicDependency).filterMap (·.failureOf? id) = [] := by
    simp [Diagnostic.failureOf?]
  have hblocked : ∀ ids : List String,
      (ids.map Diagnostic.blockedByCycle).filterMap (·.failureOf? id) = [] := by
    simp [Diagnostic.failureOf?]
  rw [Resolution.messages, diagnostics_resolve, List.filterMap_append, List.filterMap_append,
    hcyclic, hblocked, List.append_nil, List.append_nil,
    filterMap_flatMap_failures _ (ordered_evaluationOrder fields).nodup hid]

/-- The values of a resolved record are the only solution of its template. Under the final
values the formula of every field in the order gives exactly what is stored and no failure is
told, or it fails, the fallback is stored and its message is told once; and values that
agree with the final ones outside the order and solve the same equations are the final ones. -/
theorem resolve_unique_solution (fields : List Field) (stored : Values) :
    let r := resolve fields stored
    let order := (evaluationOrder fields).order
    (∀ f ∈ order, ∃ formula, formula? fields f = some formula ∧
      ((∃ value, Formula.evaluate (vocabulary fields) r.values.get? formula = .ok value ∧
          r.values.get? f = some value ∧ r.messages f = []) ∨
        (∃ e, Formula.evaluate (vocabulary fields) r.values.get? formula = .error e ∧
          r.values.get? f = some "0" ∧ r.messages f = [e.message]))) ∧
    (∀ other : Values, (∀ id, id ∉ order → other.get? id = r.values.get? id) →
      (∀ f ∈ order, Solves fields other f) → ∀ f ∈ order, other.get? f = r.values.get? f) := by
  intro r order
  constructor
  · intro f hf
    obtain ⟨formula, hformula⟩ := mem_computedIds_iff.mp (mem_computedIds_of_mem_order hf)
    have hsolves : Solves fields r.values f := solves_resolve stored hf
    have hmessages := messages_resolve stored hf
    change r.messages f = (failures fields r.values f).filterMap _ at hmessages
    refine ⟨formula, hformula, ?_⟩
    simp only [Solves, failures, outcome, hformula, Option.map_some, Option.getD_some]
      at hsolves hmessages
    cases ho : Formula.evaluate (vocabulary fields) r.values.get? formula with
    | ok value =>
      rw [ho] at hsolves hmessages
      exact .inl ⟨value, rfl, hsolves, hmessages⟩
    | error e =>
      rw [ho] at hsolves hmessages
      refine .inr ⟨e, rfl, hsolves, ?_⟩
      simpa [toldFor, Diagnostic.failureOf?] using hmessages
  · intro other hagree hsolves
    exact solution_unique (ordered_evaluationOrder fields)
      (fun x hx => mem_computedIds_of_mem_order hx) hagree hsolves
      (fun f hf => solves_resolve stored hf)

end Invoicing.Template
