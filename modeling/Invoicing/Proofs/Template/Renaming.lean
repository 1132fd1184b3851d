import Invoicing.Proofs.Formula.Renaming
import Invoicing.Proofs.Precedence.Renaming
import Invoicing.Proofs.Template.Consistency
import Mathlib.Data.List.Find

/-!
# Other ids in a template

Ids are labels throughout. A template whose ids are words may take other words
for them, in its definitions, its formulas and the values of its records, as long
as no new id meets a word or a key that was there already and is not an id. It
then comes to the same values under the new ids, and the same is told of them in
the same order.
-/
namespace Invoicing.Entries

variable {α : Type} {f : String → String} {k : String} {es : List (String × α)}

/-- The same entries under other keys. -/
def mapKeys (f : String → String) (es : List (String × α)) : List (String × α) :=
  es.map fun e => (f e.1, e.2)

theorem keys_mapKeys (f : String → String) (es : List (String × α)) :
    keys (mapKeys f es) = (keys es).map f := by
  simp [keys, mapKeys]

theorem find_mapKeys (h : ∀ key ∈ keys es, f key = f k → key = k) :
    find (f k) (mapKeys f es) = find k es := by
  induction es with
  | nil => rfl
  | cons e es ih =>
    obtain ⟨he, hrest⟩ := List.forall_mem_cons.mp h
    have hiff : f e.1 = f k ↔ e.1 = k := ⟨he, congrArg f⟩
    rw [mapKeys, List.map_cons, find_cons, find_cons, ← ih hrest]
    simp only [hiff]
    rfl

theorem put_mapKeys (h : ∀ key ∈ keys es, f key = f k → key = k) (a : α) :
    put (f k) a (mapKeys f es) = mapKeys f (put k a es) := by
  induction es with
  | nil => rfl
  | cons e es ih =>
    obtain ⟨he, hrest⟩ := List.forall_mem_cons.mp h
    have hcons : mapKeys f (e :: es) = (f e.1, e.2) :: mapKeys f es := rfl
    rw [hcons, put, put, ih hrest]
    by_cases hk : e.1 = k
    · rw [if_pos hk, if_pos (congrArg f hk)]
      rfl
    · rw [if_neg hk, if_neg (mt he hk)]
      rfl

theorem put_of_not_mem {key : String} (h : key ∉ keys es) (a : α) :
    put key a es = es ++ [(key, a)] := by
  induction es with
  | nil => rfl
  | cons e es ih =>
    obtain ⟨hne, hrest⟩ : key ≠ e.1 ∧ key ∉ keys es := by simpa [keys] using h
    rw [put, if_neg hne.symm, ih hrest]
    rfl

end Invoicing.Entries

namespace Invoicing.Template

open Formula (FormulaError Renaming)

variable {ρ : Renaming} {fields : List Field} {stored values : Values} {id k : String}

/-! ## Renamed templates, records and diagnostics -/

def Field.rename (ρ : Renaming) (f : Field) : Field :=
  { f with id := ρ f.id, entered := f.entered.map ρ.text }

/-- The same values under the new ids. -/
def Values.rename (ρ : Renaming) (values : Values) : Values :=
  .ofEntries (Entries.mapKeys ρ values.entries)

def Diagnostic.rename (ρ : Renaming) : Diagnostic → Diagnostic
  | .evaluationFailed id message => .evaluationFailed (ρ id) (ρ.message message)
  | .cyclicDependency id => .cyclicDependency (ρ id)
  | .blockedByCycle id => .blockedByCycle (ρ id)

def Progress.rename (ρ : Renaming) (p : Progress) : Progress :=
  ⟨p.values.rename ρ, p.failures.map (·.rename ρ)⟩

def Resolution.rename (ρ : Renaming) (r : Resolution) : Resolution :=
  ⟨r.values.rename ρ, r.diagnostics.map (·.rename ρ)⟩

/-! ## Values under the new ids -/

/-- No key is one of the new ids, unless it is an id itself. -/
def Values.Admitted (ρ : Renaming) (values : Values) : Prop :=
  ∀ k ∈ values.ids, ρ.Fresh k

instance (ρ : Renaming) (values : Values) : Decidable (values.Admitted ρ) :=
  inferInstanceAs (Decidable (∀ k ∈ values.ids, ρ.Fresh k))

namespace Values

theorem ext_entries {values values' : Values} (h : values.entries = values'.entries) :
    values = values' := by
  cases values
  cases values'
  cases h
  rfl

/-- Entries under new keys are added at the end. -/
theorem entries_insertAll (es : List (String × String)) (values : Values)
    (h : (Entries.keys (values.entries ++ es)).Nodup) :
    (values.insertAll es).entries = values.entries ++ es := by
  induction es generalizing values with
  | nil => simp [insertAll]
  | cons e es ih =>
    have hnew : e.1 ∉ Entries.keys values.entries := by
      rw [Entries.keys, List.map_append, List.nodup_append] at h
      exact fun he => h.2.2 e.1 he e.1 List.mem_cons_self rfl
    have hput : (values.insert e.1 e.2).entries = values.entries ++ [e] :=
      Entries.put_of_not_mem hnew e.2
    have hcons : values.insertAll (e :: es) = (values.insert e.1 e.2).insertAll es := rfl
    rw [hcons, ih _ (by rwa [hput, List.append_assoc]), hput, List.append_assoc]
    rfl

theorem entries_rename (h : values.Admitted ρ) :
    (values.rename ρ).entries = Entries.mapKeys ρ values.entries := by
  refine entries_insertAll _ .empty ?_
  have hkeys : Entries.keys (empty.entries ++ Entries.mapKeys ρ values.entries) =
      values.ids.map ρ :=
    Entries.keys_mapKeys ρ values.entries
  rw [hkeys]
  exact values.nodup.map_on fun a ha b hb hab => ρ.injOn_fresh (h a ha) (h b hb) hab

/-- The keys are renamed in place. -/
theorem ids_rename (h : values.Admitted ρ) : (values.rename ρ).ids = values.ids.map ρ := by
  rw [ids, entries_rename h]
  exact Entries.keys_mapKeys ρ values.entries

theorem Admitted.eq_of_apply_eq (h : values.Admitted ρ) (hk : ρ.Fresh k) :
    ∀ key ∈ Entries.keys values.entries, ρ key = ρ k → key = k :=
  fun key hkey hab => ρ.injOn_fresh (h key hkey) hk hab

/-- The value of a label stands under what the label becomes. -/
theorem get?_rename (h : values.Admitted ρ) (hk : ρ.Fresh k) :
    (values.rename ρ).get? (ρ k) = values.get? k := by
  rw [get?, entries_rename h]
  exact Entries.find_mapKeys (h.eq_of_apply_eq hk)

theorem Admitted.insert (h : values.Admitted ρ) (hk : ρ.Fresh k) (value : String) :
    (values.insert k value).Admitted ρ := by
  intro key hkey
  rcases Entries.mem_keys_put.mp hkey with rfl | hkey
  · exact hk
  · exact h key hkey

theorem rename_insert (h : values.Admitted ρ) (hk : ρ.Fresh k) (value : String) :
    (values.insert k value).rename ρ = (values.rename ρ).insert (ρ k) value := by
  refine ext_entries ?_
  rw [entries_rename (h.insert hk value)]
  change _ = Entries.put (ρ k) value (values.rename ρ).entries
  rw [entries_rename h, Entries.put_mapKeys (h.eq_of_apply_eq hk)]
  rfl

theorem insertAll_rename (h : values.Admitted ρ) {es : List (String × String)}
    (hes : ∀ e ∈ es, ρ.Fresh e.1) : (values.insertAll es).Admitted ρ ∧
      (values.rename ρ).insertAll (Entries.mapKeys ρ es) = (values.insertAll es).rename ρ := by
  refine foldl_map_of_step (r := rename ρ) (P := Admitted ρ) (fun e he values h => ?_) h
  exact ⟨h.insert (hes e he) e.2, (rename_insert h (hes e he) e.2).symm⟩

end Values

/-! ## The definitions under the new ids -/

/-- What a renaming needs to go through: its ids are those of the template, and no new id is a
word of a formula or a key of the record that is not an id. -/
structure Renamable (ρ : Renaming) (fields : List Field) (stored : Values) : Prop where
  ids : ∀ id, id ∈ fields.map Field.id ↔ id ∈ ρ.ids
  formulas : ∀ f ∈ fields, ∀ formula ∈ f.formula, ρ.Admits formula
  keys : stored.Admitted ρ

theorem fresh_of_mem (h : id ∈ ρ.ids) : ρ.Fresh id :=
  absurd h

theorem formula_rename (f : Field) : (f.rename ρ).formula = f.formula.map ρ.text := by
  have htrim : (f.rename ρ).entered.map Text.trim = (f.entered.map Text.trim).map ρ.text := by
    rw [Field.rename, Option.map_map, Option.map_map]
    exact Option.map_congr fun entered _ => ρ.trim_text entered
  rw [Field.formula, Field.formula, htrim]
  cases f.entered.map Text.trim with
  | none => rfl
  | some formula =>
    rw [Option.map_some, Option.filter_some, Option.filter_some]
    simp only [ne_eq, ρ.text_eq_empty_iff]
    split <;> rfl

theorem hasFormula_rename (f : Field) : (f.rename ρ).hasFormula = f.hasFormula := by
  rw [Field.hasFormula, formula_rename, Option.isSome_map]
  rfl

/-- The definition that a formula comes from. -/
theorem exists_field_of_formula? {formula : String}
    (hformula : formula? fields id = some formula) :
    ∃ f ∈ fields, f.id = id ∧ f.formula = some formula := by
  obtain ⟨f, hfind, hf⟩ := Option.bind_eq_some_iff.mp hformula
  exact ⟨f, List.mem_of_find?_eq_some hfind, by simpa using List.find?_some hfind, hf⟩

namespace Renamable

variable (h : Renamable ρ fields stored)
include h

theorem mem_ids {f : Field} (hf : f ∈ fields) : f.id ∈ ρ.ids :=
  (h.ids f.id).mp (List.mem_map_of_mem hf)

theorem apply_eq_iff {f : Field} (hf : f ∈ fields) (hk : ρ.Fresh k) : ρ f.id = ρ k ↔ f.id = k :=
  ρ.injOn_fresh.eq_iff (fresh_of_mem (h.mem_ids hf)) hk

theorem formula? (hk : ρ.Fresh k) :
    formula? (fields.map (·.rename ρ)) (ρ k) = (Template.formula? fields k).map ρ.text := by
  have hfind : (fields.map (·.rename ρ)).find? (·.id = ρ k) =
      (fields.find? (·.id = k)).map (·.rename ρ) := by
    rw [List.find?_map]
    refine congrArg (Option.map _) (List.find?_congr fun f hf => ?_)
    simp only [Function.comp_apply, Field.rename, h.apply_eq_iff hf hk]
  rw [Template.formula?, Template.formula?, hfind]
  cases fields.find? (·.id = k) with
  | none => rfl
  | some f => exact formula_rename f

theorem vocabulary : vocabulary fields = .ofIds ρ.ids :=
  Formula.Vocabulary.ofIds_congr fun id _ => h.ids id

theorem vocabulary_rename : Template.vocabulary (fields.map (·.rename ρ)) = .ofIds ρ.newIds := by
  refine Formula.Vocabulary.ofIds_congr fun id _ => ?_
  simp only [Renaming.newIds, List.map_map, List.mem_map, Function.comp_apply, Field.rename]
  constructor
  · rintro ⟨f, hf, rfl⟩
    exact ⟨f.id, h.mem_ids hf, (Renaming.apply_of_mem (h.mem_ids hf)).symm⟩
  · rintro ⟨old, hold, rfl⟩
    obtain ⟨f, hf, rfl⟩ := List.mem_map.mp ((h.ids old).mpr hold)
    exact ⟨f, hf, Renaming.apply_of_mem hold⟩

theorem definitions :
    definitions (fields.map (·.rename ρ)) = (Template.definitions fields).map (·.rename ρ) :=
  distinctBy_map fun _ ha _ hb => h.apply_eq_iff ha (fresh_of_mem (h.mem_ids hb))

theorem computedIds :
    computedIds (fields.map (·.rename ρ)) = (Template.computedIds fields).map ρ := by
  rw [Template.computedIds, Template.computedIds, h.definitions,
    filter_map_of_congr fun f _ => hasFormula_rename f, List.map_map, List.map_map]
  rfl

theorem mem_ids_of_mem_computedIds (hid : id ∈ Template.computedIds fields) : id ∈ ρ.ids := by
  obtain ⟨formula, hformula⟩ := mem_computedIds_iff.mp hid
  obtain ⟨f, hf, rfl, -⟩ := exists_field_of_formula? hformula
  exact h.mem_ids hf

theorem admits {formula : String} (hformula : Template.formula? fields id = some formula) :
    ρ.Admits formula := by
  obtain ⟨f, hf, -, hformula⟩ := exists_field_of_formula? hformula
  exact h.formulas f hf formula hformula

theorem dependenciesOf (hk : ρ.Fresh k) :
    dependenciesOf (fields.map (·.rename ρ)) (ρ k) = (Template.dependenciesOf fields k).map ρ := by
  rw [dependenciesOf_eq, dependenciesOf_eq, h.formula? hk, h.vocabulary, h.vocabulary_rename]
  cases hformula : Template.formula? fields k with
  | none => rfl
  | some formula => exact ρ.dependencies_text (h.admits hformula)

theorem precedence :
    Precedence.Renames ρ (precedence fields) (precedence (fields.map (·.rename ρ))) where
  injOn := fun _ ha _ hb => ρ.injOn_fresh (fresh_of_mem (h.mem_ids_of_mem_computedIds ha))
    (fresh_of_mem (h.mem_ids_of_mem_computedIds hb))
  items := h.computedIds
  needs := by
    intro id hid
    have hfresh : ρ.Fresh id := fresh_of_mem (h.mem_ids_of_mem_computedIds hid)
    rw [needs_eq, needs_eq, h.dependenciesOf hfresh, h.computedIds]
    refine filter_map_of_congr fun d hd => ?_
    obtain ⟨f, hf, rfl⟩ := mem_ids_of_mem_dependenciesOf hd
    have hcomputed : ∀ c ∈ Template.computedIds fields, ρ.Fresh c :=
      fun c hc => fresh_of_mem (h.mem_ids_of_mem_computedIds hc)
    simp only [mem_map_iff_of_injOn ρ.injOn_fresh hcomputed (fresh_of_mem (h.mem_ids hf))]

/-- The fields are computed in the same order, and the same ones are on a cycle or behind one. -/
theorem evaluationOrder : evaluationOrder (fields.map (·.rename ρ)) =
    (Template.evaluationOrder fields).map ρ :=
  h.precedence.fullSchedule

/-! ## The computation under the new ids -/

theorem initialValues : (Template.initialValues fields stored).Admitted ρ ∧
    initialValues (fields.map (·.rename ρ)) (stored.rename ρ) =
      (Template.initialValues fields stored).rename ρ := by
  refine foldl_map_of_step (r := Values.rename ρ) (P := Values.Admitted ρ) (s := Values.empty)
    (fun f hf values hvalues => ?_) (fun k hk => by cases hk)
  have hfresh : ρ.Fresh f.id := fresh_of_mem (h.mem_ids hf)
  have hinitial : initial? (f.rename ρ) ((stored.rename ρ).get? (f.rename ρ).id) =
      initial? f (stored.get? f.id) :=
    congrArg (initial? f) (Values.get?_rename h.keys hfresh)
  rw [hinitial]
  cases initial? f (stored.get? f.id) with
  | none => exact ⟨hvalues, rfl⟩
  | some value => exact ⟨hvalues.insert hfresh value, (Values.rename_insert hvalues hfresh value).symm⟩

theorem computeField {p : Progress} (hp : p.values.Admitted ρ) (hid : id ∈ ρ.ids) :
    (Template.computeField fields (Template.vocabulary fields) p id).values.Admitted ρ ∧
      computeField (fields.map (·.rename ρ)) (Template.vocabulary (fields.map (·.rename ρ)))
          (p.rename ρ) (ρ id) =
        (Template.computeField fields (Template.vocabulary fields) p id).rename ρ := by
  have hfresh : ρ.Fresh id := fresh_of_mem hid
  rw [Template.computeField, Template.computeField, h.formula? hfresh, h.vocabulary,
    h.vocabulary_rename]
  cases hformula : Template.formula? fields id with
  | none => exact ⟨hp, rfl⟩
  | some formula =>
    have hvalue : ∀ d ∈ ρ.ids, (p.rename ρ).values.get? (ρ d) = p.values.get? d :=
      fun d hd => Values.get?_rename hp (fresh_of_mem hd)
    have hsame := ρ.evaluate_text (h.admits hformula) hvalue
    simp only [Option.map_some, hsame]
    cases houtcome : Formula.evaluate (.ofIds ρ.ids) p.values.get? formula with
    | ok value =>
      refine ⟨hp.insert hfresh value, ?_⟩
      simp only [Except.mapError, Progress.rename, Values.rename_insert hp hfresh]
    | error e =>
      refine ⟨hp.insert hfresh _, ?_⟩
      -- Only what the formula refers to can be missing, so a message never names anything but ids.
      have hmessage : ρ.message e.message = (ρ.error e).message := by
        refine ρ.message_error fun d he => ?_
        rw [he] at houtcome
        exact ρ.mem_words_ids.mp (Formula.Vocabulary.mem_words_of_mem_dependencies
          (Formula.mem_dependencies_of_evaluate houtcome))
      simp only [Except.mapError, Progress.rename, Values.rename_insert hp hfresh, List.map_append,
        List.map_cons, List.map_nil, Diagnostic.rename, hmessage]

/-- All fields are computed to the same under the new ids. -/
theorem computedValues : (Template.computedValues fields stored).values.Admitted ρ ∧
    computedValues (fields.map (·.rename ρ)) (stored.rename ρ) =
      (Template.computedValues fields stored).rename ρ := by
  obtain ⟨hstart, hinitial⟩ := h.initialValues
  rw [Template.computedValues, Template.computedValues, hinitial, h.evaluationOrder]
  refine foldl_map_of_step (r := Progress.rename ρ) (P := fun p => p.values.Admitted ρ)
    (fun id hid p hp => ?_) hstart
  exact h.computeField hp (h.mem_ids_of_mem_computedIds (mem_computedIds_of_mem_order hid))

end Renamable

/-- A template under new ids comes to the same values under the new ids, each under its own, and
the same is told of them in the same order. -/
theorem resolve_rename (h : Renamable ρ fields stored) :
    resolve (fields.map (·.rename ρ)) (stored.rename ρ) = (resolve fields stored).rename ρ ∧
      ((resolve fields stored).rename ρ).values.ids = (resolve fields stored).values.ids.map ρ ∧
      ∀ id, ρ.Fresh id → ((resolve fields stored).rename ρ).values.get? (ρ id) =
        (resolve fields stored).values.get? id := by
  obtain ⟨hadmitted, hcomputed⟩ := h.computedValues
  have hentries : ∀ e ∈ (computedValues fields stored).values.entries, ρ.Fresh e.1 :=
    fun e he => hadmitted e.1 (List.mem_map_of_mem he)
  obtain ⟨hall, hvalues⟩ := Values.insertAll_rename h.keys hentries
  have hresolved : (resolve fields stored).values.Admitted ρ := hall
  refine ⟨?_, Values.ids_rename hresolved, fun id hid => Values.get?_rename hresolved hid⟩
  rw [resolve_eq, resolve_eq, hcomputed, h.evaluationOrder, Resolution.rename, ← hvalues,
    Progress.rename, Values.entries_rename hadmitted]
  simp only [Precedence.Schedule.map, List.map_append, List.map_map, Function.comp_def,
    Diagnostic.rename]

/-- A sum that lacks a value, a number behind it, and a cycle. -/
def sumFields : List Field := [
  { id := "a", type := .number },
  { id := "aa", type := .text },
  { id := "sum", type := .number, entered := some " a + aa*2 " },
  { id := "a_a", type := .number, entered := some "sum + a" },
  { id := "loop", type := .number, entered := some "(loop+aa)" }]

/-- The same fields. Two ids of which one begins the other have changed places, and one has taken
the place of another. -/
def swappedFields : List Field := [
  { id := "aa", type := .number },
  { id := "a", type := .text },
  { id := "élan", type := .number, entered := some " aa + a*2 " },
  { id := "a_a", type := .number, entered := some "élan + aa" },
  { id := "sum", type := .number, entered := some "(sum+a)" }]

def swapped : Renaming where
  ids := sumFields.map Field.id
  label
    | "a" => "aa"
    | "aa" => "a"
    | "sum" => "élan"
    | "loop" => "sum"
    | id => id
  isWord := by decide +kernel
  isWord_label := by decide +kernel
  injective := by decide +kernel

theorem resolve_swappedFields :
    Renamable swapped sumFields (.ofEntries [("a", "3"), ("note", "x")]) ∧
      sumFields.map (·.rename swapped) = swappedFields ∧
      resolve swappedFields (.ofEntries [("aa", "3"), ("note", "x")]) =
        (resolve sumFields (.ofEntries [("a", "3"), ("note", "x")])).rename swapped := by
  have h : Renamable swapped sumFields (.ofEntries [("a", "3"), ("note", "x")]) :=
    ⟨fun _ => Iff.rfl, by decide +kernel, by decide +kernel⟩
  have hfields : sumFields.map (·.rename swapped) = swappedFields := by decide +kernel
  refine ⟨h, hfields, ?_⟩
  rw [← hfields]
  exact (resolve_rename h).1

end Invoicing.Template
