import Invoicing.Proofs.Template.Locality
import Invoicing.Proofs.Template.Reordering

/-!
# What resolving leaves as it is

Only fields in the order are computed. Any other id keeps its stored value, or
has none as before, except that a number with nothing in it becomes zero; and of
every field no more than one thing is told.
-/
namespace Invoicing.Template

variable {fields : List Field} {stored : Values} {id : String}

/-- A number is declared for this id, and nothing is stored for it but white space. -/
def Unfilled (fields : List Field) (stored : Values) (id : String) : Prop :=
  (∃ f ∈ fields, f.id = id ∧ f.type = .number) ∧ Vacant (stored.get? id)

instance (fields : List Field) (stored : Values) (id : String) :
    Decidable (Unfilled fields stored id) :=
  decidable_of_iff
    ((∃ f ∈ fields, f.id = id ∧ f.type = .number) ∧ (stored.get? id).all isBlankText)
    (and_congr_right' vacant_iff.symm)

/-- How a resolved record compares with what was stored. -/
structure Frame (fields : List Field) (stored : Values) (r : Resolution) : Prop where
  unfilled : ∀ id, id ∉ (evaluationOrder fields).order → Unfilled fields stored id →
    r.values.get? id = some "0"
  kept : ∀ id, id ∉ (evaluationOrder fields).order → ¬ Unfilled fields stored id →
    r.values.get? id = stored.get? id
  computed : ∀ id ∈ (evaluationOrder fields).order, (r.values.get? id).isSome
  cyclic : ∀ id ∈ (evaluationOrder fields).cyclic,
    r.diagnostics.filter (·.id = id) = [.cyclicDependency id]
  blocked : ∀ id ∈ (evaluationOrder fields).blocked,
    r.diagnostics.filter (·.id = id) = [.blockedByCycle id]
  toldOnce : (r.diagnostics.map Diagnostic.id).Nodup

theorem get?_resolve_of_nodup (hids : (fields.map Field.id).Nodup)
    (hid : id ∉ (evaluationOrder fields).order) :
    (resolve fields stored).values.get? id =
      if Unfilled fields stored id then some Formula.fallback else stored.get? id := by
  rw [get?_resolve, computedValues, get?_computeAll_of_not_mem hid,
    get?_initialValues_of_nodup hids]
  cases hfind : fields.find? (·.id = id) with
  | none =>
    have hunfilled : ¬ Unfilled fields stored id := by
      rintro ⟨⟨f, hf, hfid, -⟩, -⟩
      exact List.find?_eq_none.mp hfind f hf (decide_eq_true hfid)
    simp [hunfilled]
  | some f =>
    have hf := List.mem_of_find?_eq_some hfind
    obtain rfl : f.id = id := by simpa using List.find?_some hfind
    have hunfilled : Unfilled fields stored f.id ↔
        f.type = .number ∧ Vacant (stored.get? f.id) := by
      refine and_congr_left fun _ => ⟨?_, fun hnumber => ⟨f, hf, rfl, hnumber⟩⟩
      rintro ⟨g, hg, hgid, hnumber⟩
      rwa [← List.inj_on_of_nodup_map hids hg hf hgid]
    simp only [Option.bind_some, initial?_eq, hunfilled, vacant_iff]
    split <;> simp

/-- What is told of a field in the order names that field. -/
theorem sublist_map_id_failures (fields : List Field) (values : Values) (id : String) :
    ((failures fields values id).map Diagnostic.id).Sublist [id] := by
  unfold failures
  rcases outcome fields values id with _ | _ | _ <;> simp [toldFor, Diagnostic.id]

theorem sublist_map_id_flatMap_failures (fields : List Field) (values : Values)
    (items : List String) :
    ((items.flatMap (failures fields values)).map Diagnostic.id).Sublist items := by
  induction items with
  | nil => exact List.Sublist.refl _
  | cons id items ih =>
    rw [List.flatMap_cons, List.map_append]
    exact (sublist_map_id_failures fields values id).append ih

/-- No field is in two parts of the schedule, and each part tells of its own fields. -/
theorem nodup_map_id_diagnostics (fields : List Field) (stored : Values) :
    ((resolve fields stored).diagnostics.map Diagnostic.id).Nodup := by
  have hcyclic : Diagnostic.id ∘ Diagnostic.cyclicDependency = id := rfl
  have hblocked : Diagnostic.id ∘ Diagnostic.blockedByCycle = id := rfl
  rw [diagnostics_resolve, List.map_append, List.map_append, List.map_map, List.map_map, hcyclic,
    hblocked, List.map_id, List.map_id]
  have hfailures := sublist_map_id_flatMap_failures fields (resolve fields stored).values
    (evaluationOrder fields).order
  exact ((hfailures.append_right _).append_right _).nodup ((precedence fields).nodup_schedule _)

/-- What is told of a field is all that is told of it. -/
theorem filter_diagnostics_of_mem {d : Diagnostic} (h : d ∈ (resolve fields stored).diagnostics) :
    (resolve fields stored).diagnostics.filter (·.id = d.id) = [d] := by
  have hnodup := nodup_map_id_diagnostics fields stored
  have hsame : ∀ e ∈ (resolve fields stored).diagnostics, decide (e.id = d.id) = (e == d) := by
    intro e he
    rw [Bool.eq_iff_iff, decide_eq_true_eq, beq_iff_eq]
    exact ⟨List.inj_on_of_nodup_map hnodup he h, congrArg Diagnostic.id⟩
  rw [List.filter_congr hsame, List.filter_beq, List.count_eq_one_of_mem hnodup.of_map h]
  rfl

/-- Of fields with distinct ids, those that are not computed keep what is stored for them, except
for numbers with nothing in them, which become zero. Undeclared ids keep theirs as well. Every field
in the order has a value, and each one on a cycle or behind one is told once, of its own kind. -/
theorem resolve_frame (hids : (fields.map Field.id).Nodup) (stored : Values) :
    Frame fields stored (resolve fields stored) where
  unfilled := by
    intro id hid hunfilled
    rw [get?_resolve_of_nodup hids hid, if_pos hunfilled]
    rfl
  kept := by
    intro id hid hunfilled
    rw [get?_resolve_of_nodup hids hid, if_neg hunfilled]
  computed := by
    intro id hid
    have hsolves : Solves fields (resolve fields stored).values id := solves_resolve stored hid
    obtain ⟨o, ho⟩ := outcome_of_mem_computedIds (mem_computedIds_of_mem_order hid)
      (resolve fields stored).values
    rw [hsolves, ho]
    rfl
  cyclic := by
    intro id hid
    apply filter_diagnostics_of_mem (d := .cyclicDependency id)
    rw [diagnostics_resolve]
    simp [hid]
  blocked := by
    intro id hid
    apply filter_diagnostics_of_mem (d := .blockedByCycle id)
    rw [diagnostics_resolve]
    simp [hid]
  toldOnce := nodup_map_id_diagnostics fields stored

/-- A number, its reciprocal, a field that needs itself and a text computed from that. -/
def patchyFields : List Field := [
  { id := "n", type := .number },
  { id := "f", type := .number, entered := some "1 / n" },
  { id := "g", type := .number, entered := some "g + n" },
  { id := "h", type := .text, entered := some "g" }]

theorem evaluationOrder_patchyFields :
    evaluationOrder patchyFields = ⟨["f"], ["g"], ["h"]⟩ := by
  have hitems : (precedence patchyFields).items = ["f", "g", "h"] := by decide +kernel
  have hcomputed : computedIds patchyFields = ["f", "g", "h"] := hitems
  have htable : dependencyTable patchyFields =
      [("n", []), ("f", ["n"]), ("g", ["g", "n"]), ("h", ["g"])] := by
    rw [dependencyTable_of_words (by decide +kernel)]
    decide +kernel
  have horder : (precedence patchyFields).order (precedence patchyFields).items = ["f"] := by
    rw [Precedence.order, waitingIn_precedence, hitems]
    simp only [dependenciesOf, htable, hcomputed]
    decide +kernel
  have hcyclic : (precedence patchyFields).isCyclic "g" = true ∧
      (precedence patchyFields).isCyclic "h" = false := by
    simp [Precedence.isCyclic, Precedence.cycleThrough, Precedence.search, precedence, htable,
      hcomputed, Entries.find]
  rw [evaluationOrder, Precedence.fullSchedule_eq, horder, hitems]
  simp [hcyclic]

/-- White space is nothing to a number but stays where a text waits for a cycle, and what is not
declared stays as well. -/
theorem resolve_patchyFields_frame :
    let stored := Values.ofEntries [("n", " "), ("h", " "), ("x", "7")]
    let r := resolve patchyFields stored
    (patchyFields.map Field.id).Nodup ∧ Frame patchyFields stored r ∧
      r.values.get? "n" = some "0" ∧ (r.values.get? "f").isSome ∧
      r.values.get? "g" = some "0" ∧ r.values.get? "h" = some " " ∧
      r.values.get? "x" = some "7" ∧
      r.diagnostics.filter (·.id = "g") = [.cyclicDependency "g"] ∧
      r.diagnostics.filter (·.id = "h") = [.blockedByCycle "h"] := by
  intro stored r
  have hids : (patchyFields.map Field.id).Nodup := by decide
  have hframe : Frame patchyFields stored r := resolve_frame hids stored
  obtain ⟨hunfilled, hkept, hcomputed, hcyclic, hblocked, -⟩ := id hframe
  simp only [evaluationOrder_patchyFields, List.mem_singleton, forall_eq] at *
  have hn : Unfilled patchyFields stored "n" := by decide +kernel
  have hg : Unfilled patchyFields stored "g" := by decide +kernel
  have hh : ¬ Unfilled patchyFields stored "h" := by decide +kernel
  have hother : ¬ Unfilled patchyFields stored "x" := by decide +kernel
  exact ⟨hids, hframe, hunfilled "n" (by decide) hn, hcomputed, hunfilled "g" (by decide) hg,
    hkept "h" (by decide) hh, hkept "x" (by decide) hother, hcyclic, hblocked⟩

end Invoicing.Template
