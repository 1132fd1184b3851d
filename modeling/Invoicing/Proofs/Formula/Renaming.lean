import Invoicing.Proofs.Formula.MissingValue
import Invoicing.Proofs.Formula.Words
import Invoicing.Proofs.Mapping
import Invoicing.Proofs.Text.Trim

/-!
# Other ids in a formula

Ids are labels. Where ids that are words are exchanged for other words, one run
of a formula at a time, the formula refers to the new ids where it referred to
the old ones, although they may be longer or shorter, begin alike and be looked
for in another order. With the same values it comes to the same.
-/
namespace Invoicing.Formula

open Text

variable {cs as bs : List Char} {ss : List (List Char)} {id formula : String}
  {value? value?' : String → Option String} {v : Vocabulary}

/-! ## Values in place of segments -/

/-- The characters that take the place of a segment. -/
def Vocabulary.replaced (v : Vocabulary) (value? : String → Option String) (cs : List Char) :
    Except FormulaError (List Char) :=
  if IsWord cs ∧ String.ofList cs ∈ v.words then
    match value? (String.ofList cs) with
    | none => .error (.missingValue (String.ofList cs))
    | some value => .ok (parenthesized value)
  else .ok cs

theorem Vocabulary.replaced_of_mem (hword : IsWord cs) (hid : String.ofList cs ∈ v.words) :
    v.replaced value? cs = match value? (String.ofList cs) with
      | none => .error (.missingValue (String.ofList cs))
      | some value => .ok (parenthesized value) :=
  if_pos ⟨hword, hid⟩

theorem Vocabulary.replaced_of_not_mem (h : IsWord cs → String.ofList cs ∉ v.words) :
    v.replaced value? cs = .ok cs :=
  if_neg fun hid => h hid.1 hid.2

theorem filter_runsFrom_cons_of_mem {position : Nat} (hword : IsWord cs)
    (hid : String.ofList cs ∈ v.words) :
    (runsFrom position (cs :: ss)).filter (·.id ∈ v.words) =
      ⟨String.ofList cs, position, position + byteLength cs⟩ ::
        (runsFrom (position + byteLength cs) ss).filter (·.id ∈ v.words) := by
  simp [runsFrom, hword, hid]

theorem filter_runsFrom_cons_of_not_mem {position : Nat}
    (h : IsWord cs → String.ofList cs ∉ v.words) :
    (runsFrom position (cs :: ss)).filter (·.id ∈ v.words) =
      (runsFrom (position + byteLength cs) ss).filter (·.id ∈ v.words) := by
  by_cases hword : IsWord cs
  · simp [runsFrom, hword, h hword]
  · simp [runsFrom, hword]

/-- Where ids are words, values take the places of segments. -/
theorem splice_runsFrom (position : Nat) (front : List Char) (ss : List (List Char)) :
    splice value? position (front ++ ss.flatten)
        ((runsFrom (position + byteLength front) ss).filter (·.id ∈ v.words)) =
      (ss.mapM (v.replaced value?)).map (front ++ ·.flatten) := by
  -- The characters in front have been passed already, without a reference among them.
  induction ss generalizing position front with
  | nil => simp [runsFrom, splice, Except.map, pure, Except.pure]
  | cons cs ss ih =>
    have htext : front ++ (cs :: ss).flatten = front ++ cs ++ ss.flatten := by simp
    by_cases h : IsWord cs ∧ String.ofList cs ∈ v.words
    · have hbefore : takeBytes (byteLength front) (front ++ cs ++ ss.flatten) = front := by
        rw [List.append_assoc, takeBytes_append]
      have hbehind : dropBytes (byteLength (front ++ cs)) (front ++ cs ++ ss.flatten) =
          ss.flatten := dropBytes_append _ _
      have hrest := ih (position + byteLength (front ++ cs)) []
      rw [List.nil_append, byteLength_nil, Nat.add_zero] at hrest
      rw [htext, filter_runsFrom_cons_of_mem h.1 h.2, Nat.add_assoc, ← byteLength_append, splice,
        List.mapM_cons, Vocabulary.replaced_of_mem h.1 h.2]
      dsimp only
      rw [Nat.add_sub_cancel_left, Nat.add_sub_cancel_left, hbefore, hbehind, hrest]
      cases value? (String.ofList cs) with
      | none => rfl
      | some value =>
        cases ss.mapM (v.replaced value?) with
        | error e => rfl
        | ok parts => simp [Except.map, bind, Except.bind, pure, Except.pure]
    · have hid : IsWord cs → String.ofList cs ∉ v.words := not_and.mp h
      rw [htext, filter_runsFrom_cons_of_not_mem hid, Nat.add_assoc, ← byteLength_append, ih,
        List.mapM_cons, Vocabulary.replaced_of_not_mem hid]
      cases ss.mapM (v.replaced value?) with
      | error e => rfl
      | ok parts => simp [Except.map, bind, Except.bind, pure, Except.pure]

/-- Where ids are words, a formula with values is made of its segments one by one. -/
theorem substitute_eq_of_words (hv : ∀ id ∈ v.words, IsWord id.toList) (formula : String) :
    substitute v value? formula =
      ((segments formula.toList).mapM (v.replaced value?)).map
        fun parts => String.ofList parts.flatten := by
  have hsplice : splice value? 0 ([] ++ (segments formula.toList).flatten) _ = _ :=
    splice_runsFrom (v := v) 0 [] (segments formula.toList)
  simp only [List.nil_append, byteLength_nil, Nat.add_zero, flatten_segments] at hsplice
  rw [substitute, Vocabulary.references_eq_of_words hv, runs, hsplice]
  cases (segments formula.toList).mapM (v.replaced value?) with
  | error e => rfl
  | ok parts => rfl

/-! ## Renamings -/

/-- Other words for ids, a different one for each. -/
structure Renaming where
  ids : List String
  label : String → String
  isWord : ∀ id ∈ ids, IsWord id.toList
  isWord_label : ∀ id ∈ ids, IsWord (label id).toList
  injective : ∀ a ∈ ids, ∀ b ∈ ids, label a = label b → a = b

namespace Renaming

/-- What stands for a label after the renaming. Only ids get another one. -/
def apply (ρ : Renaming) (id : String) : String :=
  if id ∈ ρ.ids then ρ.label id else id

instance : CoeFun Renaming fun _ => String → String :=
  ⟨apply⟩

/-- The new ids. -/
def newIds (ρ : Renaming) : List String :=
  ρ.ids.map ρ.label

/-- A label that is an id, or else not one of the new ids. -/
def Fresh (ρ : Renaming) (id : String) : Prop :=
  id ∉ ρ.ids → id ∉ ρ.newIds

instance (ρ : Renaming) (id : String) : Decidable (ρ.Fresh id) :=
  inferInstanceAs (Decidable (_ → _))

/-- A formula whose other words are not among the new ids. -/
def Admits (ρ : Renaming) (formula : String) : Prop :=
  ∀ r ∈ runs formula, ρ.Fresh r.id

instance (ρ : Renaming) (formula : String) : Decidable (ρ.Admits formula) :=
  inferInstanceAs (Decidable (∀ r ∈ runs formula, ρ.Fresh r.id))

/-- A segment with another id in place of an id. -/
def segment (ρ : Renaming) (cs : List Char) : List Char :=
  if IsWord cs then (ρ (String.ofList cs)).toList else cs

def chars (ρ : Renaming) (cs : List Char) : List Char :=
  (segments cs).flatMap ρ.segment

/-- A formula with other ids in place of the runs that are ids. -/
def text (ρ : Renaming) (formula : String) : String :=
  String.ofList (ρ.chars formula.toList)

/-- An error names the new id. -/
def error (ρ : Renaming) : FormulaError → FormulaError
  | .missingValue id => .missingValue (ρ id)
  | e => e

/-- A message with the new id where it tells that an id has no value. -/
def message (ρ : Renaming) (message : String) : String :=
  match ρ.ids.find? fun id => message = (FormulaError.missingValue id).message with
  | some id => (FormulaError.missingValue (ρ id)).message
  | none => message

variable (ρ : Renaming)

theorem apply_of_mem {ρ : Renaming} (h : id ∈ ρ.ids) : ρ id = ρ.label id :=
  if_pos h

theorem apply_of_not_mem {ρ : Renaming} (h : id ∉ ρ.ids) : ρ id = id :=
  if_neg h

theorem isWord_apply (h : IsWord id.toList) : IsWord (ρ id).toList := by
  by_cases hid : id ∈ ρ.ids
  · rw [apply_of_mem hid]
    exact ρ.isWord_label id hid
  · rwa [apply_of_not_mem hid]

theorem isWord_of_mem_newIds {ρ : Renaming} (h : id ∈ ρ.newIds) : IsWord id.toList := by
  obtain ⟨old, hold, rfl⟩ := List.mem_map.mp h
  exact ρ.isWord_label old hold

/-- The new ids are those of the old ids, and no other label becomes one. -/
theorem apply_mem_newIds_iff {ρ : Renaming} (h : ρ.Fresh id) : ρ id ∈ ρ.newIds ↔ id ∈ ρ.ids := by
  by_cases hid : id ∈ ρ.ids
  · rw [apply_of_mem hid]
    exact iff_of_true (List.mem_map_of_mem hid) hid
  · rw [apply_of_not_mem hid]
    exact iff_of_false (h hid) hid

/-- Different labels stay different. -/
theorem injOn_fresh : Set.InjOn ρ {id | ρ.Fresh id} := by
  intro a ha b hb hab
  -- An id and another label differ still, for only ids become new ids.
  have hids : a ∈ ρ.ids ↔ b ∈ ρ.ids := by
    rw [← apply_mem_newIds_iff ha, ← apply_mem_newIds_iff hb, hab]
  by_cases hid : a ∈ ρ.ids
  · rw [apply_of_mem hid, apply_of_mem (hids.mp hid)] at hab
    exact ρ.injective a hid b (hids.mp hid) hab
  · rwa [apply_of_not_mem hid, apply_of_not_mem (mt hids.mpr hid)] at hab

/-! ## Segments of the renamed text -/

theorem isWord_segment_iff : IsWord (ρ.segment cs) ↔ IsWord cs := by
  unfold segment
  split
  case isTrue h => exact iff_of_true (ρ.isWord_apply (by rwa [String.toList_ofList])) h
  case isFalse => exact Iff.rfl

theorem segment_of_not_isWord (h : ¬ IsWord cs) : ρ.segment cs = cs :=
  if_neg h

theorem segment_of_not_mem (h : IsWord cs → String.ofList cs ∉ ρ.ids) :
    ρ.segment cs = cs := by
  unfold segment
  split
  case isTrue hword => rw [apply_of_not_mem (h hword), String.toList_ofList]
  case isFalse => rfl

theorem ofList_segment (h : IsWord cs) :
    String.ofList (ρ.segment cs) = ρ (String.ofList cs) := by
  rw [segment, if_pos h, String.ofList_toList]

theorem isSegment_segment (h : IsSegment cs) : IsSegment (ρ.segment cs) := by
  by_cases hword : IsWord cs
  · exact .inl (ρ.isWord_segment_iff.mpr hword)
  · rwa [ρ.segment_of_not_isWord hword]

theorem segmented_map (h : Segmented ss) : Segmented (ss.map ρ.segment) where
  segment := by
    intro cs hcs
    obtain ⟨s, hs, rfl⟩ := List.mem_map.mp hcs
    exact ρ.isSegment_segment (h.segment s hs)
  apart := by
    rw [List.isChain_map]
    simpa only [isWord_segment_iff] using h.apart

/-- The segments of the renamed text are those of the text, renamed one by one. -/
theorem segments_chars (cs : List Char) : segments (ρ.chars cs) = (segments cs).map ρ.segment := by
  rw [chars, List.flatMap_def]
  exact segments_flatten (ρ.segmented_map (segmented_segments cs))

theorem chars_append (h : ∀ a ∈ as.getLast?, ∀ b ∈ bs.head?, (isWordChar a && isWordChar b) = false) :
    ρ.chars (as ++ bs) = ρ.chars as ++ ρ.chars bs := by
  rw [chars, segments_append h, List.flatMap_append]
  rfl

/-- Where there is no word, there is nothing to rename. -/
theorem chars_of_not_isWordChar (h : ∀ c ∈ cs, isWordChar c = false) : ρ.chars cs = cs := by
  have hsame : (segments cs).map ρ.segment = (segments cs).map id := by
    refine List.map_congr_left fun s hs => ρ.segment_of_not_isWord fun hword => ?_
    have hc : s.head hword.1 ∈ cs := by
      rw [← flatten_segments cs]
      exact List.mem_flatten.mpr ⟨s, hs, List.head_mem hword.1⟩
    have hchar := hword.2 _ (List.head_mem hword.1)
    rw [h _ hc] at hchar
    cases hchar
  rw [chars, List.flatMap_def, hsame, List.map_id, flatten_segments]

theorem chars_eq_nil_iff : ρ.chars cs = [] ↔ cs = [] := by
  constructor
  · intro h
    have hsegments := ρ.segments_chars cs
    rw [h] at hsegments
    rw [← flatten_segments cs, List.map_eq_nil_iff.mp hsegments.symm]
    rfl
  · rintro rfl
    rfl

/-! ## White space around the renamed text -/

/-- Only what was there before is white space. -/
theorem segment_of_isBlank {c : Char} (hc : c ∈ ρ.segment cs) (hblank : isBlank c) :
    ρ.segment cs = cs := by
  refine ρ.segment_of_not_isWord fun hword => ?_
  have hc := (ρ.isWord_segment_iff.mpr hword).2 c hc
  rw [isWordChar_of_isBlank hblank] at hc
  cases hc

theorem isBlank_head?_chars (h : ∀ c ∈ cs.head?, isBlank c = false) :
    ∀ c ∈ (ρ.chars cs).head?, isBlank c = false := by
  intro c hc
  have hsegments := (segmented_segments cs).segment
  have hcs := flatten_segments cs
  rw [chars] at hc
  cases hss : segments cs with
  | nil =>
    rw [hss] at hc
    cases hc
  | cons s ss =>
    rw [hss] at hc hcs hsegments
    have hs := hsegments s List.mem_cons_self
    rw [List.flatMap_cons, List.head?_append_of_ne_nil _ (ρ.isSegment_segment hs).ne_nil] at hc
    by_contra hblank
    rw [Bool.not_eq_false] at hblank
    rw [ρ.segment_of_isBlank (List.mem_of_mem_head? hc) hblank] at hc
    rw [← hcs, List.flatten_cons, List.head?_append_of_ne_nil _ hs.ne_nil] at h
    rw [h c hc] at hblank
    cases hblank

theorem isBlank_getLast?_chars (h : ∀ c ∈ cs.getLast?, isBlank c = false) :
    ∀ c ∈ (ρ.chars cs).getLast?, isBlank c = false := by
  intro c hc
  have hsegments := (segmented_segments cs).segment
  have hcs := flatten_segments cs
  rw [chars] at hc
  rcases (segments cs).eq_nil_or_concat with hss | ⟨ss, s, hss⟩
  · rw [hss] at hc
    cases hc
  · rw [hss, List.concat_eq_append] at hc hcs hsegments
    have hs := hsegments s (by simp)
    rw [List.flatMap_append, List.flatMap_singleton,
      List.getLast?_append_of_ne_nil _ (ρ.isSegment_segment hs).ne_nil] at hc
    by_contra hblank
    rw [Bool.not_eq_false] at hblank
    rw [ρ.segment_of_isBlank (List.mem_of_mem_getLast? hc) hblank] at hc
    rw [← hcs, List.flatten_append, List.flatten_singleton,
      List.getLast?_append_of_ne_nil _ hs.ne_nil] at h
    rw [h c hc] at hblank
    cases hblank

theorem chars_of_isBlank (h : ∀ c ∈ cs, isBlank c) : ρ.chars cs = cs :=
  ρ.chars_of_not_isWordChar fun c hc => isWordChar_of_isBlank (h c hc)

theorem trimChars_chars (cs : List Char) : trimChars (ρ.chars cs) = ρ.chars (trimChars cs) := by
  obtain ⟨before, after, htext, hbefore, hafter, hhead, hlast⟩ := exists_trimChars cs
  have hchars : ρ.chars cs = before ++ ρ.chars (trimChars cs) ++ after := by
    conv_lhs => rw [← htext]
    rw [chars_append, chars_append, ρ.chars_of_isBlank hbefore, ρ.chars_of_isBlank hafter]
    · intro a ha b _
      simp [isWordChar_of_isBlank (hbefore a (List.mem_of_mem_getLast? ha))]
    · intro a _ b hb
      simp [isWordChar_of_isBlank (hafter b (List.mem_of_mem_head? hb))]
  -- What was trimmed begins and ends as before, or with a new word, and that with no white space.
  rw [hchars]
  exact trimChars_eq hbefore hafter (ρ.isBlank_head?_chars hhead) (ρ.isBlank_getLast?_chars hlast)

@[simp] theorem toList_text (formula : String) : (ρ.text formula).toList = ρ.chars formula.toList :=
  String.toList_ofList

theorem trim_text (formula : String) : trim (ρ.text formula) = ρ.text (trim formula) := by
  rw [trim, toList_text, trimChars_chars, ← toList_trim]
  rfl

theorem text_eq_empty_iff : ρ.text formula = "" ↔ formula = "" := by
  rw [← String.toList_eq_nil_iff, toList_text, chars_eq_nil_iff, String.toList_eq_nil_iff]

/-! ## References of the renamed formula -/

/-- The runs of the renamed formula are those of the formula, renamed one by one. -/
theorem map_id_runs_text (formula : String) :
    (runs (ρ.text formula)).map Reference.id = ((runs formula).map Reference.id).map ρ := by
  have hwords : ((segments formula.toList).map ρ.segment).filter (fun cs => IsWord cs) =
      ((segments formula.toList).filter fun cs => IsWord cs).map ρ.segment := by
    refine filter_map_of_congr fun cs _ => ?_
    simp only [isWord_segment_iff]
  rw [map_id_runs, map_id_runs, toList_text, segments_chars, hwords, List.map_map, List.map_map]
  refine List.map_congr_left fun cs hcs => ρ.ofList_segment ?_
  simpa using (List.mem_filter.mp hcs).2

theorem mem_words_ids : id ∈ (Vocabulary.ofIds ρ.ids).words ↔ id ∈ ρ.ids :=
  mem_ofIds_iff_of_words ρ.isWord

theorem mem_words_newIds : id ∈ (Vocabulary.ofIds ρ.newIds).words ↔ id ∈ ρ.newIds :=
  mem_ofIds_iff_of_words fun _ => isWord_of_mem_newIds

/-- The renamed formula depends on the new ids, in the same order. -/
theorem dependencies_text (h : ρ.Admits formula) :
    (Vocabulary.ofIds ρ.newIds).dependencies (ρ.text formula) =
      ((Vocabulary.ofIds ρ.ids).dependencies formula).map ρ := by
  have hids : ∀ id ∈ (runs formula).map Reference.id, ρ.Fresh id := by
    intro id hid
    obtain ⟨r, hr, rfl⟩ := List.mem_map.mp hid
    exact h r hr
  rw [Vocabulary.dependencies_eq_of_words fun _ hid => isWord_of_mem_newIds (ρ.mem_words_newIds.mp hid),
    Vocabulary.dependencies_eq_of_words fun _ hid => ρ.isWord _ (ρ.mem_words_ids.mp hid),
    map_id_runs_text]
  have hfilter : (((runs formula).map Reference.id).map ρ).filter
      (· ∈ (Vocabulary.ofIds ρ.newIds).words) =
      (((runs formula).map Reference.id).filter (· ∈ (Vocabulary.ofIds ρ.ids).words)).map ρ := by
    refine filter_map_of_congr fun id hid => ?_
    simp only [mem_words_newIds, mem_words_ids, apply_mem_newIds_iff (hids id hid)]
  rw [hfilter]
  refine distinctBy_map fun a ha b hb => ?_
  exact ρ.injOn_fresh.eq_iff (hids a (List.mem_of_mem_filter ha)) (hids b (List.mem_of_mem_filter hb))

/-! ## Values in the renamed formula -/

/-- The same values take the places of renamed segments, and the same ones are missing. -/
theorem replaced_segment (hfresh : IsWord cs → ρ.Fresh (String.ofList cs))
    (hvalue : ∀ id ∈ ρ.ids, value?' (ρ id) = value? id) :
    (Vocabulary.ofIds ρ.newIds).replaced value?' (ρ.segment cs) =
      ((Vocabulary.ofIds ρ.ids).replaced value? cs).mapError ρ.error := by
  by_cases h : IsWord cs ∧ String.ofList cs ∈ ρ.ids
  · obtain ⟨hword, hid⟩ := h
    have hnew : String.ofList (ρ.segment cs) ∈ ρ.newIds := by
      rw [ρ.ofList_segment hword]
      exact (apply_mem_newIds_iff (hfresh hword)).mpr hid
    rw [Vocabulary.replaced_of_mem hword (ρ.mem_words_ids.mpr hid),
      Vocabulary.replaced_of_mem (ρ.isWord_segment_iff.mpr hword) (ρ.mem_words_newIds.mpr hnew),
      ρ.ofList_segment hword, hvalue _ hid]
    cases value? (String.ofList cs) with
    | none => rfl
    | some value => rfl
  · have hid : IsWord cs → String.ofList cs ∉ ρ.ids := not_and.mp h
    rw [ρ.segment_of_not_mem hid,
      Vocabulary.replaced_of_not_mem fun hword => mt ρ.mem_words_ids.mp (hid hword),
      Vocabulary.replaced_of_not_mem fun hword =>
        mt ρ.mem_words_newIds.mp (hfresh hword (hid hword))]
    rfl

theorem substitute_text (h : ρ.Admits formula)
    (hvalue : ∀ id ∈ ρ.ids, value?' (ρ id) = value? id) :
    substitute (.ofIds ρ.newIds) value?' (ρ.text formula) =
      (substitute (.ofIds ρ.ids) value? formula).mapError ρ.error := by
  have hreplaced : ∀ cs ∈ segments formula.toList,
      (Vocabulary.ofIds ρ.newIds).replaced value?' (ρ.segment cs) =
        ((Vocabulary.ofIds ρ.ids).replaced value? cs).mapError ρ.error := by
    refine fun cs hcs => ρ.replaced_segment (fun hword => ?_) hvalue
    have hid : String.ofList cs ∈ (runs formula).map Reference.id := by
      rw [map_id_runs]
      exact List.mem_map_of_mem (List.mem_filter.mpr ⟨hcs, by simpa using hword⟩)
    obtain ⟨r, hr, hid⟩ := List.mem_map.mp hid
    exact hid ▸ h r hr
  rw [substitute_eq_of_words fun _ hid => isWord_of_mem_newIds (ρ.mem_words_newIds.mp hid),
    substitute_eq_of_words fun _ hid => ρ.isWord _ (ρ.mem_words_ids.mp hid), toList_text,
    segments_chars, mapM_map_mapError hreplaced]
  cases (segments formula.toList).mapM ((Vocabulary.ofIds ρ.ids).replaced value?) with
  | error e => rfl
  | ok parts => rfl

/-- An error that is not for want of a value names no id. -/
theorem mapError_of_complete {α : Type} {x : Except FormulaError α} (h : Complete x) :
    x.mapError ρ.error = x := by
  cases x with
  | ok a => rfl
  | error e =>
    cases e with
    | missingValue id => cases h id rfl
    | _ => rfl

/-- With the same values the renamed formula comes to the same, or fails in the same way. -/
theorem evaluate_text (h : ρ.Admits formula)
    (hvalue : ∀ id ∈ ρ.ids, value?' (ρ id) = value? id) :
    evaluate (.ofIds ρ.newIds) value?' (ρ.text formula) =
      (evaluate (.ofIds ρ.ids) value? formula).mapError ρ.error := by
  rw [evaluate, evaluate, ρ.substitute_text h hvalue]
  cases substitute (.ofIds ρ.ids) value? formula with
  | error e => rfl
  | ok expression =>
    have hsame := ρ.mapError_of_complete (complete_evaluateExpression expression)
    change evaluateExpression expression >>= _ = (evaluateExpression expression >>= _).mapError _
    cases hvalue : evaluateExpression expression with
    | ok value => rfl
    | error e =>
      rw [hvalue] at hsame
      exact congrArg Except.error (Except.error.inj hsame).symm

/-- The message of an error becomes that of the renamed error. -/
theorem message_error {e : FormulaError} (he : ∀ id, e = .missingValue id → id ∈ ρ.ids) :
    ρ.message e.message = (ρ.error e).message := by
  unfold message
  cases hfind : ρ.ids.find? fun id => e.message = (FormulaError.missingValue id).message with
  | some id =>
    obtain rfl : e = .missingValue id :=
      FormulaError.message_eq_iff.mp (by simpa using List.find?_some hfind)
    rfl
  | none =>
    cases e with
    | missingValue id => exact absurd (List.find?_eq_none.mp hfind id (he id rfl)) (by simp)
    | _ => rfl

end Renaming

end Invoicing.Formula
