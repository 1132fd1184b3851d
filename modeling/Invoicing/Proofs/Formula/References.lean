import Mathlib.Data.List.Pairwise
import Invoicing.Formula.Substitution
import Invoicing.Proofs.Formula.Occurrences
import Invoicing.Proofs.Text.Bytes

/-!
# Where the references of a formula stand

The references of a formula stand one behind the other, each in whole characters
and joined to no word on either side. A place that an id has lost was taken by a
reference to an id that is looked for before it.
-/
namespace Invoicing.Formula

open Text

variable {text before after : List Char} {id : String} {r s : Reference} {rs taken : List Reference}

/-- The id of a reference stands between these characters and is not part of a longer word. -/
structure Reference.Stands (r : Reference) (text before after : List Char) : Prop where
  text : before ++ r.id.toList ++ after = text
  start : r.start = byteLength before
  stop : r.stop = r.start + width r.id
  leading : joined before.getLast? r.id.toList.head? = false
  trailing : joined r.id.toList.getLast? after.head? = false

/-- The id of a reference stands between these characters, whatever they are. -/
structure Reference.Occurs (r : Reference) (text before after : List Char) : Prop where
  text : before ++ r.id.toList ++ after = text
  start : r.start = byteLength before
  stop : r.stop = r.start + width r.id

/-- The search for the id of a reference meets it where it stands. -/
def Reference.Met (r : Reference) (text : List Char) : Prop :=
  ∃ before after, r.Stands text before after ∧ Meets r.id.toList text 0 before

theorem toList_ne_nil (hid : id ≠ "") : id.toList ≠ [] := by
  simpa using hid

theorem width_pos (hid : id ≠ "") : 0 < width id :=
  byteLength_pos (toList_ne_nil hid)

/-- The places of an id that count by themselves are those that the search meets and where the id
is not part of a longer word. -/
theorem mem_candidates_iff (hid : id ≠ "") :
    r ∈ candidates text id ↔ r.id = id ∧ r.Met text := by
  have hoccurrences : ∀ o, o ∈ occurrences id.toList 0 0 none text ↔ _ := fun o =>
    mem_occurrences_iff (toList_ne_nil hid) 0 [] text
  simp only [candidates, List.mem_map, List.mem_filter, Occurrence.isWhole, hoccurrences]
  constructor
  · rintro ⟨o, ⟨⟨before, after, htext, hmeets, rfl⟩, hwhole⟩, rfl⟩
    simp only [Bool.and_eq_true, Bool.not_eq_true'] at hwhole
    exact ⟨rfl, before, after, ⟨htext, rfl, rfl, hwhole.1, hwhole.2⟩, hmeets⟩
  · rintro ⟨rfl, before, after, h, hmeets⟩
    refine ⟨⟨byteLength before, before.getLast?, after.head?⟩,
      ⟨⟨before, after, h.text, hmeets, rfl⟩, by simp [h.leading, h.trailing]⟩, ?_⟩
    rw [Occurrence.reference, ← h.start, ← h.stop]

/-! ## Taking places in turn -/

theorem mem_foldl_occupy_of_mem (h : r ∈ taken) : r ∈ rs.foldl occupy taken := by
  induction rs generalizing taken with
  | nil => exact h
  | cons s rs ih =>
    refine ih ?_
    unfold occupy
    split
    · exact h
    · exact List.mem_cons_of_mem s h

/-- A place is taken, or it overlaps one that was taken and came before it. -/
theorem mem_foldl_occupy {R : Reference → Reference → Prop} (taken : List Reference)
    (hrs : rs.Pairwise R) (h : r ∈ rs) :
    r ∈ rs.foldl occupy taken ∨
      ∃ s ∈ rs.foldl occupy taken, r.overlaps s ∧ (s ∈ taken ∨ R s r) := by
  induction rs generalizing taken with
  | nil => cases h
  | cons a rs ih =>
    obtain ⟨ha, hrs⟩ := List.pairwise_cons.mp hrs
    rw [List.foldl_cons]
    rcases List.mem_cons.mp h with rfl | hmem
    · by_cases hover : taken.any r.overlaps
      · obtain ⟨s, hs, hclash⟩ := List.any_eq_true.mp hover
        rw [occupy, if_pos hover]
        exact .inr ⟨s, mem_foldl_occupy_of_mem hs, hclash, .inl hs⟩
      · rw [occupy, if_neg hover]
        exact .inl (mem_foldl_occupy_of_mem List.mem_cons_self)
    · rcases ih (occupy taken a) hrs hmem with hr | ⟨s, hs, hover, hbefore⟩
      · exact .inl hr
      · refine .inr ⟨s, hs, hover, ?_⟩
        rcases hbefore with hbefore | hbefore
        · rcases mem_of_mem_occupy hbefore with hbefore | rfl
          · exact .inl hbefore
          · exact .inr (ha r hmem)
        · exact .inr hbefore

/-- Two references have no bytes in common. -/
def Apart (r s : Reference) : Prop :=
  r.overlaps s = false

theorem Apart.symm (h : Apart r s) : Apart s r := by
  unfold Apart Reference.overlaps at *
  rw [Bool.and_comm]
  exact h

theorem pairwise_foldl_occupy (htaken : taken.Pairwise Apart) :
    (rs.foldl occupy taken).Pairwise Apart := by
  induction rs generalizing taken with
  | nil => exact htaken
  | cons r rs ih =>
    refine ih ?_
    unfold occupy
    split
    · exact htaken
    · rename_i hover
      refine List.pairwise_cons.mpr ⟨fun s hs => ?_, htaken⟩
      rw [Bool.not_eq_true, List.any_eq_false] at hover
      exact (Bool.not_eq_true _).mp (hover s hs)

/-- All places in the order in which they are tried. -/
theorem occupyAll_eq (words : List String) (text : List Char) :
    occupyAll words text = (words.flatMap (candidates text)).foldl occupy [] := by
  rw [occupyAll, List.foldl_flatMap]

theorem apart_of_le (h : r.stop ≤ s.start) : Apart r s := by
  simp only [Apart, Reference.overlaps, Bool.and_eq_false_iff, decide_eq_false_iff_not]
  omega

theorem byteLength_le_of_prefix {as bs : List Char} (h : as <+: bs) :
    byteLength as ≤ byteLength bs := by
  obtain ⟨cs, rfl⟩ := h
  simp

theorem byteLength_lt_of_prefix {as bs : List Char} (h : as <+: bs) (hlt : as.length < bs.length) :
    byteLength as < byteLength bs := by
  obtain ⟨cs, rfl⟩ := h
  have hne : cs ≠ [] := by
    rintro rfl
    simp at hlt
  have := byteLength_pos hne
  rw [byteLength_append]
  omega

theorem Reference.Stands.occurs (h : r.Stands text before after) : r.Occurs text before after :=
  ⟨h.text, h.start, h.stop⟩

theorem Reference.Occurs.stop_eq (h : r.Occurs text before after) :
    r.stop = byteLength (before ++ r.id.toList) := by
  rw [h.stop, h.start, byteLength_append, width]

theorem Reference.Occurs.prefix_before (h : r.Occurs text before after) : before <+: text :=
  ⟨r.id.toList ++ after, by rw [← h.text, List.append_assoc]⟩

theorem Reference.Occurs.start_lt_stop (h : r.Occurs text before after) (hid : r.id ≠ "") :
    r.start < r.stop := by
  rw [h.stop]
  exact Nat.lt_add_of_pos_right (width_pos hid)

theorem Reference.Stands.stop_eq (h : r.Stands text before after) :
    r.stop = byteLength (before ++ r.id.toList) :=
  h.occurs.stop_eq

/-- Two places of one id that the search meets are the same or apart. -/
theorem Reference.Met.apart (hr : r.Met text) (hs : s.Met text) (hid : r.id = s.id) :
    r = s ∨ Apart r s := by
  obtain ⟨before, after, hr, hrmet⟩ := hr
  obtain ⟨before', after', hs, hsmet⟩ := hs
  rw [← hid] at hsmet
  have hle : ∀ {as bs : List Char}, as ++ r.id.toList <+: text → bs ++ r.id.toList <+: text →
      as.length + r.id.toList.length ≤ bs.length →
        byteLength (as ++ r.id.toList) ≤ byteLength bs := by
    intro as bs has hbs hlength
    refine byteLength_le_of_prefix (List.prefix_of_prefix_length_le has
      ((List.prefix_append _ _).trans hbs) ?_)
    rwa [List.length_append]
  rcases hrmet.apart hsmet with rfl | hlength | hlength
  · have hstop : r.stop = s.stop := by rw [hr.stop_eq, hs.stop_eq, hid]
    obtain ⟨rid, rstart, rstop⟩ := r
    obtain ⟨sid, sstart, sstop⟩ := s
    rw [Reference.mk.injEq]
    exact .inl ⟨hid, hr.start.trans hs.start.symm, hstop⟩
  · refine .inr (apart_of_le ?_)
    rw [hr.stop_eq, hs.start]
    exact hle hrmet.stands hsmet.stands hlength
  · refine .inr (apart_of_le ?_).symm
    rw [hs.stop_eq, hr.start, ← hid]
    exact hle hsmet.stands hrmet.stands hlength

/-- One id is looked for before another. -/
def Precedes (a b : String) : Prop :=
  a ≠ b ∧ Ranks a b

/-- A longer id is looked for first, and of two that are equally long the one whose bytes come
first. -/
theorem precedes_iff {a b : String} :
    Precedes a b ↔ width b < width a ∨ width a = width b ∧ bytes a < bytes b := by
  rw [bytes_lt_bytes_iff, Precedes, Ranks]
  constructor
  · rintro ⟨hne, hlt | ⟨heq, hle⟩⟩
    · exact .inl hlt
    · exact .inr ⟨heq, lt_of_le_of_ne hle hne⟩
  · rintro (hlt | ⟨heq, hlt⟩)
    · refine ⟨?_, .inl hlt⟩
      rintro rfl
      exact lt_irrefl _ hlt
    · exact ⟨hlt.ne, .inr ⟨heq, hlt.le⟩⟩

namespace Vocabulary

variable {v : Vocabulary} {formula : String}

theorem ne_empty_of_mem (hid : id ∈ v.words) : id ≠ "" := by
  rintro rfl
  exact v.nonempty hid

theorem pairwise_precedes (v : Vocabulary) : v.words.Pairwise Precedes :=
  List.Pairwise.and v.nodup v.ranked

/-- Of two places that are tried, one precedes the other or they are apart. -/
theorem pairwise_candidates (v : Vocabulary) (text : List Char) :
    (v.words.flatMap (candidates text)).Pairwise
      fun s r => Precedes s.id r.id ∨ s = r ∨ Apart s r := by
  rw [List.pairwise_flatMap]
  constructor
  · intro id hid
    have hne := ne_empty_of_mem hid
    refine List.pairwise_of_forall_mem_list fun s hs r hr => ?_
    obtain ⟨hsid, hsmet⟩ := (mem_candidates_iff hne).mp hs
    obtain ⟨hrid, hrmet⟩ := (mem_candidates_iff hne).mp hr
    exact .inr (hsmet.apart hrmet (hsid.trans hrid.symm))
  · refine v.pairwise_precedes.imp ?_
    intro a b hab s hs r hr
    rw [id_of_mem_candidates hs, id_of_mem_candidates hr]
    exact .inl hab

theorem mem_references : r ∈ v.references formula ↔ r ∈ occupyAll v.words formula.toList :=
  List.mem_mergeSort

/-- A formula depends on the ids that have taken a place in it. -/
theorem mem_dependencies_iff {id : String} :
    id ∈ v.dependencies formula ↔ ∃ r ∈ occupyAll v.words formula.toList, r.id = id := by
  simp only [dependencies, mem_distinct, List.mem_map, mem_references]

theorem apart_references (v : Vocabulary) (formula : String) :
    (v.references formula).Pairwise Apart := by
  have hperm : (v.references formula).Perm (occupyAll v.words formula.toList) :=
    List.mergeSort_perm _ _
  rw [hperm.pairwise_iff Apart.symm, occupyAll_eq]
  exact pairwise_foldl_occupy .nil

/-- A reference is to a known id that the search meets there and that is no part of a longer
word. -/
theorem met_of_mem_references (hr : r ∈ v.references formula) :
    r.id ∈ v.words ∧ r.Met formula.toList := by
  obtain ⟨id, hid, hr⟩ := mem_of_mem_occupyAll (mem_references.mp hr)
  obtain ⟨rfl, hmet⟩ := (mem_candidates_iff (ne_empty_of_mem hid)).mp hr
  exact ⟨hid, hmet⟩

/-- Where the search meets a known id that is no part of a longer word, there is a reference to
it, or one to an id that precedes it has taken some of the place. -/
theorem mem_references_or (hid : r.id ∈ v.words) (hmet : r.Met formula.toList) :
    r ∈ v.references formula ∨
      ∃ s ∈ v.references formula, r.overlaps s ∧ Precedes s.id r.id := by
  have hr : r ∈ v.words.flatMap (candidates formula.toList) :=
    List.mem_flatMap.mpr ⟨r.id, hid, (mem_candidates_iff (ne_empty_of_mem hid)).mpr ⟨rfl, hmet⟩⟩
  simp only [mem_references, occupyAll_eq]
  rcases mem_foldl_occupy [] (v.pairwise_candidates formula.toList) hr with
    hr | ⟨s, hs, hover, hbefore | hprecedes | rfl | hapart⟩
  · exact .inl hr
  · cases hbefore
  · exact .inr ⟨s, hs, hover, hprecedes⟩
  · exact .inl hs
  · have hapart : r.overlaps s = false := hapart.symm
    rw [hapart] at hover
    cases hover

theorem start_lt_stop (hr : r ∈ v.references formula) : r.start < r.stop := by
  obtain ⟨hid, before, after, h, -⟩ := met_of_mem_references hr
  exact h.occurs.start_lt_stop (ne_empty_of_mem hid)

/-- References stand one behind the other. -/
theorem pairwise_references (v : Vocabulary) (formula : String) :
    (v.references formula).Pairwise fun r s => r.start < s.start ∧ r.stop ≤ s.start := by
  have hsorted : (v.references formula).Pairwise fun r s => r.start ≤ s.start := by
    refine (List.pairwise_mergeSort (fun a b c hab hbc => ?_) (fun a b => ?_) _).imp
      of_decide_eq_true
    · simp only [decide_eq_true_eq] at *
      omega
    · simp only [Bool.or_eq_true, decide_eq_true_eq]
      omega
  refine (hsorted.and (v.apart_references formula)).imp_of_mem ?_
  intro r s hr hs ⟨hle, hapart⟩
  have hrpos := start_lt_stop hr
  have hspos := start_lt_stop hs
  simp only [Apart, Reference.overlaps, Bool.and_eq_false_iff, decide_eq_false_iff_not] at hapart
  omega

end Vocabulary

/-! ## Slices -/

/-- What is taken of the characters from `position` on, in front of each reference and up to its
end, does not go back and does not divide a character. -/
def WellSliced (position : Nat) (text : List Char) : List Reference → Prop
  | [] => True
  | r :: rs =>
    position ≤ r.start ∧ r.start ≤ r.stop ∧
      byteLength (takeBytes (r.start - position) text) = r.start - position ∧
      byteLength (takeBytes (r.stop - position) text) = r.stop - position ∧
      WellSliced r.stop (dropBytes (r.stop - position) text) rs

@[simp] theorem takeBytes_append (as bs : List Char) : takeBytes (byteLength as) (as ++ bs) = as := by
  induction as with
  | nil =>
    cases bs with
    | nil => rfl
    | cons b bs => simp [takeBytes, Nat.ne_of_gt (Char.utf8Size_pos b)]
  | cons a as ih => simp [takeBytes, ih]

@[simp] theorem dropBytes_append (as bs : List Char) : dropBytes (byteLength as) (as ++ bs) = bs := by
  have h := takeBytes_append_dropBytes (byteLength as) (as ++ bs)
  rw [takeBytes_append] at h
  exact List.append_cancel_left h

/-- Of two beginnings of a text the one with fewer bytes begins the other. -/
theorem prefix_of_byteLength_le {as bs : List Char} (has : as <+: text) (hbs : bs <+: text)
    (hle : byteLength as ≤ byteLength bs) : as <+: bs := by
  rcases List.prefix_or_prefix_of_prefix has hbs with h | h
  · exact h
  · obtain ⟨cs, rfl⟩ := h
    have hnil : cs = [] := by
      by_contra hne
      have := byteLength_pos hne
      rw [byteLength_append] at hle
      omega
    simp [hnil]

theorem wellSliced_of_stands (front rest : List Char)
    (hstands : ∀ r ∈ rs, ∃ before after, r.Stands (front ++ rest) before after)
    (hrs : rs.Pairwise fun r s => r.start < s.start ∧ r.stop ≤ s.start)
    (hfront : ∀ r ∈ rs, byteLength front ≤ r.start) :
    WellSliced (byteLength front) rest rs := by
  induction rs generalizing front rest with
  | nil => trivial
  | cons r rs ih =>
    obtain ⟨⟨before, after, h⟩, hstands⟩ := List.forall_mem_cons.mp hstands
    obtain ⟨hr, hrs⟩ := List.pairwise_cons.mp hrs
    obtain ⟨hle, -⟩ := List.forall_mem_cons.mp hfront
    have hbefore : before <+: front ++ rest := h.occurs.prefix_before
    obtain ⟨gap, rfl⟩ := prefix_of_byteLength_le (List.prefix_append front rest) hbefore
      (h.start ▸ hle)
    have hrest : rest = gap ++ (r.id.toList ++ after) := by
      have := h.text
      simp only [List.append_assoc] at this
      exact (List.append_cancel_left this).symm
    have hstart : r.start - byteLength front = byteLength gap := by
      rw [h.start, byteLength_append]
      omega
    have hstop : r.stop - byteLength front = byteLength (gap ++ r.id.toList) := by
      rw [h.stop_eq]
      simp only [byteLength_append]
      omega
    refine ⟨hle, h.stop ▸ Nat.le_add_right _ _, ?_, ?_, ?_⟩
    · rw [hstart, hrest, takeBytes_append]
    · rw [hstop, hrest, ← List.append_assoc, takeBytes_append]
    · rw [hstop, hrest, ← List.append_assoc, dropBytes_append, h.stop_eq]
      refine ih _ _ ?_ hrs ?_
      · rw [h.text]
        exact hstands
      · intro s hs
        rw [← h.stop_eq]
        exact (hr s hs).2

/-- How references stand in a text. -/
structure Placed (ids : List String) (text : List Char) (rs : List Reference) : Prop where
  behind : rs.Pairwise fun r s => r.start < s.start ∧ r.stop ≤ s.start
  known : ∀ r ∈ rs, r.id ∈ ids ∧ r.id ≠ ""
  met : ∀ r ∈ rs, r.Met text
  lost : ∀ r : Reference, r.id ∈ ids → r.id ≠ "" → r.Met text → r ∉ rs →
    ∃ s ∈ rs, r.overlaps s ∧
      (width r.id < width s.id ∨ width s.id = width r.id ∧ bytes s.id < bytes r.id)
  sliced : WellSliced 0 text rs

/-- The references of a formula stand one behind the other without overlapping; each is a known
id in whole characters that is joined to no word. Where the search for an id meets it so and there
is no reference, one to a longer id, or to an equally long one of smaller bytes, is in its way. And
the slices that a substitution takes between references are well formed. -/
theorem references_placed (ids : List String) (formula : String) :
    Placed ids formula.toList ((Vocabulary.ofIds ids).references formula) where
  behind := Vocabulary.pairwise_references _ _
  known := fun r hr => Vocabulary.mem_words_ofIds.mp (Vocabulary.met_of_mem_references hr).1
  met := fun r hr => (Vocabulary.met_of_mem_references hr).2
  lost := by
    intro r hid hne hmet hr
    have hword : r.id ∈ (Vocabulary.ofIds ids).words := Vocabulary.mem_words_ofIds.mpr ⟨hid, hne⟩
    obtain ⟨s, hs, hover, hprecedes⟩ :=
      (Vocabulary.mem_references_or hword hmet).resolve_left hr
    exact ⟨s, hs, hover, precedes_iff.mp hprecedes⟩
  sliced := by
    refine wellSliced_of_stands [] formula.toList ?_ (Vocabulary.pairwise_references _ _)
      fun r hr => Nat.zero_le _
    intro r hr
    obtain ⟨before, after, h, -⟩ := (Vocabulary.met_of_mem_references hr).2
    exact ⟨before, after, h⟩

end Invoicing.Formula
