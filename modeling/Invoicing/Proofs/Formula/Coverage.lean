import Invoicing.Proofs.Formula.Evaluation
import Invoicing.Proofs.Formula.References

/-!
# Places that the search passes by

The search for an id goes on behind each place that it examines, even where the
place does not count. So a place of the id that begins inside one of those is
never examined, and it can be that no reference covers it. This takes an id that
ends as it begins; of any other id every place is examined.
-/
namespace Invoicing.Formula

open Text

variable {text before after before' after' : List Char} {ids : List String} {formula : String}
  {r p : Reference}

/-- The id of a reference stands there and is not part of a longer word. -/
def Reference.IsWhole (r : Reference) (text : List Char) : Prop :=
  ∃ before after, r.Stands text before after

/-- The search for the id examines this place and goes on behind it. -/
def Reference.Examined (r : Reference) (text : List Char) : Prop :=
  ∃ before after, r.Occurs text before after ∧ Meets r.id.toList text 0 before

/-- A place is one of the references, or one of them overlaps it. -/
def Covered (rs : List Reference) (r : Reference) : Prop :=
  r ∈ rs ∨ ∃ s ∈ rs, r.overlaps s

instance (rs : List Reference) (r : Reference) : Decidable (Covered rs r) :=
  inferInstanceAs (Decidable (_ ∨ _))

/-- A place begins inside an earlier one of the same id, behind which the search goes on. -/
structure Reference.Passes (p r : Reference) (text : List Char) : Prop where
  id : p.id = r.id
  examined : p.Examined text
  before : p.start < r.start
  inside : r.start < p.stop

/-- An id that ends as it begins, so that two places of it can overlap. -/
def OverlapsItself (id : String) : Prop :=
  ∃ first last, first ≠ [] ∧ last ≠ [] ∧ first ++ last = id.toList ∧ last <+: id.toList

/-- A place has one beginning. -/
theorem Reference.Occurs.unique (h : r.Occurs text before after)
    (h' : r.Occurs text before' after') : before = before' ∧ after = after' := by
  have hsize : byteLength before = byteLength before' := h.start.symm.trans h'.start
  have hbefore : before = before' :=
    (prefix_of_byteLength_le h.prefix_before h'.prefix_before hsize.le).eq_of_length_le
      (prefix_of_byteLength_le h'.prefix_before h.prefix_before hsize.ge).length_le
  subst hbefore
  exact ⟨rfl, List.append_cancel_left (h.text.trans h'.text.symm)⟩

/-- A place that is examined and stands by itself is one that the search meets. -/
theorem Reference.Examined.met (h : r.Examined text) (hwhole : r.IsWhole text) : r.Met text := by
  obtain ⟨before, after, hoccurs, hmeets⟩ := h
  obtain ⟨before', after', hstands⟩ := hwhole
  obtain ⟨rfl, rfl⟩ := hoccurs.unique hstands.occurs
  exact ⟨before, after, hstands, hmeets⟩

/-- The search meets a place that stands by itself, or it has passed it by. -/
theorem Reference.IsWhole.met_or_passed (hid : r.id ≠ "") (h : r.IsWhole text) :
    r.Met text ∨ ∃ p : Reference, p.Passes r text := by
  obtain ⟨before, after, h⟩ := h
  have hplace : before ++ r.id.toList <+: text := ⟨after, h.text⟩
  rcases meets_or_passed (toList_ne_nil hid) hplace (Nat.zero_le _) with
    hmeets | ⟨earlier, hmeets, hlt, hinside⟩
  · exact .inl ⟨before, after, h, hmeets⟩
  · obtain ⟨rest, hrest⟩ := hmeets.stands
    have hbefore : before <+: text := (List.prefix_append _ _).trans hplace
    have hearlier : earlier <+: before :=
      List.prefix_of_prefix_length_le ((List.prefix_append _ _).trans hmeets.stands) hbefore hlt.le
    have hbegins : before <+: earlier ++ r.id.toList := by
      refine List.prefix_of_prefix_length_le hbefore hmeets.stands ?_
      rw [List.length_append]
      exact hinside.le
    obtain ⟨p, hp, hoccurs⟩ : ∃ p : Reference, p.id = r.id ∧ p.Occurs text earlier rest :=
      ⟨⟨r.id, byteLength earlier, byteLength earlier + width r.id⟩, rfl, hrest, rfl, rfl⟩
    refine .inr ⟨p, hp, ⟨earlier, rest, hoccurs, hp ▸ hmeets⟩, ?_, ?_⟩
    · rw [hoccurs.start, h.start]
      exact byteLength_lt_of_prefix hearlier hlt
    · rw [h.start, hoccurs.stop_eq, hp]
      refine byteLength_lt_of_prefix hbegins ?_
      rwa [List.length_append]

/-- What passes a place by ends with what the id begins with. -/
theorem Reference.Passes.overlapsItself (h : p.Passes r text) (hwhole : r.IsWhole text) :
    OverlapsItself r.id := by
  obtain ⟨hid, ⟨before, after, hp, -⟩, hlt, hinside⟩ := h
  obtain ⟨before', after', hr⟩ := hwhole
  rw [hp.start, hr.start] at hlt
  rw [hp.stop_eq, hr.start] at hinside
  obtain ⟨first, rfl⟩ := prefix_of_byteLength_le hp.prefix_before hr.occurs.prefix_before hlt.le
  obtain ⟨last, hlast⟩ : first <+: r.id.toList := by
    have hstands : before ++ p.id.toList <+: text := ⟨after, hp.text⟩
    have := prefix_of_byteLength_le hr.occurs.prefix_before hstands hinside.le
    rwa [List.prefix_append_right_inj, hid] at this
  have hrest : before ++ first ++ (last ++ after) = before ++ first ++ (r.id.toList ++ after') := calc
    before ++ first ++ (last ++ after) = before ++ r.id.toList ++ after := by simp [← hlast]
    _ = text := hid ▸ hp.text
    _ = before ++ first ++ (r.id.toList ++ after') := by rw [← hr.text, List.append_assoc]
  refine ⟨first, last, ?_, ?_, hlast, ?_⟩
  · rintro rfl
    simp at hlt
  · rintro rfl
    rw [hid, ← hlast] at hinside
    simp at hinside
  · refine List.prefix_of_prefix_length_le (List.prefix_append last after) ?_ (by simp [← hlast])
    rw [List.append_cancel_left hrest]
    exact List.prefix_append _ _

/-- A place that begins inside another one overlaps it. -/
theorem Reference.Passes.overlaps (h : p.Passes r text) (hr : r.start < r.stop) : r.overlaps p := by
  have := h.before
  have := h.inside
  simp only [Reference.overlaps, Bool.and_eq_true, decide_eq_true_eq]
  omega

/-- A place is no reference, because the id is part of a longer word there or because a reference
to an id that precedes it has taken some of the place. -/
structure Reference.Rejected (p : Reference) (text : List Char) (rs : List Reference) : Prop where
  not_mem : p ∉ rs
  cause : ¬ p.IsWhole text ∨ ∃ s ∈ rs, p.overlaps s ∧ Precedes s.id p.id

namespace Vocabulary

variable {v : Vocabulary}

/-- A known id that stands by itself is covered where the search meets it. -/
theorem covered_of_met (hid : r.id ∈ v.words) (h : r.Met formula.toList) :
    Covered (v.references formula) r := by
  rcases mem_references_or hid h with hr | ⟨s, hs, hover, -⟩
  · exact .inl hr
  · exact .inr ⟨s, hs, hover⟩

/-- What passes by a place that is not covered has been rejected. -/
theorem rejected_of_passes (hid : r.id ∈ v.words) (hwhole : r.IsWhole formula.toList)
    (hcovered : ¬ Covered (v.references formula) r) (h : p.Passes r formula.toList) :
    p.Rejected formula.toList (v.references formula) := by
  obtain ⟨before, after, hstands⟩ := hwhole
  have hr := hstands.occurs.start_lt_stop (ne_empty_of_mem hid)
  have hmem : p ∉ v.references formula := fun hp => hcovered (.inr ⟨p, hp, h.overlaps hr⟩)
  refine ⟨hmem, or_iff_not_imp_left.mpr fun hp => ?_⟩
  have hmet := h.examined.met (not_not.mp hp)
  exact (mem_references_or (h.id ▸ hid) hmet).resolve_left hmem

end Vocabulary

/-- Where a known id stands by itself there is a reference, or one overlaps the place; or else the
place begins inside an earlier one of the id that was examined and rejected. With an id that cannot
overlap itself this does not happen. -/
theorem references_cover (hid : r.id ∈ ids) (hne : r.id ≠ "") (h : r.IsWhole formula.toList) :
    (Covered ((Vocabulary.ofIds ids).references formula) r ∨
      ∃ p : Reference, p.Passes r formula.toList ∧
        p.Rejected formula.toList ((Vocabulary.ofIds ids).references formula)) ∧
    (¬ OverlapsItself r.id → Covered ((Vocabulary.ofIds ids).references formula) r) := by
  have hword : r.id ∈ (Vocabulary.ofIds ids).words := Vocabulary.mem_words_ofIds.mpr ⟨hid, hne⟩
  by_cases hcovered : Covered ((Vocabulary.ofIds ids).references formula) r
  · exact ⟨.inl hcovered, fun _ => hcovered⟩
  · obtain ⟨p, hp⟩ := (h.met_or_passed hne).resolve_left fun hmet =>
      hcovered (Vocabulary.covered_of_met hword hmet)
    exact ⟨.inr ⟨p, hp, Vocabulary.rejected_of_passes hword h hcovered hp⟩,
      fun hself => absurd (hp.overlapsItself h) hself⟩

/-- The first place of the id is taken in part by a longer one, and so the second is passed by. -/
theorem references_cover_rejected :
    (⟨"a-a", 5, 8⟩ : Reference).IsWhole "zz a-a-a".toList ∧
      ∃ p : Reference, p.Passes ⟨"a-a", 5, 8⟩ "zz a-a-a".toList ∧
        p.Rejected "zz a-a-a".toList ((Vocabulary.ofIds ["zz a", "a-a"]).references "zz a-a-a") := by
  have hwhole : (⟨"a-a", 5, 8⟩ : Reference).IsWhole "zz a-a-a".toList :=
    ⟨"zz a-".toList, [], by decide +kernel, by decide +kernel, by decide +kernel,
      by decide +kernel, by decide +kernel⟩
  have hids : Vocabulary.ofIds ["zz a", "a-a"] =
      ⟨["zz a", "a-a"], by decide, by decide, by decide⟩ :=
    Vocabulary.eq_of_mem_words (by simp +contextual [or_imp])
  have hcovered : ¬ Covered ((Vocabulary.ofIds ["zz a", "a-a"]).references "zz a-a-a")
      ⟨"a-a", 5, 8⟩ := by
    rw [hids]
    decide +kernel
  exact ⟨hwhole, (references_cover (by decide) (by decide) hwhole).1.resolve_left hcovered⟩

/-- The id stands by itself at the end, but begins inside a place where it is part of a word. So it
is passed by, and nothing covers it. -/
theorem references_selfOverlapping_missed :
    (⟨"a-a", 3, 6⟩ : Reference).IsWhole "xa-a-a".toList ∧
      (Vocabulary.ofIds ["a-a"]).references "xa-a-a" = [] ∧
      ¬ Covered ((Vocabulary.ofIds ["a-a"]).references "xa-a-a") ⟨"a-a", 3, 6⟩ := by
  refine ⟨⟨"xa-".toList, [], ?_, ?_, ?_, ?_, ?_⟩, ?_, ?_⟩ <;> decide +kernel

end Invoicing.Formula
