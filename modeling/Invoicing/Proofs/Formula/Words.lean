import Mathlib.Data.List.SplitBy
import Mathlib.Data.List.Sort
import Invoicing.Proofs.Formula.References

/-!
# Words of a formula

A text falls apart into its longest runs of word characters and single
characters between them. Where ids are words, a formula refers to an id exactly
where one of its runs is that id. No search passes such a run by: a place that
reached into it from the left would join it to a word.
-/
namespace Invoicing.Formula

open Text

variable {text before run after : List Char} {position : Nat} {ids : List String}
  {formula : String} {r s : Reference} {ss : List (List Char)}

/-- Characters that make up a word. -/
def IsWord (cs : List Char) : Prop :=
  cs ≠ [] ∧ ∀ c ∈ cs, isWordChar c

instance (cs : List Char) : Decidable (IsWord cs) :=
  decidable_of_iff (cs ≠ [] ∧ cs.all isWordChar) (by simp [IsWord])

/-- A longest run of word characters, between these others. -/
structure IsRun (text before run after : List Char) : Prop where
  text : before ++ run ++ after = text
  word : IsWord run
  leading : ∀ c ∈ before.getLast?, isWordChar c = false
  trailing : ∀ c ∈ after.head?, isWordChar c = false

/-- A text in segments. Neighbouring characters are in one if both are of a word. -/
def segments (text : List Char) : List (List Char) :=
  text.splitBy fun a b => isWordChar a && isWordChar b

/-- The words among segments that start at a position. -/
def runsFrom (position : Nat) : List (List Char) → List Reference
  | [] => []
  | cs :: ss =>
    let rest := runsFrom (position + byteLength cs) ss
    if IsWord cs then ⟨String.ofList cs, position, position + byteLength cs⟩ :: rest else rest

/-- The longest runs of word characters in a formula, each as a reference to the word that it
is. -/
def runs (formula : String) : List Reference :=
  runsFrom 0 (segments formula.toList)

theorem IsWord.isChain (h : IsWord run) :
    run.IsChain fun a b => (isWordChar a && isWordChar b) = true := by
  refine List.Pairwise.isChain (List.pairwise_of_forall_mem_list fun a ha b hb => ?_)
  simp [h.2 a ha, h.2 b hb]

theorem segments_append {as bs : List Char}
    (h : ∀ a ∈ as.getLast?, ∀ b ∈ bs.head?, (isWordChar a && isWordChar b) = false) :
    segments (as ++ bs) = segments as ++ segments bs :=
  List.splitBy_append h

@[simp] theorem flatten_segments (text : List Char) : (segments text).flatten = text :=
  List.flatten_splitBy _ text

theorem segments_of_isWord (h : IsWord run) : segments run = [run] :=
  List.splitBy_of_isChain h.1 h.isChain

/-- A run is a segment, and what is on either side of it falls apart by itself. -/
theorem IsRun.segments_eq (h : IsRun text before run after) :
    segments text = segments before ++ run :: segments after := by
  rw [← h.text, segments_append, segments_append, segments_of_isWord h.word]
  · simp
  · intro a ha b _
    simp [h.leading a ha]
  · intro a _ b hb
    simp [h.trailing b hb]

/-! ## What segments are -/

/-- A segment is a word or a single character between words. -/
def IsSegment (cs : List Char) : Prop :=
  IsWord cs ∨ ∃ c, cs = [c] ∧ isWordChar c = false

/-- Segments as they come from a text: of two neighbours one at most is a word. -/
structure Segmented (ss : List (List Char)) : Prop where
  segment : ∀ cs ∈ ss, IsSegment cs
  apart : ss.IsChain fun a b => ¬ (IsWord a ∧ IsWord b)

namespace IsSegment

variable {cs : List Char}

theorem ne_nil (h : IsSegment cs) : cs ≠ [] := by
  rcases h with h | ⟨c, rfl, -⟩
  · exact h.1
  · exact List.cons_ne_nil c []

theorem isChain (h : IsSegment cs) :
    cs.IsChain fun a b => (isWordChar a && isWordChar b) = true := by
  rcases h with h | ⟨c, rfl, -⟩
  · exact h.isChain
  · exact .singleton c

/-- One character tells whether a segment is a word. -/
theorem isWord_iff (h : IsSegment cs) {c : Char} (hc : c ∈ cs) : IsWord cs ↔ isWordChar c := by
  rcases h with h | ⟨d, rfl, hd⟩
  · exact iff_of_true h (h.2 c hc)
  · obtain rfl := List.mem_singleton.mp hc
    exact ⟨fun h => h.2 c hc, fun h => by rw [hd] at h; cases h⟩

end IsSegment

/-- Characters that are joined one to the next are a word, unless there is only one. -/
theorem isSegment_of_isChain {cs : List Char} (hne : cs ≠ [])
    (h : cs.IsChain fun a b => (isWordChar a && isWordChar b) = true) : IsSegment cs := by
  induction cs with
  | nil => exact absurd rfl hne
  | cons c cs ih =>
    cases cs with
    | nil =>
      cases hc : isWordChar c with
      | true => exact .inl ⟨hne, by simpa using hc⟩
      | false => exact .inr ⟨c, rfl, hc⟩
    | cons d cs =>
      obtain ⟨hcd, hrest⟩ := List.isChain_cons_cons.mp h
      obtain ⟨hc, hd⟩ := Bool.and_eq_true_iff.mp hcd
      have hword : IsWord (d :: cs) :=
        ((ih (List.cons_ne_nil d cs) hrest).isWord_iff List.mem_cons_self).mpr hd
      exact .inl ⟨hne, List.forall_mem_cons.mpr ⟨hc, hword.2⟩⟩

theorem segmented_segments (text : List Char) : Segmented (segments text) where
  segment := fun _ hcs => isSegment_of_isChain (List.ne_nil_of_mem_splitBy hcs)
    (List.isChain_of_mem_splitBy hcs)
  apart := by
    refine (List.isChain_getLast_head_splitBy _ text).imp ?_
    rintro a b ⟨hlast, hhead, hapart⟩ ⟨ha, hb⟩
    rw [ha.2 _ (List.getLast_mem hlast), hb.2 _ (List.head_mem hhead)] at hapart
    cases hapart

/-- A text made of segments comes apart into them. -/
theorem segments_flatten (h : Segmented ss) : segments ss.flatten = ss := by
  refine List.splitBy_flatten (fun hnil => (h.segment [] hnil).ne_nil rfl)
    (fun cs hcs => (h.segment cs hcs).isChain) ?_
  refine h.apart.imp_of_mem_imp ?_
  intro a b ha hb hapart
  have hlast := (h.segment a ha).ne_nil
  have hhead := (h.segment b hb).ne_nil
  refine ⟨hlast, hhead, ?_⟩
  rw [← Bool.not_eq_true, Bool.and_eq_true_iff, ← (h.segment a ha).isWord_iff (List.getLast_mem hlast),
    ← (h.segment b hb).isWord_iff (List.head_mem hhead)]
  exact hapart

/-- A segment that is a word is a run between what the other segments make. -/
theorem isRun_of_segments {front back : List (List Char)}
    (h : segments text = front ++ run :: back) (hword : IsWord run) :
    IsRun text front.flatten run back.flatten := by
  have hsegments := segmented_segments text
  have htext := flatten_segments text
  rw [h] at hsegments htext
  obtain ⟨-, hback, hfront⟩ := List.isChain_append.mp hsegments.apart
  refine ⟨by simpa using htext, hword, ?_, ?_⟩
  · intro c hc
    rcases front.eq_nil_or_concat with rfl | ⟨front, last, rfl⟩
    · cases hc
    · have hlast := hsegments.segment last (by simp)
      have hapart : ¬ IsWord last := fun hl => hfront last (by simp) run rfl ⟨hl, hword⟩
      rw [List.concat_eq_append, List.flatten_append, List.flatten_singleton,
        List.getLast?_append_of_ne_nil _ hlast.ne_nil] at hc
      rwa [hlast.isWord_iff (List.mem_of_mem_getLast? hc), Bool.not_eq_true] at hapart
  · intro c hc
    cases back with
    | nil => cases hc
    | cons next back =>
      have hnext := hsegments.segment next (by simp)
      have hapart : ¬ IsWord next := fun hn => (List.isChain_cons_cons.mp hback).1 ⟨hword, hn⟩
      rw [List.flatten_cons, List.head?_append_of_ne_nil _ hnext.ne_nil] at hc
      rwa [hnext.isWord_iff (List.mem_of_mem_head? hc), Bool.not_eq_true] at hapart

/-! ## The list of runs -/

theorem mem_runsFrom_iff :
    r ∈ runsFrom position ss ↔ ∃ front run back, ss = front ++ run :: back ∧ IsWord run ∧
      r = ⟨String.ofList run, position + byteLength front.flatten,
        position + byteLength front.flatten + byteLength run⟩ := by
  induction ss generalizing position with
  | nil => simp [runsFrom]
  | cons cs ss ih =>
    have hrest : r ∈ runsFrom (position + byteLength cs) ss → r ∈ runsFrom position (cs :: ss) := by
      intro h
      unfold runsFrom
      split
      · exact List.mem_cons_of_mem _ h
      · exact h
    constructor
    · intro h
      have hcases : (IsWord cs ∧ r = ⟨String.ofList cs, position, position + byteLength cs⟩) ∨
          r ∈ runsFrom (position + byteLength cs) ss := by
        unfold runsFrom at h
        split at h
        · rename_i hword
          exact (List.mem_cons.mp h).imp_left fun hr => ⟨hword, hr⟩
        · exact .inr h
      rcases hcases with ⟨hword, rfl⟩ | h
      · exact ⟨[], cs, ss, rfl, hword, by simp⟩
      · obtain ⟨front, run, back, rfl, hword, rfl⟩ := ih.mp h
        exact ⟨cs :: front, run, back, rfl, hword, by simp [Nat.add_assoc]⟩
    · rintro ⟨front, run, back, hss, hword, rfl⟩
      cases front with
      | nil =>
        obtain ⟨rfl, rfl⟩ := List.cons.inj hss
        simp [runsFrom, hword]
      | cons first front =>
        obtain ⟨rfl, rfl⟩ := List.cons.inj hss
        exact hrest (ih.mpr ⟨front, run, back, rfl, hword, by simp [Nat.add_assoc]⟩)

/-- The words of a formula are the segments that are words. -/
theorem map_id_runs (formula : String) : (runs formula).map Reference.id =
    ((segments formula.toList).filter fun cs => IsWord cs).map String.ofList := by
  unfold runs
  generalize segments formula.toList = ss
  generalize 0 = position
  induction ss generalizing position with
  | nil => rfl
  | cons cs ss ih =>
    by_cases hword : IsWord cs
    · simp [runsFrom, hword, ih]
    · simp [runsFrom, hword, ih]

/-- A reference is a run of a formula if it stands where a run is. -/
theorem mem_runs_iff : r ∈ runs formula ↔ ∃ before after,
    IsRun formula.toList before r.id.toList after ∧ r.start = byteLength before ∧
      r.stop = r.start + width r.id := by
  rw [runs, mem_runsFrom_iff]
  constructor
  · rintro ⟨front, run, back, hss, hword, rfl⟩
    refine ⟨front.flatten, back.flatten, ?_, by simp, by simp [width]⟩
    rw [String.toList_ofList]
    exact isRun_of_segments hss hword
  · rintro ⟨before, after, h, hstart, hstop⟩
    refine ⟨segments before, r.id.toList, segments after, h.segments_eq, h.word, ?_⟩
    rw [flatten_segments, Nat.zero_add, String.ofList_toList, ← hstart, ← width, ← hstop]

theorem pairwise_runsFrom (position : Nat) (ss : List (List Char)) :
    (runsFrom position ss).Pairwise fun r s => r.start < s.start ∧ r.stop ≤ s.start := by
  induction ss generalizing position with
  | nil => exact .nil
  | cons cs ss ih =>
    unfold runsFrom
    split
    · rename_i hword
      refine List.pairwise_cons.mpr ⟨fun s hs => ?_, ih _⟩
      obtain ⟨front, run, back, -, -, rfl⟩ := mem_runsFrom_iff.mp hs
      have := byteLength_pos hword.1
      dsimp only
      omega
    · exact ih _

theorem pairwise_runs (formula : String) :
    (runs formula).Pairwise fun r s => r.start < s.start ∧ r.stop ≤ s.start :=
  pairwise_runsFrom 0 _

instance : Std.Symm Apart :=
  ⟨fun _ _ => Apart.symm⟩

/-- Two runs are the same or apart. -/
theorem apart_of_mem_runs (hr : r ∈ runs formula) (hs : s ∈ runs formula) (hne : r ≠ s) :
    Apart r s := by
  have hapart : (runs formula).Pairwise Apart :=
    (pairwise_runs formula).imp fun h => apart_of_le h.2
  exact hapart.forall hr hs hne

/-! ## Runs and references -/

theorem Reference.Stands.isRun (h : r.Stands text before after) (hword : IsWord r.id.toList) :
    IsRun text before r.id.toList after := by
  obtain ⟨htext, -, -, hleading, htrailing⟩ := h
  refine ⟨htext, hword, ?_, ?_⟩
  · intro c hc
    have hhead := List.head?_eq_some_head hword.1
    rw [Option.mem_def.mp hc, hhead] at hleading
    simpa [joined, hword.2 _ (List.head_mem hword.1)] using hleading
  · intro c hc
    have hlast := List.getLast?_eq_getLast_of_ne_nil hword.1
    rw [Option.mem_def.mp hc, hlast] at htrailing
    simpa [joined, hword.2 _ (List.getLast_mem hword.1)] using htrailing

theorem IsRun.stands (h : IsRun text before r.id.toList after) (hstart : r.start = byteLength before)
    (hstop : r.stop = r.start + width r.id) : r.Stands text before after where
  text := h.text
  start := hstart
  stop := hstop
  leading := by
    cases hlast : before.getLast? with
    | none => rfl
    | some c => simp [joined, h.leading c hlast]
  trailing := by
    cases hhead : after.head? with
    | none => simp [joined]
    | some c => simp [joined, h.trailing c hhead]

/-- A place of a run's characters to the left of the run ends in front of it. -/
theorem IsRun.behind {place : List Char} (h : IsRun text before run after)
    (hplace : place ++ run <+: text) (hlt : place.length < before.length) :
    place.length + run.length ≤ before.length := by
  by_contra hover
  have hbefore : before <+: text := ⟨run ++ after, by simp [← h.text]⟩
  have hinside : before <+: place ++ run :=
    List.prefix_of_prefix_length_le hbefore hplace (by simp only [List.length_append]; omega)
  obtain ⟨part, rfl⟩ := List.prefix_of_prefix_length_le ((List.prefix_append _ _).trans hplace)
    hbefore hlt.le
  have hpart : part ≠ [] := by
    rintro rfl
    simp at hlt
  have hword := h.word.2 _ (((List.prefix_append_right_inj place).mp hinside).subset
    (List.getLast_mem hpart))
  rw [h.leading _ (by rw [List.getLast?_append_of_ne_nil _ hpart,
    List.getLast?_eq_getLast_of_ne_nil hpart]; rfl)] at hword
  cases hword

/-- A search meets every run of the word, from wherever to the left of it it starts. -/
theorem IsRun.meets (h : IsRun text before run after) {n : Nat} (hn : n ≤ before.length) :
    Meets run text n before := by
  refine (meets_or_passed h.word.1 ⟨after, h.text⟩ hn).resolve_right ?_
  rintro ⟨earlier, hmeets, hlt, hinside⟩
  have hbehind := h.behind hmeets.stands hlt
  omega

namespace Vocabulary

variable {v : Vocabulary}

/-- Where all ids are words, the references are the runs that are ids. -/
theorem mem_references_iff_of_words (hv : ∀ id ∈ v.words, IsWord id.toList) :
    r ∈ v.references formula ↔ r ∈ runs formula ∧ r.id ∈ v.words := by
  have hruns : ∀ s ∈ v.references formula, s ∈ runs formula := by
    intro s hs
    obtain ⟨hid, before, after, h, -⟩ := met_of_mem_references hs
    exact mem_runs_iff.mpr ⟨before, after, h.isRun (hv _ hid), h.start, h.stop⟩
  constructor
  · intro hr
    exact ⟨hruns r hr, (met_of_mem_references hr).1⟩
  · rintro ⟨hr, hid⟩
    obtain ⟨before, after, h, hstart, hstop⟩ := mem_runs_iff.mp hr
    have hmet : r.Met formula.toList :=
      ⟨before, after, h.stands hstart hstop, h.meets (Nat.zero_le _)⟩
    refine (mem_references_or hid hmet).resolve_right ?_
    -- What has taken some of the place is a run as well, and different runs are apart.
    rintro ⟨s, hs, hover, hne, -⟩
    have hapart : r.overlaps s = false :=
      apart_of_mem_runs hr (hruns s hs) fun h => hne (congrArg Reference.id h).symm
    rw [hapart] at hover
    cases hover

theorem references_eq_of_words (hv : ∀ id ∈ v.words, IsWord id.toList) (formula : String) :
    v.references formula = (runs formula).filter (·.id ∈ v.words) := by
  let before (r s : Reference) := r.start < s.start
  have : Std.Antisymm before := ⟨fun a b hab hba => absurd (Nat.lt_trans hab hba) (Nat.lt_irrefl _)⟩
  have : Std.Irrefl before := ⟨fun _ => Nat.lt_irrefl _⟩
  have hreferences : (v.references formula).Pairwise before :=
    (v.pairwise_references formula).imp And.left
  have hruns : ((runs formula).filter (·.id ∈ v.words)).Pairwise before :=
    ((pairwise_runs formula).imp And.left).filter _
  refine hreferences.eq_of_mem_iff hruns fun r => ?_
  rw [mem_references_iff_of_words hv, List.mem_filter, decide_eq_true_eq]

theorem dependencies_eq_of_words (hv : ∀ id ∈ v.words, IsWord id.toList)
    (formula : String) : v.dependencies formula =
      distinct (((runs formula).map Reference.id).filter (· ∈ v.words)) := by
  rw [dependencies, references_eq_of_words hv, List.filter_map]
  rfl

end Vocabulary

theorem mem_ofIds_iff_of_words (hids : ∀ id ∈ ids, IsWord id.toList) {id : String} :
    id ∈ (Vocabulary.ofIds ids).words ↔ id ∈ ids := by
  rw [Vocabulary.mem_words_ofIds, and_iff_left_iff_imp]
  rintro hid rfl
  exact (hids _ hid).1 rfl

/-- Where all ids are words, a formula refers to the longest runs of word characters that are
ids, in the order in which they stand, and it depends on the ids among its runs, in order of first
appearance. -/
theorem references_of_words (hids : ∀ id ∈ ids, IsWord id.toList) (formula : String) :
    (Vocabulary.ofIds ids).references formula = (runs formula).filter (·.id ∈ ids) ∧
      (∀ r, r ∈ (Vocabulary.ofIds ids).references formula ↔ r.id ∈ ids ∧
        ∃ before after, IsRun formula.toList before r.id.toList after ∧
          r.start = byteLength before ∧ r.stop = r.start + width r.id) ∧
      ((Vocabulary.ofIds ids).references formula).Pairwise (fun r s => r.start < s.start) ∧
      (Vocabulary.ofIds ids).dependencies formula =
        distinct (((runs formula).map Reference.id).filter (· ∈ ids)) := by
  have hv : ∀ id ∈ (Vocabulary.ofIds ids).words, IsWord id.toList :=
    fun id hid => hids id ((mem_ofIds_iff_of_words hids).mp hid)
  have heq : (Vocabulary.ofIds ids).references formula = (runs formula).filter (·.id ∈ ids) := by
    rw [Vocabulary.references_eq_of_words hv]
    simp only [mem_ofIds_iff_of_words hids]
  refine ⟨heq, fun r => ?_, (Vocabulary.pairwise_references _ _).imp And.left, ?_⟩
  · rw [heq, List.mem_filter, decide_eq_true_eq, mem_runs_iff, and_comm]
  · rw [Vocabulary.dependencies_eq_of_words hv]
    simp only [mem_ofIds_iff_of_words hids]

/-- Ids that begin, end and overlap each other, in a text where they are parts of words as well. -/
theorem references_of_words_sample :
    (∀ id ∈ ["a", "aa", "é_1"], IsWord id.toList) ∧
      (Vocabulary.ofIds ["a", "aa", "é_1"]).references "aaa aa é_1+é_12(a)" =
        [⟨"aa", 4, 6⟩, ⟨"é_1", 7, 11⟩, ⟨"a", 18, 19⟩] := by
  have hids : ∀ id ∈ ["a", "aa", "é_1"], IsWord id.toList := by decide +kernel
  refine ⟨hids, ?_⟩
  rw [(references_of_words hids _).1]
  decide +kernel

end Invoicing.Formula
