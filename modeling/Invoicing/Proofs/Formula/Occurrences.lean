import Mathlib.Data.List.Basic
import Invoicing.Formula.Reference

/-!
# The places of a word in a text

A search for a word from left to right meets its first place and then goes on
behind it. So the places that it meets do not overlap, and a place that it does
not meet overlaps one that it does.
-/
namespace Invoicing.Formula

open Text

variable {word text : List Char} {n : Nat} {place before after : List Char} {o : Occurrence}
  {id : String} {r s : Reference}

/-- The first place of a word from the `n`-th character on, told by what is in front of it. -/
structure IsFirst (word text : List Char) (n : Nat) (before : List Char) : Prop where
  stands : before ++ word <+: text
  behind : n ≤ before.length
  first : ∀ other, other ++ word <+: text → n ≤ other.length → before.length ≤ other.length

/-- The places that a search for a word from the `n`-th character on meets. -/
inductive Meets (word text : List Char) : Nat → List Char → Prop where
  | first {n : Nat} {before : List Char} (h : IsFirst word text n before) : Meets word text n before
  | later {n : Nat} {place before : List Char} (h : IsFirst word text n place)
    (hlater : Meets word text (place.length + word.length) before) : Meets word text n before

/-- In front of two places of one length there is the same. -/
theorem eq_of_stands {other : List Char} (h : before ++ word <+: text)
    (hother : other ++ word <+: text) (hlength : before.length = other.length) :
    before = other :=
  List.prefix_of_prefix_length_le ((List.prefix_append _ _).trans h)
    ((List.prefix_append _ _).trans hother) (Nat.le_of_eq hlength) |>.eq_of_length hlength

theorem IsFirst.unique (h : IsFirst word text n before) (hplace : IsFirst word text n place) :
    before = place :=
  eq_of_stands h.stands hplace.stands
    (Nat.le_antisymm (h.first _ hplace.stands hplace.behind)
      (hplace.first _ h.stands h.behind))

theorem Meets.stands (h : Meets word text n before) : before ++ word <+: text := by
  induction h with
  | first h => exact h.stands
  | later _ _ ih => exact ih

theorem Meets.behind (h : Meets word text n before) : n ≤ before.length := by
  induction h with
  | first h => exact h.behind
  | later h _ ih => exact Nat.le_trans (Nat.le_add_right_of_le h.behind) ih

/-- A search that starts where the word stands meets it there and goes on behind it. -/
theorem meets_of_stands (hplace : place ++ word <+: text) :
    Meets word text place.length before ↔
      before = place ∨ Meets word text (place.length + word.length) before := by
  have hfirst : IsFirst word text place.length place := ⟨hplace, Nat.le_refl _, fun _ _ h => h⟩
  constructor
  · intro h
    cases h with
    | first h => exact .inl (h.unique hfirst)
    | later h hlater => exact .inr (h.unique hfirst ▸ hlater)
  · intro h
    rcases h with rfl | h
    · exact .first hfirst
    · exact .later hfirst h

/-- A search that starts where the word does not stand might start at the next character. -/
theorem meets_of_not_stands (hplace : place <+: text) (hnot : ¬ place ++ word <+: text) :
    Meets word text place.length before ↔ Meets word text (place.length + 1) before := by
  have hnext : ∀ other, other ++ word <+: text →
      (place.length ≤ other.length ↔ place.length + 1 ≤ other.length) := by
    intro other hother
    have hne : other.length ≠ place.length := by
      intro hlength
      have heq := (List.prefix_of_prefix_length_le ((List.prefix_append _ _).trans hother) hplace
        (Nat.le_of_eq hlength)).eq_of_length hlength
      exact hnot (heq ▸ hother)
    omega
  have hfirst : ∀ b, IsFirst word text place.length b ↔ IsFirst word text (place.length + 1) b := by
    intro b
    constructor
    · intro h
      exact ⟨h.stands, (hnext b h.stands).mp h.behind,
        fun other hother hle => h.first other hother ((hnext other hother).mpr hle)⟩
    · intro h
      exact ⟨h.stands, (hnext b h.stands).mpr h.behind,
        fun other hother hle => h.first other hother ((hnext other hother).mp hle)⟩
  constructor
  · intro h
    cases h with
    | first h => exact .first ((hfirst _).mp h)
    | later h hlater => exact .later ((hfirst _).mp h) hlater
  · intro h
    cases h with
    | first h => exact .first ((hfirst _).mpr h)
    | later h hlater => exact .later ((hfirst _).mpr h) hlater

/-- Two places that one search meets are apart. -/
theorem Meets.apart (h : Meets word text n before) (hplace : Meets word text n place) :
    before = place ∨ before.length + word.length ≤ place.length ∨
      place.length + word.length ≤ before.length := by
  induction h generalizing place with
  | first h =>
    cases hplace with
    | first hplace => exact .inl (h.unique hplace)
    | later hplace hlater => exact .inr (.inl (h.unique hplace ▸ hlater.behind))
  | later h hlater ih =>
    cases hplace with
    | first hplace => exact .inr (.inr (hplace.unique h ▸ hlater.behind))
    | later hplace hother =>
      obtain rfl := h.unique hplace
      exact ih hother

/-- Where the word stands somewhere from the `n`-th character on, there is a first such place. -/
theorem exists_isFirst {place : List Char} (h : place ++ word <+: text) (hn : n ≤ place.length) :
    ∃ first, IsFirst word text n first := by
  by_cases hearlier : ∃ other, other ++ word <+: text ∧ n ≤ other.length ∧
      other.length < place.length
  · obtain ⟨other, hother, hle, hlt⟩ := hearlier
    exact exists_isFirst hother hle
  · refine ⟨place, h, hn, fun other hother hle => Nat.le_of_not_lt fun hlt => ?_⟩
    exact hearlier ⟨other, hother, hle, hlt⟩
termination_by place.length

/-- A place that a search does not meet begins inside an earlier one that it does. -/
theorem meets_or_passed (hword : word ≠ []) {n : Nat} (h : place ++ word <+: text)
    (hn : n ≤ place.length) : Meets word text n place ∨ ∃ earlier, Meets word text n earlier ∧
      earlier.length < place.length ∧ place.length < earlier.length + word.length := by
  obtain ⟨first, hfirst⟩ := exists_isFirst h hn
  rcases Nat.eq_or_lt_of_le (hfirst.first place h hn) with hlength | hlt
  · exact .inl (.first (eq_of_stands hfirst.stands h hlength ▸ hfirst))
  · by_cases hinside : place.length < first.length + word.length
    · exact .inr ⟨first, .first hfirst, hlt, hinside⟩
    · have hpos := List.length_pos_iff.mpr hword
      have hbehind := hfirst.behind
      rcases meets_or_passed hword h (Nat.le_of_not_lt hinside) with
        hlater | ⟨earlier, hlater, hpasses⟩
      · exact .inl (.later hfirst hlater)
      · exact .inr ⟨earlier, .later hfirst hlater, hpasses⟩
termination_by place.length - n

/-- The places found are those that the search meets, with what is on either side of them. -/
theorem mem_occurrences_iff (hword : word ≠ []) (skip : Nat) (front cs : List Char) :
    o ∈ occurrences word skip (byteLength front) front.getLast? cs ↔
      ∃ before after, before ++ word ++ after = front ++ cs ∧
        Meets word (front ++ cs) (front.length + skip) before ∧
        o = ⟨byteLength before, before.getLast?, after.head?⟩ := by
  induction cs generalizing front skip with
  | nil =>
    simp only [occurrences, List.append_nil, List.not_mem_nil, false_iff, not_exists, not_and]
    intro before after htext hmeets
    have hlength := congrArg List.length htext
    have hpos := List.length_pos_iff.mpr hword
    have hbehind := hmeets.behind
    simp only [List.length_append] at hlength
    omega
  | cons c cs ih =>
    have hstep : front ++ c :: cs = (front ++ [c]) ++ cs := by simp
    have hsize : byteLength (front ++ [c]) = byteLength front + c.utf8Size := by simp
    have hlast : (front ++ [c]).getLast? = some c := by simp
    have hlength : (front ++ [c]).length = front.length + 1 := by simp
    rw [hstep]
    cases skip with
    | succ skip =>
      have ih := ih skip (front ++ [c])
      rw [hsize, hlast, hlength, Nat.add_right_comm] at ih
      exact ih
    | zero =>
      have hstands : word.isPrefixOf (c :: cs) ↔ front ++ word <+: (front ++ [c]) ++ cs := by
        rw [List.isPrefixOf_iff_prefix, ← hstep, List.prefix_append_right_inj]
      simp only [occurrences, Nat.add_zero]
      by_cases hprefix : word.isPrefixOf (c :: cs)
      · have ih := ih (word.length - 1) (front ++ [c])
        have hskip : front.length + 1 + (word.length - 1) = front.length + word.length := by
          have := List.length_pos_iff.mpr hword
          omega
        rw [hsize, hlast, hlength, hskip] at ih
        rw [if_pos hprefix, List.mem_cons, ih]
        simp only [meets_of_stands (hstands.mp hprefix)]
        obtain ⟨rest, hrest⟩ := List.isPrefixOf_iff_prefix.mp hprefix
        have hhere : front ++ word ++ rest = front ++ [c] ++ cs := by
          rw [← hstep, ← hrest, List.append_assoc]
        constructor
        · rintro (rfl | ⟨before, after, htext, hmeets, rfl⟩)
          · refine ⟨front, rest, hhere, .inl rfl, ?_⟩
            rw [← hrest, List.drop_left]
          · exact ⟨before, after, htext, .inr hmeets, rfl⟩
        · rintro ⟨before, after, htext, rfl | hmeets, rfl⟩
          · refine .inl ?_
            obtain rfl := List.append_cancel_left (htext.trans hhere.symm)
            rw [← hrest, List.drop_left]
          · exact .inr ⟨before, after, htext, hmeets, rfl⟩
      · have ih := ih 0 (front ++ [c])
        rw [hsize, hlast, hlength, Nat.add_zero] at ih
        have hnot := fun h => hprefix (hstands.mpr h)
        rw [if_neg hprefix, ih]
        simp only [meets_of_not_stands (hstep ▸ List.prefix_append front (c :: cs)) hnot]

end Invoicing.Formula
