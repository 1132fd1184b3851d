import Invoicing.Text.Alphanumeric
import Invoicing.Text.Blank
import Mathlib.Data.List.Basic

/-!
# White space around a text

White space is not part of any word, so what a text is in between the white
space at its ends can be told by its first and its last character.
-/
namespace Invoicing.Text

variable {c : Char} {cs before core after rest : List Char}

/-- The white space, character by character. -/
def blanks : List Char :=
  ([9, 10, 11, 12, 13, 0x20, 0x85, 0xA0, 0x1680, 0x2000, 0x2001, 0x2002, 0x2003, 0x2004, 0x2005,
    0x2006, 0x2007, 0x2008, 0x2009, 0x200A, 0x2028, 0x2029, 0x202F, 0x205F, 0x3000] :
      List Nat).map Char.ofNat

theorem mem_blanks (h : isBlank c) : c ∈ blanks := by
  refine List.mem_map.mpr ⟨c.toNat, ?_, Char.ofNat_toNat c⟩
  simp only [isBlank, Bool.or_eq_true, Bool.and_eq_true, decide_eq_true_eq] at h
  simp only [List.mem_cons, List.not_mem_nil, or_false]
  omega

/-- No white space is part of a word. -/
theorem isWordChar_of_isBlank (h : isBlank c) : isWordChar c = false := by
  have hblanks : blanks.all (!isWordChar ·) := by decide +kernel
  simpa using List.all_eq_true.mp hblanks c (mem_blanks h)

theorem dropWhile_isBlank_append (hbefore : ∀ c ∈ before, isBlank c)
    (hrest : ∀ c ∈ rest.head?, isBlank c = false) : (before ++ rest).dropWhile isBlank = rest := by
  rw [List.dropWhile_append_of_pos hbefore]
  cases rest with
  | nil => rfl
  | cons c cs => rw [List.dropWhile_cons_of_neg (by simp [hrest c rfl])]

theorem isBlank_head?_dropWhile (cs : List Char) :
    ∀ c ∈ (cs.dropWhile isBlank).head?, isBlank c = false := by
  intro c hc
  have h := List.head?_dropWhile_not isBlank cs
  rw [Option.mem_def.mp hc] at h
  simpa using h

/-- What stands between white space is what is trimmed, if it neither begins nor ends with any. -/
theorem trimChars_eq (hbefore : ∀ c ∈ before, isBlank c) (hafter : ∀ c ∈ after, isBlank c)
    (hhead : ∀ c ∈ core.head?, isBlank c = false)
    (hlast : ∀ c ∈ core.getLast?, isBlank c = false) :
    trimChars (before ++ core ++ after) = core := by
  by_cases hcore : core = []
  · have hall : ∀ c ∈ before ++ after, isBlank c := by
      intro c hc
      exact (List.mem_append.mp hc).elim (hbefore c) (hafter c)
    have hdrop : (before ++ after ++ []).dropWhile isBlank = [] :=
      dropWhile_isBlank_append hall (by simp)
    rw [List.append_nil] at hdrop
    rw [hcore, List.append_nil, trimChars, hdrop]
    rfl
  · have hfront : (before ++ (core ++ after)).dropWhile isBlank = core ++ after := by
      refine dropWhile_isBlank_append hbefore ?_
      rwa [List.head?_append_of_ne_nil _ hcore]
    have hback : (after.reverse ++ core.reverse).dropWhile isBlank = core.reverse := by
      refine dropWhile_isBlank_append (by simpa using hafter) ?_
      rwa [List.head?_reverse]
    rw [trimChars, List.append_assoc, hfront, List.reverse_append, hback, List.reverse_reverse]

theorem isBlank_of_mem_takeWhile (h : c ∈ cs.takeWhile isBlank) : isBlank c :=
  List.all_eq_true.mp List.all_takeWhile c h

/-- A text is what is trimmed of it between white space. -/
theorem exists_trimChars (cs : List Char) : ∃ before after, before ++ trimChars cs ++ after = cs ∧
    (∀ c ∈ before, isBlank c) ∧ (∀ c ∈ after, isBlank c) ∧
    (∀ c ∈ (trimChars cs).head?, isBlank c = false) ∧
    (∀ c ∈ (trimChars cs).getLast?, isBlank c = false) := by
  let rest := cs.dropWhile isBlank
  let after := (rest.reverse.takeWhile isBlank).reverse
  have hrest : trimChars cs ++ after = rest := by
    rw [trimChars, ← List.reverse_append, List.takeWhile_append_dropWhile, List.reverse_reverse]
  refine ⟨cs.takeWhile isBlank, after, ?_, fun c hc => isBlank_of_mem_takeWhile hc,
    fun c hc => isBlank_of_mem_takeWhile (List.mem_reverse.mp hc), ?_, ?_⟩
  · rw [List.append_assoc, hrest, List.takeWhile_append_dropWhile]
  · intro c hc
    refine isBlank_head?_dropWhile cs c ?_
    change c ∈ rest.head?
    rw [← hrest, List.head?_append, Option.mem_def.mp hc]
    rfl
  · intro c hc
    rw [trimChars, List.getLast?_reverse] at hc
    exact isBlank_head?_dropWhile _ c hc

end Invoicing.Text
