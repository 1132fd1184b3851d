import Invoicing.Decimal.Numeral
import Invoicing.Proofs.Decimal.Value
import Mathlib.Data.List.TakeWhile

/-!
# Amounts and their texts

An amount is read back from its text with all of its digits. Only the sign of a
zero is not kept, which is worth nothing.
-/
namespace Invoicing.Decimal

variable {c : Char} {d : Decimal} {m n s : Nat}

/-- An amount as its text is read: a zero is positive. -/
def reread (d : Decimal) : Decimal :=
  { d with negative := d.negative && decide (d.mantissa ≠ 0) }

@[simp] theorem mantissa_reread (d : Decimal) : d.reread.mantissa = d.mantissa := rfl
@[simp] theorem scale_reread (d : Decimal) : d.reread.scale = d.scale := rfl

@[simp] theorem coefficient_reread (d : Decimal) : d.reread.coefficient = d.coefficient := by
  unfold coefficient reread
  by_cases hzero : d.mantissa = 0
  · simp [hzero]
  · simp [hzero]

@[simp] theorem toRat_reread (d : Decimal) : d.reread.toRat = d.toRat := by
  rw [toRat_eq, toRat_eq, coefficient_reread, scale_reread]

theorem digitValue_digitChar (h : n < 10) : digitValue (Nat.digitChar n) = n :=
  Nat.toNat_digitChar_sub_48_of_lt_ten h

theorem isDigit_of_mem_lastDigits (h : c ∈ lastDigits n m) : c.isDigit := by
  induction n generalizing m with
  | zero => cases h
  | succ n ih =>
    rcases List.mem_append.mp h with h | h
    · exact ih h
    · rw [List.mem_singleton.mp h, Nat.isDigit_digitChar]
      exact decide_eq_true (Nat.mod_lt m (by decide))

/-- The fraction digits of an amount are all taken over, the first of them first. -/
theorem appendFraction_lastDigits (hs : s + n ≤ 28) (hm : m < capacity) (rest : List Char) :
    appendFraction (m / tenTo n) s (lastDigits n m ++ rest) = appendFraction m (s + n) rest := by
  induction n generalizing m rest with
  | zero => rw [tenTo_zero, Nat.div_one]; rfl
  | succ n ih =>
    have hquot : m / 10 < capacity := Nat.lt_of_le_of_lt (Nat.div_le_self m 10) hm
    have hdigit : digitValue (Nat.digitChar (m % 10)) = m % 10 :=
      digitValue_digitChar (Nat.mod_lt m (by decide))
    have hvalue : 10 * (m / 10) + m % 10 = m := Nat.div_add_mod m 10
    rw [tenTo_succ, ← Nat.div_div_eq_div_mul, lastDigits, List.append_assoc,
      ih (by omega) hquot, List.singleton_append, appendFraction, hdigit, hvalue,
      if_pos ⟨by omega, hm⟩, Nat.add_assoc]

theorem isDigit_of_mem_toDigits (h : c ∈ Nat.toDigits 10 n) : c.isDigit :=
  Nat.isDigit_of_mem_toDigits (by decide) (by decide) h

/-- Digits up to a point, if there is one, and those behind it. -/
theorem splitNumeral_append {whole fraction tail : List Char} (hne : whole ≠ [])
    (hwhole : ∀ c ∈ whole, c.isDigit) (hfraction : ∀ c ∈ fraction, c.isDigit)
    (htake : tail.takeWhile (· ≠ '.') = []) (hdrop : (tail.dropWhile (· ≠ '.')).drop 1 = fraction) :
    splitNumeral (whole ++ tail) = some (whole, fraction) := by
  have hpoint : ∀ c ∈ whole, decide (c ≠ '.') = true := by
    intro c hc
    refine decide_eq_true ?_
    rintro rfl
    exact absurd (hwhole _ hc) (by decide)
  have hall : ∀ c ∈ whole ++ fraction, (c.isDigit || decide (c = '_')) = true := by
    intro c hc
    rcases List.mem_append.mp hc with hc | hc
    · rw [hwhole c hc, Bool.true_or]
    · rw [hfraction c hc, Bool.true_or]
  have hhead : (whole ++ fraction).head?.any Char.isDigit := by
    cases whole with
    | nil => exact absurd rfl hne
    | cons c cs => exact hwhole c List.mem_cons_self
  simp only [splitNumeral, List.takeWhile_append_of_pos hpoint,
    List.dropWhile_append_of_pos hpoint, htake, hdrop, List.append_nil]
  rw [if_pos ⟨List.all_eq_true.mpr hall, hhead⟩, List.filter_eq_self.mpr hwhole,
    List.filter_eq_self.mpr hfraction]

/-- The digits of an amount, which its sign comes before. -/
def unsignedDigits (d : Decimal) : List Char :=
  Nat.toDigits 10 (d.mantissa / tenTo d.scale) ++
    if d.scale = 0 then [] else '.' :: lastDigits d.scale d.mantissa

theorem digits_eq (d : Decimal) :
    d.digits = (if d.negative then ['-'] else []) ++ d.unsignedDigits := by
  rw [digits, unsignedDigits, List.append_assoc]

theorem splitNumeral_unsignedDigits (d : Decimal) : splitNumeral d.unsignedDigits =
    some (Nat.toDigits 10 (d.mantissa / tenTo d.scale), lastDigits d.scale d.mantissa) := by
  refine splitNumeral_append Nat.toDigits_ne_nil (fun _ => isDigit_of_mem_toDigits)
    (fun _ => isDigit_of_mem_lastDigits) ?_ ?_
  · split <;> simp
  · split
    · rename_i hzero
      rw [hzero]
      rfl
    · simp

theorem ofUnsigned?_unsignedDigits (d : Decimal) (negative : Bool) :
    ofUnsigned? negative d.unsignedDigits =
      ofParts? (negative && decide (d.mantissa ≠ 0)) d.mantissa d.scale := by
  have hquot : d.mantissa / tenTo d.scale < capacity :=
    Nat.lt_of_le_of_lt (Nat.div_le_self _ _) d.mantissa_lt
  have hscale : 0 + d.scale ≤ 28 := by
    rw [Nat.zero_add]
    exact d.scale_le
  have hdigits := appendFraction_lastDigits hscale d.mantissa_lt []
  rw [List.append_nil, Nat.zero_add, appendFraction] at hdigits
  simp only [ofUnsigned?, splitNumeral_unsignedDigits, Option.bind_eq_bind, Option.bind_some,
    Nat.ofDigitChars_ten_toDigits, hquot, guard_true, hdigits]
  rfl

/-- Neither a digit nor a point starts an exponent. -/
theorem not_isExponentMark_of_mem_digits (h : c ∈ d.digits) : isExponentMark c = false := by
  have hdigit : c.isDigit → isExponentMark c = false := by
    intro hc
    unfold isExponentMark
    rw [Bool.or_eq_false_iff, decide_eq_false_iff_not, decide_eq_false_iff_not]
    constructor
    · rintro rfl
      exact absurd hc (by decide)
    · rintro rfl
      exact absurd hc (by decide)
  rw [digits, List.mem_append, List.mem_append] at h
  rcases h with (h | h) | h
  · split at h
    · rw [List.mem_singleton.mp h]
      rfl
    · cases h
  · exact hdigit (isDigit_of_mem_toDigits h)
  · split at h
    · cases h
    · rcases List.mem_cons.mp h with rfl | h
      · rfl
      · exact hdigit (isDigit_of_mem_lastDigits h)

theorem ofPlain?_digits (d : Decimal) : ofPlain? d.digits = some d.reread := by
  have hparts (negative : Bool) (h : d.negative = negative) :
      ofParts? (negative && decide (d.mantissa ≠ 0)) d.mantissa d.scale = some d.reread := by
    rw [← h]
    exact ofParts?_parts d.reread
  rw [digits_eq]
  cases hsign : d.negative with
  | true =>
    rw [if_pos rfl, List.singleton_append, ofPlain?, ofUnsigned?_unsignedDigits, hparts true hsign]
  | false =>
    rw [if_neg Bool.false_ne_true, List.nil_append, ← hparts false hsign,
      ← ofUnsigned?_unsignedDigits]
    -- A numeral without sign starts with a digit.
    cases hdigits : Nat.toDigits 10 (d.mantissa / tenTo d.scale) with
    | nil => exact absurd hdigits Nat.toDigits_ne_nil
    | cons c cs =>
      have hc : c.isDigit := isDigit_of_mem_toDigits (hdigits ▸ List.mem_cons_self)
      rw [unsignedDigits, hdigits, List.cons_append]
      unfold ofPlain?
      split
      · rename_i h
        cases h
        exact absurd hc (by decide)
      · rename_i h
        cases h
        exact absurd hc (by decide)
      · rfl

theorem abs_of_not_negative (h : d.negative = false) : d.abs = d := by
  rw [abs, ← h]

theorem neg_abs_of_negative (h : d.negative = true) : -d.abs = d := by
  change ({ d with negative := true } : Decimal) = d
  rw [← h]

theorem unsignedDigits_ne_nil (d : Decimal) : d.unsignedDigits ≠ [] :=
  List.append_ne_nil_of_left_ne_nil Nat.toDigits_ne_nil _

/-- The digits of an amount are read as the amount without its sign. -/
theorem ofPlain?_unsignedDigits (d : Decimal) : ofPlain? d.unsignedDigits = some d.abs :=
  ofPlain?_digits d.abs

/-- An amount is read back from its text. -/
theorem ofText?_toText (d : Decimal) : ofText? d.toText = some d.reread := by
  have hmark : ∀ c ∈ d.digits, (!isExponentMark c) = true := by
    intro c hc
    rw [not_isExponentMark_of_mem_digits hc, Bool.not_false]
  rw [ofText?, toText, String.toList_ofList, ofNumeral?, List.takeWhile_eq_self_iff.mpr hmark,
    List.dropWhile_eq_nil_iff.mpr hmark, ofPlain?_digits]
  rfl

end Invoicing.Decimal
