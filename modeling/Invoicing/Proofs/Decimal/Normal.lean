import Invoicing.Proofs.Decimal.Division
import Invoicing.Proofs.Decimal.Text

/-!
# The shortest form of an amount

An amount without zeros at the end of its fraction, and without a sign if it is
zero, is determined by what it is worth. Nothing can be left out of the numeral
that it is written as.
-/
namespace Invoicing.Decimal

variable {a b d : Decimal} {m n s : Nat} {c : Char}

/-- The fraction does not end in a zero, and a zero is plain `0`. -/
structure Normal (d : Decimal) : Prop where
  fraction : d.scale ≠ 0 → d.mantissa % 10 ≠ 0
  zero : d.mantissa = 0 → d = .zero

theorem shortens_stripZeros (m s : Nat) : Shortens (m, s) (stripZeros m s) := by
  induction s generalizing m with
  | zero => exact .refl (m, 0)
  | succ s ih =>
    rw [stripZeros]
    split
    · rename_i hzero
      have hdrop := shortens_dropZeros 1 (m, s + 1)
      rw [dropZeros, if_pos ⟨Nat.succ_pos s, hzero⟩] at hdrop
      exact hdrop.trans (ih (m / 10))
    · exact .refl (m, s + 1)

theorem stripZeros_mod_ten (h : (stripZeros m s).2 ≠ 0) : (stripZeros m s).1 % 10 ≠ 0 := by
  induction s generalizing m with
  | zero => exact absurd rfl h
  | succ s ih =>
    rw [stripZeros] at h ⊢
    by_cases hzero : m % 10 = 0
    · rw [if_pos hzero] at h ⊢
      exact ih h
    · rw [if_neg hzero]
      exact hzero

theorem normalize_of_isZero (h : d.isZero) : d.normalize = .zero :=
  if_pos h

theorem normal_normalize (d : Decimal) : Normal d.normalize := by
  by_cases hzero : d.isZero
  · rw [normalize_of_isZero hzero]
    exact ⟨fun h => absurd rfl h, fun _ => rfl⟩
  · rw [normalize, if_neg hzero]
    refine ⟨stripZeros_mod_ten, fun (h : (stripZeros d.mantissa d.scale).1 = 0) => absurd ?_ hzero⟩
    have hunits := (shortens_stripZeros d.mantissa d.scale).units_eq
    rw [h, Nat.zero_mul] at hunits
    exact (isZero_iff d).mpr hunits.symm

theorem scale_normalize_le (d : Decimal) : d.normalize.scale ≤ d.scale := by
  by_cases hzero : d.isZero
  · rw [normalize_of_isZero hzero]
    exact Nat.zero_le _
  · rw [normalize, if_neg hzero]
    exact stripZeros_snd_le _ _

@[simp] theorem toRat_normalize (d : Decimal) : d.normalize.toRat = d.toRat := by
  by_cases hzero : d.isZero
  · rw [normalize_of_isZero hzero, toRat_zero, toRat_of_isZero hzero]
  · rw [toRat_eq_signed, toRat_eq_signed d, normalize, if_neg hzero]
    exact congrArg (signed d.negative) (shortens_stripZeros d.mantissa d.scale).value_eq

theorem toRat_eq_toRat_iff :
    a.toRat = b.toRat ↔ a.coefficient * tenTo b.scale = b.coefficient * tenTo a.scale := by
  rw [toRat_eq, toRat_eq, div_eq_div_iff (tenTo_ne_zero _) (tenTo_ne_zero _)]
  exact_mod_cast Iff.rfl

theorem natAbs_coefficient_mul (d : Decimal) (s : Nat) :
    (d.coefficient * tenTo s).natAbs = d.mantissa * tenTo s := by
  rw [Int.natAbs_mul, natAbs_coefficient, Int.natAbs_natCast]

namespace Normal

/-- Of two amounts of one value that one has fewer places that is in shortest form. -/
theorem scale_le (hb : Normal b) (h : a.mantissa * tenTo b.scale = b.mantissa * tenTo a.scale) :
    b.scale ≤ a.scale := by
  by_contra hlt
  obtain ⟨t, ht⟩ : ∃ t, b.scale = a.scale + (t + 1) := ⟨b.scale - a.scale - 1, by omega⟩
  rw [ht, tenTo_add, Nat.mul_left_comm, Nat.mul_comm b.mantissa] at h
  have hunits := Nat.eq_of_mul_eq_mul_left (tenTo_pos a.scale) h
  refine hb.fraction (by omega) ?_
  rw [← hunits, tenTo_succ, Nat.mul_left_comm]
  exact Nat.mul_mod_right 10 _

theorem eq_of_coefficient (ha : Normal a) (hb : Normal b) (hs : a.scale = b.scale)
    (h : a.coefficient = b.coefficient) : a = b := by
  have hm : a.mantissa = b.mantissa := by
    rw [← natAbs_coefficient, ← natAbs_coefficient, h]
  by_cases hzero : a.mantissa = 0
  · rw [ha.zero hzero, hb.zero (hm ▸ hzero)]
  · have hsign : a.negative = b.negative := by
      unfold coefficient at h
      cases hna : a.negative <;> cases hnb : b.negative <;> simp [hna, hnb] at h ⊢ <;> omega
    cases a
    cases b
    simp_all

/-- Amounts in shortest form are equal if they are worth the same. -/
theorem eq_of_toRat (ha : Normal a) (hb : Normal b) (h : a.toRat = b.toRat) : a = b := by
  rw [toRat_eq_toRat_iff] at h
  have hm : a.mantissa * tenTo b.scale = b.mantissa * tenTo a.scale := by
    rw [← natAbs_coefficient_mul, ← natAbs_coefficient_mul, h]
  have hs : a.scale = b.scale := Nat.le_antisymm (ha.scale_le hm.symm) (hb.scale_le hm)
  rw [hs] at h
  have hten : (tenTo b.scale : Int) ≠ 0 := by exact_mod_cast (tenTo_pos b.scale).ne'
  exact ha.eq_of_coefficient hb hs (Int.eq_of_mul_eq_mul_right hten h)

theorem normalize_eq (h : Normal d) : d.normalize = d :=
  (normal_normalize d).eq_of_toRat h (toRat_normalize d)

end Normal

theorem normalize_eq_iff : a.normalize = b.normalize ↔ a.toRat = b.toRat := by
  constructor
  · intro h
    rw [← toRat_normalize a, h, toRat_normalize]
  · intro h
    refine (normal_normalize a).eq_of_toRat (normal_normalize b) ?_
    rw [toRat_normalize, toRat_normalize, h]

/-- A numeral by its sign, the digits of its whole part and those of its fraction. -/
def numeral (negative : Bool) (whole fraction : List Char) : List Char :=
  (if negative then ['-'] else []) ++ whole ++ (if fraction = [] then [] else '.' :: fraction)

/-- Nothing can be left out of a numeral: no zero in front of its whole part, unless that is all
there is of it, none at the end of its fraction, and no sign in front of a zero. -/
structure Shortest (negative : Bool) (whole fraction : List Char) : Prop where
  digits : ∀ c ∈ whole ++ fraction, c.isDigit
  whole_ne : whole ≠ []
  front : whole.head? = some '0' → whole = ['0']
  back : fraction.getLast? ≠ some '0'
  sign : negative → ¬ (whole = ['0'] ∧ fraction = [])

/-- A number is written without a zero in front. -/
theorem head?_toDigits (h : (Nat.toDigits 10 n).head? = some '0') : n = 0 := by
  induction n using Nat.strong_induction_on with
  | h n ih =>
    by_cases hlt : n < 10
    · rw [Nat.toDigits_of_lt_base hlt, List.head?_cons, Option.some.injEq] at h
      exact Nat.digitChar_eq_zero.mp h
    · rw [Nat.toDigits_of_base_le (by decide) (Nat.le_of_not_lt hlt),
        List.head?_append_of_ne_nil _ Nat.toDigits_ne_nil] at h
      have hquot := ih (n / 10) (by omega) h
      omega

theorem getLast?_lastDigits (h : n ≠ 0) :
    (lastDigits n m).getLast? = some (Nat.digitChar (m % 10)) := by
  cases n with
  | zero => exact absurd rfl h
  | succ n => rw [lastDigits, List.getLast?_concat]

theorem lastDigits_eq_nil_iff : lastDigits n m = [] ↔ n = 0 := by
  rw [← List.length_eq_zero_iff, length_lastDigits]

theorem digits_eq_numeral (d : Decimal) :
    d.digits = numeral d.negative (Nat.toDigits 10 (d.mantissa / tenTo d.scale))
      (lastDigits d.scale d.mantissa) := by
  simp only [digits, numeral, lastDigits_eq_nil_iff]

/-- An amount in shortest form is written in the shortest way. -/
theorem Normal.shortest (h : Normal d) :
    Shortest d.negative (Nat.toDigits 10 (d.mantissa / tenTo d.scale))
      (lastDigits d.scale d.mantissa) where
  digits := by
    intro c hc
    rcases List.mem_append.mp hc with hc | hc
    · exact isDigit_of_mem_toDigits hc
    · exact isDigit_of_mem_lastDigits hc
  whole_ne := Nat.toDigits_ne_nil
  front := by
    intro hhead
    rw [head?_toDigits hhead, Nat.toDigits_zero]
  back := by
    by_cases hs : d.scale = 0
    · rw [hs]
      exact Option.some_ne_none _ ∘ Eq.symm
    · rw [getLast?_lastDigits hs, ne_eq, Option.some.injEq, Nat.digitChar_eq_zero]
      exact h.fraction hs
  sign := by
    rintro hsign ⟨hwhole, hfraction⟩
    rw [lastDigits_eq_nil_iff] at hfraction
    have hzero := head?_toDigits (n := d.mantissa / tenTo d.scale) (by rw [hwhole]; rfl)
    rw [hfraction, tenTo_zero, Nat.div_one] at hzero
    rw [h.zero hzero] at hsign
    cases hsign

end Invoicing.Decimal
