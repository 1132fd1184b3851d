import Invoicing.Decimal.Rounding

/-!
# Rounding keeps bounds

What lies below a whole bound is not rounded beyond it, because the bound itself
needs no rounding. How many digits have to go depends on the bound alone.
-/
namespace Invoicing.Decimal

variable {m n p s c k : Nat} {cut negative : Bool}

theorem tenTo_le_of_le (h : m ≤ n) : tenTo m ≤ tenTo n := by
  obtain ⟨k, rfl⟩ := Nat.exists_eq_add_of_le h
  rw [tenTo_add]
  exact Nat.le_mul_of_pos_right _ (tenTo_pos k)

theorem tenTo_mul_tenTo_sub (h : m ≤ n) : tenTo m * tenTo (n - m) = tenTo n := by
  rw [← tenTo_add, Nat.add_sub_cancel' h]

theorem nearest_le_succ (m p : Nat) (cut : Bool) : nearest m p cut ≤ m / p + 1 := by
  unfold nearest
  split
  · exact Nat.le_refl _
  · exact Nat.le_succ _

theorem div_le_nearest (m p : Nat) (cut : Bool) : m / p ≤ nearest m p cut := by
  unfold nearest
  split
  · exact Nat.le_succ _
  · exact Nat.le_refl _

/-- A multiple is not rounded. -/
theorem nearest_mul (hp : 0 < p) : nearest (c * p) p cut = c := by
  have hmod : c * p % p = 0 := Nat.mul_mod_left c p
  have hdiv : c * p / p = c := Nat.mul_div_cancel c hp
  rw [nearest, hmod, hdiv, if_neg (by omega)]

theorem nearest_le (hp : 0 < p) (h : m ≤ c * p) : nearest m p cut ≤ c := by
  rcases Nat.eq_or_lt_of_le h with rfl | h
  · exact Nat.le_of_eq (nearest_mul hp)
  · have hdiv : m / p < c := (Nat.div_lt_iff_lt_mul hp).mpr h
    have hsucc := nearest_le_succ m p cut
    omega

theorem halfEven_le (hp : 0 < p) (h : m ≤ c * p) : halfEven m p ≤ c :=
  nearest_le hp h

/-- Dropping a digit brings what is hardly above the capacity below it. -/
theorem nearest_ten_lt (h : m < 2 * capacity) : nearest m 10 cut < capacity := by
  have hsucc := nearest_le_succ m 10 cut
  unfold capacity at *
  omega

theorem div_excessDigits_lt (m : Nat) : m / tenTo (excessDigits m) < capacity := by
  induction m using excessDigits.induct with
  | case1 m h =>
    rw [excessDigits_of_lt h, tenTo_zero, Nat.div_one]
    exact h
  | case2 m h ih =>
    rw [excessDigits, dif_neg h, tenTo_succ, ← Nat.div_div_eq_div_mul]
    exact ih

theorem excessDigits_le (h : m / tenTo k < capacity) : excessDigits m ≤ k := by
  induction k generalizing m with
  | zero =>
    rw [tenTo_zero, Nat.div_one] at h
    exact Nat.le_of_eq (excessDigits_of_lt h)
  | succ k ih =>
    rw [tenTo_succ, ← Nat.div_div_eq_div_mul] at h
    rw [excessDigits]
    split
    · exact Nat.zero_le _
    · exact Nat.succ_le_succ (ih h)

theorem ofParts?_of_lt (hm : m < capacity) (hs : s ≤ 28) :
    ofParts? negative m s = some ⟨negative, m, s, hm, hs⟩ :=
  dif_pos ⟨hm, hs⟩

theorem half_up_le_of_le (hp : 0 < p) (h : m ≤ c * p) : (m + p / 2) / p ≤ c := by
  have hhalf : p / 2 < p := Nat.div_lt_self hp (by decide)
  refine Nat.le_of_lt_succ ((Nat.div_lt_iff_lt_mul hp).mpr ?_)
  rw [Nat.succ_mul]
  omega

end Invoicing.Decimal
