import Invoicing.Decimal.Basic

/-!
Rounding. Results of arithmetic that need more than 96 bits or more than 28
fraction digits are cut to the nearest representable amount, ties to even;
amounts of money are rounded to a number of places, ties away from zero.
-/
namespace Invoicing.Decimal

/-- The integer nearest to `m / p`. A tie goes up if something beyond `m` was cut off before
(`cut`), and to the even neighbour otherwise. -/
def nearest (m p : Nat) (cut : Bool) : Nat :=
  if p < 2 * (m % p) ∨ (2 * (m % p) = p ∧ (cut ∨ m / p % 2 = 1)) then m / p + 1 else m / p

/-- The integer nearest to `m / p`, a tie to the even neighbour. -/
def halfEven (m p : Nat) : Nat :=
  nearest m p false

@[simp] theorem halfEven_one (m : Nat) : halfEven m 1 = m := by
  simp [halfEven, nearest, Nat.mod_one]

/-- How many low digits a number has to lose to get below the capacity. -/
def excessDigits (m : Nat) : Nat :=
  if _h : m < capacity then 0 else excessDigits (m / 10) + 1
termination_by m
decreasing_by
  unfold capacity at _h
  omega

theorem excessDigits_of_lt {m : Nat} (h : m < capacity) : excessDigits m = 0 := by
  rw [excessDigits]
  simp [h]

/-- The amount nearest to `m / 10^s`. As few low digits are dropped as the range asks for. The sign
is kept even if no digit is left. -/
def fit (negative : Bool) (m s : Nat) : Option Decimal :=
  let drop := (s - 28) + excessDigits (m / tenTo (s - 28))
  if s < drop then none
  else
    let units := halfEven m (tenTo drop)
    if units < capacity then ofParts? negative units (s - drop)
    else if s - drop = 0 then none
    else ofParts? negative (halfEven units 10) (s - drop - 1)

/-- Units of an amount that is already in range are kept as they are. -/
theorem fit_of_lt {negative : Bool} {m s : Nat} (hm : m < capacity) (hs : s ≤ 28) :
    fit negative m s = some ⟨negative, m, s, hm, hs⟩ := by
  have hd : s - 28 = 0 := by omega
  simp only [fit, hd, tenTo_zero, Nat.div_one, excessDigits_of_lt hm]
  simp [hm, hs, ofParts?]

theorem half_up_le (m p : Nat) : (m + p / 2) / p ≤ m := by
  rcases Nat.eq_zero_or_pos m with rfl | hm
  · rcases Nat.eq_zero_or_pos p with rfl | hp
    · simp
    · rw [Nat.zero_add]
      exact Nat.le_of_eq (Nat.div_eq_of_lt (Nat.div_lt_self hp (by decide)))
  · rcases Nat.lt_or_ge p 2 with hp | hp
    · have : p / 2 = 0 := Nat.div_eq_of_lt hp
      rw [this, Nat.add_zero]
      exact Nat.div_le_self _ _
    · apply Nat.div_le_of_le_mul
      obtain ⟨k, rfl⟩ : ∃ k, m = k + 1 := ⟨m - 1, by omega⟩
      rw [Nat.mul_succ]
      have : k ≤ p * k := Nat.le_mul_of_pos_left _ (by omega)
      omega

/-- An amount rounded to `places` fraction digits, a half away from zero. Fraction digits are
never added; an amount that comes to nothing by rounding loses its sign. -/
def round (d : Decimal) (places : Nat) : Decimal :=
  if h : d.scale ≤ places then d
  else
    let p := tenTo (d.scale - places)
    let units := (d.mantissa + p / 2) / p
    ⟨d.negative && (d.isZero || units ≠ 0), units, places,
      Nat.lt_of_le_of_lt (half_up_le _ _) d.mantissa_lt,
      Nat.le_trans (Nat.le_of_not_le h) d.scale_le⟩

theorem round_of_scale_le {d : Decimal} {places : Nat} (h : d.scale ≤ places) :
    d.round places = d := by
  simp [round, h]

theorem scale_round_le (d : Decimal) (places : Nat) : (d.round places).scale ≤ places := by
  unfold round
  split
  · assumption
  · exact Nat.le_refl _

@[simp] theorem round_round (d : Decimal) (places : Nat) :
    (d.round places).round places = d.round places :=
  round_of_scale_le (scale_round_le d places)

end Invoicing.Decimal
