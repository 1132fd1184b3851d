import Invoicing.Proofs.Decimal.Rounding
import Mathlib.Algebra.Order.Field.Rat
import Mathlib.Data.Nat.Cast.Order.Field
import Mathlib.Data.Rat.Floor
import Mathlib.Tactic.FieldSimp
import Mathlib.Tactic.Linarith

/-!
# Rounding that passes no multiple

A number that is rounded on a fine grid stays between the same two multiples of
a coarser one, and it does so through any number of such roundings. What a bound
on the error of each step would add up to is thus known at once, and a number on
the coarse grid is not changed at all.
-/
namespace Invoicing.Decimal

variable {x y z : ℚ} {j k m n p s : Nat} {cut negative : Bool}

/-- The second number lies between the same multiples of `1 / 10^places` as the first. -/
def Faithful (places : Nat) (x y : ℚ) : Prop :=
  ∀ n : ℤ, ((n : ℚ) ≤ x * tenTo places → (n : ℚ) ≤ y * tenTo places) ∧
    (x * tenTo places ≤ n → y * tenTo places ≤ n)

/-- A number with at most so many places behind the point. -/
def HasPlaces (places : Nat) (x : ℚ) : Prop :=
  ∃ n : ℤ, x * tenTo places = n

theorem cast_tenTo_pos (n : Nat) : (0 : ℚ) < tenTo n :=
  Nat.cast_pos.mpr (tenTo_pos n)

theorem tenTo_ne_zero (n : Nat) : (tenTo n : ℚ) ≠ 0 :=
  ne_of_gt (cast_tenTo_pos n)

theorem cast_tenTo_add (m n : Nat) : (tenTo (m + n) : ℚ) = tenTo m * tenTo n := by
  rw [tenTo_add, Nat.cast_mul]

namespace HasPlaces

theorem zero (k : Nat) : HasPlaces k 0 :=
  ⟨0, by rw [zero_mul, Int.cast_zero]⟩

theorem add (hx : HasPlaces k x) (hy : HasPlaces k y) : HasPlaces k (x + y) := by
  obtain ⟨m, hm⟩ := hx
  obtain ⟨n, hn⟩ := hy
  exact ⟨m + n, by rw [add_mul, hm, hn, Int.cast_add]⟩

theorem sub (hx : HasPlaces k x) (hy : HasPlaces k y) : HasPlaces k (x - y) := by
  obtain ⟨m, hm⟩ := hx
  obtain ⟨n, hn⟩ := hy
  exact ⟨m - n, by rw [sub_mul, hm, hn, Int.cast_sub]⟩

theorem abs (hx : HasPlaces k x) : HasPlaces k |x| := by
  obtain ⟨n, hn⟩ := hx
  refine ⟨|n|, ?_⟩
  rw [Int.cast_abs, ← hn, abs_mul, abs_of_pos (cast_tenTo_pos k)]

/-- On a grid, what is less than two steps is one at most. -/
theorem abs_le_of_lt (hx : HasPlaces k x) (h : |x| < 2 / tenTo k) : |x| ≤ 1 / tenTo k := by
  have hten := cast_tenTo_pos k
  obtain ⟨n, hn⟩ := hx.abs
  rw [lt_div_iff₀ hten, hn] at h
  rw [le_div_iff₀ hten, hn]
  have hlt : n < 2 := by exact_mod_cast h
  exact_mod_cast Int.lt_add_one_iff.mp hlt

theorem mul (hx : HasPlaces j x) (hy : HasPlaces k y) : HasPlaces (j + k) (x * y) := by
  obtain ⟨m, hm⟩ := hx
  obtain ⟨n, hn⟩ := hy
  exact ⟨m * n, by rw [cast_tenTo_add, mul_mul_mul_comm, hm, hn, Int.cast_mul]⟩

theorem mono (h : HasPlaces j x) (hjk : j ≤ k) : HasPlaces k x := by
  obtain ⟨n, hn⟩ := h
  obtain ⟨t, rfl⟩ := Nat.exists_eq_add_of_le hjk
  exact ⟨n * tenTo t, by rw [cast_tenTo_add, ← mul_assoc, hn, Int.cast_mul, Int.cast_natCast]⟩

theorem div_tenTo (h : HasPlaces k x) (t : Nat) : HasPlaces (k + t) (x / tenTo t) := by
  obtain ⟨n, hn⟩ := h
  have hne := tenTo_ne_zero t
  refine ⟨n, ?_⟩
  rw [cast_tenTo_add, ← hn]
  field_simp

end HasPlaces

namespace Faithful

theorem refl (places : Nat) (x : ℚ) : Faithful places x x :=
  fun _ => ⟨id, id⟩

theorem of_eq (h : x = y) : Faithful k x y :=
  h ▸ refl k x

theorem trans (h : Faithful k x y) (h' : Faithful k y z) : Faithful k x z :=
  fun n => ⟨(h' n).1 ∘ (h n).1, (h' n).2 ∘ (h n).2⟩

/-- A multiple on a coarse grid is one on every finer grid. -/
theorem mono (h : Faithful k x y) (hjk : j ≤ k) : Faithful j x y := by
  intro n
  obtain ⟨t, rfl⟩ := Nat.exists_eq_add_of_le hjk
  have hten := cast_tenTo_pos t
  obtain ⟨hlow, hhigh⟩ := h (n * tenTo t)
  push_cast at hlow hhigh
  simp only [cast_tenTo_add, ← mul_assoc] at hlow hhigh
  constructor
  · intro hn
    exact le_of_mul_le_mul_right (hlow (mul_le_mul_of_nonneg_right hn hten.le)) hten
  · intro hn
    exact le_of_mul_le_mul_right (hhigh (mul_le_mul_of_nonneg_right hn hten.le)) hten

theorem neg (h : Faithful k x y) : Faithful k (-x) (-y) := by
  intro n
  obtain ⟨hlow, hhigh⟩ := h (-n)
  push_cast at hlow hhigh
  constructor
  · intro hn
    linarith [hhigh (by linarith)]
  · intro hn
    linarith [hlow (by linarith)]

/-- What a power of ten divides moves to a finer grid. -/
theorem div_tenTo (h : Faithful k x y) (t : Nat) :
    Faithful (k + t) (x / tenTo t) (y / tenTo t) := by
  have hscale (v : ℚ) : v / tenTo t * tenTo (k + t) = v * tenTo k := by
    have hne := tenTo_ne_zero t
    rw [cast_tenTo_add]
    field_simp
  intro n
  rw [hscale, hscale]
  exact h n

theorem of_units (h : Faithful 0 (x * tenTo s) y) : Faithful s x (y / tenTo s) := by
  have hx : x = x * tenTo s / tenTo s := by
    have hne := tenTo_ne_zero s
    field_simp
  rw [hx]
  simpa using h.div_tenTo s

/-- A number on the grid stays where it is. -/
theorem eq_of_hasPlaces (h : Faithful k x y) (hx : HasPlaces k x) : y = x := by
  obtain ⟨n, hn⟩ := hx
  obtain ⟨hlow, hhigh⟩ := h n
  have heq : y * tenTo k = x * tenTo k := by
    rw [hn]
    exact le_antisymm (hhigh hn.le) (hlow hn.ge)
  exact mul_right_cancel₀ (tenTo_ne_zero k) heq

/-- A bound on the grid stays a bound. -/
theorem ge_of_hasPlaces (h : Faithful k x y) (hz : HasPlaces k z) (hx : z ≤ x) : z ≤ y := by
  obtain ⟨n, hn⟩ := hz
  have hten := cast_tenTo_pos k
  have hscaled : (n : ℚ) ≤ x * tenTo k := hn ▸ mul_le_mul_of_nonneg_right hx hten.le
  have hlow := (h n).1 hscaled
  rw [← hn] at hlow
  exact le_of_mul_le_mul_right hlow hten

theorem le_of_hasPlaces (h : Faithful k x y) (hz : HasPlaces k z) (hx : x ≤ z) : y ≤ z := by
  obtain ⟨n, hn⟩ := hz
  have hten := cast_tenTo_pos k
  have hscaled : x * tenTo k ≤ n := hn ▸ mul_le_mul_of_nonneg_right hx hten.le
  have hhigh := (h n).2 hscaled
  rw [← hn] at hhigh
  exact le_of_mul_le_mul_right hhigh hten

theorem nonneg (h : Faithful k x y) (hx : 0 ≤ x) : 0 ≤ y :=
  h.ge_of_hasPlaces (.zero k) hx

/-- A whole bound stays a bound. -/
theorem le_natCast (h : Faithful k x y) (hx : x ≤ n) : y ≤ n := by
  have hhigh := ((h.mono (Nat.zero_le k)) n).2 (by simpa using hx)
  simpa using hhigh

/-- Faithful rounding moves a number by no more than a step of the grid. -/
theorem abs_sub_le (h : Faithful k x y) : |y - x| ≤ 1 / tenTo k := by
  have hten := cast_tenTo_pos k
  have hlow := (h ⌊x * tenTo k⌋).1 (Int.floor_le _)
  have hhigh := (h (⌊x * tenTo k⌋ + 1)).2 (by push_cast; exact (Int.lt_floor_add_one _).le)
  have hfloor := Int.floor_le (x * tenTo k)
  have hfloor' := Int.lt_floor_add_one (x * tenTo k)
  push_cast at hhigh
  have hscaled : |(y - x) * tenTo k| ≤ 1 := by
    rw [sub_mul, abs_le]
    constructor <;> linarith
  rwa [abs_mul, abs_of_pos hten, ← le_div_iff₀ hten] at hscaled

/-- Units that stand for at most a whole bound become units that do. -/
theorem units_le {p q : Nat} (hp : 0 < p) (hq : 0 < q) {u v : Nat}
    (h : Faithful k (u / p) (v / q)) (hu : u ≤ n * p) : v ≤ n * q := by
  have hp' : (0 : ℚ) < p := Nat.cast_pos.mpr hp
  have hq' : (0 : ℚ) < q := Nat.cast_pos.mpr hq
  have hle : (u / p : ℚ) ≤ n := (div_le_iff₀ hp').mpr (by exact_mod_cast hu)
  exact_mod_cast (div_le_iff₀ hq').mp (h.le_natCast hle)

end Faithful

/-- Cutting a quotient off passes no whole number. -/
theorem faithful_div (hp : 0 < p) : Faithful 0 (m / p : ℚ) (m / p : Nat) := by
  have hp' : (0 : ℚ) < p := Nat.cast_pos.mpr hp
  intro n
  rw [tenTo_zero, Nat.cast_one, mul_one, mul_one]
  constructor
  · intro hn
    rw [le_div_iff₀ hp'] at hn
    have hle : n * p ≤ (m : ℤ) := by exact_mod_cast hn
    have hdiv : n ≤ (m / p : Nat) := (Int.le_ediv_iff_mul_le (by exact_mod_cast hp)).mpr hle
    rw [← Int.cast_natCast (m / p)]
    exact Int.cast_le.mpr hdiv
  · intro hn
    exact le_trans Nat.cast_div_le hn

/-- Rounding a quotient passes no whole number either. -/
theorem faithful_nearest (hp : 0 < p) : Faithful 0 (m / p : ℚ) (nearest m p cut) := by
  have hp' : (0 : ℚ) < p := Nat.cast_pos.mpr hp
  intro n
  constructor
  · intro hn
    have hle : (m / p : Nat) ≤ nearest m p cut := div_le_nearest m p cut
    refine le_trans ((faithful_div hp n).1 hn) ?_
    simpa using hle
  · intro hn
    rw [tenTo_zero, Nat.cast_one, mul_one] at hn ⊢
    have hnonneg : (0 : ℚ) ≤ n := le_trans (div_nonneg (Nat.cast_nonneg m) hp'.le) hn
    obtain ⟨c, rfl⟩ := Int.eq_ofNat_of_zero_le (by exact_mod_cast hnonneg : 0 ≤ n)
    rw [div_le_iff₀ hp'] at hn
    have hle : m ≤ c * p := by exact_mod_cast hn
    exact_mod_cast nearest_le hp hle

/-- What is less than a unit of the grid may come to nothing. -/
theorem faithful_zero (hx : 0 ≤ x) (h : x * tenTo k < 1) : Faithful k x 0 := by
  intro n
  constructor
  · intro hn
    have hlt : n < 1 := by exact_mod_cast lt_of_le_of_lt hn h
    have hle : n ≤ 0 := by omega
    simpa using hle
  · intro hn
    rw [zero_mul]
    exact le_trans (mul_nonneg hx (cast_tenTo_pos k).le) hn

/-- Units that are rounded at some scale, where their quotient is known. -/
theorem faithful_nearest_at (hp : 0 < p) (h : x * tenTo s = m / p) :
    Faithful s x (nearest m p cut / tenTo s) :=
  .of_units (h ▸ faithful_nearest hp)

theorem faithful_div_at (hp : 0 < p) (h : x * tenTo s = m / p) :
    Faithful s x ((m / p : Nat) / tenTo s) :=
  .of_units (h ▸ faithful_div hp)

/-- Dropping the last digit. -/
theorem faithful_nearest_ten (m s : Nat) (cut : Bool) :
    Faithful s (m / tenTo (s + 1)) (nearest m 10 cut / tenTo s) := by
  refine faithful_nearest_at (by decide) ?_
  have hne := tenTo_ne_zero s
  rw [tenTo_succ]
  push_cast
  field_simp

/-- How many digits are dropped to make an amount fit. -/
def dropped (m s : Nat) : Nat :=
  s - 28 + excessDigits (m / tenTo (s - 28))

/-- None of them is needed on a grid on which a bound of the amount is within range. -/
theorem dropped_le (hk : k ≤ 28) (hn : n * tenTo k < capacity) (h : m ≤ n * tenTo s) :
    dropped m s ≤ s - k := by
  have hquot : m / tenTo (s - 28) / tenTo (s - k - (s - 28)) < capacity := by
    rw [Nat.div_div_eq_div_mul, tenTo_mul_tenTo_sub (by omega)]
    have hle : n * tenTo s ≤ tenTo (s - k) * (n * tenTo k) := by
      rw [Nat.mul_left_comm, ← tenTo_add]
      exact Nat.mul_le_mul_left n (tenTo_le_of_le (by omega))
    exact Nat.lt_of_le_of_lt (Nat.div_le_of_le_mul (Nat.le_trans h hle)) hn
  have hexcess := excessDigits_le hquot
  unfold dropped
  omega

theorem fit_eq (h : dropped m s ≤ s) : fit negative m s =
    if halfEven m (tenTo (dropped m s)) < capacity then
      ofParts? negative (halfEven m (tenTo (dropped m s))) (s - dropped m s)
    else if s - dropped m s = 0 then none
    else ofParts? negative (halfEven (halfEven m (tenTo (dropped m s))) 10) (s - dropped m s - 1) :=
  if_neg (Nat.not_lt.mpr h)

theorem div_dropped_lt (m s : Nat) : m / tenTo (dropped m s) < capacity := by
  rw [dropped, tenTo_add, ← Nat.div_div_eq_div_mul]
  exact div_excessDigits_lt _

/-- An amount below a whole bound fits, and it passes no multiple of a grid on which the bound is
within range. -/
theorem fit_faithful (negative : Bool) (hk : k ≤ 28) (hn : n * tenTo k < capacity)
    (h : m ≤ n * tenTo s) :
    ∃ d, fit negative m s = some d ∧ d.negative = negative ∧
      Faithful k (m / tenTo s) (d.mantissa / tenTo d.scale) := by
  have hdrop := dropped_le hk hn h
  have hlt := div_dropped_lt m s
  have h28 : s - 28 ≤ dropped m s := Nat.le_add_right _ _
  rw [fit_eq (by omega)]
  generalize dropped m s = drop at *
  obtain ⟨t, rfl⟩ : ∃ t, s = drop + t := ⟨s - drop, by omega⟩
  rw [Nat.add_sub_cancel_left]
  by_cases hzero : drop = 0
  · -- Nothing is dropped, as it happens where the grid is finer than the scale.
    subst hzero
    rw [tenTo_zero, Nat.div_one] at hlt
    rw [tenTo_zero, halfEven_one, if_pos hlt, ofParts?_of_lt hlt (by omega), Nat.zero_add]
    exact ⟨_, rfl, rfl, .refl k _⟩
  have hkt : k ≤ t := by omega
  have hunits : Faithful t (m / tenTo (drop + t)) (halfEven m (tenTo drop) / tenTo t) := by
    refine faithful_nearest_at (tenTo_pos drop) ?_
    have hten := tenTo_ne_zero drop
    have hten' := tenTo_ne_zero t
    rw [cast_tenTo_add]
    field_simp
  have hle : halfEven m (tenTo drop) ≤ n * tenTo t :=
    hunits.units_le (tenTo_pos _) (tenTo_pos _) h
  have hsucc : halfEven m (tenTo drop) ≤ m / tenTo drop + 1 :=
    nearest_le_succ m (tenTo drop) false
  generalize halfEven m (tenTo drop) = units at *
  by_cases hu : units < capacity
  · rw [if_pos hu, ofParts?_of_lt hu (by omega)]
    exact ⟨_, rfl, rfl, hunits.mono hkt⟩
  cases t with
  | zero =>
    obtain rfl : k = 0 := Nat.le_zero.mp hkt
    omega
  | succ t =>
    have hkt : k ≤ t := by
      by_contra hkt
      obtain rfl : k = t + 1 := by omega
      omega
    have hround : halfEven units 10 < capacity := nearest_ten_lt (by omega)
    have hten : Faithful t (units / tenTo (t + 1)) (halfEven units 10 / tenTo t) :=
      faithful_nearest_ten units t false
    rw [if_neg hu, if_neg (Nat.succ_ne_zero t), Nat.add_sub_cancel,
      ofParts?_of_lt hround (by omega)]
    exact ⟨_, rfl, rfl, ((hunits.mono (Nat.le_succ t)).trans hten).mono hkt⟩

end Invoicing.Decimal
