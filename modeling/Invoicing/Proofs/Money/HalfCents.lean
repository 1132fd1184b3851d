import Invoicing.Money
import Invoicing.Proofs.Decimal.HalfAway
import Invoicing.Proofs.Decimal.Range
import Invoicing.Proofs.Success

/-!
# Cents by hand

What is computed in decimals may be rounded before it is brought to cents. That
can matter only beside a half cent: a number that falls short of one by less
than a ten-billionth may be taken for it, and where the rate was halved before
and lost a digit, one that hardly reaches it may fall short. Everywhere else the
cents are those of the exact number.
-/
namespace Invoicing.Money

open Decimal (Faithful HasPlaces Within capacity halfAway)

variable {a d rate : Decimal} {above x y z cents : ℚ} {c k m n : Nat}

/-- The half cent behind so many cents. -/
def halfCent (n : Nat) : ℚ := (2 * n + 1) / 200

/-- A ten-billionth of a unit. -/
def tolerance : ℚ := 1 / 10000000000

/-- Less than the tolerance short of a half cent, or less than this much above one. -/
def Beside (above x : ℚ) : Prop :=
  ∃ n, halfCent n - tolerance < |x| ∧ |x| < halfCent n + above

/-- The cents that a number comes to by hand, and one cent more or less at most where the number
is beside a half cent. -/
structure ByHand (above x cents : ℚ) : Prop where
  exact : ¬ Beside above x → cents = halfAway 2 x
  near : |cents - halfAway 2 x| ≤ 1 / 100

theorem cast_tenTo_two : (tenTo 2 : ℚ) = 100 := by
  have h : tenTo 2 = 100 := rfl
  rw [h, Nat.cast_ofNat]

theorem beside_neg : Beside above (-x) ↔ Beside above x := by
  rw [Beside, Beside, abs_neg]

theorem ByHand.neg (h : ByHand above x cents) : ByHand above (-x) (-cents) where
  exact := by
    intro hx
    rw [h.exact (mt beside_neg.mpr hx), Decimal.halfAway_neg]
  near := by
    rw [Decimal.halfAway_neg, ← neg_sub_neg, neg_neg, neg_neg, abs_sub_comm]
    exact h.near

theorem halfAway_two (hx : 0 ≤ x) : halfAway 2 x = ⌊x * 100 + 1 / 2⌋ / 100 := by
  rw [Decimal.halfAway_of_nonneg hx, cast_tenTo_two]

/-- Numbers on the same side of every half cent come to the same cents. -/
theorem halfAway_two_congr (hx : 0 ≤ x) (hy : 0 ≤ y) (h : ∀ n, x < halfCent n ↔ y < halfCent n) :
    halfAway 2 x = halfAway 2 y := by
  rw [halfAway_two hx, halfAway_two hy]
  congr 2
  have hfloor : 0 ≤ ⌊x * 100 + 1 / 2⌋ := Int.floor_nonneg.mpr (by linarith)
  obtain ⟨n, hn⟩ := Int.eq_ofNat_of_zero_le hfloor
  rw [hn, eq_comm, Int.floor_eq_iff]
  rw [Int.floor_eq_iff] at hn
  obtain ⟨hlow, hhigh⟩ := hn
  simp only [halfCent] at h
  rw [Int.cast_natCast] at *
  constructor
  · cases n with
    | zero => norm_num; linarith
    | succ n =>
      have hge := (h n).not.mp (by push_cast at hlow; linarith)
      push_cast
      linarith
  · have hlt := (h n).mp (by linarith)
    linarith

/-- Numbers no further apart than a cent come to neighbouring cents. -/
theorem halfAway_two_near (hx : 0 ≤ x) (hy : 0 ≤ y) (h : |y - x| ≤ 1 / 100) :
    |halfAway 2 y - halfAway 2 x| ≤ 1 / 100 := by
  obtain ⟨hlow, hhigh⟩ := abs_le.mp h
  have hup : ⌊y * 100 + 1 / 2⌋ ≤ ⌊x * 100 + 1 / 2⌋ + 1 := by
    rw [← Int.floor_add_one]
    exact Int.floor_le_floor (by linarith)
  have hdown : ⌊x * 100 + 1 / 2⌋ ≤ ⌊y * 100 + 1 / 2⌋ + 1 := by
    rw [← Int.floor_add_one]
    exact Int.floor_le_floor (by linarith)
  have hup' : (⌊y * 100 + 1 / 2⌋ : ℚ) ≤ ⌊x * 100 + 1 / 2⌋ + 1 := by exact_mod_cast hup
  have hdown' : (⌊x * 100 + 1 / 2⌋ : ℚ) ≤ ⌊y * 100 + 1 / 2⌋ + 1 := by exact_mod_cast hdown
  rw [halfAway_two hx, halfAway_two hy, abs_le]
  constructor <;> linarith

/-- Two halves that were brought to cents make up the cents of the whole, or one cent more or
less. -/
theorem halfAway_two_halves (h : |2 * y - z| < 1 / 200) :
    |halfAway 2 y + halfAway 2 y - halfAway 2 z| ≤ 1 / 100 := by
  have hy := Decimal.abs_halfAway_sub_le 2 y
  have hz := Decimal.abs_halfAway_sub_le 2 z
  have hplaces : HasPlaces 2 (halfAway 2 y + halfAway 2 y - halfAway 2 z) :=
    ((Decimal.halfAway_hasPlaces 2 y).add (Decimal.halfAway_hasPlaces 2 y)).sub
      (Decimal.halfAway_hasPlaces 2 z)
  rw [cast_tenTo_two] at hy hz
  rw [← cast_tenTo_two]
  refine hplaces.abs_le_of_lt ?_
  rw [cast_tenTo_two, abs_lt]
  rw [abs_lt] at h
  rw [abs_le] at hy hz
  constructor <;> linarith

theorem tolerance_pos : 0 < tolerance := by
  norm_num [tolerance]

/-- A number that a rounding brought from one side of a half cent to the other comes to other cents,
and one that it left on its side to the same. -/
theorem byHand_of_nonneg (habove : 0 ≤ above) (hx : 0 ≤ x) (hy : 0 ≤ y)
    (hlow : ∀ n, x ≤ halfCent n - tolerance → y < halfCent n)
    (hhigh : ∀ n, halfCent n + above ≤ x → halfCent n ≤ y) (hnear : |y - x| ≤ 1 / 100) :
    ByHand above x (halfAway 2 y) where
  exact := by
    intro hclear
    refine (halfAway_two_congr hx hy fun n => ?_).symm
    have hpos := tolerance_pos
    by_cases hshort : x ≤ halfCent n - tolerance
    · exact iff_of_true (by linarith) (hlow n hshort)
    · have hbeyond : halfCent n + above ≤ x := by
        by_contra hlt
        exact hclear ⟨n, by rw [abs_of_nonneg hx]; exact ⟨not_le.mp hshort, not_le.mp hlt⟩⟩
      exact iff_of_false (by linarith) (not_lt.mpr (hhigh n hbeyond))
  near := halfAway_two_near hx hy hnear

theorem halfCent_mul_tenTo (n k : Nat) :
    halfCent n * tenTo (k + 3) = (((2 * n + 1) * 5 * tenTo k : Int) : ℚ) := by
  have h : tenTo 3 = 1000 := rfl
  rw [Decimal.cast_tenTo_add, h, halfCent]
  push_cast
  ring

/-- Faithful rounding does not bring a number beyond a half cent, nor to one that is further off
than a step of the grid. -/
theorem lt_halfCent_of_faithful (h : Faithful (k + 3) x y) {n : Nat}
    (hx : x ≤ halfCent n - 1 / tenTo (k + 3)) : y < halfCent n := by
  have hten := Decimal.cast_tenTo_pos (k + 3)
  have hscaled : x * tenTo (k + 3) ≤ (((2 * n + 1) * 5 * tenTo k - 1 : Int) : ℚ) := by
    have hmul := mul_le_mul_of_nonneg_right hx hten.le
    rw [sub_mul, halfCent_mul_tenTo, one_div_mul_cancel hten.ne'] at hmul
    push_cast at hmul ⊢
    exact hmul
  have hy := (h _).2 hscaled
  have hlt : y * tenTo (k + 3) < halfCent n * tenTo (k + 3) := by
    rw [halfCent_mul_tenTo]
    push_cast at hy ⊢
    linarith
  exact lt_of_mul_lt_mul_right hlt hten.le

theorem halfCent_le_of_faithful (h : Faithful (k + 3) x y) {n : Nat} (hx : halfCent n ≤ x) :
    halfCent n ≤ y := by
  have hten := Decimal.cast_tenTo_pos (k + 3)
  have hscaled := mul_le_mul_of_nonneg_right hx hten.le
  rw [halfCent_mul_tenTo] at hscaled
  have hy := (h _).1 hscaled
  rw [← halfCent_mul_tenTo] at hy
  exact le_of_mul_le_mul_right hy hten

theorem tolerance_eq : tolerance = 1 / tenTo 10 := by
  have h : tenTo 10 = 10000000000 := rfl
  rw [h, tolerance, Nat.cast_ofNat]

/-- No number of up to ten places is just short of a half cent. -/
theorem not_beside_of_hasPlaces (h : HasPlaces 10 x) : ¬ Beside 0 x := by
  intro ⟨n, hlow, hhigh⟩
  obtain ⟨u, hu⟩ := h.abs
  have hten := Decimal.cast_tenTo_pos 10
  have hhalf := halfCent_mul_tenTo n 7
  have hlow' := mul_lt_mul_of_pos_right hlow hten
  have hhigh' := mul_lt_mul_of_pos_right hhigh hten
  rw [sub_mul, hu, hhalf, tolerance_eq, one_div_mul_cancel hten.ne'] at hlow'
  rw [add_zero, hu, hhalf] at hhigh'
  have hbelow : ((2 * n + 1) * 5 * tenTo 7 : Int) - 1 < u := by exact_mod_cast hlow'
  have habove : u < ((2 * n + 1) * 5 * tenTo 7 : Int) := by exact_mod_cast hhigh'
  omega

/-- What stays on a grid of ten places is by hand, except just short of a half cent. -/
theorem byHand_of_faithful (h : Faithful 10 x y) : ByHand 0 x (halfAway 2 y) := by
  have key {x y : ℚ} (hx : 0 ≤ x) (h : Faithful 10 x y) : ByHand 0 x (halfAway 2 y) := by
    have hnear := h.abs_sub_le
    rw [← tolerance_eq] at hnear
    refine byHand_of_nonneg le_rfl hx (h.nonneg hx) (fun n hn => ?_) (fun n hn => ?_) ?_
    · rw [tolerance_eq] at hn
      exact lt_halfCent_of_faithful (k := 7) h hn
    · rw [add_zero] at hn
      exact halfCent_le_of_faithful (k := 7) h hn
    · exact le_trans hnear (by norm_num [tolerance])
  rcases le_total 0 x with hx | hx
  · exact key hx h
  · have hneg := (key (by linarith) h.neg).neg
    rwa [neg_neg, Decimal.halfAway_neg, neg_neg] at hneg

/-- What was off already by less than the tolerance before is by hand except beside a half cent. -/
theorem byHand_of_close (hsign : 0 ≤ x ∧ 0 ≤ z ∨ x ≤ 0 ∧ z ≤ 0) (hclose : |z - x| ≤ tolerance / 5)
    (h : Faithful 11 z y) : ByHand tolerance x (halfAway 2 y) := by
  have key {x y z : ℚ} (hx : 0 ≤ x) (hz : 0 ≤ z) (hclose : |z - x| ≤ tolerance / 5)
      (h : Faithful 11 z y) : ByHand tolerance x (halfAway 2 y) := by
    obtain ⟨hlow, hhigh⟩ := abs_le.mp hclose
    have hnear := h.abs_sub_le
    have hten : 1 / (tenTo 11 : ℚ) = tolerance / 10 := by
      rw [tolerance_eq, tenTo_succ]
      push_cast
      rw [div_div, mul_comm]
    rw [hten] at hnear
    have hpos := tolerance_pos
    refine byHand_of_nonneg hpos.le hx (h.nonneg hz) (fun n hn => ?_) (fun n hn => ?_) ?_
    · refine lt_halfCent_of_faithful (k := 8) h ?_
      rw [hten]
      linarith
    · exact halfCent_le_of_faithful (k := 8) h (by linarith)
    · have hsmall : tolerance ≤ 1 / 100 := by norm_num [tolerance]
      obtain ⟨hlow', hhigh'⟩ := abs_le.mp hnear
      rw [abs_le]
      constructor <;> linarith
  rcases hsign with ⟨hx, hz⟩ | ⟨hx, hz⟩
  · exact key hx hz hclose h
  · have hclose' : |-z - -x| ≤ tolerance / 5 := by
      rwa [neg_sub_neg, abs_sub_comm]
    have hneg := (key (by linarith) (by linarith) hclose' h.neg).neg
    rwa [neg_neg, Decimal.halfAway_neg, neg_neg] at hneg

/-- A percentage of an amount is the cents of a number that is faithful to the exact one. -/
theorem percentOf_faithful (hk : k + 2 ≤ 28) (ha : Within m m a) (hr : Within 0 n rate)
    (hm : m * n ≤ c * 100) (hc : c * tenTo (k + 2) < capacity) (h : percentOf a rate = .ok d) :
    ∃ y, d.toRat = halfAway 2 y ∧ Faithful (k + 2) (a.toRat * rate.toRat / 100) y := by
  obtain ⟨product, hproduct, h⟩ := bind_eq_ok.mp h
  obtain ⟨share, hshare, h⟩ := bind_eq_ok.mp h
  have hcap : c * 100 * tenTo k < capacity := by
    have hten : tenTo (k + 2) = 100 * tenTo k := by
      rw [Nat.add_comm, tenTo_add]
      rfl
    rwa [Nat.mul_assoc, ← hten]
  have hmul : m * n * tenTo k < capacity :=
    Nat.lt_of_le_of_lt (Nat.mul_le_mul_right _ hm) hcap
  obtain ⟨hp, hfaith⟩ :=
    of_exists_ok (Decimal.mul_faithful (by omega) ha hr hmul hmul) hproduct
  obtain ⟨-, hquot⟩ :=
    of_exists_ok (Decimal.div_whole_faithful hk (by decide) hc hc (hp.mono hm hm)) hshare
  have hscaled := hfaith.div_tenTo 2
  rw [cast_tenTo_two] at hscaled
  cases h
  exact ⟨share.toRat, Decimal.toRat_round share 2, hscaled.trans (by simpa using hquot)⟩

theorem percentOf_byHand (ha : Within m m a) (hr : Within 0 100 rate)
    (hm : m * tenTo 10 < capacity) (h : percentOf a rate = .ok d) :
    ByHand 0 (a.toRat * rate.toRat / 100) d.toRat := by
  obtain ⟨y, hy, hfaith⟩ := percentOf_faithful (k := 8) (by decide) ha hr (Nat.le_refl _) hm h
  rw [hy]
  exact byHand_of_faithful hfaith

end Invoicing.Money
