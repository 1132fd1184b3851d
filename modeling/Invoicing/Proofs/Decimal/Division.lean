import Invoicing.Decimal.Arithmetic
import Invoicing.Proofs.Decimal.Faithful

/-!
# Division is faithful

Long division goes on while the quotient and the rest together stand for the
dividend. Digits are cut only where there is no room for more of them, so a
quotient below a whole bound has a value, and it passes no multiple of the grid
that the bound leaves room for.
-/
namespace Invoicing.Decimal

variable {n d k q r s : Nat} {cut : Bool} {x : ℚ}

theorem room_spec {limit : Nat} (h : room q limit ≠ 0) :
    q * tenTo (room q limit) < capacity := by
  induction limit with
  | zero => exact absurd rfl h
  | succ limit ih =>
    rw [room] at h ⊢
    split
    · assumption
    · rename_i hlarge
      rw [if_neg hlarge] at h
      exact ih h

theorem room_eq_zero {limit : Nat} (hlimit : limit ≠ 0) (h : room q limit = 0) :
    capacity ≤ q * 10 := by
  induction limit with
  | zero => exact absurd rfl hlimit
  | succ limit ih =>
    rw [room] at h
    split at h
    · cases h
    · rename_i hlarge
      cases limit with
      | zero => exact Nat.le_of_not_lt hlarge
      | succ limit => exact ih (Nat.succ_ne_zero limit) h

/-- What one step of the division does to the quotient and the rest. -/
theorem quotient_step (p : Nat) :
    (q * tenTo p + r * tenTo p / d) * d + r * tenTo p % d = (q * d + r) * tenTo p := by
  have hdiv : r * tenTo p / d * d + r * tenTo p % d = r * tenTo p :=
    Nat.div_add_mod' (r * tenTo p) d
  rw [Nat.add_mul, Nat.add_assoc, hdiv, Nat.add_mul, Nat.mul_right_comm]

/-- A bound holds after a step as well, on the finer grid. -/
theorem quotient_step_le (p : Nat) (h : q * d + r ≤ n * tenTo s * d) :
    (q * tenTo p + r * tenTo p / d) * d + r * tenTo p % d ≤ n * tenTo (s + p) * d := by
  rw [quotient_step, tenTo_add s, ← Nat.mul_assoc, Nat.mul_right_comm]
  exact Nat.mul_le_mul_right (tenTo p) h

theorem quotient_le {c : Nat} (hd : 0 < d) (h : q * d + r ≤ c * d) : q ≤ c :=
  Nat.le_of_mul_le_mul_right (Nat.le_trans (Nat.le_add_right _ r) h) hd

/-- How many digits a division with a rest takes next. -/
def digitsAt (q s : Nat) : Nat := room q (min 9 (28 - s))

theorem digitsAt_le (q s : Nat) : digitsAt q s ≤ 9 ∧ digitsAt q s ≤ 28 - s := by
  have hroom := room_le q (min 9 (28 - s))
  unfold digitsAt
  omega

/-- There is room for digits as long as the grid is not reached. -/
theorem le_of_digitsAt_eq_zero (hk : k ≤ 28) (hn : n * tenTo k < capacity) (hq : q ≤ n * tenTo s)
    (h : digitsAt q s = 0) : k ≤ s := by
  by_contra hs
  have hlarge : capacity ≤ q * 10 := room_eq_zero (by omega) h
  have hten : n * tenTo (s + 1) ≤ n * tenTo k := Nat.mul_le_mul_left n (tenTo_le_of_le (by omega))
  have hsucc : n * tenTo (s + 1) = n * tenTo s * 10 := by
    rw [tenTo_succ, Nat.mul_comm 10, Nat.mul_assoc]
  omega

theorem mul_tenTo_digitsAt_lt (h : digitsAt q s ≠ 0) : q * tenTo (digitsAt q s) < capacity :=
  room_spec h

theorem nextDigits_eq (hr : r ≠ 0) : nextDigits q r s = digitsAt q s := by
  have hlimit : min 9 (28 - (s : Int)).toNat = min 9 (28 - s) := by omega
  rw [nextDigits, if_neg hr, hlimit, digitsAt]

/-- A quotient with all the digits there is room for is less than twice the capacity. -/
theorem extended_lt {t : Nat} (hr : r < d) (hp : digitsAt q s = t + 1) :
    q * tenTo (t + 1) + r * tenTo (t + 1) / d < 2 * capacity := by
  have hlt : q * tenTo (t + 1) < capacity := hp ▸ mul_tenTo_digitsAt_lt (by omega)
  have hten : tenTo (t + 1) ≤ tenTo 9 := tenTo_le_of_le (by have := digitsAt_le q s; omega)
  have hcap : tenTo 9 < capacity := by decide
  have hdiv : r * tenTo (t + 1) / d < tenTo (t + 1) :=
    Nat.div_lt_of_lt_mul (Nat.mul_lt_mul_of_pos_right hr (tenTo_pos _))
  omega

theorem longDivision_exact (d q s : Nat) (cut : Bool) :
    longDivision d q 0 s cut = some (q, (s : Int), cut) := by
  rw [longDivision, if_pos ⟨rfl, Int.natCast_nonneg s⟩]

/-- Without room for a digit the quotient is rounded where it stands. -/
theorem longDivision_full (hr : r ≠ 0) (hp : digitsAt q s = 0) :
    longDivision d q r s cut =
      if halfEven (q * d + r) d < capacity then some (halfEven (q * d + r) d, (s : Int), true)
      else if s = 0 then none
      else some (halfEven (halfEven (q * d + r) d) 10, (s - 1 : Nat), true) := by
  rw [longDivision, if_neg (fun h => hr h.1)]
  simp only [nextDigits_eq hr, hp]
  rw [if_neg (by omega), dif_pos trivial]
  cases s with
  | zero => rfl
  | succ t =>
    have hscale : ((t + 1 : Nat) : Int) - 1 = (t : Nat) := by omega
    rw [hscale, if_neg (c := (t : Int) < 0) (by omega), if_neg (Nat.succ_ne_zero t)]
    rfl

/-- With room for some digits they are taken, and the last one goes again if they turn out to be
too many. -/
theorem longDivision_extend {p : Nat} (hr : r ≠ 0) (hp : digitsAt q s = p) (hp0 : p ≠ 0) :
    longDivision d q r s cut =
      if q * tenTo p + r * tenTo p / d < capacity then
        longDivision d (q * tenTo p + r * tenTo p / d) (r * tenTo p % d) (s + p : Nat) true
      else
        some (nearest (q * tenTo p + r * tenTo p / d) 10 (r * tenTo p % d ≠ 0),
          (s + p - 1 : Nat), true) := by
  have hlt : q * tenTo p < capacity := hp ▸ mul_tenTo_digitsAt_lt (hp.symm ▸ hp0)
  have hscale : (s : Int) + p - 1 = (s + p - 1 : Nat) := by omega
  rw [longDivision, if_neg (fun h => hr h.1)]
  simp only [nextDigits_eq hr, hp]
  rw [if_neg (by omega), dif_neg hp0, if_neg (Nat.not_le.mpr hlt), hscale,
    if_neg (c := ((s + p - 1 : Nat) : Int) < 0) (by omega), decide_eq_true hr, Bool.or_true]
  rfl

/-! ## What the answer is worth -/

/-- The quotient so far, at its scale, and the rest are worth `x`. -/
def Worth (d q r s : Nat) (x : ℚ) : Prop :=
  x * tenTo s * d = (q * d + r : Nat)

namespace Worth

theorem units (hd : 0 < d) (h : Worth d q r s x) : x * tenTo s = (q * d + r : Nat) / d :=
  eq_div_of_mul_eq (Nat.cast_ne_zero.mpr (Nat.ne_of_gt hd)) h

theorem step (p : Nat) (h : Worth d q r s x) :
    Worth d (q * tenTo p + r * tenTo p / d) (r * tenTo p % d) (s + p) x := by
  unfold Worth at *
  rw [quotient_step, Nat.cast_mul, ← h, cast_tenTo_add]
  ring

/-- Without the rest, the value is cut off. -/
theorem faithful (hr : r < d) (h : Worth d q r s x) : Faithful s x (q / tenTo s) := by
  have hd : 0 < d := Nat.zero_lt_of_lt hr
  have hdiv : (q * d + r) / d = q := by
    rw [Nat.add_comm, Nat.add_mul_div_right _ _ hd, Nat.div_eq_of_lt hr, Nat.zero_add]
  have hfloor := faithful_div_at hd (h.units hd)
  rwa [hdiv] at hfloor

theorem eq_of_exact (hd : 0 < d) (h : Worth d q 0 s x) : x = q / tenTo s := by
  have hd' : (d : ℚ) ≠ 0 := Nat.cast_ne_zero.mpr (Nat.ne_of_gt hd)
  rw [Worth, Nat.add_zero, Nat.cast_mul] at h
  exact eq_div_of_mul_eq (tenTo_ne_zero s) (mul_right_cancel₀ hd' h)

end Worth

/-- A division has an answer within range, and the answer passes no multiple of the grid. -/
def Answers (places : Nat) (x : ℚ) (answer : Option (Nat × Int × Bool)) : Prop :=
  ∃ (q s : Nat) (cut : Bool), answer = some (q, (s : Int), cut) ∧ s ≤ 28 ∧ q < capacity ∧
    Faithful places x (q / tenTo s)

/-- Units beyond the range stand on a finer grid than the one on which the bound is within it. -/
theorem lt_of_capacity_le {u : Nat} (hn : n * tenTo k < capacity) (hu : u ≤ n * tenTo s)
    (hlarge : capacity ≤ u) : k < s := by
  by_contra hks
  have hten : n * tenTo s ≤ n * tenTo k :=
    Nat.mul_le_mul_left n (tenTo_le_of_le (Nat.le_of_not_lt hks))
  omega

/-- So their last digit may be dropped. -/
theorem Answers.dropDigit {u : Nat} (hn : n * tenTo k < capacity) (hu : u ≤ n * tenTo (s + 1))
    (hlarge : capacity ≤ u) (hlt : u < 2 * capacity) (hs : s ≤ 28)
    (h : Faithful (s + 1) x (u / tenTo (s + 1))) (cut : Bool) :
    Answers k x (some (nearest u 10 cut, (s : Int), true)) := by
  have hks : k ≤ s := Nat.le_of_lt_succ (lt_of_capacity_le hn hu hlarge)
  have hten : Faithful s x (nearest u 10 cut / tenTo s) :=
    (h.mono (Nat.le_succ s)).trans (faithful_nearest_ten u s cut)
  exact ⟨_, s, true, rfl, hs, nearest_ten_lt hlt, hten.mono hks⟩

theorem answers_exact (cut : Bool) (hd : 0 < d) (hq : q < capacity) (hs : s ≤ 28)
    (hx : Worth d q 0 s x) : Answers k x (longDivision d q 0 s cut) :=
  ⟨q, s, cut, longDivision_exact d q s cut, hs, hq, .of_eq (hx.eq_of_exact hd)⟩

theorem answers_full (cut : Bool) (hzero : r ≠ 0) (hr : r < d) (hq : q < capacity) (hs : s ≤ 28)
    (hk : k ≤ 28) (hn : n * tenTo k < capacity) (h : q * d + r ≤ n * tenTo s * d)
    (hx : Worth d q r s x) (hp : digitsAt q s = 0) : Answers k x (longDivision d q r s cut) := by
  have hd : 0 < d := Nat.zero_lt_of_lt hr
  have hle : halfEven (q * d + r) d ≤ n * tenTo s := halfEven_le hd h
  have hunits : Faithful s x (halfEven (q * d + r) d / tenTo s) :=
    faithful_nearest_at hd (hx.units hd)
  rw [longDivision_full hzero hp]
  by_cases hu : halfEven (q * d + r) d < capacity
  · have hks : k ≤ s := le_of_digitsAt_eq_zero hk hn (quotient_le hd h) hp
    rw [if_pos hu]
    exact ⟨_, s, true, rfl, hs, hu, hunits.mono hks⟩
  · have hlarge := Nat.le_of_not_lt hu
    have hsucc : halfEven (q * d + r) d ≤ q + 1 := by
      refine halfEven_le hd ?_
      rw [Nat.succ_mul]
      omega
    obtain ⟨t, rfl⟩ : ∃ t, s = t + 1 :=
      Nat.exists_eq_add_one.mpr (Nat.zero_lt_of_lt (lt_of_capacity_le hn hle hlarge))
    rw [if_neg hu, if_neg (Nat.succ_ne_zero t)]
    exact .dropDigit hn hle hlarge (by omega) (by omega) hunits false

/-- A division whose result is below a whole bound ends, and it passes no multiple of a grid on
which the bound is within range. -/
theorem longDivision_faithful {n d k q r s : Nat} {x : ℚ} (cut : Bool) (hr : r < d)
    (hq : q < capacity) (hs : s ≤ 28) (hk : k ≤ 28) (hn : n * tenTo k < capacity)
    (h : q * d + r ≤ n * tenTo s * d) (hx : Worth d q r s x) :
    Answers k x (longDivision d q r s cut) := by
  have hd : 0 < d := Nat.zero_lt_of_lt hr
  by_cases hzero : r = 0
  · subst hzero
    exact answers_exact cut hd hq hs hx
  obtain ⟨-, hlimit⟩ := digitsAt_le q s
  cases hp : digitsAt q s with
  | zero => exact answers_full cut hzero hr hq hs hk hn h hx hp
  | succ t =>
    have hrest : r * tenTo (t + 1) % d < d := Nat.mod_lt _ hd
    have hle := quotient_step_le (t + 1) h
    have hworth := hx.step (t + 1)
    have hlt := extended_lt hr hp
    rw [longDivision_extend hzero hp (Nat.succ_ne_zero t)]
    generalize q * tenTo (t + 1) + r * tenTo (t + 1) / d = q₁ at *
    generalize r * tenTo (t + 1) % d = r₁ at *
    by_cases hq₁ : q₁ < capacity
    · rw [if_pos hq₁]
      exact longDivision_faithful true hrest hq₁ (by omega) hk hn hle hworth
    · rw [if_neg hq₁]
      exact .dropDigit (s := s + t) hn (quotient_le hd hle) (Nat.le_of_not_lt hq₁) hlt (by omega)
        (hworth.faithful hrest) _
termination_by 28 - s

/-! ## Zeros at the end -/

/-- Digits and scales of one value, the second with fewer zeros at the end. -/
structure Shortens (before after : Nat × Nat) : Prop where
  scale_le : after.2 ≤ before.2
  units_eq : after.1 * tenTo (before.2 - after.2) = before.1

namespace Shortens

variable {a b c : Nat × Nat}

theorem refl (a : Nat × Nat) : Shortens a a where
  scale_le := Nat.le_refl a.2
  units_eq := by rw [Nat.sub_self, tenTo_zero, Nat.mul_one]

theorem trans (hab : Shortens a b) (hbc : Shortens b c) : Shortens a c where
  scale_le := Nat.le_trans hbc.scale_le hab.scale_le
  units_eq := by
    have hb := hab.scale_le
    have hc := hbc.scale_le
    have hsplit : a.2 - c.2 = b.2 - c.2 + (a.2 - b.2) := by omega
    rw [hsplit, tenTo_add, ← Nat.mul_assoc, hbc.units_eq, hab.units_eq]

theorem units_le (h : Shortens a b) : b.1 ≤ a.1 := by
  rw [← h.units_eq]
  exact Nat.le_mul_of_pos_right _ (tenTo_pos _)

theorem value_eq (h : Shortens a b) : (b.1 / tenTo b.2 : ℚ) = a.1 / tenTo a.2 := by
  have hten := tenTo_ne_zero b.2
  have hten' := tenTo_ne_zero (a.2 - b.2)
  rw [← h.units_eq, ← tenTo_mul_tenTo_sub h.scale_le]
  push_cast
  field_simp

end Shortens

theorem shortens_dropZeros (k : Nat) (a : Nat × Nat) : Shortens a (dropZeros k a) := by
  unfold dropZeros
  split
  · rename_i h
    refine ⟨Nat.sub_le a.2 k, ?_⟩
    have hk : a.2 - (a.2 - k) = k := by omega
    rw [hk]
    exact Nat.div_mul_cancel (Nat.dvd_of_mod_eq_zero h.2)
  · exact .refl a

theorem shortens_dropEights (q s : Nat) : Shortens (q, s) (dropEights q s) := by
  induction q, s using dropEights.induct with
  | case1 q s h ih =>
    have hdrop := shortens_dropZeros 8 (q, s)
    rw [dropZeros, if_pos h.2] at hdrop
    rw [dropEights, if_pos h]
    exact hdrop.trans ih
  | case2 q s h =>
    rw [dropEights, if_neg h]
    exact .refl (q, s)

theorem shortens_tidyQuotient (q s : Nat) : Shortens (q, s) (tidyQuotient q s) :=
  (shortens_dropEights q s).trans <| (shortens_dropZeros 4 _).trans <|
    (shortens_dropZeros 2 _).trans (shortens_dropZeros 1 _)

end Invoicing.Decimal
