import Invoicing.Proofs.Decimal.Division
import Invoicing.Proofs.Decimal.Value

/-!
# Amounts between two bounds

How far a result lies from zero on either side follows from how far its operands
do. As long as the bounds themselves are within range, the operation succeeds,
whatever the scales of its operands are and however its result is rounded. And
it passes no multiple of a grid on which the bounds are within range.
-/
namespace Invoicing.Decimal

variable {a b d : Decimal} {below above below' above' k m n s : Nat} {negative : Bool}

/-- The bound on the side of zero that a sign tells. -/
def side (negative : Bool) (below above : Nat) : Nat :=
  if negative then below else above

/-- No further from zero than the first bound if negative, and than the second if positive. -/
def Within (below above : Nat) (d : Decimal) : Prop :=
  d.mantissa ≤ side d.negative below above * tenTo d.scale

instance : Decidable (Within below above d) :=
  inferInstanceAs (Decidable (_ ≤ _))

theorem side_lt {negative : Bool} (hb : below < n) (ha : above < n) :
    side negative below above < n := by
  cases negative
  · exact ha
  · exact hb

theorem side_le_side {negative : Bool} (hb : below ≤ below') (ha : above ≤ above') :
    side negative below above ≤ side negative below' above' := by
  cases negative
  · exact ha
  · exact hb

theorem side_mul (negative : Bool) :
    side negative (below * n) (above * n) = side negative below above * n := by
  cases negative <;> rfl

/-- Nothing is on both sides of zero. -/
theorem within_of_le {negative : Bool} (h : d.mantissa ≤ side negative below above * tenTo d.scale)
    (hsign : d.negative = negative ∨ d.mantissa = 0) : Within below above d := by
  rcases hsign with rfl | hzero
  · exact h
  · rw [Within, hzero]
    exact Nat.zero_le _

theorem StandsFor.within {p : Nat} (h : StandsFor k negative (m / p) d) (hp : 0 < p)
    (hm : m ≤ side negative below above * p) : Within below above d :=
  within_of_le (h.units.units_le hp (tenTo_pos _) hm) h.sign

namespace Within

theorem mono (h : Within below above d) (hb : below ≤ below') (ha : above ≤ above') :
    Within below' above' d :=
  Nat.le_trans h (Nat.mul_le_mul_right _ (side_le_side hb ha))

theorem of_isZero (h : d.isZero) : Within below above d := by
  rw [Within, (isZero_iff d).mp h]
  exact Nat.zero_le _

theorem zero : Within below above zero :=
  of_isZero rfl

theorem neg (h : Within below above d) : Within above below (-d) := by
  have hside : side (!d.negative) above below = side d.negative below above := by
    cases d.negative <;> rfl
  rw [Within, negative_neg, mantissa_neg, scale_neg, hside]
  exact h

/-- How far an amount is from zero on either side is a matter of its size. -/
theorem abs_iff : Within 0 n d.abs ↔ Within n n d := by
  have hside : side d.negative n n = n := by
    cases d.negative <;> rfl
  rw [Within, Within, hside]
  exact Iff.rfl

theorem abs (h : Within n n d) : Within 0 n d.abs :=
  abs_iff.mpr h

/-- A bound below zero by nothing leaves no negative amount but zero. -/
theorem negative_eq_false (h : Within 0 above d) (hd : d.mantissa ≠ 0) : d.negative = false := by
  cases hneg : d.negative with
  | false => rfl
  | true =>
    rw [Within, hneg, side, if_pos rfl, Nat.zero_mul] at h
    omega

end Within

theorem within_iff : Within below above d ↔
    -((below * tenTo d.scale : Nat) : Int) ≤ d.coefficient ∧
      d.coefficient ≤ (above * tenTo d.scale : Nat) := by
  rw [Within, ← side_mul]
  generalize below * tenTo d.scale = low
  generalize above * tenTo d.scale = high
  unfold side coefficient
  cases d.negative
  · simp only [Bool.false_eq_true, if_false]
    omega
  · simp only [if_true]
    omega

theorem Within.abs_toRat_le (h : Within n n d) : |d.toRat| ≤ n := by
  have hten := cast_tenTo_pos d.scale
  obtain ⟨hlow, hhigh⟩ := within_iff.mp h
  have hlow' : -((n * tenTo d.scale : Nat) : ℚ) ≤ d.coefficient := by exact_mod_cast hlow
  have hhigh' : (d.coefficient : ℚ) ≤ (n * tenTo d.scale : Nat) := by exact_mod_cast hhigh
  push_cast at hlow' hhigh'
  rw [toRat_eq, abs_div, abs_of_pos hten, div_le_iff₀ hten, abs_le]
  exact ⟨hlow', hhigh'⟩

theorem Within.toRat_nonneg (h : Within 0 above d) : 0 ≤ d.toRat := by
  have hlow := (within_iff.mp h).1
  rw [Nat.zero_mul] at hlow
  rw [toRat_eq]
  exact div_nonneg (by exact_mod_cast hlow) (cast_tenTo_pos d.scale).le

theorem within_zero_iff {h : n < capacity} : Within 0 n d ↔ Decimal.zero ≤ d ∧ d ≤ whole n h := by
  have hlow : Decimal.zero ≤ d ↔ 0 ≤ d.coefficient := by
    rw [le_def]
    simp [Decimal.zero, whole, coefficient]
  have hhigh : d ≤ whole n h ↔ d.coefficient ≤ (n * tenTo d.scale : Nat) := by
    rw [le_def]
    simp [whole, coefficient]
  rw [within_iff, hlow, hhigh, Nat.zero_mul]
  rfl

/-- Units between two bounds fit between them. -/
theorem fitUnits_faithful {u : Int} (hk : k ≤ 28) (hb : below * tenTo k < capacity)
    (ha : above * tenTo k < capacity) (hlow : -((below * tenTo s : Nat) : Int) ≤ u)
    (hhigh : u ≤ (above * tenTo s : Nat)) :
    ∃ d, fitUnits u s = some d ∧ Within below above d ∧ Faithful k (u / tenTo s) d.toRat := by
  have hle : u.natAbs ≤ side (u < 0) below above * tenTo s := by
    rw [← side_mul]
    generalize below * tenTo s = low at *
    generalize above * tenTo s = high at *
    unfold side
    by_cases hneg : u < 0
    · simp only [hneg, decide_true, if_true]
      omega
    · simp only [hneg, decide_false, Bool.false_eq_true, if_false]
      omega
  have hlt : side (u < 0) below above * tenTo k < capacity := by
    rw [← side_mul]
    exact side_lt hb ha
  obtain ⟨d, hfit, hsign, hunits⟩ := fit_faithful (u < 0) hk hlt hle
  have hstands : StandsFor k (u < 0) (u.natAbs / tenTo s) d := ⟨.inl hsign, hunits⟩
  exact ⟨d, hfit, hstands.within (tenTo_pos s) hle, units_eq_signed u s ▸ hstands.toRat⟩

theorem Within.unitsAt (h : Within below above d) (hs : d.scale ≤ s) :
    -((below * tenTo s : Nat) : Int) ≤ d.unitsAt s ∧ d.unitsAt s ≤ (above * tenTo s : Nat) := by
  obtain ⟨hlow, hhigh⟩ := within_iff.mp h
  have hten (k : Nat) :
      ((k * tenTo s : Nat) : Int) = (k * tenTo d.scale : Nat) * (tenTo (s - d.scale) : Nat) := by
    rw [← Int.natCast_mul, Nat.mul_assoc, tenTo_mul_tenTo_sub hs]
  rw [hten, hten, ← Int.neg_mul]
  have hnonneg : (0 : Int) ≤ (tenTo (s - d.scale) : Nat) := Int.natCast_nonneg _
  exact ⟨Int.mul_le_mul_of_nonneg_right hlow hnonneg,
    Int.mul_le_mul_of_nonneg_right hhigh hnonneg⟩

/-- The sum of two amounts at the larger of their scales. -/
theorem fitUnits_add_faithful (hk : k ≤ 28) (ha : Within below above a)
    (hb : Within below' above' b) (hlow : (below + below') * tenTo k < capacity)
    (hhigh : (above + above') * tenTo k < capacity) :
    ∃ d, fitUnits (a.unitsAt (max a.scale b.scale) + b.unitsAt (max a.scale b.scale))
        (max a.scale b.scale) = some d ∧ Within (below + below') (above + above') d ∧
      Faithful k (a.toRat + b.toRat) d.toRat := by
  have hscale := Nat.le_max_left a.scale b.scale
  have hscale' := Nat.le_max_right a.scale b.scale
  obtain ⟨halow, hahigh⟩ := ha.unitsAt hscale
  obtain ⟨hblow, hbhigh⟩ := hb.unitsAt hscale'
  rw [← unitsAt_add_unitsAt hscale hscale']
  refine fitUnits_faithful hk hlow hhigh ?_ ?_
  · rw [Nat.add_mul]
    omega
  · rw [Nat.add_mul]
    omega

/-- A sum is one of the amounts where the other one is zero, and else what the units of both
fit. -/
theorem exists_add {P : Decimal → Prop} (hza : a.isZero → P b) (hzb : b.isZero → P a)
    (hfit : ∃ d, fitUnits (a.unitsAt (max a.scale b.scale) + b.unitsAt (max a.scale b.scale))
      (max a.scale b.scale) = some d ∧ P d) : ∃ d, a.add b = .ok d ∧ P d := by
  unfold add
  by_cases ha : a.isZero
  · rw [if_pos ha]
    exact ⟨b, rfl, hza ha⟩
  by_cases hb : b.isZero
  · rw [if_neg ha, if_pos hb]
    exact ⟨a, rfl, hzb hb⟩
  obtain ⟨d, hd, hresult⟩ := hfit
  rw [if_neg ha, if_neg hb]
  simp only [hd, Overflow.guard_some]
  exact ⟨d, rfl, hresult⟩

/-- A difference, likewise. -/
theorem exists_sub {P : Decimal → Prop} (hza : a.isZero → P (if b.isZero then b else -b))
    (hzb : b.isZero → P a)
    (hfit : ∃ d, fitUnits (a.unitsAt (max a.scale b.scale) - b.unitsAt (max a.scale b.scale))
      (max a.scale b.scale) = some d ∧ P d) : ∃ d, a.sub b = .ok d ∧ P d := by
  unfold sub
  by_cases ha : a.isZero
  · rw [if_pos ha]
    exact ⟨_, rfl, hza ha⟩
  by_cases hb : b.isZero
  · rw [if_neg ha, if_pos hb]
    exact ⟨a, rfl, hzb hb⟩
  obtain ⟨d, hd, hresult⟩ := hfit
  rw [if_neg ha, if_neg hb]
  simp only [hd, Overflow.guard_some]
  exact ⟨d, rfl, hresult⟩

theorem add_faithful (hk : k ≤ 28) (ha : Within below above a) (hb : Within below' above' b)
    (hlow : (below + below') * tenTo k < capacity) (hhigh : (above + above') * tenTo k < capacity) :
    ∃ d, a.add b = .ok d ∧ Within (below + below') (above + above') d ∧
      Faithful k (a.toRat + b.toRat) d.toRat := by
  refine exists_add ?_ ?_ (fitUnits_add_faithful hk ha hb hlow hhigh)
  · intro hza
    rw [toRat_of_isZero hza, zero_add]
    exact ⟨hb.mono (by omega) (by omega), .refl k _⟩
  · intro hzb
    rw [toRat_of_isZero hzb, add_zero]
    exact ⟨ha.mono (by omega) (by omega), .refl k _⟩

theorem add_within (ha : Within below above a) (hb : Within below' above' b)
    (hlow : below + below' < capacity) (hhigh : above + above' < capacity) :
    ∃ d, a.add b = .ok d ∧ Within (below + below') (above + above') d := by
  obtain ⟨d, hd, hwithin, -⟩ :=
    add_faithful (Nat.zero_le 28) ha hb (by simpa using hlow) (by simpa using hhigh)
  exact ⟨d, hd, hwithin⟩

theorem unitsAt_neg (d : Decimal) (s : Nat) : (-d).unitsAt s = -d.unitsAt s := by
  rw [unitsAt, coefficient_neg, scale_neg, Int.neg_mul, unitsAt]

theorem sub_within (ha : Within below above a) (hb : Within below' above' b)
    (hlow : below + above' < capacity) (hhigh : above + below' < capacity) :
    ∃ d, a.sub b = .ok d ∧ Within (below + above') (above + below') d := by
  apply exists_sub
  · intro hza
    by_cases hzb : b.isZero
    · rw [if_pos hzb]
      exact .of_isZero hzb
    · rw [if_neg hzb]
      exact hb.neg.mono (by omega) (by omega)
  · intro hzb
    exact ha.mono (by omega) (by omega)
  · obtain ⟨d, hd, hwithin, -⟩ := fitUnits_add_faithful (Nat.zero_le 28) ha hb.neg
      (by simpa using hlow) (by simpa using hhigh)
    rw [unitsAt_neg, scale_neg, ← Int.sub_eq_add_neg] at hd
    exact ⟨d, hd, hwithin⟩

theorem addAll_within {ds : List Decimal} (ha : Within below above a)
    (hds : ∀ d ∈ ds, Within below' above' d)
    (hlow : below + ds.length * below' < capacity)
    (hhigh : above + ds.length * above' < capacity) :
    ∃ d, a.addAll ds = .ok d ∧
      Within (below + ds.length * below') (above + ds.length * above') d := by
  induction ds generalizing a below above with
  | nil =>
    refine ⟨a, rfl, ?_⟩
    rw [List.length_nil, Nat.zero_mul, Nat.zero_mul]
    exact ha
  | cons b ds ih =>
    simp only [List.length_cons, Nat.succ_mul] at hlow hhigh ⊢
    have hb := hds b List.mem_cons_self
    obtain ⟨c, hc, hcwithin⟩ := add_within ha hb (by omega) (by omega)
    have hrest : ∀ d ∈ ds, Within below' above' d := by
      intro d hd
      exact hds d (List.mem_cons_of_mem b hd)
    obtain ⟨d, hd, hwithin⟩ := ih hcwithin hrest (by omega) (by omega)
    refine ⟨d, ?_, hwithin.mono (by omega) (by omega)⟩
    rw [addAll_cons, hc]
    exact hd

/-- A result that loses its sign is nothing. -/
theorem sign_or_zero (negative : Bool) (m : Nat) :
    (negative && decide (m ≠ 0)) = negative ∨ m = 0 := by
  by_cases hm : m = 0
  · exact .inr hm
  · left
    rw [decide_eq_true hm, Bool.and_true]

theorem shortProduct_faithful (negative : Bool) (hk : k ≤ 28)
    (hm : m < shortCapacity * shortCapacity) :
    ∃ d, shortProduct negative m s = some d ∧ StandsFor k negative (m / tenTo s) d := by
  have hcap : shortCapacity * shortCapacity + 1 < capacity := by decide
  unfold shortProduct
  by_cases hfar : 47 < s
  · rw [if_pos hfar]
    refine ⟨.zero, rfl, .inr rfl, ?_⟩
    have hlt : (m / tenTo s * tenTo k : ℚ) < 1 := by
      have hten : shortCapacity * shortCapacity * tenTo 28 < tenTo 48 := by decide
      have hmul : m * tenTo k < tenTo s := by
        refine Nat.lt_of_lt_of_le ?_ (tenTo_le_of_le (Nat.succ_le_of_lt hfar))
        exact Nat.lt_of_le_of_lt (Nat.mul_le_mul (Nat.le_of_lt hm) (tenTo_le_of_le hk)) hten
      rw [div_mul_eq_mul_div, div_lt_one (cast_tenTo_pos s)]
      exact_mod_cast hmul
    simpa [zero, whole] using
      faithful_zero (div_nonneg (Nat.cast_nonneg m) (cast_tenTo_pos s).le) hlt
  rw [if_neg hfar]
  by_cases hlong : 28 < s
  · rw [if_pos hlong]
    obtain ⟨t, rfl⟩ : ∃ t, s = t + 28 := ⟨s - 28, by omega⟩
    rw [Nat.add_sub_cancel]
    have hlt : halfEven m (tenTo t) < capacity := by
      have hsucc : halfEven m (tenTo t) ≤ m / tenTo t + 1 := nearest_le_succ _ _ _
      have hdiv : m / tenTo t ≤ m := Nat.div_le_self _ _
      omega
    have hunits : Faithful 28 (m / tenTo (t + 28)) (halfEven m (tenTo t) / tenTo 28) := by
      refine faithful_nearest_at (tenTo_pos t) ?_
      have hten := tenTo_ne_zero t
      have hten' := tenTo_ne_zero 28
      rw [cast_tenTo_add]
      field_simp
    simp only [ofParts?_of_lt hlt (Nat.le_refl 28)]
    exact ⟨_, rfl, sign_or_zero negative _, hunits.mono hk⟩
  · rw [if_neg hlong, ofParts?_of_lt (by omega) (by omega)]
    exact ⟨_, rfl, .inl rfl, .refl k _⟩

/-- The product with an amount that is not negative. -/
theorem mul_faithful (hk : k ≤ 28) (ha : Within below above a) (hb : Within 0 n b)
    (hlow : below * n * tenTo k < capacity) (hhigh : above * n * tenTo k < capacity) :
    ∃ d, a.mul b = .ok d ∧ Within (below * n) (above * n) d ∧
      Faithful k (a.toRat * b.toRat) d.toRat := by
  unfold mul
  by_cases hzero : a.isZero || b.isZero
  · rw [if_pos hzero]
    refine ⟨.zero, rfl, .zero, .of_eq ?_⟩
    rw [toRat_zero]
    rcases Bool.or_eq_true_iff.mp hzero with hza | hzb
    · rw [toRat_of_isZero hza, zero_mul]
    · rw [toRat_of_isZero hzb, mul_zero]
  rw [if_neg hzero]
  have hb0 : b.mantissa ≠ 0 := by
    intro h
    exact hzero (by rw [(isZero_iff b).mpr h, Bool.or_true])
  have hsign : b.negative = false := hb.negative_eq_false hb0
  have hvalue : a.toRat * b.toRat =
      signed a.negative ((a.mantissa * b.mantissa : Nat) / tenTo (a.scale + b.scale)) := by
    have hten := tenTo_ne_zero a.scale
    have hten' := tenTo_ne_zero b.scale
    rw [toRat_eq_signed a, toRat_eq_signed b, hsign, cast_tenTo_add]
    cases a.negative <;> simp only [signed_false, signed_true] <;> push_cast <;> field_simp
  rw [Within, hsign] at hb
  have hle : a.mantissa * b.mantissa ≤
      side a.negative (below * n) (above * n) * tenTo (a.scale + b.scale) := by
    rw [side_mul, tenTo_add, Nat.mul_mul_mul_comm]
    exact Nat.mul_le_mul ha hb
  simp only [hsign, Bool.xor_false]
  rw [hvalue]
  by_cases hshort : a.mantissa < shortCapacity ∧ b.mantissa < shortCapacity
  · have hm : a.mantissa * b.mantissa < shortCapacity * shortCapacity :=
      Nat.mul_lt_mul'' hshort.1 hshort.2
    obtain ⟨d, hd, hstands⟩ := shortProduct_faithful a.negative hk hm
    rw [if_pos hshort, hd]
    exact ⟨d, rfl, hstands.within (tenTo_pos _) hle, hstands.toRat⟩
  · have hlt : side a.negative (below * n) (above * n) * tenTo k < capacity := by
      rw [← side_mul]
      exact side_lt hlow hhigh
    obtain ⟨d, hd, hneg, hunits⟩ := fit_faithful a.negative hk hlt hle
    have hstands : StandsFor k a.negative _ d := ⟨.inl hneg, hunits⟩
    rw [if_neg hshort, hd]
    exact ⟨d, rfl, hstands.within (tenTo_pos _) hle, hstands.toRat⟩

theorem mul_within (ha : Within below above a) (hb : Within 0 n b)
    (hlow : below * n < capacity) (hhigh : above * n < capacity) :
    ∃ d, a.mul b = .ok d ∧ Within (below * n) (above * n) d := by
  obtain ⟨d, hd, hwithin, -⟩ :=
    mul_faithful (Nat.zero_le 28) ha hb (by simpa using hlow) (by simpa using hhigh)
  exact ⟨d, hd, hwithin⟩

/-- The quotient by a whole number. -/
theorem div_whole_faithful {h : n < capacity} (hk : k ≤ 28) (hn : 0 < n)
    (hb : below * tenTo k < capacity) (ha : above * tenTo k < capacity)
    (hd : Within (below * n) (above * n) d) :
    ∃ c, d.div (whole n h) = .ok c ∧ Within below above c ∧ Faithful k (d.toRat / n) c.toRat := by
  have hzero : ¬ (whole n h).isZero := by
    rw [isZero_iff]
    exact Nat.ne_of_gt hn
  unfold div
  rw [if_neg hzero]
  by_cases hzd : d.isZero
  · rw [if_pos hzd]
    refine ⟨.zero, rfl, .zero, .of_eq ?_⟩
    rw [toRat_zero, toRat_of_isZero hzd, zero_div]
  rw [Within, side_mul] at hd
  have hq : d.mantissa / n < capacity := Nat.lt_of_le_of_lt (Nat.div_le_self _ _) d.mantissa_lt
  have hle : d.mantissa / n * n + d.mantissa % n ≤
      side d.negative below above * tenTo d.scale * n := by
    rw [Nat.div_add_mod', Nat.mul_right_comm]
    exact hd
  have hlt : side d.negative below above * tenTo k < capacity := by
    rw [← side_mul]
    exact side_lt hb ha
  have hn' : (n : ℚ) ≠ 0 := Nat.cast_ne_zero.mpr (Nat.ne_of_gt hn)
  have hten := tenTo_ne_zero d.scale
  have hworth : Worth n (d.mantissa / n) (d.mantissa % n) d.scale
      (d.mantissa / (n * tenTo d.scale : Nat)) := by
    rw [Worth, Nat.div_add_mod']
    push_cast
    field_simp
  obtain ⟨q, s, cut, hlong, hs, hq', hunits⟩ := longDivision_faithful false
    (Nat.mod_lt _ hn) hq d.scale_le hk hlt hle hworth
  have hscale : (d.scale : Int) - (whole n h).scale = d.scale := Int.sub_zero _
  have hmantissa : (whole n h).mantissa = n := rfl
  have hshort : Shortens (q, s) (if cut then tidyQuotient q s else (q, s)) := by
    split
    · exact shortens_tidyQuotient q s
    · exact .refl (q, s)
  rw [if_neg hzd, hscale, hmantissa, hlong]
  simp only [Int.toNat_natCast]
  generalize (if cut then tidyQuotient q s else (q, s)) = r at *
  have hlt : r.1 < capacity := Nat.lt_of_le_of_lt hshort.units_le hq'
  have hle28 : r.2 ≤ 28 := Nat.le_trans hshort.scale_le hs
  have hsign : (d.negative ^^ (whole n h).negative) = d.negative := Bool.xor_false _
  rw [← hshort.value_eq] at hunits
  rw [ofParts?_of_lt hlt hle28, hsign]
  have hstands : StandsFor k d.negative (d.mantissa / (n * tenTo d.scale : Nat))
      ⟨d.negative && decide (r.1 ≠ 0), r.1, r.2, hlt, hle28⟩ :=
    ⟨sign_or_zero d.negative r.1, hunits⟩
  have hvalue : d.toRat / n = signed d.negative (d.mantissa / (n * tenTo d.scale : Nat)) := by
    rw [toRat_eq_signed]
    cases d.negative <;> simp only [signed_false, signed_true] <;> push_cast <;> field_simp
  refine ⟨_, rfl, hstands.within (Nat.mul_pos hn (tenTo_pos _)) ?_, hvalue ▸ hstands.toRat⟩
  rw [Nat.mul_comm n, ← Nat.mul_assoc]
  rwa [Nat.div_add_mod'] at hle

theorem div_whole_within {h : n < capacity} (hn : 0 < n) (hb : below < capacity)
    (ha : above < capacity) (hd : Within (below * n) (above * n) d) :
    ∃ c, d.div (whole n h) = .ok c ∧ Within below above c := by
  obtain ⟨c, hc, hwithin, -⟩ :=
    div_whole_faithful (Nat.zero_le 28) hn (by simpa using hb) (by simpa using ha) hd
  exact ⟨c, hc, hwithin⟩

theorem round_within (places : Nat) (h : Within below above d) :
    Within below above (d.round places) := by
  unfold round
  split
  · exact h
  · rename_i hscale
    have hle : (d.mantissa + tenTo (d.scale - places) / 2) / tenTo (d.scale - places) ≤
        side d.negative below above * tenTo places := by
      refine half_up_le_of_le (tenTo_pos _) ?_
      rw [Nat.mul_assoc, tenTo_mul_tenTo_sub (by omega)]
      exact h
    refine within_of_le hle ?_
    by_cases hzero : (d.mantissa + tenTo (d.scale - places) / 2) / tenTo (d.scale - places) = 0
    · exact .inr hzero
    · left
      simp only [ne_eq, hzero, not_false_eq_true, decide_true, Bool.or_true, Bool.and_true]

end Invoicing.Decimal
