import Invoicing.Money
import Invoicing.Proofs.Decimal.Range
import Invoicing.Proofs.Success
import Mathlib.Algebra.Order.Field.Rat
import Mathlib.Tactic.FieldSimp
import Mathlib.Tactic.Linarith

/-!
# Exact sums

A sum is rounded only where its units do not fit. Amounts in whole cents have a
common scale, so as long as their bounds leave room for the cents, adding and
subtracting them loses nothing, one after the other along a whole list.
-/
namespace Invoicing.Decimal

variable {a b d : Decimal} {m n s : Nat}

/-- Units that fit are kept as they are. -/
theorem fitUnits_exact {u : Int} (hu : u.natAbs < capacity) (hs : s ≤ 28) :
    ∃ d, fitUnits u s = some d ∧ d.scale = s ∧ d.toRat = u / (tenTo s : ℚ) := by
  refine ⟨⟨u < 0, u.natAbs, s, hu, hs⟩, fit_of_lt hu hs, rfl, ?_⟩
  have hc : (⟨u < 0, u.natAbs, s, hu, hs⟩ : Decimal).coefficient = u := by
    unfold coefficient
    by_cases hneg : u < 0
    · simp only [hneg, decide_true, if_true]
      omega
    · simp only [hneg, decide_false, Bool.false_eq_true, if_false]
      omega
  rw [toRat_eq, hc]

/-- A sum whose units fit is the sum of what the amounts are worth. -/
theorem add_exact (hs : max a.scale b.scale = s)
    (h : (a.unitsAt s + b.unitsAt s).natAbs < capacity) :
    ∃ c, a.add b = .ok c ∧ c.scale ≤ s ∧ c.toRat = a.toRat + b.toRat := by
  have ha : a.scale ≤ s := hs ▸ Nat.le_max_left _ _
  have hb : b.scale ≤ s := hs ▸ Nat.le_max_right _ _
  have h28 : s ≤ 28 := hs ▸ Nat.max_le.mpr ⟨a.scale_le, b.scale_le⟩
  apply exists_add
  · intro hza
    rw [toRat_of_isZero hza, zero_add]
    exact ⟨hb, rfl⟩
  · intro hzb
    rw [toRat_of_isZero hzb, add_zero]
    exact ⟨ha, rfl⟩
  · obtain ⟨c, hc, hscale, hvalue⟩ := fitUnits_exact h h28
    rw [hs]
    exact ⟨c, hc, Nat.le_of_eq hscale, by rw [hvalue, unitsAt_add_unitsAt ha hb]⟩

/-- A difference is the sum with the opposite. -/
theorem sub_exact (hs : max a.scale b.scale = s)
    (h : (a.unitsAt s - b.unitsAt s).natAbs < capacity) :
    ∃ c, a.sub b = .ok c ∧ c.scale ≤ s ∧ c.toRat = a.toRat - b.toRat := by
  have ha : a.scale ≤ s := hs ▸ Nat.le_max_left _ _
  have hb : b.scale ≤ s := hs ▸ Nat.le_max_right _ _
  have h28 : s ≤ 28 := hs ▸ Nat.max_le.mpr ⟨a.scale_le, b.scale_le⟩
  apply exists_sub
  · intro hza
    rw [toRat_of_isZero hza, zero_sub]
    by_cases hzb : b.isZero
    · rw [if_pos hzb, toRat_of_isZero hzb, neg_zero]
      exact ⟨hb, rfl⟩
    · rw [if_neg hzb]
      exact ⟨hb, toRat_neg b⟩
  · intro hzb
    rw [toRat_of_isZero hzb, sub_zero]
    exact ⟨ha, rfl⟩
  · obtain ⟨c, hc, hscale, hvalue⟩ := fitUnits_exact h h28
    rw [hs]
    refine ⟨c, hc, Nat.le_of_eq hscale, ?_⟩
    have hne := tenTo_ne_zero s
    rw [hvalue, Int.cast_sub, unitsAt_eq ha, unitsAt_eq hb]
    field_simp

/-- An amount in whole cents, no further from zero than a whole bound. -/
structure InCents (n : Nat) (d : Decimal) : Prop where
  scale_le : d.scale ≤ 2
  within : Within n n d

namespace InCents

theorem zero : InCents n zero :=
  ⟨Nat.zero_le 2, .zero⟩

theorem mono (h : InCents m d) (hmn : m ≤ n) : InCents n d :=
  ⟨h.scale_le, h.within.mono hmn hmn⟩

/-- Rounding to cents changes nothing. -/
theorem round2 (h : InCents n d) : Money.round2 d = d :=
  round_of_scale_le h.scale_le

/-- What is rounded to cents after an exact computation is what was computed. -/
theorem of_rounded {x : Except Overflow Decimal} {q : Rat}
    (hx : ∃ c, x = .ok c ∧ InCents n c ∧ c.toRat = q) (h : x.map Money.round2 = .ok d) :
    InCents n d ∧ d.toRat = q := by
  obtain ⟨c, rfl, hcents, hvalue⟩ := hx
  obtain rfl : Money.round2 c = d := Except.ok.inj h
  rw [hcents.round2]
  exact ⟨hcents, hvalue⟩

theorem roundToInteger (h : InCents n d) : InCents n (Money.roundToInteger d) :=
  ⟨Nat.le_trans (scale_round_le d 0) (Nat.zero_le 2), round_within 0 h.within⟩

/-- The units of an amount at a scale of at most two places. -/
theorem natAbs_unitsAt_le (h : InCents n d) (hd : d.scale ≤ s) (hs : s ≤ 2) :
    (d.unitsAt s).natAbs ≤ n * 100 := by
  obtain ⟨hlow, hhigh⟩ := h.within.unitsAt hd
  have hten : n * tenTo s ≤ n * 100 := Nat.mul_le_mul_left n (tenTo_le_of_le hs)
  omega

theorem add (ha : InCents m a) (hb : InCents n b) (hfit : (m + n) * 100 < capacity) :
    ∃ c, a.add b = .ok c ∧ InCents (m + n) c ∧ c.toRat = a.toRat + b.toRat := by
  have hs : max a.scale b.scale ≤ 2 := Nat.max_le.mpr ⟨ha.scale_le, hb.scale_le⟩
  have hua := ha.natAbs_unitsAt_le (Nat.le_max_left a.scale b.scale) hs
  have hub := hb.natAbs_unitsAt_le (Nat.le_max_right a.scale b.scale) hs
  obtain ⟨c, hc, hscale, hvalue⟩ := add_exact (a := a) (b := b) rfl (by omega)
  have hwithin := of_exists_ok (add_within ha.within hb.within (by omega) (by omega)) hc
  exact ⟨c, hc, ⟨Nat.le_trans hscale hs, hwithin⟩, hvalue⟩

theorem sub (ha : InCents m a) (hb : InCents n b) (hfit : (m + n) * 100 < capacity) :
    ∃ c, a.sub b = .ok c ∧ InCents (m + n) c ∧ c.toRat = a.toRat - b.toRat := by
  have hs : max a.scale b.scale ≤ 2 := Nat.max_le.mpr ⟨ha.scale_le, hb.scale_le⟩
  have hua := ha.natAbs_unitsAt_le (Nat.le_max_left a.scale b.scale) hs
  have hub := hb.natAbs_unitsAt_le (Nat.le_max_right a.scale b.scale) hs
  obtain ⟨c, hc, hscale, hvalue⟩ := sub_exact (a := a) (b := b) rfl (by omega)
  have hwithin := of_exists_ok (sub_within ha.within hb.within (by omega) (by omega)) hc
  exact ⟨c, hc, ⟨Nat.le_trans hscale hs, hwithin⟩, hvalue⟩

/-- However many amounts are added, nothing is lost while the bounds leave room. -/
theorem addAll {ds : List Decimal} (ha : InCents m a) (hds : ∀ d ∈ ds, InCents n d)
    (hfit : (m + ds.length * n) * 100 < capacity) :
    ∃ c, a.addAll ds = .ok c ∧ InCents (m + ds.length * n) c ∧
      c.toRat = a.toRat + (ds.map toRat).sum := by
  induction ds generalizing a m with
  | nil =>
    refine ⟨a, rfl, ha.mono (Nat.le_add_right m _), ?_⟩
    rw [List.map_nil, List.sum_nil, add_zero]
  | cons b ds ih =>
    simp only [List.length_cons, Nat.succ_mul] at hfit ⊢
    obtain ⟨c, hc, hcents, hvalue⟩ := ha.add (hds b List.mem_cons_self) (by omega)
    obtain ⟨total, htotal, hsum, hworth⟩ :=
      ih hcents (fun d hd => hds d (List.mem_cons_of_mem b hd)) (by omega)
    refine ⟨total, ?_, hsum.mono (by omega), ?_⟩
    · rw [addAll_cons, hc]
      exact htotal
    · rw [hworth, hvalue, List.map_cons, List.sum_cons, add_assoc]

theorem sum {ds : List Decimal} (hds : ∀ d ∈ ds, InCents n d)
    (hfit : ds.length * n * 100 < capacity) :
    ∃ c, Decimal.sum ds = .ok c ∧ InCents (ds.length * n) c ∧ c.toRat = (ds.map toRat).sum := by
  have h := addAll (m := 0) InCents.zero hds (by omega)
  rw [Nat.zero_add, toRat_zero] at h
  simp only [zero_add] at h
  exact h

end InCents

end Invoicing.Decimal
