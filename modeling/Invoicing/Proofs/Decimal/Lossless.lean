import Invoicing.Proofs.Decimal.Exact
import Mathlib.Algebra.Order.BigOperators.Group.List
import Mathlib.Tactic.Ring

/-!
# Sums that lose no digit

A sum is rounded where its units at the finer scale are too many. Amounts that
are whole numbers of one decimal unit, fewer of them in all than a mantissa can
hold, are added up exactly, whatever their signs and scales and in whatever
order they come. Any others are off by no more than one step for each addition,
on a grid on which their bounds leave room.
-/
namespace Invoicing.Decimal

variable {a b d : Decimal} {ds es : List Decimal} {c k m n p s : Nat} {negative : Bool}

/-- Of an amount that has fewer places than its scale tells, only zeros are dropped. -/
theorem fit_lossless (negative : Bool) (hc : c < capacity) (hk : k ≤ s) (hs : s ≤ 28) :
    ∃ d, fit negative (c * tenTo (s - k)) s = some d ∧
      d.toRat = signed negative (c / tenTo k) := by
  have hdrop : dropped (c * tenTo (s - k)) s ≤ s - k := by
    have hzero : s - 28 = 0 := by omega
    rw [dropped, hzero, Nat.zero_add, tenTo_zero, Nat.div_one]
    apply excessDigits_le
    rwa [Nat.mul_div_cancel _ (tenTo_pos _)]
  have hlt := div_dropped_lt (c * tenTo (s - k)) s
  rw [fit_eq (by omega)]
  generalize dropped (c * tenTo (s - k)) s = drop at *
  obtain ⟨rest, hrest⟩ : ∃ rest, s - k = rest + drop := ⟨s - k - drop, by omega⟩
  rw [hrest, tenTo_add, ← Nat.mul_assoc] at hlt ⊢
  rw [Nat.mul_div_cancel _ (tenTo_pos _)] at hlt
  rw [halfEven, nearest_mul (tenTo_pos _), if_pos hlt, ofParts?_of_lt hlt (by omega)]
  refine ⟨_, rfl, ?_⟩
  have hscale : s - drop = k + rest := by omega
  have hvalue : ((c * tenTo rest : Nat) : ℚ) / tenTo (k + rest) = c / tenTo k := by
    have hten := tenTo_ne_zero k
    have hten' := tenTo_ne_zero rest
    rw [cast_tenTo_add]
    push_cast
    field_simp
  rw [toRat_eq_signed]
  dsimp only
  rw [hscale, hvalue]

/-- Units that are whole numbers of a coarser unit, if so many of that one fit. -/
theorem fitUnits_lossless {u : Int} (hplaces : HasPlaces k (u / tenTo s)) (hs : s ≤ 28)
    (hfit : |(u / tenTo s : ℚ)| * tenTo k < capacity) :
    ∃ d, fitUnits u s = some d ∧ d.toRat = u / (tenTo s : ℚ) := by
  -- Where the grid is finer than the scale, the scale itself will do.
  obtain ⟨j, hj, ⟨n, hn⟩, hfit⟩ : ∃ j ≤ s, HasPlaces j (u / tenTo s) ∧
      |(u / tenTo s : ℚ)| * tenTo j < capacity := by
    rcases Nat.le_total k s with hk | hk
    · exact ⟨k, hk, hplaces, hfit⟩
    · refine ⟨s, Nat.le_refl s, ⟨u, div_mul_cancel₀ _ (tenTo_ne_zero s)⟩, lt_of_le_of_lt ?_ hfit⟩
      exact mul_le_mul_of_nonneg_left (Nat.cast_le.mpr (tenTo_le_of_le hk)) (abs_nonneg _)
  have hten := tenTo_ne_zero j
  have hlt : n.natAbs < capacity := by
    rw [← abs_of_pos (cast_tenTo_pos j), ← abs_mul, hn, ← Int.cast_abs, Int.abs_eq_natAbs] at hfit
    exact_mod_cast hfit
  have hu : u = n * (tenTo (s - j) : Nat) := by
    have hscaled : (u : ℚ) = n * (tenTo (s - j) : Nat) := by
      have hsplit : (tenTo s : ℚ) = tenTo j * tenTo (s - j) := by
        rw [← Nat.cast_mul, tenTo_mul_tenTo_sub hj]
      have hten' := tenTo_ne_zero (s - j)
      rw [← hn, hsplit]
      field_simp
    exact_mod_cast hscaled
  have habs : u.natAbs = n.natAbs * tenTo (s - j) := by
    rw [hu, Int.natAbs_mul, Int.natAbs_natCast]
  obtain ⟨d, hd, hvalue⟩ := fit_lossless (u < 0) hlt hj hs
  refine ⟨d, ?_, ?_⟩
  · rw [fitUnits, habs]
    exact hd
  · have hquot : (u.natAbs / tenTo s : ℚ) = n.natAbs / tenTo j := by
      have hten' := tenTo_ne_zero (s - j)
      rw [habs, ← tenTo_mul_tenTo_sub hj]
      push_cast
      field_simp
    rw [hvalue, units_eq_signed, hquot]

/-- The sum of amounts that are whole numbers of some unit, if so many of that one fit. -/
theorem add_lossless (ha : HasPlaces k a.toRat) (hb : HasPlaces k b.toRat)
    (hfit : |a.toRat + b.toRat| * tenTo k < capacity) :
    ∃ c, a.add b = .ok c ∧ c.toRat = a.toRat + b.toRat := by
  apply exists_add
  · intro hza
    rw [toRat_of_isZero hza, zero_add]
  · intro hzb
    rw [toRat_of_isZero hzb, add_zero]
  · have hunits := unitsAt_add_unitsAt (Nat.le_max_left a.scale b.scale)
      (Nat.le_max_right a.scale b.scale)
    have hplaces := ha.add hb
    rw [← hunits] at hplaces hfit ⊢
    exact fitUnits_lossless hplaces (Nat.max_le.mpr ⟨a.scale_le, b.scale_le⟩) hfit

/-- Adding one amount after the other loses nothing, as the sizes of all of them are enough for
every sum on the way. -/
theorem addAll_lossless (ha : HasPlaces k a.toRat) (hds : ∀ d ∈ ds, HasPlaces k d.toRat)
    (hfit : (|a.toRat| + (ds.map fun d => |d.toRat|).sum) * tenTo k < capacity) :
    ∃ c, a.addAll ds = .ok c ∧ c.toRat = a.toRat + (ds.map toRat).sum := by
  induction ds generalizing a with
  | nil => exact ⟨a, rfl, by rw [List.map_nil, List.sum_nil, add_zero]⟩
  | cons b ds ih =>
    obtain ⟨hb, hds⟩ := List.forall_mem_cons.mp hds
    rw [List.map_cons, List.sum_cons, ← add_assoc] at hfit
    have hten := (cast_tenTo_pos k).le
    have hrest : 0 ≤ (ds.map fun d => |d.toRat|).sum := by
      apply List.sum_nonneg
      intro x hx
      obtain ⟨d, -, rfl⟩ := List.mem_map.mp hx
      exact abs_nonneg _
    have htriangle := abs_add_le a.toRat b.toRat
    obtain ⟨c, hc, hvalue⟩ := add_lossless ha hb
      (lt_of_le_of_lt (mul_le_mul_of_nonneg_right (by linarith) hten) hfit)
    have hcplaces : HasPlaces k c.toRat := hvalue ▸ ha.add hb
    obtain ⟨total, htotal, hworth⟩ := ih hcplaces hds
      (lt_of_le_of_lt (mul_le_mul_of_nonneg_right (by rw [hvalue]; linarith) hten) hfit)
    refine ⟨total, ?_, ?_⟩
    · rw [addAll_cons, hc]
      exact htotal
    · rw [hworth, hvalue, List.map_cons, List.sum_cons, add_assoc]

/-- Where digits are lost, each addition moves the sum by one step of the grid at most. -/
theorem addAll_near (hk : k ≤ 28) (ha : Within m m a) (hds : ∀ d ∈ ds, Within n n d)
    (hfit : (m + ds.length * n) * tenTo k < capacity) :
    ∃ c, a.addAll ds = .ok c ∧
      |c.toRat - (a.toRat + (ds.map toRat).sum)| ≤ ds.length / tenTo k := by
  induction ds generalizing a m with
  | nil => exact ⟨a, rfl, by simp⟩
  | cons b ds ih =>
    obtain ⟨hb, hds⟩ := List.forall_mem_cons.mp hds
    have hlength : m + (b :: ds).length * n = m + n + ds.length * n := by
      rw [List.length_cons, Nat.succ_mul]
      omega
    rw [hlength] at hfit
    have hstep : (m + n) * tenTo k < capacity :=
      Nat.lt_of_le_of_lt (Nat.mul_le_mul_right _ (Nat.le_add_right _ _)) hfit
    obtain ⟨c, hc, hcwithin, hfaithful⟩ := add_faithful hk ha hb hstep hstep
    obtain ⟨total, htotal, hnear⟩ := ih hcwithin hds hfit
    refine ⟨total, ?_, ?_⟩
    · rw [addAll_cons, hc]
      exact htotal
    · have htriangle := abs_add_le (total.toRat - (c.toRat + (ds.map toRat).sum))
        (c.toRat - (a.toRat + b.toRat))
      have hsplit : total.toRat - (a.toRat + ((b :: ds).map toRat).sum) =
          total.toRat - (c.toRat + (ds.map toRat).sum) + (c.toRat - (a.toRat + b.toRat)) := by
        rw [List.map_cons, List.sum_cons]
        ring
      rw [hsplit, List.length_cons, Nat.cast_succ, add_div]
      linarith [hfaithful.abs_sub_le]

/-- Amounts of which a sum loses no digit: they are whole numbers of one decimal unit, and their
sizes together are fewer of them than a mantissa can hold. -/
def Fits (ds : List Decimal) : Prop :=
  ∃ places, (∀ d ∈ ds, HasPlaces places d.toRat) ∧
    (ds.map fun d => |d.toRat|).sum * tenTo places < capacity

namespace Fits

/-- The order does not matter. -/
theorem perm (h : ds.Perm es) (hds : Fits ds) : Fits es := by
  obtain ⟨places, hplaces, hfit⟩ := hds
  refine ⟨places, fun d hd => hplaces d (h.mem_iff.mpr hd), ?_⟩
  rwa [← (h.map fun d => |d.toRat|).sum_eq]

theorem sum (h : Fits ds) : ∃ c, Decimal.sum ds = .ok c ∧ c.toRat = (ds.map toRat).sum := by
  obtain ⟨places, hplaces, hfit⟩ := h
  have hzero : HasPlaces places Decimal.zero.toRat := toRat_zero ▸ .zero places
  have hsum := addAll_lossless hzero hplaces (by rwa [toRat_zero, abs_zero, zero_add])
  rwa [toRat_zero, zero_add] at hsum

/-- So many places that bounded amounts fit, however many of them there are up to some number. -/
theorem of_within (hplaces : ∀ d ∈ ds, HasPlaces k d.toRat) (hwithin : ∀ d ∈ ds, Within n n d)
    (hlength : ds.length ≤ m) (hfit : m * n * tenTo k < capacity) : Fits ds := by
  refine ⟨k, hplaces, ?_⟩
  have hle : ∀ x ∈ ds.map fun d => |d.toRat|, x ≤ (n : ℚ) := by
    intro x hx
    obtain ⟨d, hd, rfl⟩ := List.mem_map.mp hx
    exact (hwithin d hd).abs_toRat_le
  have hsum := List.sum_le_card_nsmul _ _ hle
  rw [List.length_map, nsmul_eq_mul] at hsum
  have hbound : (ds.length * n : ℚ) ≤ (m * n : Nat) := by
    exact_mod_cast Nat.mul_le_mul_right n hlength
  refine lt_of_le_of_lt (mul_le_mul_of_nonneg_right (le_trans hsum hbound)
    (cast_tenTo_pos k).le) ?_
  exact_mod_cast hfit

end Fits

end Invoicing.Decimal
