/-!
# When a computation fails

A computation that goes on with a result fails where that result is missing, or
later on with it. The failure told is the first one on the way: checks that are
made one after the other fail under a list of conditions, and whatever meets the
first condition that can be met is told.
-/
namespace Invoicing

variable {ε δ α β : Type} {x : Except ε α} {e : ε}

theorem bind_eq_error {f : α → Except ε β} :
    x >>= f = .error e ↔ x = .error e ∨ ∃ a, x = .ok a ∧ f a = .error e := by
  cases x with
  | error e' =>
    constructor
    · intro h; cases h; exact .inl rfl
    · rintro (h | ⟨a, ha, -⟩)
      · cases h; rfl
      · cases ha
  | ok a =>
    constructor
    · intro h; exact .inr ⟨a, rfl, h⟩
    · rintro (h | ⟨a', ha, h⟩)
      · cases h
      · cases ha; exact h

theorem map_eq_error {f : α → β} : x.map f = .error e ↔ x = .error e := by
  cases x with
  | error e' => simp [Except.map]
  | ok a =>
    constructor
    · intro h; cases h
    · intro h; cases h

theorem mapError_eq_error {f : ε → δ} {d : δ} :
    x.mapError f = .error d ↔ ∃ e, x = .error e ∧ f e = d := by
  cases x with
  | error e =>
    constructor
    · intro h; cases h; exact ⟨e, rfl, rfl⟩
    · rintro ⟨e', he, rfl⟩; cases he; rfl
  | ok a =>
    constructor
    · intro h; cases h
    · rintro ⟨e, he, -⟩; cases he

/-- A guard fails, or what it guards does. -/
theorem ite_error_eq_error {p : Prop} [Decidable p] {e' : ε} :
    (if p then .error e' else x) = .error e ↔ p ∧ e' = e ∨ ¬ p ∧ x = .error e := by
  by_cases hp : p <;> simp [hp]

/-- The first condition that anything meets, and what meets it. -/
inductive First : List (ε → Prop) → ε → Prop
  | here {p : ε → Prop} {ps : List (ε → Prop)} {e : ε} (h : p e) : First (p :: ps) e
  | later {p : ε → Prop} {ps : List (ε → Prop)} {e : ε} (hp : ∀ e', ¬ p e') (h : First ps e) :
    First (p :: ps) e

section

variable {p : ε → Prop} {ps : List (ε → Prop)}

@[simp] theorem not_first_nil : ¬ First [] e := by
  intro h
  cases h

theorem first_cons : First (p :: ps) e ↔ p e ∨ (∀ e', ¬ p e') ∧ First ps e := by
  constructor
  · intro h
    cases h with
    | here h => exact .inl h
    | later hp h => exact .inr ⟨hp, h⟩
  · rintro (h | ⟨hp, h⟩)
    · exact .here h
    · exact .later hp h

/-- Something is told if any of the conditions can be met. -/
theorem exists_first_iff : (∃ e, First ps e) ↔ ∃ p ∈ ps, ∃ e, p e := by
  induction ps with
  | nil => simp
  | cons p ps ih =>
    simp only [first_cons, exists_or, exists_and_left, ih, List.mem_cons, exists_eq_or_imp]
    by_cases hp : ∃ e, p e
    · exact iff_of_true (.inl hp) (.inl hp)
    · exact or_congr_right (and_iff_right (not_exists.mp hp))

end

/-- A computation fails under these conditions, and the first of them is told. -/
def FailsFirst (x : Except ε α) (ps : List (ε → Prop)) : Prop :=
  ∀ e, x = .error e ↔ First ps e

namespace FailsFirst

variable {p : ε → Prop} {ps : List (ε → Prop)}

theorem ok (a : α) : FailsFirst (.ok a : Except ε α) [] :=
  fun _ => iff_of_false (by simp) not_first_nil

theorem bind {f : α → Except ε β} (hx : ∀ e, x = .error e ↔ p e)
    (hf : ∀ a, x = .ok a → FailsFirst (f a) ps) : FailsFirst (x >>= f) (p :: ps) := by
  intro e
  rw [bind_eq_error, first_cons, hx]
  refine or_congr_right ?_
  cases x with
  | error e' =>
    have he' : p e' := (hx e').mp rfl
    exact iff_of_false (by simp) fun h => h.1 e' he'
  | ok a =>
    have hnone : ∀ e', ¬ p e' := by
      intro e' he'
      cases (hx e').mpr he'
    simp [hnone, hf a rfl e]

/-- What succeeds adds no condition. -/
theorem bind_ok {f : α → Except ε β} {a : α} (hx : x = .ok a) (hf : FailsFirst (f a) ps) :
    FailsFirst (x >>= f) ps := by
  rw [hx]
  exact hf

theorem single (h : ∀ e, x = .error e ↔ p e) : FailsFirst x [p] := by
  intro e
  simp [first_cons, h]

/-- A guard in front is one condition more. -/
theorem guard {c : Prop} [Decidable c] (hp : ∀ e', p e' ↔ c ∧ e' = e) (hx : ¬ c → FailsFirst x ps) :
    FailsFirst (if c then .error e else x) (p :: ps) := by
  intro e'
  rw [ite_error_eq_error, first_cons]
  by_cases hc : c
  · simp [hc, hp, eq_comm]
  · simp [hc, hp, hx hc e']

theorem forM {f : α → Except ε Unit} {q : α → ε → Prop} (h : ∀ a e, f a = .error e ↔ q a e)
    (as : List α) : FailsFirst (as.forM f) (as.map q) := by
  induction as with
  | nil => exact ok ()
  | cons a as ih =>
    have hcons : (a :: as).forM f = f a >>= fun _ => as.forM f := rfl
    rw [hcons]
    exact bind (h a) fun _ _ => ih

theorem map (f : α → β) (h : FailsFirst x ps) : FailsFirst (x.map f) ps :=
  fun e => map_eq_error.trans (h e)

end FailsFirst

end Invoicing
