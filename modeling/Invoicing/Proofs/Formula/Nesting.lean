import Invoicing.Proofs.Formula.Machine

/-!
# Expressions in parentheses

An evaluator that reads an expression in parentheses goes through the same
states as one that reads the expression alone, only with what was waiting before
underneath. If what is open leaves room for the parentheses and for the nesting
of the expression, it therefore goes on as if it had read the value as a number.
-/
namespace Invoicing.Formula

variable {v : Decimal} {s t : State} {token : Token} {ls : List Lexeme} {pending base : List Frame}

/-- How many parentheses and signs are open. -/
def State.depth : State → Nat
  | .operand pending | .operator _ pending => Formula.depth pending

/-- The states that the evaluator goes through while its steps succeed. -/
def State.trace (s : State) : List Lexeme → List State
  | [] => [s]
  | l :: ls =>
    match s.step l with
    | .ok t => s :: t.trace ls
    | .error _ => [s]

/-- How many parentheses and signs are open where an expression is nested most. -/
def nesting (ls : List Lexeme) : Nat :=
  (((State.operand []).trace ls).map State.depth).max?.getD 0

/-- A state with an open parenthesis underneath, and with what waits below that. -/
def State.within (base : List Frame) : State → State
  | .operand pending => .operand (pending ++ .group :: base)
  | .operator v pending => .operator v (pending ++ .group :: base)

theorem depth_le_nesting (h : s ∈ (State.operand []).trace ls) : s.depth ≤ nesting ls :=
  List.le_max?_getD_of_mem (List.mem_map_of_mem h)

theorem State.trace_eq_cons (s : State) (ls : List Lexeme) : ∃ rest, s.trace ls = s :: rest := by
  cases ls with
  | nil => exact ⟨[], rfl⟩
  | cons l ls =>
    unfold trace
    cases s.step l with
    | ok t => exact ⟨t.trace ls, rfl⟩
    | error e => exact ⟨[], rfl⟩

theorem State.trace_cons {l : Lexeme} (h : Step s l.token t) :
    s.trace (l :: ls) = s :: t.trace ls := by
  rw [trace, step_eq_ok.mpr h]

theorem depth_append_group :
    Formula.depth (pending ++ .group :: base) = Formula.depth pending + 1 + Formula.depth base := by
  unfold Formula.depth
  rw [List.countP_append, List.countP_cons_of_pos rfl]
  omega

theorem supply_within (h : supply v pending = .ok s) :
    supply v (pending ++ .group :: base) = .ok (s.within base) := by
  induction pending generalizing v with
  | nil => cases h; rfl
  | cons frame pending ih =>
    cases frame with
    | sign op => exact ih h
    | factor a op =>
      obtain ⟨b, hb, rfl⟩ := supply_factor.mp h
      exact supply_factor.mpr ⟨b, hb, rfl⟩
    | group => cases h; rfl
    | term a op => cases h; rfl

theorem collect_within {a : Decimal} {rest : List Frame} (h : collect v pending = .ok (a, rest)) :
    collect v (pending ++ .group :: base) = .ok (a, rest ++ .group :: base) := by
  cases pending with
  | nil => cases h; rfl
  | cons frame pending =>
    cases frame with
    | term b op =>
      obtain ⟨c, hc, h⟩ := collect_term.mp h
      cases h
      exact collect_term.mpr ⟨_, hc, rfl⟩
    | sign op => cases h; rfl
    | factor b op => cases h; rfl
    | group => cases h; rfl

/-- A step can be taken with more underneath if there is room for what it opens. -/
theorem Step.within (h : Step s token t) (hroom : t.depth + 1 + depth base ≤ maxNesting) :
    Step (s.within base) token (t.within base) := by
  cases h with
  | number h => exact .number (supply_within h)
  | group h =>
    simp only [State.depth, depth_group] at hroom
    exact .group (by rw [depth_append_group]; omega)
  | sign h =>
    simp only [State.depth, depth_sign] at hroom
    exact .sign (by rw [depth_append_group]; omega)
  | factor => exact .factor
  | term h => exact .term (collect_within h)
  | close h hs => exact .close (collect_within h) (supply_within hs)

theorem Steps.within (h : Steps s (ls.map Lexeme.token) t)
    (hroom : ∀ u ∈ s.trace ls, u.depth + 1 + depth base ≤ maxNesting) :
    Steps (s.within base) (ls.map Lexeme.token) (t.within base) := by
  induction ls generalizing s with
  | nil =>
    obtain rfl := steps_nil_iff.mp h
    exact .nil
  | cons l ls ih =>
    obtain ⟨u, hstep, hs⟩ := steps_cons_iff.mp h
    rw [State.trace_cons hstep, List.forall_mem_cons] at hroom
    obtain ⟨rest, hrest⟩ := u.trace_eq_cons ls
    have hu := hroom.2 u (hrest ▸ List.mem_cons_self)
    exact .cons (hstep.within hu) (ih hs hroom.2)

/-- The evaluator comes to the end of an expression in parentheses with its value. -/
theorem steps_inside (hvalue : parse ls = .ok v)
    (hroom : depth base + 1 + nesting ls ≤ maxNesting) :
    ∃ a waiting, Steps (.operand (.group :: base)) (ls.map Lexeme.token) (.operator a waiting) ∧
      collect a waiting = .ok (v, .group :: base) := by
  obtain ⟨u, hsteps, hfinish⟩ := parse_eq_ok.mp hvalue
  obtain ⟨a, waiting, rfl, hcollect⟩ := finish_eq_ok.mp hfinish
  have hinside : ∀ w ∈ (State.operand []).trace ls, w.depth + 1 + depth base ≤ maxNesting := by
    intro w hw
    have hle := depth_le_nesting hw
    omega
  exact ⟨a, waiting ++ .group :: base, hsteps.within hinside, collect_within hcollect⟩

/-- An expression in parentheses is read like a number, its value. -/
theorem steps_group_iff (hvalue : parse ls = .ok v)
    (hroom : s.depth + 1 + nesting ls ≤ maxNesting) :
    Steps s (.leftParen :: (ls.map Lexeme.token ++ [.rightParen])) t ↔ Step s (.number v) t := by
  cases s with
  | operator a waiting =>
    constructor
    · intro h
      obtain ⟨u, hstep, -⟩ := steps_cons_iff.mp h
      cases hstep
    · intro h
      cases h
  | operand base =>
    simp only [State.depth] at hroom
    obtain ⟨a, waiting, hinside, hclosed⟩ := steps_inside hvalue hroom
    constructor
    · intro h
      obtain ⟨w, hopen, h⟩ := steps_cons_iff.mp h
      cases hopen
      obtain ⟨w, hs, h⟩ := steps_append_iff.mp h
      obtain rfl := hinside.unique hs
      obtain ⟨w, hclose, h⟩ := steps_cons_iff.mp h
      obtain rfl := steps_nil_iff.mp h
      cases hclose with
      | close hc hs =>
        cases hclosed.symm.trans hc
        exact .number hs
    · intro h
      cases h with
      | number h =>
        have hopen : depth base < maxNesting := by omega
        exact .cons (.group hopen) (hinside.append (.cons (.close hclosed h) .nil))

end Invoicing.Formula
