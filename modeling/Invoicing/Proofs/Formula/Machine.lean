import Invoicing.Formula.Expression
import Invoicing.Proofs.Formula.Scanning

/-!
# The steps of the evaluator

The steps that succeed, and what each of them asks for and leaves behind. They
depend on the tokens alone: the positions of lexemes only matter to errors. A
run succeeds if its steps lead to a state that has a result.
-/
namespace Invoicing.Formula

/-- How many parentheses and signs are open. -/
def depth (pending : List Frame) : Nat := pending.countP Frame.nests

/-- No sign and no left factor waits for the next operand. -/
def Settled : List Frame → Prop
  | .sign _ :: _ | .factor .. :: _ => False
  | [] | .group :: _ | .term .. :: _ => True

/-- The next sum is a whole one, not the right end of another. -/
def Closed : List Frame → Prop
  | [] | .group :: _ => True
  | .sign _ :: _ | .factor .. :: _ | .term .. :: _ => False

/-- The steps that succeed. -/
inductive Step : State → Token → State → Prop where
  | number {v : Decimal} {pending : List Frame} {s : State} (h : supply v pending = .ok s) :
    Step (.operand pending) (.number v) s
  | group {pending : List Frame} (h : depth pending < maxNesting) :
    Step (.operand pending) .leftParen (.operand (.group :: pending))
  | sign {op : Additive} {pending : List Frame} (h : depth pending < maxNesting) :
    Step (.operand pending) (.additive op) (.operand (.sign op :: pending))
  | factor {v : Decimal} {op : Multiplicative} {pending : List Frame} :
    Step (.operator v pending) (.multiplicative op) (.operand (.factor v op :: pending))
  | term {a v : Decimal} {op : Additive} {waiting pending : List Frame}
    (h : collect a waiting = .ok (v, pending)) :
    Step (.operator a waiting) (.additive op) (.operand (.term v op :: pending))
  | close {a v : Decimal} {waiting pending : List Frame} {s : State}
    (h : collect a waiting = .ok (v, .group :: pending)) (hs : supply v pending = .ok s) :
    Step (.operator a waiting) .rightParen s

/-- The steps along some tokens. -/
inductive Steps : State → List Token → State → Prop where
  | nil {s : State} : Steps s [] s
  | cons {s t u : State} {token : Token} {ts : List Token} (h : Step s token t)
    (hs : Steps t ts u) : Steps s (token :: ts) u

variable {op : Additive} {v : Decimal} {s t : State} {ts : List Token}
  {pending waiting : List Frame}

@[simp] theorem depth_nil : depth [] = 0 := rfl

@[simp] theorem depth_sign : depth (.sign op :: pending) = depth pending + 1 :=
  List.countP_cons_of_pos rfl

@[simp] theorem depth_group : depth (.group :: pending) = depth pending + 1 :=
  List.countP_cons_of_pos rfl

@[simp] theorem depth_term : depth (.term v op :: pending) = depth pending :=
  List.countP_cons_of_neg Bool.false_ne_true

@[simp] theorem depth_factor {op : Multiplicative} :
    depth (.factor v op :: pending) = depth pending :=
  List.countP_cons_of_neg Bool.false_ne_true

theorem Closed.settled (h : Closed pending) : Settled pending := by
  cases pending with
  | nil => trivial
  | cons frame pending =>
    cases frame with
    | group => trivial
    | sign | term | factor => exact h.elim

theorem supply_of_settled (h : Settled pending) : supply v pending = .ok (.operator v pending) := by
  cases pending with
  | nil => rfl
  | cons frame pending =>
    cases frame with
    | sign | factor => exact h.elim
    | group | term => rfl

theorem collect_of_closed (h : Closed pending) : collect v pending = .ok (v, pending) := by
  cases pending with
  | nil => rfl
  | cons frame pending =>
    cases frame with
    | group => rfl
    | sign | factor | term => exact h.elim

theorem supply_factor {op : Multiplicative} {a : Decimal} :
    supply v (.factor a op :: pending) = .ok s ↔
      ∃ b, op.apply a v = .ok b ∧ .operator b pending = s :=
  map_eq_ok

theorem collect_term {a : Decimal} {r : Decimal × List Frame} :
    collect v (.term a op :: pending) = .ok r ↔ ∃ b, op.apply a v = .ok b ∧ (b, pending) = r :=
  map_eq_ok

theorem enter_eq_ok {frame : Frame} (h : frame.nests) :
    enter frame pending = .ok s ↔ depth pending < maxNesting ∧ .operand (frame :: pending) = s := by
  have hdepth : (frame :: pending).countP Frame.nests = depth pending + 1 :=
    List.countP_cons_of_pos h
  rw [enter, hdepth, ite_error_eq_ok, Nat.not_lt, Except.ok.injEq]
  rfl

theorem step_eq_ok {l : Lexeme} : s.step l = .ok t ↔ Step s l.token t := by
  obtain ⟨token, position⟩ := l
  constructor
  · intro h
    cases s with
    | operand pending =>
      cases token with
      | number value => exact .number h
      | leftParen =>
        obtain ⟨hd, rfl⟩ := (enter_eq_ok rfl).mp h
        exact .group hd
      | additive op =>
        obtain ⟨hd, rfl⟩ := (enter_eq_ok rfl).mp h
        exact .sign hd
      | multiplicative op => cases h
      | rightParen => cases h
    | operator value waiting =>
      cases token with
      | multiplicative op => cases h; exact .factor
      | additive op =>
        obtain ⟨⟨v, pending⟩, hc, h⟩ := bind_eq_ok.mp h
        cases h
        exact .term hc
      | rightParen =>
        obtain ⟨⟨v, pending⟩, hc, h⟩ := bind_eq_ok.mp h
        match pending, h with
        | .group :: pending, h => exact .close hc h
      | number value =>
        obtain ⟨r, hc, h⟩ := bind_eq_ok.mp h
        cases h
      | leftParen =>
        obtain ⟨r, hc, h⟩ := bind_eq_ok.mp h
        cases h
  · intro h
    cases h with
    | number h => exact h
    | group h => exact (enter_eq_ok rfl).mpr ⟨h, rfl⟩
    | sign h => exact (enter_eq_ok rfl).mpr ⟨h, rfl⟩
    | factor => rfl
    | term h => exact bind_eq_ok.mpr ⟨_, h, rfl⟩
    | close h hs => exact bind_eq_ok.mpr ⟨_, h, hs⟩

theorem finish_eq_ok :
    s.finish = .ok v ↔ ∃ a waiting, s = .operator a waiting ∧ collect a waiting = .ok (v, []) := by
  constructor
  · intro h
    cases s with
    | operand pending => cases h
    | operator a waiting =>
      obtain ⟨⟨total, pending⟩, hc, h⟩ := bind_eq_ok.mp h
      cases pending with
      | nil => cases h; exact ⟨a, waiting, rfl, hc⟩
      | cons frame pending => cases h
  · intro ⟨a, waiting, hs, hc⟩
    subst hs
    exact bind_eq_ok.mpr ⟨_, hc, rfl⟩

theorem Steps.append {u : State} {us : List Token} (h : Steps s ts t) (hu : Steps t us u) :
    Steps s (ts ++ us) u := by
  induction h with
  | nil => exact hu
  | cons h _ ih => exact .cons h (ih hu)

theorem Step.steps {token : Token} (h : Step s token t) : Steps s [token] t :=
  .cons h .nil

theorem steps_nil_iff : Steps s [] t ↔ s = t := by
  constructor
  · intro h; cases h; rfl
  · intro h; subst h; exact .nil

theorem steps_cons_iff {token : Token} :
    Steps s (token :: ts) t ↔ ∃ u, Step s token u ∧ Steps u ts t := by
  constructor
  · intro h; cases h with | cons h hs => exact ⟨_, h, hs⟩
  · intro ⟨_, h, hs⟩; exact .cons h hs

theorem steps_append_iff {us : List Token} :
    Steps s (ts ++ us) t ↔ ∃ u, Steps s ts u ∧ Steps u us t := by
  induction ts generalizing s with
  | nil => simp [steps_nil_iff]
  | cons token ts ih =>
    simp only [List.cons_append, steps_cons_iff, ih]
    constructor
    · intro ⟨u, h, w, hs, hw⟩; exact ⟨w, ⟨u, h, hs⟩, hw⟩
    · intro ⟨w, ⟨u, h, hs⟩, hw⟩; exact ⟨u, h, w, hs, hw⟩

theorem Step.unique {token : Token} {u : State} (h : Step s token t) (hu : Step s token u) :
    t = u := by
  have ht : s.step ⟨token, 0⟩ = .ok t := step_eq_ok.mpr h
  exact Except.ok.inj (ht.symm.trans (step_eq_ok.mpr hu))

theorem Steps.unique {u : State} (h : Steps s ts t) (hu : Steps s ts u) : t = u := by
  induction h with
  | nil => exact steps_nil_iff.mp hu
  | cons h _ ih =>
    obtain ⟨w, hw, hu⟩ := steps_cons_iff.mp hu
    obtain rfl := h.unique hw
    exact ih hu

/-- A run succeeds if its steps lead to a state with that result. -/
theorem run_eq_ok {ls : List Lexeme} :
    s.run ls = .ok v ↔ ∃ t, Steps s (ls.map Lexeme.token) t ∧ t.finish = .ok v := by
  induction ls generalizing s with
  | nil =>
    constructor
    · intro h; exact ⟨s, .nil, h⟩
    · intro ⟨t, hs, h⟩; cases hs; exact h
  | cons l ls ih =>
    rw [State.run_cons, bind_eq_ok]
    constructor
    · intro ⟨t, hstep, hrun⟩
      obtain ⟨u, hs, h⟩ := ih.mp hrun
      exact ⟨u, .cons (step_eq_ok.mp hstep) hs, h⟩
    · intro ⟨u, hs, h⟩
      cases hs with
      | cons hstep hs => exact ⟨_, step_eq_ok.mpr hstep, ih.mpr ⟨u, hs, h⟩⟩

/-- So an expression has a value if the steps along it do; without a token they have none. -/
theorem parse_eq_ok {ls : List Lexeme} :
    parse ls = .ok v ↔
      ∃ t, Steps (.operand []) (ls.map Lexeme.token) t ∧ t.finish = .ok v := by
  rw [← run_eq_ok]
  cases ls with
  | nil =>
    constructor
    · intro h; cases h
    · intro h; cases h
  | cons l ls => rfl

/-- The value of a text is told by the steps along its tokens. -/
theorem evaluateExpression_eq_ok {text : String} :
    evaluateExpression text = .ok v ↔
      ∃ ts, Scans text.toList ts ∧ ∃ t, Steps (.operand []) ts t ∧ t.finish = .ok v := by
  rw [evaluateExpression, bind_eq_ok]
  constructor
  · rintro ⟨ls, hls, hparse⟩
    exact ⟨_, scans_of_scan hls, parse_eq_ok.mp hparse⟩
  · rintro ⟨ts, hts, h⟩
    obtain ⟨ls, hls, rfl⟩ := scan_of_scans hts 0
    exact ⟨ls, hls, parse_eq_ok.mpr h⟩

end Invoicing.Formula
