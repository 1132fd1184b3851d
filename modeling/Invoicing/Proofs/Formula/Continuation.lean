import Invoicing.Proofs.Failure
import Invoicing.Proofs.Formula.Parsing

/-!
# The first token that cannot stand

What may come next in an expression is told by two things: whether an operand or
an operator has to come, and how many parentheses are open. Tokens that lead
somewhere can always be completed, since the frames that wait are left ends of
unfinished phrases; and a token that is refused cannot be read along any
expression. So a syntax error names the earliest token it could name.
-/
namespace Invoicing.Formula

variable {k : Category} {op : Additive} {v : Decimal} {s t : State} {ts us : List Token}
  {token : Token} {pending waiting : List Frame} {l : Lexeme} {ls : List Lexeme} {e : FormulaError}

/-- What has to come next, with this many parentheses open. -/
inductive Expected where
  | operand (groups : Nat)
  | operator (groups : Nat)
  deriving DecidableEq

/-- What has to come behind a token, if the token can stand. -/
def Expected.next? : Expected → Token → Option Expected
  | .operand groups, .number _ => some (.operator groups)
  | .operand groups, .leftParen => some (.operand (groups + 1))
  | .operand groups, .additive _ => some (.operand groups)
  | .operator groups, .additive _ => some (.operand groups)
  | .operator groups, .multiplicative _ => some (.operand groups)
  | .operator (groups + 1), .rightParen => some (.operator groups)
  | _, _ => none

/-- What has to come behind some tokens, if all of them can stand. -/
def Expected.after? (x : Expected) (ts : List Token) : Option Expected :=
  ts.foldlM Expected.next? x

theorem Expected.after?_append (x : Expected) (ts us : List Token) :
    x.after? (ts ++ us) = (x.after? ts).bind fun y => y.after? us :=
  List.foldlM_append

/-- Along a phrase every token can stand, and an operator has to come behind it. -/
theorem Phrase.after?_tokens (t : Phrase k) (groups : Nat) :
    (Expected.operand groups).after? t.tokens = some (.operator groups) := by
  induction t generalizing groups with
  | number value => rfl
  | primary a ih => exact ih groups
  | unary u ih => exact ih groups
  | product p ih => exact ih groups
  | sign op u ih => exact ih groups
  | group t ih =>
    have hbody := Expected.after?_append (.operand (groups + 1)) t.tokens [.rightParen]
    rw [ih (groups + 1)] at hbody
    exact hbody
  | multiplication p op u ihp ihu =>
    rw [tokens, Expected.after?_append, ihp groups]
    exact ihu groups
  | addition t op p iht ihp =>
    rw [tokens, Expected.after?_append, iht groups]
    exact ihp groups

/-- How many parentheses are open. -/
def openGroups (pending : List Frame) : Nat := pending.count .group

@[simp] theorem openGroups_nil : openGroups [] = 0 := rfl

@[simp] theorem openGroups_group : openGroups (.group :: pending) = openGroups pending + 1 :=
  List.count_cons_self

@[simp] theorem openGroups_sign : openGroups (.sign op :: pending) = openGroups pending :=
  List.count_cons_of_ne (by simp)

@[simp] theorem openGroups_term : openGroups (.term v op :: pending) = openGroups pending :=
  List.count_cons_of_ne (by simp)

@[simp] theorem openGroups_factor {op : Multiplicative} :
    openGroups (.factor v op :: pending) = openGroups pending :=
  List.count_cons_of_ne (by simp)

/-- What has to come next in a state of the evaluator. -/
def State.expected : State → Expected
  | .operand pending => .operand (openGroups pending)
  | .operator _ pending => .operator (openGroups pending)

theorem expected_supply (h : supply v pending = .ok s) :
    s.expected = .operator (openGroups pending) := by
  induction pending generalizing v with
  | nil => cases h; rfl
  | cons frame pending ih =>
    cases frame with
    | sign op => rw [openGroups_sign]; exact ih h
    | factor a op =>
      obtain ⟨b, -, rfl⟩ := supply_factor.mp h
      rw [openGroups_factor]
      rfl
    | group => cases h; rfl
    | term a op => cases h; rfl

theorem openGroups_collect {a : Decimal} (h : collect a waiting = .ok (v, pending)) :
    openGroups pending = openGroups waiting := by
  unfold collect at h
  split at h
  · obtain ⟨b, -, h⟩ := map_eq_ok.mp h
    cases h
    exact openGroups_term.symm
  · cases h
    rfl

/-- A step reads a token that can stand. -/
theorem Step.next? (h : Step s token t) : s.expected.next? token = some t.expected := by
  cases h with
  | number h => rw [expected_supply h]; rfl
  | group => simp [State.expected, Expected.next?]
  | sign => simp [State.expected, Expected.next?]
  | factor => simp [State.expected, Expected.next?]
  | term hc => simp [State.expected, Expected.next?, openGroups_collect hc]
  | close hc h =>
    have hopen := openGroups_collect hc
    rw [openGroups_group] at hopen
    rw [expected_supply h, State.expected, ← hopen]
    rfl

theorem Steps.after? (h : Steps s ts t) : s.expected.after? ts = some t.expected := by
  induction h with
  | nil => rfl
  | cons h _ ih =>
    rw [Expected.after?, List.foldlM_cons, h.next?]
    exact ih

/-- Some expression within the nesting limit begins with these tokens. -/
def Begins (ts : List Token) : Prop :=
  ∃ t : Phrase .sum, t.nesting ≤ maxNesting ∧ ts <+: t.tokens

/-- Every phrase of this category that is not nested too deep can come behind these tokens. -/
def Admits (ts : List Token) (pending : List Frame) (k : Category) : Prop :=
  ∀ t : Phrase k, depth pending + t.nesting ≤ maxNesting → Begins (ts ++ t.tokens)

theorem Admits.product (h : Admits ts pending .sum) : Admits ts pending .product :=
  fun p hp => h (.product p) hp

theorem Admits.unary (h : Admits ts pending .product) : Admits ts pending .unary :=
  fun u hu => h (.unary u) hu

/-- Behind tokens that leave frames waiting an operand can come, a whole product where none of it
has been read, and a whole sum where none of that has been read. -/
theorem Opened.admits (h : Opened ts pending) :
    Admits ts pending .unary ∧ (Settled pending → Admits ts pending .product) ∧
      (Closed pending → Admits ts pending .sum) := by
  induction h with
  | nil =>
    have hsum : Admits [] [] .sum := fun t ht =>
      ⟨t, by rwa [depth_nil, Nat.zero_add] at ht, List.prefix_rfl⟩
    exact ⟨hsum.product.unary, fun _ => hsum.product, fun _ => hsum⟩
  | @group ts pending _ _ ih =>
    have hsum : Admits (ts ++ [.leftParen]) (.group :: pending) .sum := by
      intro t ht
      rw [depth_group] at ht
      have hgroup : depth pending + (Phrase.primary (.group t)).nesting ≤ maxNesting := by
        simp only [Phrase.nesting]
        omega
      obtain ⟨whole, hnesting, hprefix⟩ := ih.1 (.primary (.group t)) hgroup
      refine ⟨whole, hnesting, .trans ⟨[.rightParen], ?_⟩ hprefix⟩
      simp [Phrase.tokens]
    exact ⟨hsum.product.unary, fun _ => hsum.product, fun _ => hsum⟩
  | @sign ts op pending _ _ ih =>
    refine ⟨fun u hu => ?_, fun h => h.elim, fun h => h.elim⟩
    rw [depth_sign] at hu
    have hsign : depth pending + (Phrase.sign op u).nesting ≤ maxNesting := by
      rw [Phrase.nesting]
      omega
    have hbegins := ih.1 (.sign op u) hsign
    rwa [Phrase.tokens, List.append_cons] at hbegins
  | @term ts a op pending _ hclosed left hleft ih =>
    have hproduct : Admits (ts ++ left.tokens ++ [.additive op]) (.term a op :: pending)
        .product := by
      intro p hp
      have hn := hleft.nesting
      rw [depth_term] at hp
      have haddition : depth pending + (Phrase.addition left op p).nesting ≤ maxNesting := by
        rw [Phrase.nesting]
        omega
      have hbegins := ih.2.2 hclosed (.addition left op p) haddition
      rwa [Phrase.tokens, List.append_cons, ← List.append_assoc, ← List.append_assoc] at hbegins
    exact ⟨hproduct.unary, fun _ => hproduct, fun h => h.elim⟩
  | @factor ts a op pending _ hsettled left hleft ih =>
    refine ⟨fun u hu => ?_, fun h => h.elim, fun h => h.elim⟩
    have hn := hleft.nesting
    rw [depth_factor] at hu
    have hproduct : depth pending + (Phrase.multiplication left op u).nesting ≤ maxNesting := by
      rw [Phrase.nesting]
      omega
    have hbegins := ih.2.1 hsettled (.multiplication left op u) hproduct
    rwa [Phrase.tokens, List.append_cons, ← List.append_assoc, ← List.append_assoc] at hbegins

/-- Tokens that lead to a state can be completed, by a number where an operand has to come. -/
theorem Reads.begins (h : Reads ts s) : Begins ts := by
  cases s with
  | operand pending =>
    have hdepth : depth pending + (Phrase.primary (.number .zero)).nesting ≤ maxNesting :=
      Opened.depth_le h
    obtain ⟨t, hnesting, hprefix⟩ := (Opened.admits h).1 (.primary (.number .zero)) hdepth
    exact ⟨t, hnesting, (List.prefix_append _ _).trans hprefix⟩
  | operator v pending =>
    obtain ⟨us, p, rfl, hopened, hsettled, hp⟩ := h
    exact hopened.admits.2.1 hsettled p hp.nesting

/-- The failures of arithmetic. -/
def FormulaError.IsArithmetic (e : FormulaError) : Prop :=
  e = .divisionByZero ∨ e = .overflow

theorem isArithmetic_of_checked {x : Except Decimal.Overflow Decimal}
    (h : checked x = .error e) : e.IsArithmetic := by
  cases x with
  | ok value => cases h
  | error o => exact .inr (Except.error.inj h).symm

theorem Additive.isArithmetic_of_apply {a b : Decimal} (h : op.apply a b = .error e) :
    e.IsArithmetic := by
  cases op <;> exact isArithmetic_of_checked h

theorem Multiplicative.isArithmetic_of_apply {op : Multiplicative} {a b : Decimal}
    (h : op.apply a b = .error e) : e.IsArithmetic := by
  match op with
  | .times => exact isArithmetic_of_checked h
  | .over =>
    rw [Multiplicative.apply] at h
    split at h
    · exact .inl (Except.error.inj h).symm
    · exact isArithmetic_of_checked h

theorem isArithmetic_of_supply (h : supply v pending = .error e) : e.IsArithmetic := by
  induction pending generalizing v with
  | nil => cases h
  | cons frame pending ih =>
    cases frame with
    | sign op => exact ih h
    | factor left op => exact Multiplicative.isArithmetic_of_apply (map_eq_error.mp h)
    | group => cases h
    | term left op => cases h

theorem isArithmetic_of_collect (h : collect v pending = .error e) : e.IsArithmetic := by
  unfold collect at h
  split at h
  · exact Additive.isArithmetic_of_apply (map_eq_error.mp h)
  · cases h

theorem enter_eq_error {frame : Frame} (h : enter frame pending = .error e) :
    e = .tooDeep maxNesting := by
  unfold enter at h
  split at h
  · exact (Except.error.inj h).symm
  · cases h

/-- After a whole sum, only a parenthesis can be open. -/
theorem Reads.closed_of_collect {a : Decimal} (h : Reads ts (.operator a waiting))
    (hc : collect a waiting = .ok (v, pending)) : Closed pending := by
  obtain ⟨us, t, -, -, hclosed, -⟩ := reads_collect h hc
  exact hclosed

/-- Apart from arithmetic and nesting, a step fails on a token that cannot stand, and tells it. -/
theorem step_eq_error (hs : Reads ts s) (h : s.step l = .error e) :
    e.IsArithmetic ∨ e = .tooDeep maxNesting ∨
      e = .unexpectedToken l.token l.position ∧ s.expected.next? l.token = none := by
  obtain ⟨token, position⟩ := l
  cases s with
  | operand pending =>
    cases token with
    | number value => exact .inl (isArithmetic_of_supply h)
    | leftParen => exact .inr (.inl (enter_eq_error h))
    | additive op => exact .inr (.inl (enter_eq_error h))
    | multiplicative op => cases h; exact .inr (.inr ⟨rfl, rfl⟩)
    | rightParen => cases h; exact .inr (.inr ⟨rfl, rfl⟩)
  | operator value waiting =>
    cases token with
    | multiplicative op => cases h
    | additive op =>
      rcases bind_eq_error.mp h with hc | ⟨⟨total, pending⟩, -, h⟩
      · exact .inl (isArithmetic_of_collect hc)
      · cases h
    | number a =>
      rcases bind_eq_error.mp h with hc | ⟨⟨total, pending⟩, -, h⟩
      · exact .inl (isArithmetic_of_collect hc)
      · cases h; exact .inr (.inr ⟨rfl, rfl⟩)
    | leftParen =>
      rcases bind_eq_error.mp h with hc | ⟨⟨total, pending⟩, -, h⟩
      · exact .inl (isArithmetic_of_collect hc)
      · cases h; exact .inr (.inr ⟨rfl, rfl⟩)
    | rightParen =>
      rcases bind_eq_error.mp h with hc | ⟨⟨total, pending⟩, hc, h⟩
      · exact .inl (isArithmetic_of_collect hc)
      have hclosed := hs.closed_of_collect hc
      have hopen := openGroups_collect hc
      match pending, hclosed, h with
      | .group :: pending, _, h => exact .inl (isArithmetic_of_supply h)
      | [], _, h =>
        cases h
        rw [openGroups_nil] at hopen
        rw [State.expected, ← hopen]
        exact .inr (.inr ⟨rfl, rfl⟩)

/-- At the end, apart from arithmetic, there is an operand or a parenthesis missing. -/
theorem finish_eq_error (hs : Reads ts s) (h : s.finish = .error e) :
    e.IsArithmetic ∨ e = .unexpectedEnd ∧ s.expected ≠ .operator 0 := by
  cases s with
  | operand pending => cases h; exact .inr ⟨rfl, by simp [State.expected]⟩
  | operator value waiting =>
    rcases bind_eq_error.mp h with hc | ⟨⟨total, pending⟩, hc, h⟩
    · exact .inl (isArithmetic_of_collect hc)
    have hclosed := hs.closed_of_collect hc
    have hopen := openGroups_collect hc
    match pending, hclosed, h with
    | [], _, h => cases h
    | .group :: pending, _, h =>
      cases h
      rw [openGroups_group] at hopen
      refine .inr ⟨rfl, ?_⟩
      rw [State.expected, ← hopen]
      simp

/-- A run fails at the first lexeme on which its step fails, or at the end. -/
theorem run_eq_error (h : s.run ls = .error e) :
    (∃ n t, Steps s ((ls.take n).map Lexeme.token) t ∧
      ∃ l, ls[n]? = some l ∧ t.step l = .error e) ∨
    ∃ t, Steps s (ls.map Lexeme.token) t ∧ t.finish = .error e := by
  induction ls generalizing s with
  | nil => exact .inr ⟨s, .nil, h⟩
  | cons l ls ih =>
    rw [State.run_cons] at h
    rcases bind_eq_error.mp h with hstep | ⟨t, hstep, hrun⟩
    · exact .inl ⟨0, s, .nil, l, rfl, hstep⟩
    · have hfirst := step_eq_ok.mp hstep
      rcases ih hrun with ⟨n, u, hsteps, hfails⟩ | ⟨u, hsteps, hfinish⟩
      · exact .inl ⟨n + 1, u, .cons hfirst hsteps, hfails⟩
      · exact .inr ⟨u, .cons hfirst hsteps, hfinish⟩

/-- Where there are tokens, an evaluator runs along them. -/
theorem run_of_parse_eq_error (h : parse ls = .error e) (he : e ≠ .empty) :
    (State.operand []).run ls = .error e := by
  cases ls with
  | nil => cases h; exact absurd rfl he
  | cons l ls => exact h

/-- No expression begins with tokens of which the last one cannot stand. -/
theorem Steps.not_prefix (h : Steps (.operand []) ts s) (hrefused : s.expected.next? token = none)
    (t : Phrase .sum) : ¬ ts ++ [token] <+: t.tokens := by
  rintro ⟨rest, hrest⟩
  have hwhole := t.after?_tokens 0
  have hts : (Expected.operand 0).after? ts = some s.expected := h.after?
  rw [← hrest, Expected.after?_append, Expected.after?_append, hts, Option.bind_some,
    Expected.after?, List.foldlM_cons, hrefused] at hwhole
  cases hwhole

/-- Tokens that are not refused but fail at their end are no expression. -/
theorem Steps.ne_tokens (h : Steps (.operand []) ts s) (hmissing : s.expected ≠ .operator 0)
    (t : Phrase .sum) : t.tokens ≠ ts := by
  rintro rfl
  have hwhole := t.after?_tokens 0
  have hts : (Expected.operand 0).after? t.tokens = some s.expected := h.after?
  exact hmissing (Option.some.inj (hts.symm.trans hwhole))

/-- How an expression fails: in its arithmetic, by its nesting, on the first token that no
expression goes on with, or at its end. -/
theorem parse_eq_error (h : parse ls = .error e) (he : e ≠ .empty) :
    e.IsArithmetic ∨ e = .tooDeep maxNesting ∨
      (∃ i l, ls[i]? = some l ∧ e = .unexpectedToken l.token l.position ∧
        Begins ((ls.take i).map Lexeme.token) ∧
        ∀ t : Phrase .sum, ¬ (ls.take (i + 1)).map Lexeme.token <+: t.tokens) ∨
      e = .unexpectedEnd ∧ (∀ t : Phrase .sum, t.tokens ≠ ls.map Lexeme.token) ∧
        Begins (ls.map Lexeme.token) := by
  rcases run_eq_error (run_of_parse_eq_error h he) with
    ⟨i, s, hsteps, l, hl, hstep⟩ | ⟨s, hsteps, hfinish⟩
  · have hreads : Reads ((ls.take i).map Lexeme.token) s := hsteps.reads Opened.nil
    rcases step_eq_error hreads hstep with harithmetic | hdeep | ⟨htold, hrefused⟩
    · exact .inl harithmetic
    · exact .inr (.inl hdeep)
    · refine .inr (.inr (.inl ⟨i, l, hl, htold, hreads.begins, fun t => ?_⟩))
      rw [List.take_add_one, hl, List.map_append]
      exact hsteps.not_prefix hrefused t
  · have hreads : Reads (ls.map Lexeme.token) s := hsteps.reads Opened.nil
    rcases finish_eq_error hreads hfinish with harithmetic | ⟨hend, hmissing⟩
    · exact .inl harithmetic
    · exact .inr (.inr (.inr ⟨hend, hsteps.ne_tokens hmissing, hreads.begins⟩))

/-- An evaluator that reads a token it cannot use tells the first one that no expression goes on
with: some expression within the nesting limit begins with the tokens before it, and none at all
with those and it. One that misses something at the end has read no expression, but the beginning
of one. -/
theorem parse_blames_first_unusable (ls : List Lexeme) :
    (∀ found position, parse ls = .error (.unexpectedToken found position) →
      ∃ i, ls[i]? = some ⟨found, position⟩ ∧ Begins ((ls.take i).map Lexeme.token) ∧
        ∀ t : Phrase .sum, ¬ (ls.take (i + 1)).map Lexeme.token <+: t.tokens) ∧
    (parse ls = .error .unexpectedEnd →
      (∀ t : Phrase .sum, t.tokens ≠ ls.map Lexeme.token) ∧ Begins (ls.map Lexeme.token)) := by
  constructor
  · intro found position h
    rcases parse_eq_error h (by simp) with harithmetic | hdeep | ⟨i, l, hl, htold, hblamed⟩ | hend
    · simp [FormulaError.IsArithmetic] at harithmetic
    · cases hdeep
    · cases htold
      exact ⟨i, hl, hblamed⟩
    · cases hend.1
  · intro h
    rcases parse_eq_error h (by simp) with harithmetic | hdeep | ⟨i, l, -, htold, -⟩ | hend
    · simp [FormulaError.IsArithmetic] at harithmetic
    · cases hdeep
    · cases htold
    · exact hend.2

/-- The lexemes of `0 ** 0`. -/
def doubledOperator : List Lexeme := [
  ⟨.number .zero, 0⟩,
  ⟨.multiplicative .times, 2⟩,
  ⟨.multiplicative .times, 3⟩,
  ⟨.number .zero, 5⟩]

/-- The lexemes of `(0 + 0`. -/
def openParenthesis : List Lexeme := [
  ⟨.leftParen, 0⟩,
  ⟨.number .zero, 1⟩,
  ⟨.additive .plus, 3⟩,
  ⟨.number .zero, 5⟩]

/-- The second operator is the one that is told, since an operand could still follow the first, and
an open parenthesis is told at the end. -/
theorem parse_doubledOperator_blames :
    parse doubledOperator = .error (.unexpectedToken (.multiplicative .times) 3) ∧
      (∃ i, doubledOperator[i]? = some ⟨.multiplicative .times, 3⟩ ∧
        Begins ((doubledOperator.take i).map Lexeme.token) ∧
        ∀ t : Phrase .sum, ¬ (doubledOperator.take (i + 1)).map Lexeme.token <+: t.tokens) ∧
      parse openParenthesis = .error .unexpectedEnd ∧
      (∀ t : Phrase .sum, t.tokens ≠ openParenthesis.map Lexeme.token) ∧
      Begins (openParenthesis.map Lexeme.token) := by
  have hdoubled : parse doubledOperator = .error (.unexpectedToken (.multiplicative .times) 3) := by
    decide +kernel
  have hopen : parse openParenthesis = .error .unexpectedEnd := by decide +kernel
  exact ⟨hdoubled, (parse_blames_first_unusable doubledOperator).1 _ _ hdoubled, hopen,
    (parse_blames_first_unusable openParenthesis).2 hopen⟩

end Invoicing.Formula
