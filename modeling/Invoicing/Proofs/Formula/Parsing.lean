import Invoicing.Proofs.Formula.Grammar
import Invoicing.Proofs.Formula.Machine

/-!
# What the evaluator accepts

The frames that wait are the left ends of unfinished phrases, and what the
evaluator holds is the value of the product that ends at the last token. So a
text that it accepts is a sum of that value. Along a sum whose operations all
succeed and which nests within the limit, in turn, no step can fail.
-/
namespace Invoicing.Formula

variable {k : Category} {op : Additive} {v : Decimal} {s t : State} {ts : List Token}
  {pending waiting : List Frame}

/-- A phrase with a value, not nested too deep below these frames. -/
structure Stands (t : Phrase k) (v : Decimal) (pending : List Frame) : Prop where
  value : t.value = .ok v
  nesting : depth pending + t.nesting ≤ maxNesting

theorem stands_product {p : Phrase .product} :
    Stands (.product p) v pending ↔ Stands p v pending :=
  ⟨fun h => ⟨h.value, h.nesting⟩, fun h => ⟨h.value, h.nesting⟩⟩

theorem stands_unary {u : Phrase .unary} : Stands (.unary u) v pending ↔ Stands u v pending :=
  ⟨fun h => ⟨h.value, h.nesting⟩, fun h => ⟨h.value, h.nesting⟩⟩

theorem stands_primary {a : Phrase .primary} :
    Stands (.primary a) v pending ↔ Stands a v pending :=
  ⟨fun h => ⟨h.value, h.nesting⟩, fun h => ⟨h.value, h.nesting⟩⟩

theorem stands_number {a : Decimal} :
    Stands (.number a) v pending ↔ a = v ∧ depth pending ≤ maxNesting := by
  constructor
  · intro h
    have hv := h.value
    rw [Phrase.value, Except.ok.injEq] at hv
    exact ⟨hv, h.nesting⟩
  · intro h
    exact ⟨congrArg Except.ok h.1, h.2⟩

theorem stands_sign {u : Phrase .unary} :
    Stands (.sign op u) v pending ↔ ∃ a, Stands u a (.sign op :: pending) ∧ op.sign a = v := by
  constructor
  · intro h
    obtain ⟨a, ha, hv⟩ := Phrase.value_sign.mp h.value
    have hn := h.nesting
    rw [Phrase.nesting] at hn
    exact ⟨a, ⟨ha, by rw [depth_sign]; omega⟩, hv⟩
  · intro ⟨a, h, hv⟩
    have hn := h.nesting
    rw [depth_sign] at hn
    refine ⟨Phrase.value_sign.mpr ⟨a, h.value, hv⟩, ?_⟩
    rw [Phrase.nesting]
    omega

theorem stands_group {t : Phrase .sum} :
    Stands (.group t) v pending ↔ Stands t v (.group :: pending) := by
  constructor
  · intro h
    have hn := h.nesting
    rw [Phrase.nesting] at hn
    exact ⟨h.value, by rw [depth_group]; omega⟩
  · intro h
    have hn := h.nesting
    rw [depth_group] at hn
    refine ⟨h.value, ?_⟩
    rw [Phrase.nesting]
    omega

/-- The left operand stands where the phrase does and waits while the right one is read. -/
theorem stands_multiplication {op : Multiplicative} {p : Phrase .product} {u : Phrase .unary} :
    Stands (.multiplication p op u) v pending ↔
      ∃ a, Stands p a pending ∧ ∃ b, Stands u b (.factor a op :: pending) ∧
        op.apply a b = .ok v := by
  constructor
  · intro h
    obtain ⟨a, ha, b, hb, hv⟩ := Phrase.value_multiplication.mp h.value
    have hn := h.nesting
    rw [Phrase.nesting] at hn
    exact ⟨a, ⟨ha, by omega⟩, b, ⟨hb, by rw [depth_factor]; omega⟩, hv⟩
  · intro ⟨a, hp, b, hu, hv⟩
    have hn := hp.nesting
    have hn' := hu.nesting
    rw [depth_factor] at hn'
    refine ⟨Phrase.value_multiplication.mpr ⟨a, hp.value, b, hu.value, hv⟩, ?_⟩
    rw [Phrase.nesting]
    omega

theorem stands_addition {t : Phrase .sum} {p : Phrase .product} :
    Stands (.addition t op p) v pending ↔
      ∃ a, Stands t a pending ∧ ∃ b, Stands p b (.term a op :: pending) ∧
        op.apply a b = .ok v := by
  constructor
  · intro h
    obtain ⟨a, ha, b, hb, hv⟩ := Phrase.value_addition.mp h.value
    have hn := h.nesting
    rw [Phrase.nesting] at hn
    exact ⟨a, ⟨ha, by omega⟩, b, ⟨hb, by rw [depth_term]; omega⟩, hv⟩
  · intro ⟨a, ht, b, hp, hv⟩
    have hn := ht.nesting
    have hn' := hp.nesting
    rw [depth_term] at hn'
    refine ⟨Phrase.value_addition.mpr ⟨a, ht.value, b, hp.value, hv⟩, ?_⟩
    rw [Phrase.nesting]
    omega

/-- The tokens that leave these frames waiting. -/
inductive Opened : List Token → List Frame → Prop where
  | nil : Opened [] []
  | sign {ts : List Token} {op : Additive} {pending : List Frame} (h : Opened ts pending)
    (hd : depth pending < maxNesting) : Opened (ts ++ [.additive op]) (.sign op :: pending)
  | group {ts : List Token} {pending : List Frame} (h : Opened ts pending)
    (hd : depth pending < maxNesting) : Opened (ts ++ [.leftParen]) (.group :: pending)
  | term {ts : List Token} {v : Decimal} {op : Additive} {pending : List Frame}
    (h : Opened ts pending) (hc : Closed pending) (t : Phrase .sum) (ht : Stands t v pending) :
    Opened (ts ++ t.tokens ++ [.additive op]) (.term v op :: pending)
  | factor {ts : List Token} {v : Decimal} {op : Multiplicative} {pending : List Frame}
    (h : Opened ts pending) (hc : Settled pending) (p : Phrase .product)
    (hp : Stands p v pending) :
    Opened (ts ++ p.tokens ++ [.multiplicative op]) (.factor v op :: pending)

/-- The tokens that lead to a state. -/
def Reads (ts : List Token) : State → Prop
  | .operand pending => Opened ts pending
  | .operator v pending =>
    ∃ us, ∃ p : Phrase .product, ts = us ++ p.tokens ∧ Opened us pending ∧ Settled pending ∧
      Stands p v pending

theorem Opened.depth_le (h : Opened ts pending) : depth pending ≤ maxNesting := by
  induction h with
  | nil => exact Nat.zero_le _
  | sign _ hd => rw [depth_sign]; exact hd
  | group _ hd => rw [depth_group]; exact hd
  | term _ _ _ _ ih => rw [depth_term]; exact ih
  | factor _ _ _ _ ih => rw [depth_factor]; exact ih

theorem Opened.reads (h : Opened ts pending) (hset : Settled pending) {u : Phrase .unary}
    (hu : Stands u v pending) : Reads (ts ++ u.tokens) (.operator v pending) :=
  ⟨ts, .unary u, rfl, h, hset, stands_unary.mpr hu⟩

/-- An operand completes every phrase that waits for nothing else. -/
theorem reads_supply (h : Opened ts pending) {u : Phrase .unary} (hu : Stands u v pending)
    (hs : supply v pending = .ok s) : Reads (ts ++ u.tokens) s := by
  induction h generalizing u v with
  | nil => cases hs; exact Opened.nil.reads trivial hu
  | group h hd => cases hs; exact (h.group hd).reads trivial hu
  | term h hc t ht => cases hs; exact (h.term hc t ht).reads trivial hu
  | sign h hd ih =>
    have hread := ih (stands_sign.mpr ⟨v, hu, rfl⟩) hs
    rw [Phrase.tokens] at hread
    rw [List.append_assoc]
    exact hread
  | factor h hset p hp =>
    obtain ⟨b, hb, rfl⟩ := supply_factor.mp hs
    refine ⟨_, .multiplication p _ u, ?_, h, hset, stands_multiplication.mpr ⟨_, hp, v, hu, hb⟩⟩
    simp only [Phrase.tokens, List.append_assoc, List.singleton_append]

theorem reads_collect {a : Decimal} (h : Reads ts (.operator a waiting))
    (hc : collect a waiting = .ok (v, pending)) :
    ∃ us, ∃ t : Phrase .sum, ts = us ++ t.tokens ∧ Opened us pending ∧ Closed pending ∧
      Stands t v pending := by
  obtain ⟨us, p, rfl, ho, hset, hp⟩ := h
  cases ho with
  | nil =>
    cases hc
    exact ⟨[], .product p, rfl, .nil, trivial, stands_product.mpr hp⟩
  | group ho hd =>
    cases hc
    exact ⟨_, .product p, rfl, ho.group hd, trivial, stands_product.mpr hp⟩
  | sign => exact hset.elim
  | factor => exact hset.elim
  | term ho hclosed t ht =>
    obtain ⟨b, hb, hpair⟩ := collect_term.mp hc
    cases hpair
    refine ⟨_, .addition t _ p, ?_, ho, hclosed, stands_addition.mpr ⟨_, ht, a, hp, hb⟩⟩
    simp only [Phrase.tokens, List.append_assoc, List.singleton_append]

theorem Step.reads {token : Token} (h : Step s token t) (hs : Reads ts s) :
    Reads (ts ++ [token]) t := by
  cases h with
  | @number v pending _ h =>
    have hn : Stands (.primary (.number v)) v pending :=
      stands_primary.mpr (stands_number.mpr ⟨rfl, Opened.depth_le hs⟩)
    exact reads_supply hs hn h
  | group hd => exact Opened.group hs hd
  | sign hd => exact Opened.sign hs hd
  | factor =>
    obtain ⟨us, p, rfl, ho, hset, hp⟩ := hs
    exact ho.factor hset p hp
  | term hc =>
    obtain ⟨us, t, rfl, ho, hclosed, ht⟩ := reads_collect hs hc
    exact ho.term hclosed t ht
  | close hc h =>
    obtain ⟨us, t, rfl, ho, -, ht⟩ := reads_collect hs hc
    cases ho with
    | group ho hd =>
      have hread := reads_supply ho (stands_primary.mpr (stands_group.mpr ht)) h
      simp only [Phrase.tokens] at hread
      simpa only [List.append_assoc, List.cons_append, List.nil_append] using hread

theorem Steps.reads {us : List Token} (h : Steps s us t) (hs : Reads ts s) :
    Reads (ts ++ us) t := by
  induction h generalizing ts with
  | nil => rw [List.append_nil]; exact hs
  | cons h _ ih =>
    have hread := ih (h.reads hs)
    rw [List.append_assoc] at hread
    exact hread

/-- Where reading a phrase of this value below these frames leads. -/
def Leads (ts : List Token) (v : Decimal) (pending : List Frame) : Category → Prop
  | .sum => Closed pending →
    ∃ a waiting, Steps (.operand pending) ts (.operator a waiting) ∧
      collect a waiting = .ok (v, pending)
  | .product => Settled pending → Steps (.operand pending) ts (.operator v pending)
  | .unary | .primary => ∀ s, supply v pending = .ok s → Steps (.operand pending) ts s

theorem Stands.leads {t : Phrase k} (h : Stands t v pending) : Leads t.tokens v pending k := by
  induction t generalizing v pending with
  | number value =>
    intro s hs
    obtain ⟨rfl, -⟩ := stands_number.mp h
    exact (Step.number hs).steps
  | primary a ih => exact ih (stands_primary.mp h)
  | sign op u ih =>
    intro s hs
    obtain ⟨a, hu, rfl⟩ := stands_sign.mp h
    have hd := hu.nesting
    rw [depth_sign] at hd
    exact .cons (.sign (by omega)) (ih hu s hs)
  | group t ih =>
    intro s hs
    have ht := stands_group.mp h
    have hd := ht.nesting
    rw [depth_group] at hd
    obtain ⟨a, waiting, hsteps, hc⟩ := ih ht trivial
    exact .cons (.group (by omega)) (hsteps.append (Step.close hc hs).steps)
  | unary u ih =>
    intro hset
    exact ih (stands_unary.mp h) _ (supply_of_settled hset)
  | multiplication p op u ihp ihu =>
    intro hset
    obtain ⟨a, hp, b, hu, hv⟩ := stands_multiplication.mp h
    have hsteps := ihu hu _ (supply_factor.mpr ⟨v, hv, rfl⟩)
    exact (ihp hp hset).append (.cons .factor hsteps)
  | product p ih =>
    intro hclosed
    exact ⟨v, pending, ih (stands_product.mp h) hclosed.settled, collect_of_closed hclosed⟩
  | addition t op p iht ihp =>
    intro hclosed
    obtain ⟨a, ht, b, hp, hv⟩ := stands_addition.mp h
    obtain ⟨c, waiting, hsteps, hc⟩ := iht ht hclosed
    exact ⟨b, _, hsteps.append (.cons (.term hc) (ihp hp trivial)),
      collect_term.mpr ⟨v, hv, rfl⟩⟩

/-- The evaluator gives a value to the sums within the nesting limit, and to each its own. -/
theorem parse_eq_ok_iff (ls : List Lexeme) (v : Decimal) :
    parse ls = .ok v ↔
      ∃ t : Phrase .sum, t.tokens = ls.map Lexeme.token ∧ t.nesting ≤ maxNesting ∧
        t.value = .ok v := by
  have hparse : parse ls = .ok v ↔ (State.operand []).run ls = .ok v := by
    cases ls with
    | nil =>
      constructor
      · intro h; cases h
      · intro h; cases h
    | cons l ls => rfl
  rw [hparse, run_eq_ok]
  constructor
  · intro ⟨s, hsteps, hfinish⟩
    obtain ⟨a, waiting, rfl, hc⟩ := finish_eq_ok.mp hfinish
    have hreads : Reads ([] ++ ls.map Lexeme.token) (.operator a waiting) :=
      hsteps.reads Opened.nil
    obtain ⟨us, t, htokens, ho, -, ht⟩ := reads_collect hreads hc
    cases ho
    have hn := ht.nesting
    rw [depth_nil] at hn
    exact ⟨t, htokens.symm, by omega, ht.value⟩
  · intro ⟨t, htokens, hn, hv⟩
    have ht : Stands t v [] := ⟨hv, by rw [depth_nil]; omega⟩
    obtain ⟨a, waiting, hsteps, hc⟩ := ht.leads trivial
    rw [htokens] at hsteps
    exact ⟨_, hsteps, finish_eq_ok.mpr ⟨a, waiting, rfl, hc⟩⟩

end Invoicing.Formula
