import Invoicing.Json.Printer
import Invoicing.Json.Reader

/-!
# Values are read back

The machine that reads lexemes is driven by the lexemes of a value to that
value: wherever a value is due, its lexemes leave the machine as if it had been
given at once. Items and members are given one after the other, those before
them waiting in the frame.
-/
namespace Invoicing.Json

variable {v : Json} {items : List Json} {members : List (Option String × Json)}
  {outer : List Frame} {ts : List Token}

/-- What holds of an array if it holds of its items, and of an object if it holds of the values of
its members, holds of every value. -/
theorem induction {p : Json → Prop} (null : p .null) (bool : ∀ b, p (.bool b))
    (number : ∀ n, p (.number n)) (string : ∀ s, p (.string s))
    (array : ∀ items, (∀ v ∈ items, p v) → p (.array items))
    (object : ∀ members : List (Option String × Json), (∀ m ∈ members, p m.2) → p (.object members))
    (v : Json) : p v := by
  match v with
  | .null => exact null
  | .bool b => exact bool b
  | .number n => exact number n
  | .string s => exact string s
  | .array items =>
    exact array items fun v hv => induction null bool number string array object v
  | .object members =>
    exact object members fun m hm => induction null bool number string array object m.2
termination_by v
decreasing_by
  · have := List.sizeOf_lt_of_mem hv
    simp only [Json.array.sizeOf_spec]
    omega
  · have := List.sizeOf_lt_of_mem hm
    obtain ⟨k, w⟩ := m
    simp only [Json.object.sizeOf_spec, Prod.mk.sizeOf_spec] at *
    omega

/-- Where a value is due, its lexemes give it. -/
def Given (v : Json) : Prop :=
  ∀ outer ts, (State.value outer).run (v.tokens ++ ts) = (State.give v outer).run ts

/-- The items that are still to come in an array. -/
theorem run_itemTokens (done : List Json) (hv : Given v) (hitems : ∀ w ∈ items, Given w) :
    (State.value (.items done :: outer)).run (itemTokens (v :: items) ++ .rightBracket :: ts) =
      (State.give (.array (done.reverse ++ v :: items)) outer).run ts := by
  induction items generalizing v done with
  | nil =>
    rw [itemTokens, hv]
    simp [State.give, State.step]
  | cons w items ih =>
    obtain ⟨hw, hitems⟩ := List.forall_mem_cons.mp hitems
    rw [itemTokens, List.append_assoc, hv, List.cons_append]
    simpa [State.give, State.step] using ih (v :: done) hw hitems

/-- The members that are still to come in an object. -/
theorem run_memberTokens (before : List (Option String × Json)) (key : Option String)
    (hv : Given v) (hmembers : ∀ m ∈ members, Given m.2) :
    (State.nextKey before outer).run (memberTokens ((key, v) :: members) ++ .rightBrace :: ts) =
      (State.give (.object (before.reverse ++ (key, v) :: members)) outer).run ts := by
  induction members generalizing v key before with
  | nil =>
    rw [memberTokens]
    have h := hv (.members before key :: outer) (.rightBrace :: ts)
    simpa [State.give, State.step] using h
  | cons m members ih =>
    obtain ⟨hm, hmembers⟩ := List.forall_mem_cons.mp hmembers
    have h := hv (.members before key :: outer)
      (.comma :: (memberTokens (m :: members) ++ .rightBrace :: ts))
    have hrest := ih ((key, v) :: before) m.1 hm hmembers
    rw [memberTokens]
    simpa [State.give, State.step, hrest] using h

/-- The first lexeme of an item does not close the array. -/
theorem run_firstItem (v : Json) (items : List Json) :
    (State.firstItem outer).run (itemTokens (v :: items) ++ ts) =
      (State.value (.items [] :: outer)).run (itemTokens (v :: items) ++ ts) := by
  cases items with
  | nil => cases v <;> rw [itemTokens, tokens] <;> rfl
  | cons w items => cases v <;> rw [itemTokens, tokens] <;> rfl

/-- The first member of an object is read as the next one would be. -/
theorem run_firstKey (m : Option String × Json) (members : List (Option String × Json)) :
    (State.firstKey outer).run (memberTokens (m :: members) ++ ts) =
      (State.nextKey [] outer).run (memberTokens (m :: members) ++ ts) := by
  cases members <;> rfl

theorem given (v : Json) : Given v := by
  induction v using induction with
  | null => intro outer ts; rfl
  | bool b => intro outer ts; rfl
  | number n => intro outer ts; rfl
  | string s => intro outer ts; rfl
  | array items ih =>
    intro outer ts
    cases items with
    | nil => rfl
    | cons v items =>
      obtain ⟨hv, hitems⟩ := List.forall_mem_cons.mp ih
      rw [tokens, List.cons_append, List.append_assoc, List.singleton_append]
      exact (run_firstItem v items).trans (run_itemTokens [] hv hitems)
  | object members ih =>
    intro outer ts
    cases members with
    | nil => rfl
    | cons m members =>
      obtain ⟨hm, hmembers⟩ := List.forall_mem_cons.mp ih
      rw [tokens, List.cons_append, List.append_assoc, List.singleton_append]
      exact (run_firstKey m members).trans (run_memberTokens [] m.1 hm hmembers)

/-- Every value is read back from its lexemes. -/
theorem ofTokens?_tokens (v : Json) : ofTokens? v.tokens = some v := by
  have h := given v [] []
  rw [List.append_nil] at h
  rw [ofTokens?, h]
  rfl

end Invoicing.Json
