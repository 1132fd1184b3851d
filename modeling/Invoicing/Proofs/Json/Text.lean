import Invoicing.Proofs.Json.Reading

/-!
# Values and their texts

Each lexeme but a number is read back from the front of a text, whatever comes
behind it; a string is read to the codes of its characters, and from these to
the characters again. So a value without numbers is read back from its text.
-/
namespace Invoicing.Json

open Text (hexValue?)

variable {t : Token} {ts : List Token} {n : Nat}

theorem hexValue?_digitChar (h : n < 16) : hexValue? (Nat.digitChar n) = some n := by
  have hall : ∀ n < 16, hexValue? (Nat.digitChar n) = some n := by decide
  exact hall n h

theorem unit?_control (h : n < 32) :
    unit? '0' '0' (Nat.digitChar (n / 16)) (Nat.digitChar (n % 16)) = some n := by
  have hvalue : ((0 * 16 + 0) * 16 + n / 16) * 16 + n % 16 = n := by omega
  have hzero : hexValue? '0' = some 0 := rfl
  simp only [unit?, hzero, hexValue?_digitChar (by omega : n / 16 < 16),
    hexValue?_digitChar (Nat.mod_lt n (by decide)), Option.bind_eq_bind, Option.bind_some, hvalue]
  rfl

/-- A character is read from its escaped form as its code. -/
theorem scanCodes_escape (c : Char) (cs : List Char) :
    scanCodes (escape c ++ cs) =
      (scanCodes cs).map fun (codes, rest) => (c.toNat :: codes, rest) := by
  unfold escape
  split
  · rename_i hquote
    subst hquote
    cases h : scanCodes cs <;> simp [scanCodes, escaped?, h]
  split
  · rename_i hbackslash
    subst hbackslash
    cases h : scanCodes cs <;> simp [scanCodes, escaped?, h]
  split
  · rename_i hcontrol
    cases h : scanCodes cs <;> simp [scanCodes, unit?_control hcontrol, h]
  · rename_i hquote hbackslash hcontrol
    have hplain : ¬ (c = '\\' ∨ c.toNat < 0x20) := by
      rintro (h | h)
      · exact hbackslash h
      · exact hcontrol h
    rw [List.singleton_append, scanCodes]
    · rw [if_neg hplain]
      cases h : scanCodes cs <;> simp
    · intro h; exact hquote h
    · intro _ _ _ _ _ h; exact absurd h hbackslash
    · intro _ _ h; exact absurd h hbackslash

theorem scanCodes_quoted (cs rest : List Char) :
    scanCodes (cs.flatMap escape ++ '"' :: rest) = some (cs.map Char.toNat, rest) := by
  induction cs with
  | nil => rfl
  | cons c cs ih =>
    rw [List.flatMap_cons, List.append_assoc, scanCodes_escape, ih]
    rfl

/-- No character is a surrogate. -/
theorem not_surrogate (c : Char) :
    isHighSurrogate c.toNat = false ∧ isLowSurrogate c.toNat = false := by
  have hvalid : c.toNat < 0xD800 ∨ 0xDFFF < c.toNat ∧ c.toNat < 0x110000 := c.valid
  simp only [isHighSurrogate, isLowSurrogate, Bool.and_eq_false_iff, decide_eq_false_iff_not]
  omega

theorem spell?_toNat (cs : List Char) : spell? (cs.map Char.toNat) = some cs := by
  induction cs with
  | nil => rfl
  | cons c cs ih =>
    obtain ⟨hhigh, hlow⟩ := not_surrogate c
    rw [List.map_cons, spell?.eq_def]
    simp only [hhigh, hlow, ih, Bool.false_eq_true, if_false, Option.map_some, Char.ofNat_toNat]

/-- A lexeme that is read back from its text, which starts with no white space. -/
structure Legible (t : Token) : Prop where
  lexeme : ∃ c cs, t.lexeme = c :: cs ∧ isSpace c = false
  next (rest : List Char) : Token.next? (t.lexeme ++ rest) = some (t, rest)

theorem legible_text (s : String) : Legible (.scalar (.string (some s))) where
  lexeme := ⟨'"', _, rfl, rfl⟩
  next := by
    intro rest
    have hcodes := scanCodes_quoted s.toList rest
    rw [Token.lexeme, quoted, List.cons_append, List.append_assoc, List.singleton_append,
      Token.next?, hcodes]
    simp only [Option.map_some, spell?_toNat, String.ofList_toList]

theorem legible_bool (b : Bool) : Legible (.scalar (.bool b)) := by
  cases b with
  | false => exact ⟨⟨'f', _, rfl, rfl⟩, fun _ => rfl⟩
  | true => exact ⟨⟨'t', _, rfl, rfl⟩, fun _ => rfl⟩

theorem legible_null : Legible (.scalar .null) :=
  ⟨⟨'n', _, rfl, rfl⟩, fun _ => rfl⟩

/-- Lexemes that are each read back are read back one after the other. -/
theorem scan_lexemes (h : ∀ t ∈ ts, Legible t) :
    Token.scan (ts.flatMap Token.lexeme) = some ts := by
  induction ts with
  | nil => rw [List.flatMap_nil, Token.scan]
  | cons t ts ih =>
    obtain ⟨ht, hts⟩ := List.forall_mem_cons.mp h
    obtain ⟨c, cs, hlexeme, hspace⟩ := ht.lexeme
    have hnext := ht.next (ts.flatMap Token.lexeme)
    rw [List.flatMap_cons]
    rw [hlexeme, List.cons_append] at hnext ⊢
    rw [Token.scan, hspace, if_neg Bool.false_ne_true]
    split
    · rename_i hnone
      cases hnext.symm.trans hnone
    · rename_i hsome
      cases hnext.symm.trans hsome
      rw [ih hts]
      rfl

/-- A value whose lexemes are all read back. -/
def Spelled (v : Json) : Prop :=
  ∀ t ∈ v.tokens, Legible t

theorem spelled_text (s : String) : Spelled (text s) :=
  List.forall_mem_singleton.mpr (legible_text s)

theorem spelled_bool (b : Bool) : Spelled (bool b) :=
  List.forall_mem_singleton.mpr (legible_bool b)

theorem spelled_null : Spelled null :=
  List.forall_mem_singleton.mpr legible_null

/-- The lexemes between and around values. -/
theorem legible_punctuation (h : ∀ v, t ≠ .scalar v) : Legible t := by
  cases t with
  | scalar v => exact absurd rfl (h v)
  | leftBrace => exact ⟨⟨_, _, rfl, rfl⟩, fun _ => rfl⟩
  | rightBrace => exact ⟨⟨_, _, rfl, rfl⟩, fun _ => rfl⟩
  | leftBracket => exact ⟨⟨_, _, rfl, rfl⟩, fun _ => rfl⟩
  | rightBracket => exact ⟨⟨_, _, rfl, rfl⟩, fun _ => rfl⟩
  | comma => exact ⟨⟨_, _, rfl, rfl⟩, fun _ => rfl⟩
  | colon => exact ⟨⟨_, _, rfl, rfl⟩, fun _ => rfl⟩

theorem legible_itemTokens {items : List Json} (h : ∀ v ∈ items, Spelled v) :
    ∀ t ∈ itemTokens items, Legible t := by
  induction items with
  | nil => exact List.forall_mem_nil _
  | cons v items ih =>
    obtain ⟨hv, hitems⟩ := List.forall_mem_cons.mp h
    cases items with
    | nil => exact hv
    | cons w items =>
      rw [itemTokens, List.forall_mem_append, List.forall_mem_cons]
      exact ⟨hv, legible_punctuation (by simp), ih hitems⟩

theorem spelled_array {items : List Json} (h : ∀ v ∈ items, Spelled v) : Spelled (array items) := by
  rw [Spelled, tokens, List.forall_mem_cons, List.forall_mem_append, List.forall_mem_singleton]
  exact ⟨legible_punctuation (by simp), legible_itemTokens h, legible_punctuation (by simp)⟩

theorem legible_memberTokens {members : List (String × Json)} (h : ∀ m ∈ members, Spelled m.2) :
    ∀ t ∈ memberTokens (members.map fun m => (some m.1, m.2)), Legible t := by
  induction members with
  | nil => exact List.forall_mem_nil _
  | cons m members ih =>
    obtain ⟨hm, hmembers⟩ := List.forall_mem_cons.mp h
    cases members with
    | nil =>
      rw [List.map_cons, List.map_nil, memberTokens, List.forall_mem_cons, List.forall_mem_cons]
      exact ⟨legible_text m.1, legible_punctuation (by simp), hm⟩
    | cons n members =>
      rw [List.map_cons, List.map_cons, memberTokens, List.forall_mem_cons, List.forall_mem_cons,
        List.forall_mem_append, List.forall_mem_cons]
      exact ⟨legible_text m.1, legible_punctuation (by simp), hm, legible_punctuation (by simp),
        ih hmembers⟩

theorem spelled_record {members : List (String × Json)} (h : ∀ m ∈ members, Spelled m.2) :
    Spelled (record members) := by
  rw [Spelled, record, tokens, List.forall_mem_cons, List.forall_mem_append,
    List.forall_mem_singleton]
  exact ⟨legible_punctuation (by simp), legible_memberTokens h, legible_punctuation (by simp)⟩

/-- A value that is spelled is read back from its text. -/
theorem ofText?_toText {v : Json} (h : Spelled v) : ofText? v.toText = some v := by
  rw [ofText?, toText, String.toList_ofList, scan_lexemes h]
  exact ofTokens?_tokens v

end Invoicing.Json
