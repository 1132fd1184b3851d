import Invoicing.Formula.Lexer
import Invoicing.Proofs.Success

/-!
# The tokens of a text

A text is taken apart into white space, symbols and longest runs of digits and
points. Where it stands makes no difference to its tokens, and a symbol ends
whatever is in front of it, so two texts with a symbol between them are taken
apart each by itself.
-/
namespace Invoicing.Formula

open Text

variable {c : Char} {a b cs : List Char} {token : Token} {ts : List Token}

/-- The characters that can be taken apart, with their tokens. -/
inductive Scans : List Char → List Token → Prop where
  | nil : Scans [] []
  | blank {c : Char} {cs : List Char} {ts : List Token} (hc : isBlank c) (h : Scans cs ts) :
    Scans (c :: cs) ts
  | symbol {c : Char} {cs : List Char} {token : Token} {ts : List Token}
    (hc : Token.ofSymbol? c = some token) (h : Scans cs ts) : Scans (c :: cs) (token :: ts)
  | number {c : Char} {run rest : List Char} {value : Decimal} {ts : List Token}
    (hrun : ∀ d ∈ c :: run, isNumberChar d) (hrest : ∀ d ∈ rest.head?, ¬ isNumberChar d)
    (hvalue : Decimal.ofPlain? (c :: run) = some value) (h : Scans rest ts) :
    Scans (c :: run ++ rest) (.number value :: ts)

theorem not_isBlank_of_symbol (hc : Token.ofSymbol? c = some token) : isBlank c = false := by
  unfold Token.ofSymbol? at hc
  split at hc
  all_goals first | decide | cases hc

theorem not_isNumberChar_of_symbol (hc : Token.ofSymbol? c = some token) :
    isNumberChar c = false := by
  unfold Token.ofSymbol? at hc
  split at hc
  all_goals first | decide | cases hc

theorem not_symbol_of_isNumberChar (hc : isNumberChar c) : Token.ofSymbol? c = none := by
  cases h : Token.ofSymbol? c with
  | none => rfl
  | some token =>
    rw [not_isNumberChar_of_symbol h] at hc
    cases hc

theorem not_isBlank_of_isNumberChar (hc : isNumberChar c) : isBlank c = false := by
  have hbounds : 46 ≤ c.toNat ∧ c.toNat ≤ 57 := by
    rcases (Bool.or_eq_true _ _).mp hc with hdigit | hpoint
    · have hrange : 48 ≤ c.toNat ∧ c.toNat ≤ 57 := Char.isDigit_iff_toNat.mp hdigit
      omega
    · rw [of_decide_eq_true hpoint]
      decide
  simp only [isBlank, Bool.or_eq_false_iff, Bool.and_eq_false_iff, decide_eq_false_iff_not]
  omega

/-- A run of digits and points ends where neither comes next. -/
theorem takeWhile_run {run rest : List Char} (hrun : ∀ d ∈ run, isNumberChar d)
    (hrest : ∀ d ∈ rest.head?, ¬ isNumberChar d) :
    (run ++ rest).takeWhile isNumberChar = run := by
  rw [List.takeWhile_append_of_pos hrun]
  cases rest with
  | nil => simp
  | cons d rest => simp [List.takeWhile_cons_of_neg (hrest d rfl)]

theorem dropWhile_run {run rest : List Char} (hrun : ∀ d ∈ run, isNumberChar d)
    (hrest : ∀ d ∈ rest.head?, ¬ isNumberChar d) :
    (run ++ rest).dropWhile isNumberChar = rest := by
  rw [List.dropWhile_append_of_pos hrun]
  cases rest with
  | nil => rfl
  | cons d rest => rw [List.dropWhile_cons_of_neg (hrest d rfl)]

/-- Behind the digits and points that come first, neither comes next. -/
theorem head?_dropWhile_isNumberChar (cs : List Char) :
    ∀ d ∈ (cs.dropWhile isNumberChar).head?, ¬ isNumberChar d := by
  intro d hd
  have hnot := List.head?_dropWhile_not isNumberChar cs
  rw [hd] at hnot
  simp [hnot]

theorem scan_blank {position : Nat} (hc : isBlank c) :
    scan position (c :: cs) = scan (position + c.utf8Size) cs := by
  rw [scan, if_pos hc]

theorem scan_symbol {position : Nat} (hc : Token.ofSymbol? c = some token) :
    scan position (c :: cs) =
      (scan (position + c.utf8Size) cs).map (⟨token, position⟩ :: ·) := by
  rw [scan, not_isBlank_of_symbol hc, hc]
  rfl

theorem scan_number {position : Nat} {run rest : List Char} {value : Decimal}
    (hrun : ∀ d ∈ c :: run, isNumberChar d) (hrest : ∀ d ∈ rest.head?, ¬ isNumberChar d)
    (hvalue : Decimal.ofPlain? (c :: run) = some value) :
    scan position (c :: run ++ rest) =
      (scan (position + byteLength (c :: run)) rest).map (⟨.number value, position⟩ :: ·) := by
  have hc : isNumberChar c := hrun c List.mem_cons_self
  have htake := takeWhile_run hrun hrest
  have hdrop := dropWhile_run hrun hrest
  rw [List.cons_append] at htake hdrop ⊢
  rw [scan, not_isBlank_of_isNumberChar hc, not_symbol_of_isNumberChar hc]
  simp only [hc, htake, hdrop, hvalue]
  rfl

/-- A longest run that writes no number is told whole. -/
theorem scan_invalidNumber {position : Nat} {run rest : List Char}
    (hrun : ∀ d ∈ c :: run, isNumberChar d) (hrest : ∀ d ∈ rest.head?, ¬ isNumberChar d)
    (hvalue : Decimal.ofPlain? (c :: run) = none) :
    scan position (c :: run ++ rest) = .error (.invalidNumber (String.ofList (c :: run))) := by
  have hc : isNumberChar c := hrun c List.mem_cons_self
  have htake := takeWhile_run hrun hrest
  rw [List.cons_append] at htake ⊢
  rw [scan, not_isBlank_of_isNumberChar hc, not_symbol_of_isNumberChar hc]
  simp [hc, htake, hvalue]

/-- Any other character is told with its position. -/
theorem scan_unexpectedCharacter {position : Nat} (hblank : ¬ isBlank c)
    (hsymbol : Token.ofSymbol? c = none) (hnumber : ¬ isNumberChar c) :
    scan position (c :: cs) = .error (.unexpectedCharacter c position) := by
  rw [scan, if_neg hblank, hsymbol]
  simp [hnumber]

/-- What a scan finds are the tokens of the characters. -/
theorem scans_of_scan {position : Nat} {ls : List Lexeme} (h : scan position cs = .ok ls) :
    Scans cs (ls.map Lexeme.token) := by
  fun_induction scan position cs generalizing ls with
  | case1 => cases h; exact .nil
  | case2 _ _ _ hc ih => exact .blank hc (ih h)
  | case3 _ _ _ _ _ hc ih =>
    obtain ⟨rest, hrest, rfl⟩ := map_eq_ok.mp h
    exact .symbol hc (ih hrest)
  | case4 => cases h
  | case5 _ c cs _ _ hc run value hvalue =>
    rename_i ih
    obtain ⟨rest, hrest, rfl⟩ := map_eq_ok.mp h
    have hrun : run = c :: cs.takeWhile isNumberChar := List.takeWhile_cons_of_pos hc
    have hall : ∀ d ∈ run, isNumberChar d := fun d hd => List.all_eq_true.mp List.all_takeWhile d hd
    have hend := head?_dropWhile_isNumberChar (c :: cs)
    have hsplit : run ++ (c :: cs).dropWhile isNumberChar = c :: cs :=
      List.takeWhile_append_dropWhile
    rw [← hsplit]
    rw [hrun] at hall hvalue ⊢
    exact .number hall hend hvalue (ih hrest)
  | case6 => cases h

/-- Characters that can be taken apart are, wherever they stand. -/
theorem scan_of_scans (h : Scans cs ts) (position : Nat) :
    ∃ ls, scan position cs = .ok ls ∧ ls.map Lexeme.token = ts := by
  induction h generalizing position with
  | nil => exact ⟨[], scan_nil position, rfl⟩
  | @blank c _ _ hc _ ih =>
    rw [scan_blank hc]
    exact ih _
  | @symbol c _ token _ hc _ ih =>
    obtain ⟨ls, hls, hts⟩ := ih (position + c.utf8Size)
    rw [scan_symbol hc, hls]
    exact ⟨_, rfl, congrArg (token :: ·) hts⟩
  | @number c run _ value _ hrun hrest hvalue _ ih =>
    obtain ⟨ls, hls, hts⟩ := ih (position + byteLength (c :: run))
    rw [scan_number hrun hrest hvalue, hls]
    exact ⟨_, rfl, congrArg (Token.number value :: ·) hts⟩

theorem Scans.unique {us : List Token} (h : Scans cs ts) (hu : Scans cs us) : ts = us := by
  obtain ⟨ls, hls, rfl⟩ := scan_of_scans h 0
  obtain ⟨ls', hls', rfl⟩ := scan_of_scans hu 0
  cases hls.symm.trans hls'
  rfl

/-- A symbol stands between the tokens of what is in front of it and of what is behind it. -/
theorem Scans.append_symbol {us vs : List Token} (ha : Scans a us)
    (hc : Token.ofSymbol? c = some token) (hb : Scans b vs) :
    Scans (a ++ c :: b) (us ++ token :: vs) := by
  induction ha with
  | nil => exact .symbol hc hb
  | blank hd _ ih => exact .blank hd ih
  | symbol hd _ ih => exact .symbol hd ih
  | @number _ _ rest _ _ hrun hrest hvalue _ ih =>
    rw [List.append_assoc]
    refine .number hrun ?_ hvalue ih
    cases rest with
    | nil =>
      intro d hd
      obtain rfl : c = d := Option.some.inj hd
      simp [not_isNumberChar_of_symbol hc]
    | cons d rest => exact hrest

/-- A run of digits and points lies in front of the first symbol behind its start. -/
theorem run_append_symbol {run rest : List Char} (hrun : ∀ d ∈ run, isNumberChar d)
    (hc : Token.ofSymbol? c = some token) (h : a ++ c :: b = run ++ rest) :
    ∃ front, a = run ++ front ∧ front ++ c :: b = rest := by
  rcases List.append_eq_append_iff.mp h with ⟨behind, hbehind, htail⟩ | ⟨front, ha, htail⟩
  · cases behind with
    | nil => exact ⟨[], by simpa using hbehind.symm, htail⟩
    | cons e behind =>
      obtain ⟨rfl, -⟩ := List.cons.inj htail
      have hnumber := hrun c (hbehind ▸ by simp)
      rw [not_isNumberChar_of_symbol hc] at hnumber
      cases hnumber
  · exact ⟨front, ha, htail.symm⟩

theorem Scans.of_append_symbol (h : Scans (a ++ c :: b) ts)
    (hc : Token.ofSymbol? c = some token) :
    ∃ us vs, Scans a us ∧ Scans b vs ∧ ts = us ++ token :: vs := by
  generalize hcs : a ++ c :: b = cs at h
  induction h generalizing a with
  | nil => simp at hcs
  | blank hd h ih =>
    cases a with
    | nil =>
      obtain ⟨rfl, -⟩ := List.cons.inj hcs
      simp [not_isBlank_of_symbol hc] at hd
    | cons e a =>
      obtain ⟨rfl, htail⟩ := List.cons.inj hcs
      obtain ⟨us, vs, ha, hb, hts⟩ := ih htail
      exact ⟨us, vs, .blank hd ha, hb, hts⟩
  | symbol hd h ih =>
    cases a with
    | nil =>
      obtain ⟨rfl, rfl⟩ := List.cons.inj hcs
      obtain rfl := Option.some.inj (hc.symm.trans hd)
      exact ⟨[], _, .nil, h, rfl⟩
    | cons e a =>
      obtain ⟨rfl, htail⟩ := List.cons.inj hcs
      obtain ⟨us, vs, ha, hb, hts⟩ := ih htail
      exact ⟨_ :: us, vs, .symbol hd ha, hb, congrArg (_ :: ·) hts⟩
  | @number d run rest value ts hrun hrest hvalue h ih =>
    obtain ⟨front, rfl, hfront⟩ := run_append_symbol hrun hc hcs
    obtain ⟨us, vs, ha, hb, hts⟩ := ih hfront
    refine ⟨.number value :: us, vs, .number hrun ?_ hvalue ha, hb, congrArg (_ :: ·) hts⟩
    intro e he
    refine hrest e ?_
    rw [← hfront, List.head?_append, he]
    rfl

end Invoicing.Formula
