import Invoicing.Proofs.Formula.Scanning

/-!
# The parts of a text

White space, symbols, and longest runs of digits and points that write a number
can be taken from a text one after the other. They go on to its end, or up to an
obstacle: a character that is none of these, or a longest run that writes no
number. No obstacle stands within such parts, so the one behind them is the first,
and it is the error. If there is none, the lexemes are the symbols and numbers
among the parts, in order and each at its place.
-/
namespace Invoicing.Formula

open Text

/-- The operators and parentheses. -/
def symbols : List Char := ['+', '-', '*', '/', '(', ')']

/-- A longest run of digits and points, between these others. -/
structure IsNumberRun (front run behind : List Char) : Prop where
  nonempty : run ≠ []
  number : ∀ c ∈ run, isNumberChar c
  leading : ∀ c ∈ front.getLast?, ¬ isNumberChar c
  trailing : ∀ c ∈ behind.head?, ¬ isNumberChar c

/-- What a text can be a concatenation of. -/
inductive Part where
  | blank (c : Char)
  | symbol (c : Char)
  | number (run : List Char)

def Part.chars : Part → List Char
  | blank c => [c]
  | symbol c => [c]
  | number run => run

/-- White space is no token. -/
def Part.token? : Part → Option Token
  | blank _ => none
  | symbol c => Token.ofSymbol? c
  | number run => (Decimal.ofPlain? run).map .number

/-- What it takes to be a part between these characters. -/
def Part.Fits (front behind : List Char) : Part → Prop
  | blank c => isBlank c
  | symbol c => c ∈ symbols
  | number run => IsNumberRun front run behind ∧ (Decimal.ofPlain? run).isSome

/-- The characters of all parts. -/
def assembled (ps : List Part) : List Char :=
  ps.flatMap Part.chars

/-- Every one of these parts is one between what comes before it and what comes after it. -/
def Fit (front : List Char) : List Part → List Char → Prop
  | [], _ => True
  | p :: ps, behind => p.Fits front (assembled ps ++ behind) ∧ Fit (front ++ p.chars) ps behind

/-- The tokens among parts, each at the byte offset of its first character. -/
def lexemesOf (position : Nat) : List Part → List Lexeme
  | [] => []
  | p :: ps =>
    (p.token?.map (⟨·, position⟩)).toList ++ lexemesOf (position + byteLength p.chars) ps

/-- Characters that no part can be taken from, and how that is told. -/
inductive Obstacle (front : List Char) : List Char → FormulaError → Prop where
  | character {c : Char} {behind : List Char} (hblank : ¬ isBlank c) (hsymbol : c ∉ symbols)
    (hnumber : ¬ isNumberChar c) :
    Obstacle front (c :: behind) (.unexpectedCharacter c (byteLength front))
  | number {run behind : List Char} (hrun : IsNumberRun front run behind)
    (hvalue : Decimal.ofPlain? run = none) :
    Obstacle front (run ++ behind) (.invalidNumber (String.ofList run))

/-- The leftmost obstacle in a text is told so. -/
def FirstObstacle (text : List Char) (e : FormulaError) : Prop :=
  ∃ front behind, text = front ++ behind ∧ Obstacle front behind e ∧
    ∀ front' behind' e', text = front' ++ behind' → Obstacle front' behind' e' →
      front.length ≤ front'.length

/-- No run of digits and points goes across the place between these characters. -/
def Parted (front behind : List Char) : Prop :=
  ∀ c ∈ front.getLast?, isNumberChar c → ∀ d ∈ behind.head?, ¬ isNumberChar d

variable {c : Char} {cs front behind run rest : List Char} {e : FormulaError} {p : Part}
  {ps : List Part}

theorem mem_symbols_iff : c ∈ symbols ↔ ∃ token, Token.ofSymbol? c = some token := by
  constructor
  · intro h
    simp only [symbols, List.mem_cons, List.not_mem_nil, or_false] at h
    rcases h with rfl | rfl | rfl | rfl | rfl | rfl <;> exact ⟨_, rfl⟩
  · rintro ⟨token, h⟩
    unfold Token.ofSymbol? at h
    split at h
    all_goals first | decide | cases h

theorem not_mem_symbols_iff : c ∉ symbols ↔ Token.ofSymbol? c = none := by
  rw [mem_symbols_iff, ← Option.isSome_iff_exists, Option.not_isSome_iff_eq_none]

@[simp] theorem assembled_nil : assembled [] = [] := rfl

@[simp] theorem assembled_cons (p : Part) (ps : List Part) :
    assembled (p :: ps) = p.chars ++ assembled ps := rfl

/-- Induction along a text: by its first white space, its first symbol or its first longest run. -/
@[elab_as_elim]
theorem parts_induction {motive : List Char → Prop} (cs : List Char) (nil : motive [])
    (blank : ∀ c cs, isBlank c → motive cs → motive (c :: cs))
    (symbol : ∀ c token cs, Token.ofSymbol? c = some token → motive cs → motive (c :: cs))
    (number : ∀ c run rest, (∀ d ∈ c :: run, isNumberChar d) →
      (∀ d ∈ rest.head?, ¬ isNumberChar d) → motive rest → motive (c :: run ++ rest))
    (other : ∀ c cs, ¬ isBlank c → Token.ofSymbol? c = none → ¬ isNumberChar c →
      motive (c :: cs)) : motive cs := by
  induction hn : cs.length using Nat.strongRecOn generalizing cs with
  | ind n ih =>
    subst hn
    cases cs with
    | nil => exact nil
    | cons c cs =>
      have htail : motive cs := ih cs.length (Nat.lt_succ_self _) cs rfl
      by_cases hblank : isBlank c
      · exact blank c cs hblank htail
      cases hsymbol : Token.ofSymbol? c with
      | some token => exact symbol c token cs hsymbol htail
      | none =>
        by_cases hc : isNumberChar c
        · have hend := head?_dropWhile_isNumberChar cs
          have hall : ∀ d ∈ c :: cs.takeWhile isNumberChar, isNumberChar d :=
            List.forall_mem_cons.mpr
              ⟨hc, fun d hd => List.all_eq_true.mp List.all_takeWhile d hd⟩
          have hshorter : (cs.dropWhile isNumberChar).length < (c :: cs).length :=
            Nat.lt_succ_of_le (List.dropWhile_suffix _).length_le
          have hrun := number c _ _ hall hend (ih _ hshorter _ rfl)
          rwa [List.cons_append, List.takeWhile_append_dropWhile] at hrun
        · exact other c cs hblank hsymbol hc

theorem not_isNumberChar_of_isBlank (hc : isBlank c) : ¬ isNumberChar c := by
  intro hnumber
  rw [not_isBlank_of_isNumberChar hnumber] at hc
  cases hc

theorem Parted.nil_left : Parted [] behind := by
  intro c hc
  cases hc

/-- Behind a character that is no digit and no point, no run goes on. -/
theorem Parted.after (hc : ¬ isNumberChar c) : Parted (front ++ [c]) cs := by
  intro d hd hnumber
  rw [List.getLast?_concat] at hd
  obtain rfl : c = d := Option.some.inj hd
  exact absurd hnumber hc

/-- Nor does it in front of one. -/
theorem Parted.of_head (h : ∀ d ∈ behind.head?, ¬ isNumberChar d) : Parted front behind :=
  fun _ _ _ => h

theorem Parted.before (hc : ¬ isNumberChar c) : Parted front (c :: cs) :=
  .of_head fun _ hd => Option.some.inj hd ▸ hc

/-- A run that begins at such a place is a longest one. -/
theorem Parted.isNumberRun (h : Parted front (c :: run ++ rest))
    (hrun : ∀ d ∈ c :: run, isNumberChar d) (hrest : ∀ d ∈ rest.head?, ¬ isNumberChar d) :
    IsNumberRun front (c :: run) rest where
  nonempty := List.cons_ne_nil c run
  number := hrun
  leading := fun _ hd hnumber => h _ hd hnumber c rfl (hrun c List.mem_cons_self)
  trailing := hrest

/-- Behind these characters, parts go on to the end of those or to an obstacle among them. -/
def Divides (front cs : List Char) : Prop :=
  ∃ ps behind, cs = assembled ps ++ behind ∧ Fit front ps behind ∧
    (behind = [] ∨ ∃ e, Obstacle (front ++ assembled ps) behind e)

theorem Obstacle.divides (h : Obstacle front cs e) : Divides front cs :=
  ⟨[], cs, rfl, trivial, .inr ⟨e, by rwa [assembled_nil, List.append_nil]⟩⟩

theorem Part.Fits.divides (hp : p.Fits front cs) (h : Divides (front ++ p.chars) cs) :
    Divides front (p.chars ++ cs) := by
  obtain ⟨ps, behind, rfl, hps, hend⟩ := h
  rw [List.append_assoc] at hend
  exact ⟨p :: ps, behind, by rw [assembled_cons, List.append_assoc], ⟨hp, hps⟩, hend⟩

theorem divides (cs : List Char) (h : Parted front cs) : Divides front cs := by
  induction cs using parts_induction generalizing front with
  | nil => exact ⟨[], [], rfl, trivial, .inl rfl⟩
  | blank c cs hc ih =>
    have hfits : (Part.blank c).Fits front cs := hc
    exact hfits.divides (ih (.after (not_isNumberChar_of_isBlank hc)))
  | symbol c token cs hc ih =>
    have hfits : (Part.symbol c).Fits front cs := mem_symbols_iff.mpr ⟨token, hc⟩
    have hnumber : ¬ isNumberChar c := by simp [not_isNumberChar_of_symbol hc]
    exact hfits.divides (ih (.after hnumber))
  | number c run rest hrun hrest ih =>
    have hlongest := h.isNumberRun hrun hrest
    cases hvalue : Decimal.ofPlain? (c :: run) with
    | none => exact (Obstacle.number hlongest hvalue).divides
    | some value =>
      have hfits : (Part.number (c :: run)).Fits front rest := ⟨hlongest, by simp [hvalue]⟩
      exact hfits.divides (ih (.of_head hrest))
  | other c cs hblank hsymbol hnumber =>
    exact (Obstacle.character hblank (not_mem_symbols_iff.mpr hsymbol) hnumber).divides

/-! ## Scanning along parts -/

theorem scan_part (hp : p.Fits front rest) (position : Nat) :
    scan position (p.chars ++ rest) =
      (scan (position + byteLength p.chars) rest).map
        ((p.token?.map (⟨·, position⟩)).toList ++ ·) := by
  cases p with
  | blank c =>
    have hscan : scan position (c :: rest) = scan (position + c.utf8Size) rest := scan_blank hp
    cases hrest : scan (position + c.utf8Size) rest <;>
      simp [Part.chars, Part.token?, hscan, hrest, Except.map]
  | symbol c =>
    obtain ⟨token, hc⟩ := mem_symbols_iff.mp hp
    simp [Part.chars, Part.token?, hc, scan_symbol hc]
  | number run =>
    obtain ⟨hrun, hvalue⟩ := hp
    obtain ⟨value, hvalue⟩ := Option.isSome_iff_exists.mp hvalue
    obtain ⟨c, run, rfl⟩ := List.exists_cons_of_ne_nil hrun.nonempty
    have hscan : scan position (c :: run ++ rest) =
        (scan (position + byteLength (c :: run)) rest).map (⟨.number value, position⟩ :: ·) :=
      scan_number hrun.number hrun.trailing hvalue
    simpa [Part.chars, Part.token?, hvalue] using hscan

/-- A scan takes the parts of a text and goes on behind them. -/
theorem scan_assembled_append (h : Fit front ps behind) (position : Nat) :
    scan position (assembled ps ++ behind) =
      (scan (position + byteLength (assembled ps)) behind).map (lexemesOf position ps ++ ·) := by
  induction ps generalizing front position with
  | nil => cases hscan : scan position behind <;> simp [lexemesOf, hscan, Except.map]
  | cons p ps ih =>
    obtain ⟨hp, hps⟩ := h
    rw [assembled_cons, List.append_assoc, scan_part hp, ih hps, byteLength_append, ← Nat.add_assoc]
    cases scan (position + byteLength p.chars + byteLength (assembled ps)) behind <;>
      simp [lexemesOf, Except.map]

theorem scan_obstacle (h : Obstacle front behind e) :
    scan (byteLength front) behind = .error e := by
  cases h with
  | @character c _ hblank hsymbol hnumber =>
    exact scan_unexpectedCharacter hblank (not_mem_symbols_iff.mp hsymbol) hnumber
  | @number run behind hrun hvalue =>
    obtain ⟨c, run, rfl⟩ := List.exists_cons_of_ne_nil hrun.nonempty
    exact scan_invalidNumber hrun.number hrun.trailing hvalue

/-! ## Where obstacles can stand -/

/-- An obstacle begins with neither white space nor a symbol. -/
theorem Obstacle.head (h : Obstacle front cs e) :
    ∃ c rest, cs = c :: rest ∧ ¬ isBlank c ∧ c ∉ symbols := by
  cases h with
  | @character c behind hblank hsymbol hnumber => exact ⟨c, behind, rfl, hblank, hsymbol⟩
  | @number run behind hrun hvalue =>
    obtain ⟨c, run, rfl⟩ := List.exists_cons_of_ne_nil hrun.nonempty
    have hc : isNumberChar c := hrun.number c List.mem_cons_self
    have hblank : ¬ isBlank c := by simp [not_isBlank_of_isNumberChar hc]
    exact ⟨c, run ++ behind, rfl, hblank, not_mem_symbols_iff.mpr (not_symbol_of_isNumberChar hc)⟩

/-- Where a digit or point comes first, an obstacle is a longest run. -/
theorem Obstacle.isNumberRun (h : Obstacle front (c :: cs) e) (hc : isNumberChar c) :
    ∃ run behind, c :: cs = run ++ behind ∧ IsNumberRun front run behind ∧
      Decimal.ofPlain? run = none := by
  generalize hcs : c :: cs = chars at h
  cases h with
  | character _ _ hnumber =>
    obtain ⟨rfl, -⟩ := List.cons.inj hcs
    exact absurd hc hnumber
  | @number run behind hrun hvalue => exact ⟨run, behind, rfl, hrun, hvalue⟩

/-- No obstacle begins in a part. -/
theorem Part.Fits.not_obstacle {as bs : List Char} (hp : p.Fits front behind)
    (hsplit : p.chars = as ++ bs) (hbs : bs ≠ []) : ¬ Obstacle (front ++ as) (bs ++ behind) e := by
  intro h
  obtain ⟨c, bs, rfl⟩ := List.exists_cons_of_ne_nil hbs
  have hmem : c ∈ p.chars := by simp [hsplit]
  cases p with
  | blank d =>
    obtain rfl : c = d := List.mem_singleton.mp hmem
    obtain ⟨_, _, hcs, hblank, -⟩ := h.head
    obtain ⟨rfl, -⟩ := List.cons.inj hcs
    exact hblank hp
  | symbol d =>
    obtain rfl : c = d := List.mem_singleton.mp hmem
    obtain ⟨_, _, hcs, -, hsymbol⟩ := h.head
    obtain ⟨rfl, -⟩ := List.cons.inj hcs
    exact hsymbol hp
  | number run =>
    obtain ⟨hrun, hvalue⟩ := hp
    obtain rfl : run = as ++ c :: bs := hsplit
    obtain ⟨run', behind', hcs, hrun', hnone⟩ := h.isNumberRun (hrun.number c hmem)
    -- A longest run does not begin inside another one, so both begin and end at the same place.
    have has : as = [] := by
      by_contra hne
      have hlast : as.getLast hne ∈ (front ++ as).getLast? := by
        simp [List.getLast?_append, List.getLast?_eq_some_getLast hne]
      exact hrun'.leading _ hlast (hrun.number _ (by simp))
    subst has
    rw [List.nil_append] at hrun hvalue
    have hsame : c :: bs = run' := by
      rw [← takeWhile_run hrun.number hrun.trailing, ← takeWhile_run hrun'.number hrun'.trailing,
        ← hcs]
      rfl
    rw [hsame, hnone] at hvalue
    cases hvalue

/-- An obstacle that does not come before a part comes behind it. -/
theorem Part.Fits.length_le {front' behind' : List Char} (hp : p.Fits front behind)
    (hsplit : front ++ p.chars ++ behind = front' ++ behind')
    (hobstacle : Obstacle front' behind' e) (hle : front.length ≤ front'.length) :
    (front ++ p.chars).length ≤ front'.length := by
  by_contra hlt
  have hfront : front <+: front ++ p.chars ++ behind := by simp
  have hfront' : front' <+: front ++ p.chars ++ behind := ⟨behind', hsplit.symm⟩
  obtain ⟨as, rfl⟩ := List.prefix_of_prefix_length_le hfront hfront' hle
  obtain ⟨bs, hbs⟩ := List.prefix_of_prefix_length_le hfront' (List.prefix_append _ _)
    (Nat.le_of_not_le hlt)
  have hchars : p.chars = as ++ bs := by simpa using hbs.symm
  have hbehind : behind' = bs ++ behind := by simpa [hchars] using hsplit.symm
  have hne : bs ≠ [] := by
    rintro rfl
    simp [hchars] at hlt
  rw [hbehind] at hobstacle
  exact hp.not_obstacle hchars hne hobstacle

/-- So among parts there is none. -/
theorem Fit.length_le {front' behind' : List Char} (h : Fit front ps behind)
    (hsplit : front ++ assembled ps ++ behind = front' ++ behind')
    (hobstacle : Obstacle front' behind' e) (hle : front.length ≤ front'.length) :
    (front ++ assembled ps).length ≤ front'.length := by
  induction ps generalizing front with
  | nil => simpa using hle
  | cons p ps ih =>
    obtain ⟨hp, hps⟩ := h
    rw [assembled_cons, ← List.append_assoc] at hsplit ⊢
    refine ih hps hsplit (hp.length_le ?_ hobstacle hle)
    rw [← hsplit, List.append_assoc _ (assembled ps)]

theorem Obstacle.behind_ne_nil (h : Obstacle front behind e) : behind ≠ [] := by
  obtain ⟨c, rest, rfl, -⟩ := h.head
  exact List.cons_ne_nil c rest

/-- The parts of a whole text leave no place for an obstacle. -/
theorem Fit.not_obstacle (h : Fit [] ps []) (hsplit : assembled ps = front ++ behind) :
    ¬ Obstacle front behind e := by
  intro hobstacle
  have hle := h.length_le (by simpa using hsplit) hobstacle (Nat.zero_le _)
  have hlength := congrArg List.length hsplit
  have hbehind := List.length_pos_of_ne_nil hobstacle.behind_ne_nil
  simp only [List.nil_append, List.length_append] at hle hlength
  omega

/-- An obstacle behind the parts that can be taken is the first one. -/
theorem Fit.firstObstacle (h : Fit [] ps behind) (hobstacle : Obstacle (assembled ps) behind e) :
    FirstObstacle (assembled ps ++ behind) e :=
  ⟨assembled ps, behind, rfl, hobstacle, fun _ _ _ hsplit h' =>
    h.length_le hsplit h' (Nat.zero_le _)⟩

/-- There is only one first obstacle. -/
theorem FirstObstacle.unique {text : List Char} {e' : FormulaError} (h : FirstObstacle text e)
    (h' : FirstObstacle text e') : e = e' := by
  obtain ⟨front, behind, rfl, hobstacle, hfirst⟩ := h
  obtain ⟨front', behind', hsplit, hobstacle', hfirst'⟩ := h'
  have hlength : front.length = front'.length :=
    Nat.le_antisymm (hfirst _ _ _ hsplit hobstacle') (hfirst' _ _ _ rfl hobstacle)
  obtain ⟨rfl, rfl⟩ := List.append_inj hsplit hlength
  have hscan := scan_obstacle hobstacle
  rw [scan_obstacle hobstacle'] at hscan
  exact (Except.error.inj hscan).symm

/-! ## What a scan finds -/

theorem scan_assembled (h : Fit [] ps []) : scan 0 (assembled ps) = .ok (lexemesOf 0 ps) := by
  have hscan := scan_assembled_append h 0
  rw [List.append_nil, scan_nil] at hscan
  simpa [Except.map] using hscan

theorem scan_assembled_obstacle (h : Fit [] ps behind)
    (hobstacle : Obstacle (assembled ps) behind e) :
    scan 0 (assembled ps ++ behind) = .error e := by
  rw [scan_assembled_append h, Nat.zero_add, scan_obstacle hobstacle]
  rfl

/-- A text is all parts, or it has a first obstacle, and that is what a scan comes to. -/
theorem scan_cases (text : List Char) :
    (∃ ps, assembled ps = text ∧ Fit [] ps [] ∧ scan 0 text = .ok (lexemesOf 0 ps)) ∨
      ∃ e, FirstObstacle text e ∧ scan 0 text = .error e := by
  obtain ⟨ps, behind, rfl, hps, rfl | ⟨e, hobstacle⟩⟩ := divides text Parted.nil_left
  · rw [List.append_nil]
    exact .inl ⟨ps, rfl, hps, scan_assembled hps⟩
  · exact .inr ⟨e, hps.firstObstacle hobstacle, scan_assembled_obstacle hps hobstacle⟩

/-- A scan succeeds on what is a concatenation of parts, with the tokens among them. -/
theorem scan_eq_ok {text : List Char} {ls : List Lexeme} :
    scan 0 text = .ok ls ↔ ∃ ps, assembled ps = text ∧ Fit [] ps [] ∧ ls = lexemesOf 0 ps := by
  constructor
  · intro h
    rcases scan_cases text with ⟨ps, hassembled, hps, hscan⟩ | ⟨e, -, hscan⟩
    · exact ⟨ps, hassembled, hps, Except.ok.inj (h.symm.trans hscan)⟩
    · cases h.symm.trans hscan
  · rintro ⟨ps, rfl, hps, rfl⟩
    exact scan_assembled hps

/-- A scan fails on the first obstacle. -/
theorem scan_eq_error {text : List Char} : scan 0 text = .error e ↔ FirstObstacle text e := by
  constructor
  · intro h
    rcases scan_cases text with ⟨ps, -, -, hscan⟩ | ⟨e', hfirst, hscan⟩
    · cases h.symm.trans hscan
    · cases h.symm.trans hscan
      exact hfirst
  · intro h
    rcases scan_cases text with ⟨ps, rfl, hps, -⟩ | ⟨e', hfirst, hscan⟩
    · obtain ⟨front, behind, hsplit, hobstacle, -⟩ := h
      exact absurd hobstacle (hps.not_obstacle hsplit)
    · rw [h.unique hfirst]
      exact hscan

end Invoicing.Formula
