/-!
Decimal amounts: a sign, fewer than 2^96 units, and the number of fraction
digits those units stand for. The number of fraction digits is part of an
amount and is shown when it is written, so `18` and `18.00` are two amounts of
one value. Values are compared, amounts are told apart by equality.
-/
namespace Invoicing

/-- The `n`-th power of ten. -/
def tenTo : Nat → Nat
  | 0 => 1
  | n + 1 => 10 * tenTo n

@[simp] theorem tenTo_zero : tenTo 0 = 1 := rfl

theorem tenTo_succ (n : Nat) : tenTo (n + 1) = 10 * tenTo n := rfl

theorem tenTo_pos (n : Nat) : 0 < tenTo n := by
  induction n with
  | zero => exact Nat.one_pos
  | succ n ih => exact Nat.mul_pos (by decide) ih

theorem tenTo_add (m n : Nat) : tenTo (m + n) = tenTo m * tenTo n := by
  induction n with
  | zero => simp
  | succ n ih => rw [← Nat.add_assoc, tenTo_succ, tenTo_succ, ih, Nat.mul_left_comm]

/-- The number of mantissas, 2^96. -/
def Decimal.capacity : Nat := 79228162514264337593543950336

structure Decimal where
  negative : Bool
  mantissa : Nat
  scale : Nat
  mantissa_lt : mantissa < Decimal.capacity
  scale_le : scale ≤ 28
  deriving DecidableEq

namespace Decimal

/-- The amount of these parts, if they are within range. -/
def ofParts? (negative : Bool) (mantissa scale : Nat) : Option Decimal :=
  if h : mantissa < capacity ∧ scale ≤ 28 then
    some ⟨negative, mantissa, scale, h.1, h.2⟩
  else none

@[simp] theorem ofParts?_parts (d : Decimal) :
    ofParts? d.negative d.mantissa d.scale = some d := by
  simp [ofParts?, d.mantissa_lt, d.scale_le]

theorem ofParts?_eq_none_iff {negative : Bool} {mantissa scale : Nat} :
    ofParts? negative mantissa scale = none ↔ capacity ≤ mantissa ∨ 28 < scale := by
  simp only [ofParts?]
  split <;> simp <;> omega

theorem parts_of_ofParts? {negative : Bool} {mantissa scale : Nat} {d : Decimal}
    (h : ofParts? negative mantissa scale = some d) :
    d.negative = negative ∧ d.mantissa = mantissa ∧ d.scale = scale := by
  unfold ofParts? at h
  split at h
  · cases h
    exact ⟨rfl, rfl, rfl⟩
  · cases h

/-- A whole number as an amount. -/
def whole (n : Nat) (h : n < capacity := by decide) : Decimal :=
  ⟨false, n, 0, h, Nat.zero_le _⟩

def zero : Decimal := whole 0

instance : Inhabited Decimal := ⟨zero⟩

/-- The signed number of units of the last fraction digit. -/
def coefficient (d : Decimal) : Int :=
  if d.negative then -d.mantissa else d.mantissa

/-- What an amount is worth. -/
def toRat (d : Decimal) : Rat :=
  mkRat d.coefficient (tenTo d.scale)

def isZero (d : Decimal) : Bool :=
  d.mantissa = 0

@[simp] theorem isZero_iff (d : Decimal) : d.isZero = true ↔ d.mantissa = 0 := by
  simp [isZero]

theorem natAbs_coefficient (d : Decimal) : d.coefficient.natAbs = d.mantissa := by
  unfold coefficient
  split <;> simp

theorem coefficient_eq_zero_iff (d : Decimal) : d.coefficient = 0 ↔ d.mantissa = 0 := by
  rw [← natAbs_coefficient, Int.natAbs_eq_zero]

/-- The signed number of units at a finer scale. -/
def unitsAt (d : Decimal) (scale : Nat) : Int :=
  d.coefficient * tenTo (scale - d.scale)

@[simp] theorem unitsAt_scale (d : Decimal) : d.unitsAt d.scale = d.coefficient := by
  simp [unitsAt]

/-- Amounts are ordered by what they are worth, whatever their scales. -/
instance : LE Decimal :=
  ⟨fun a b => a.coefficient * tenTo b.scale ≤ b.coefficient * tenTo a.scale⟩

instance : LT Decimal :=
  ⟨fun a b => a.coefficient * tenTo b.scale < b.coefficient * tenTo a.scale⟩

theorem le_def (a b : Decimal) :
    a ≤ b ↔ a.coefficient * tenTo b.scale ≤ b.coefficient * tenTo a.scale := Iff.rfl

theorem lt_def (a b : Decimal) :
    a < b ↔ a.coefficient * tenTo b.scale < b.coefficient * tenTo a.scale := Iff.rfl

instance (a b : Decimal) : Decidable (a ≤ b) :=
  decidable_of_iff _ (le_def a b).symm

instance (a b : Decimal) : Decidable (a < b) :=
  decidable_of_iff _ (lt_def a b).symm

theorem not_le {a b : Decimal} : ¬ a ≤ b ↔ b < a := by
  simp [le_def, lt_def]

/-- The opposite amount; a zero has an opposite too. -/
def neg (d : Decimal) : Decimal :=
  ⟨!d.negative, d.mantissa, d.scale, d.mantissa_lt, d.scale_le⟩

instance : Neg Decimal := ⟨neg⟩

@[simp] theorem negative_neg (d : Decimal) : (-d).negative = !d.negative := rfl
@[simp] theorem mantissa_neg (d : Decimal) : (-d).mantissa = d.mantissa := rfl
@[simp] theorem scale_neg (d : Decimal) : (-d).scale = d.scale := rfl

@[simp] theorem coefficient_neg (d : Decimal) : (-d).coefficient = -d.coefficient := by
  cases h : d.negative <;> simp [coefficient, h]

@[simp] theorem neg_neg (d : Decimal) : -(-d) = d := by
  cases d
  simp [Neg.neg, neg]

/-- The size of an amount. -/
def abs (d : Decimal) : Decimal :=
  { d with negative := false }

@[simp] theorem coefficient_abs (d : Decimal) : d.abs.coefficient = d.mantissa := rfl

/-- The last `n` digits of a number, most significant first. -/
def lastDigits : Nat → Nat → List Char
  | 0, _ => []
  | n + 1, m => lastDigits n (m / 10) ++ [Nat.digitChar (m % 10)]

@[simp] theorem length_lastDigits (n m : Nat) : (lastDigits n m).length = n := by
  induction n generalizing m with
  | zero => rfl
  | succ n ih => simp [lastDigits, ih]

/-- An amount is written with its sign, its whole part, and all of its fraction digits. -/
def digits (d : Decimal) : List Char :=
  (if d.negative then ['-'] else [])
    ++ Nat.toDigits 10 (d.mantissa / tenTo d.scale)
    ++ (if d.scale = 0 then [] else '.' :: lastDigits d.scale d.mantissa)

def toText (d : Decimal) : String :=
  String.ofList d.digits

/-- A mantissa and its scale without the zeros that end the fraction. -/
def stripZeros : Nat → Nat → Nat × Nat
  | m, 0 => (m, 0)
  | m, s + 1 => if m % 10 = 0 then stripZeros (m / 10) s else (m, s + 1)

@[simp] theorem stripZeros_zero (m : Nat) : stripZeros m 0 = (m, 0) := rfl

theorem stripZeros_fst_le (m s : Nat) : (stripZeros m s).1 ≤ m := by
  induction s generalizing m with
  | zero => exact Nat.le_refl m
  | succ s ih =>
    simp only [stripZeros]
    split
    · exact Nat.le_trans (ih _) (Nat.div_le_self _ _)
    · exact Nat.le_refl m

theorem stripZeros_snd_le (m s : Nat) : (stripZeros m s).2 ≤ s := by
  induction s generalizing m with
  | zero => exact Nat.le_refl 0
  | succ s ih =>
    simp only [stripZeros]
    split
    · exact Nat.le_succ_of_le (ih _)
    · exact Nat.le_refl _

/-- The same value with the shortest fraction; every zero becomes plain `0`. -/
def normalize (d : Decimal) : Decimal :=
  if d.isZero then zero
  else
    ⟨d.negative, (stripZeros d.mantissa d.scale).1, (stripZeros d.mantissa d.scale).2,
      Nat.lt_of_le_of_lt (stripZeros_fst_le _ _) d.mantissa_lt,
      Nat.le_trans (stripZeros_snd_le _ _) d.scale_le⟩

end Decimal

end Invoicing
