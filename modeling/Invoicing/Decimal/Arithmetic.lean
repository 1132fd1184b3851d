import Invoicing.Decimal.Rounding

/-!
Sums, differences, products and quotients of amounts. A result with more digits
than an amount can hold is rounded, and one beyond the range is an overflow,
which names the operation. The scale of each result is part of its definition.
-/
namespace Invoicing.Decimal

inductive Overflow where
  | addition | subtraction | multiplication | division
  deriving DecidableEq, Repr

def Overflow.guard (overflow : Overflow) : Option Decimal → Except Overflow Decimal
  | some d => .ok d
  | none => .error overflow

@[simp] theorem Overflow.guard_some (o : Overflow) (d : Decimal) :
    o.guard (some d) = .ok d := rfl
@[simp] theorem Overflow.guard_none (o : Overflow) : o.guard none = .error o := rfl

theorem Overflow.guard_eq_ok {o : Overflow} {result : Option Decimal} {d : Decimal} :
    o.guard result = .ok d ↔ result = some d := by
  cases result <;> simp

/-- The amount nearest to `units / 10^scale`; a zero is positive. -/
def fitUnits (units : Int) (scale : Nat) : Option Decimal :=
  fit (units < 0) units.natAbs scale

/-- The sum, at the larger scale. A zero leaves the other amount as it is. -/
def add (a b : Decimal) : Except Overflow Decimal :=
  if a.isZero then .ok b
  else if b.isZero then .ok a
  else
    let scale := max a.scale b.scale
    Overflow.addition.guard (fitUnits (a.unitsAt scale + b.unitsAt scale) scale)

/-- The difference, at the larger scale. Taking away a zero changes nothing, and a zero less an
amount is its opposite. -/
def sub (a b : Decimal) : Except Overflow Decimal :=
  if a.isZero then .ok (if b.isZero then b else -b)
  else if b.isZero then .ok a
  else
    let scale := max a.scale b.scale
    Overflow.subtraction.guard (fitUnits (a.unitsAt scale - b.unitsAt scale) scale)

/-- Mantissas below this, 2^32, are short. -/
def shortCapacity : Nat := 4294967296

/-- The product of two short mantissas: past 28 fraction digits it is rounded, and what lies
wholly past 47 is nothing. A zero is positive. -/
def shortProduct (negative : Bool) (m scale : Nat) : Option Decimal :=
  if 47 < scale then some zero
  else if 28 < scale then
    let units := halfEven m (tenTo (scale - 28))
    ofParts? (negative && units ≠ 0) units 28
  else ofParts? negative m scale

/-- The product, at the sum of the scales where there is room. With a long factor the sign stays
where nothing is left of it. -/
def mul (a b : Decimal) : Except Overflow Decimal :=
  if a.isZero || b.isZero then .ok zero
  else
    let negative := a.negative ^^ b.negative
    let m := a.mantissa * b.mantissa
    let scale := a.scale + b.scale
    Overflow.multiplication.guard
      (if a.mantissa < shortCapacity ∧ b.mantissa < shortCapacity then shortProduct negative m scale
      else fit negative m scale)

/-- The largest number of digits, up to `limit`, by which `q` can be extended below the capacity. -/
def room (q : Nat) : Nat → Nat
  | 0 => 0
  | limit + 1 => if q * tenTo (limit + 1) < capacity then limit + 1 else room q limit

theorem room_le (q limit : Nat) : room q limit ≤ limit := by
  induction limit with
  | zero => exact Nat.le_refl 0
  | succ n ih =>
    simp only [room]
    split
    · exact Nat.le_refl _
    · exact Nat.le_succ_of_le ih

/-- How many digits long division takes next: up to nine, up to scale 28, and as many as fit; a
division without rest only has to reach scale 0. -/
def nextDigits (q r : Nat) (scale : Int) : Nat :=
  if r = 0 then min 9 (-scale).toNat else room q (min 9 (28 - scale).toNat)

theorem nextDigits_scale {q r : Nat} {scale : Int} (hp : nextDigits q r scale ≠ 0) :
    scale + nextDigits q r scale ≤ 28 := by
  unfold nextDigits at *
  split at hp
  · rename_i hr
    simp only [hr, ↓reduceIte]
    omega
  · rename_i hr
    have := room_le q (min 9 (28 - scale).toNat)
    simp only [hr, ↓reduceIte]
    omega

/-- Long division by `d`. The quotient so far is `q` at `scale` with rest `r`; the answer holds
the digits, their scale, and whether some step left a rest. -/
def longDivision (d q r : Nat) (scale : Int) (cut : Bool) : Option (Nat × Int × Bool) :=
  if r = 0 ∧ 0 ≤ scale then some (q, scale, cut)
  else
    let p := nextDigits q r scale
    if r ≠ 0 ∧ p < 9 ∧ scale + p < 0 then none
    else if _hp : p = 0 then
      let q' := halfEven (q * d + r) d
      if q' < capacity then some (q', scale, true)
      else if scale - 1 < 0 then none
      else some (halfEven q' 10, scale - 1, true)
    else if capacity ≤ q * tenTo p then none
    else
      let q' := q * tenTo p + r * tenTo p / d
      let r' := r * tenTo p % d
      if q' < capacity then longDivision d q' r' (scale + p) (cut || r ≠ 0)
      else if scale + p - 1 < 0 then none
      else some (nearest q' 10 (r' ≠ 0), scale + p - 1, true)
termination_by (28 - scale).toNat
decreasing_by
  have := nextDigits_scale _hp
  omega

/-- Eight zeros at a time go from the end of a fraction while the last 32 bits are clear. -/
def dropEights (q s : Nat) : Nat × Nat :=
  if q % shortCapacity = 0 ∧ 8 ≤ s ∧ q % tenTo 8 = 0 then dropEights (q / tenTo 8) (s - 8)
  else (q, s)
termination_by s

/-- `n` zeros go from the end of a fraction, or none. -/
def dropZeros (n : Nat) (q : Nat × Nat) : Nat × Nat :=
  if n ≤ q.2 ∧ q.1 % tenTo n = 0 then (q.1 / tenTo n, q.2 - n) else q

/-- Of a quotient that was cut, some of the zeros that end its fraction are dropped. -/
def tidyQuotient (q s : Nat) : Nat × Nat :=
  dropZeros 1 (dropZeros 2 (dropZeros 4 (dropEights q s)))

/-- The quotient. A zero divisor is beyond the range like any other quotient without value. -/
def div (a b : Decimal) : Except Overflow Decimal :=
  if b.isZero then .error .division
  else if a.isZero then .ok zero
  else
    match longDivision b.mantissa (a.mantissa / b.mantissa) (a.mantissa % b.mantissa)
        (a.scale - b.scale) false with
    | none => .error .division
    | some (q, scale, cut) =>
      let (units, s) := if cut then tidyQuotient q scale.toNat else (q, scale.toNat)
      Overflow.division.guard (ofParts? ((a.negative ^^ b.negative) && units ≠ 0) units s)

/-- An amount with all amounts of a list added to it, from the left. -/
def addAll (start : Decimal) (ds : List Decimal) : Except Overflow Decimal :=
  ds.foldlM add start

/-- The sum of a list, from the left. -/
def sum (ds : List Decimal) : Except Overflow Decimal :=
  addAll zero ds

@[simp] theorem addAll_nil (start : Decimal) : addAll start [] = .ok start := rfl

@[simp] theorem addAll_cons (start d : Decimal) (ds : List Decimal) :
    addAll start (d :: ds) = start.add d >>= fun total => addAll total ds := rfl

end Invoicing.Decimal
