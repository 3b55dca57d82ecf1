/-!
The shortest decimal that reads back as a given binary number.

A binary number stands for all reals that are rounded to it. Of the decimals in
that interval the shortest is taken, which is the first that is met when the
grids of the powers of ten are tried from the coarsest to the finest. On each
grid only the two neighbours of the number have to be looked at.
-/

namespace ExprCheck.Number

/-- The number `significand * 2 ^ exponent`. -/
structure Binary where
  significand : Nat
  exponent : Int
deriving DecidableEq, Repr

/-- The first of the 53 bits of a significand; it is not stored. -/
def leadingBit : Nat := 4503599627370496

/-- The size of a finite number with 64 bits. -/
def Binary.ofFloat (x : Float) : Binary :=
  let bits := x.toBits.toNat
  let fraction := bits % leadingBit
  let exponent : Nat := bits / leadingBit % 2048
  if exponent = 0 then ⟨fraction, -1074⟩ else ⟨fraction + leadingBit, exponent - 1075⟩

/-- The number `digits * 10 ^ exponent`. -/
structure Decimal where
  digits : Nat
  exponent : Int
deriving DecidableEq, Repr

/-- Which of two decimals at the same distance is taken. -/
inductive Tie where
  | even
  | up
deriving DecidableEq, Repr

/-- The number and the ends of its interval as multiples of one unit, which is
`unit / grid` steps of the grid `10 ^ k`. -/
structure Gauge where
  low : Nat
  value : Nat
  high : Nat
  /-- Whether the ends belong to the interval. -/
  closed : Bool
  unit : Nat
  grid : Nat

/-- A quarter of the last place is the unit: below a power of two the numbers
lie twice as close. -/
def Binary.gauge (x : Binary) (k : Int) : Gauge :=
  let below := if x.significand = leadingBit ∧ -1074 < x.exponent then 1 else 2
  { low := 4 * x.significand - below
    value := 4 * x.significand
    high := 4 * x.significand + 2
    closed := x.significand % 2 = 0
    unit := Nat.pow 2 (x.exponent - 2).toNat * Nat.pow 10 (-k).toNat
    grid := Nat.pow 2 (2 - x.exponent).toNat * Nat.pow 10 k.toNat }

namespace Gauge

/-- Whether the point `n` of the grid lies in the interval. -/
def holds (g : Gauge) (n : Nat) : Bool :=
  if g.closed then g.low * g.unit ≤ n * g.grid && n * g.grid ≤ g.high * g.unit
  else g.low * g.unit < n * g.grid && n * g.grid < g.high * g.unit

/-- The neighbour on the grid that lies in the interval, the nearer one if both do. -/
def nearest? (g : Gauge) (tie : Tie) : Option Nat :=
  let floor := g.value * g.unit / g.grid
  match g.holds floor && 0 < floor, g.holds (floor + 1) with
  | false, false => none
  | true, false => some floor
  | false, true => some (floor + 1)
  | true, true =>
    let below := g.value * g.unit - floor * g.grid
    let above := (floor + 1) * g.grid - g.value * g.unit
    if below < above ∨ below = above ∧ tie = .even ∧ floor % 2 = 0 then some floor
    else some (floor + 1)

end Gauge

/-- No number below `2 ^ (exponent + 53)` has a decimal digit of a higher place. -/
def Binary.topPlace (x : Binary) : Int :=
  (x.exponent + 53) * 30103 / 100000 + 2

/-- The shortest decimal for a number. Seventeen digits are always enough, and
the first places tried may lie above the first digit. -/
def Binary.shortest (x : Binary) (tie : Tie) : Decimal :=
  if x.significand = 0 then ⟨0, 0⟩
  else
    ((List.range 40).findSome? fun (i : Nat) =>
      let k := x.topPlace - i
      ((x.gauge k).nearest? tie).map fun n => ⟨n, k⟩).getD ⟨0, 0⟩

/-- Rounds a quotient to the nearest number, a half to the even one. -/
def roundDiv (n d : Nat) : Nat :=
  let q := n / d
  let r := n % d
  if 2 * r < d ∨ 2 * r = d ∧ q % 2 = 0 then q else q + 1

/-- The nearest whole number. -/
def Binary.round (x : Binary) : Nat :=
  roundDiv (x.significand * Nat.pow 2 x.exponent.toNat) (Nat.pow 2 (-x.exponent).toNat)

end ExprCheck.Number
