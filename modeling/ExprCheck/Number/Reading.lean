import ExprCheck.Json.Value
import ExprCheck.Limits

/-!
The numbers with 64 bits that numerals stand for. As many digits as fit into a
word are gathered, and the word is scaled once by a power of ten; that is not
always the nearest number.
-/

namespace ExprCheck.Number

/-- Gathers digits behind `n` as long as the number fits into a word; also gives the
digits that are left. -/
def gather (n : Nat) : List Char → Nat × List Char
  | [] => (n, [])
  | c :: cs =>
    let next := 10 * n + (c.toNat - '0'.toNat)
    if next < wordBound then gather next cs else (n, c :: cs)

def powerOfTen (k : Nat) : Float :=
  Float.ofScientific 1 false k

/-- Divides by a power of ten, of which the greatest that can be told is the 308th. -/
def scaleDown (x : Float) (k : Nat) : Float :=
  if k ≤ 308 then x / powerOfTen k
  else if x == 0.0 then x
  else scaleDown (x / powerOfTen 308) (k - 308)
termination_by k

/-- Multiplies by a power of ten, unless the product is out of range. -/
def scaleUp (x : Float) (k : Nat) : Option Float :=
  if k ≤ 308 then
    let product := x * powerOfTen k
    if product.isFinite then some product else none
  else if x == 0.0 then some x
  else none

def scale (x : Float) (exponent : Int) : Option Float :=
  if 0 ≤ exponent then scaleUp x exponent.toNat else some (scaleDown x (-exponent).toNat)

/-- The size of a number. An exponent of more than 31 bits leaves nothing of it,
and is refused if it is positive and there is something. -/
def magnitude? (n : Json.Numeral) : Option Float :=
  let (word, dropped) := gather 0 n.whole
  let (word, rest) := gather word n.fraction
  let start : Int := dropped.length - (n.fraction.length - rest.length : Nat)
  let exponent := n.exponent.getD 0
  if exponent.natAbs < signedHalfBound then scale word.toFloat (start + exponent)
  else if 0 < exponent ∧ word ≠ 0 then none
  else some 0.0

def float? (n : Json.Numeral) : Option Float :=
  (magnitude? n).map fun x => if n.negative then -x else x

end ExprCheck.Number
