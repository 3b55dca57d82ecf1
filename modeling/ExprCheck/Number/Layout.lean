import ExprCheck.Json.Value
import ExprCheck.Limits
import ExprCheck.Number.Shortest

/-!
How numbers with a fraction are written.
-/

namespace ExprCheck.Number

/-- The digits before and after a point that stands behind the first `point` digits. -/
def positional (digits : List Char) (point : Int) : List Char × List Char :=
  if 0 < point then
    let whole := digits.take point.toNat
    (whole ++ List.replicate (point.toNat - whole.length) '0', digits.drop point.toNat)
  else (['0'], List.replicate (-point).toNat '0' ++ digits)

def isNegative (x : Float) : Bool :=
  signedBound ≤ x.toBits.toNat

/-- A finite number in JSON. The point is kept where the first digit is not
more than five places behind it or sixteen places before it, with a zero behind
it if nothing else is; beyond that an exponent follows the first digit. -/
def numeral (x : Float) : Json.Numeral :=
  let d := (Binary.ofFloat x).shortest .even
  let digits := Text.digits d.digits
  let point := digits.length + d.exponent
  if -5 < point ∧ point ≤ 16 then
    let (whole, fraction) := positional digits point
    { negative := isNegative x
      whole := whole
      fraction := if fraction = [] then ['0'] else fraction }
  else
    { negative := isNegative x
      whole := digits.take 1
      fraction := digits.drop 1
      exponent := some (point - 1) }

/-- A finite number in plain words: never an exponent, and no point without a fraction. -/
def plain (x : Float) : String :=
  let d := (Binary.ofFloat x).shortest .up
  let digits := Text.digits d.digits
  let (whole, fraction) := positional digits (digits.length + d.exponent)
  (if isNegative x then "-" else "")
    ++ String.ofList (if fraction = [] then whole else whole ++ '.' :: fraction)

end ExprCheck.Number
