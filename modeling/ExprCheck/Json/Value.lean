import ExprCheck.Text.Characters

/-!
JSON values. Objects keep the order of their fields, and numbers their digits.
-/

namespace ExprCheck.Json

/-- A number as it is written. -/
structure Numeral where
  negative : Bool := false
  /-- The digits before the point: at least one, and no zero in front. -/
  whole : List Char
  /-- The digits after the point; without any there is no point. -/
  fraction : List Char := []
  /-- The exponent. All that have more than 31 bits count as one. -/
  exponent : Option Int := none
deriving DecidableEq, Repr

namespace Numeral

def ofNat (n : Nat) : Numeral where
  whole := Text.digits n

/-- The number, if it is written with digits only and lies below a bound. -/
def natBelow? (bound : Nat) (n : Numeral) : Option Nat :=
  if n.negative = false ∧ n.fraction = [] ∧ n.exponent = none then
    Text.decimalBelow? bound n.whole
  else none

/-- The text of a number. An exponent always has a sign. -/
def spelling (n : Numeral) : String :=
  let sign := if n.negative then "-" else ""
  let fraction := if n.fraction = [] then "" else "." ++ String.ofList n.fraction
  let exponent := match n.exponent with
    | none => ""
    | some e => if 0 ≤ e then s!"e+{e}" else s!"e{e}"
  sign ++ String.ofList n.whole ++ fraction ++ exponent

end Numeral

inductive Value where
  | null
  | bool (b : Bool)
  | number (n : Numeral)
  | string (s : String)
  | array (items : List Value)
  | object (fields : List (String × Value))
  /-- A string literal, or an object with one for a key, that spells no text:
  an escape in it names half of a surrogate pair. -/
  | garbled
deriving Inhabited

namespace Value

def ofNat (n : Nat) : Value :=
  .number (.ofNat n)

/-- A value that may be missing. -/
def ofOption (f : α → Value) : Option α → Value
  | some a => f a
  | none => .null

/-! Values as records, and what stands in their fields -/

/-- The values of a record's fields. An array gives them all in their order; an
object may leave some out and have others besides, but none twice. -/
def record? (names : List String) : Value → Option (List (Option Value))
  | .array items => if items.length = names.length then some (items.map some) else none
  | .object fields =>
    if names.all fun name => fields.countP (·.1 == name) ≤ 1 then
      some (names.map fun name => fields.lookup name)
    else none
  | _ => none

def string? : Value → Option String
  | .string s => some s
  | _ => none

/-- A whole number below a bound. -/
def nat? (bound : Nat) : Value → Option Nat
  | .number n => n.natBelow? bound
  | _ => none

def list? (f : Value → Option α) : Value → Option (List α)
  | .array items => items.mapM f
  | _ => none

/-- One of several names, as a string or as the only key of an object. -/
def name? : Value → Option String
  | .string s => some s
  | .object [(name, .null)] => some name
  | _ => none

/-- A field that may be missing. -/
def optional (f : Value → Option α) : Option Value → Option (Option α)
  | none | some .null => some none
  | some v => (f v).map some

end Value
end ExprCheck.Json
