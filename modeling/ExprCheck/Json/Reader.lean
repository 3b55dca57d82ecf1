import ExprCheck.Json.Value
import ExprCheck.Limits
import ExprCheck.Text.Characters

/-!
Reading JSON. A text is one value with blanks around it.
-/

namespace ExprCheck.Json

def isBlank (c : Char) : Bool :=
  c == ' ' || c == '\n' || c == '\t' || c == '\r'

def skipBlanks (cs : List Char) : List Char :=
  cs.dropWhile isBlank

/-! Strings -/

def hex4? (a b c d : Char) : Option Nat := do
  return 4096 * (← Text.hexValue? a) + 256 * (← Text.hexValue? b) + 16 * (← Text.hexValue? c)
    + (← Text.hexValue? d)

/-- What a backslash and a letter other than `u` stand for. -/
def unescape? : Char → Option Char
  | '"' => some '"'
  | '\\' => some '\\'
  | '/' => some '/'
  | 'b' => some '\x08'
  | 'f' => some '\x0c'
  | 'n' => some '\n'
  | 'r' => some '\r'
  | 't' => some '\t'
  | _ => none

/-- Reads up to the closing quote, and puts the numbers of the characters in
front of those in `units`, so that the last comes first. An escape may give half
of a surrogate pair. -/
def readUnits (units : List Nat) : List Char → Option (List Nat × List Char)
  | [] => none
  | '"' :: cs => some (units, cs)
  | '\\' :: 'u' :: a :: b :: c :: d :: cs =>
    match hex4? a b c d with
    | some n => readUnits (n :: units) cs
    | none => none
  | '\\' :: e :: cs =>
    match unescape? e with
    | some c => readUnits (c.toNat :: units) cs
    | none => none
  | c :: cs => if c = '\\' ∨ c.toNat < 0x20 then none else readUnits (c.toNat :: units) cs

def isHighHalf (n : Nat) : Bool := 0xD800 ≤ n && n < 0xDC00

def isLowHalf (n : Nat) : Bool := 0xDC00 ≤ n && n < 0xE000

/-- The characters with given numbers, the last number first, in front of
`chars`. Halves of surrogate pairs are joined, and a half alone is refused. -/
def joinUnits (chars : List Char) : List Nat → Option (List Char)
  | [] => some chars
  | low :: high :: units =>
    if isLowHalf low ∧ isHighHalf high then
      joinUnits
        (Char.ofNat (0x10000 + 0x400 * (high - 0xD800) + (low - 0xDC00)) :: chars) units
    else if isLowHalf low ∨ isHighHalf low then none
    else joinUnits (Char.ofNat low :: chars) (high :: units)
  | [unit] => if isLowHalf unit ∨ isHighHalf unit then none else some (Char.ofNat unit :: chars)

/-- Reads what follows an opening quote; the result is none if it spells no text. -/
def readString (cs : List Char) : Option (Option String × List Char) :=
  (readUnits [] cs).map fun (units, cs) => ((joinUnits [] units).map String.ofList, cs)

/-! Numbers -/

/-- Reads digits, of which there must be one. -/
def readDigits (cs : List Char) : Option (List Char × List Char) :=
  let digits := cs.takeWhile Char.isDigit
  if digits = [] then none else some (digits, cs.dropWhile Char.isDigit)

/-- Reads the digits before the point; a zero stands alone. -/
def readWhole (cs : List Char) : Option (List Char × List Char) :=
  (readDigits cs).filter fun (digits, _) => digits.head? ≠ some '0' ∨ digits = ['0']

def readFraction : List Char → Option (List Char × List Char)
  | '.' :: cs => readDigits cs
  | cs => some ([], cs)

/-- The size of an exponent, as far as it can be told. -/
def exponentSize (digits : List Char) : Nat :=
  min (Text.cappedDecimal Number.signedHalfBound digits) Number.signedHalfBound

def readExponent : List Char → Option (Option Int × List Char)
  | 'e' :: cs | 'E' :: cs =>
    match cs with
    | '-' :: cs => (readDigits cs).map fun (digits, cs) => (some (-exponentSize digits), cs)
    | '+' :: cs | cs => (readDigits cs).map fun (digits, cs) => (some (exponentSize digits), cs)
  | cs => some (none, cs)

def readNumeral (cs : List Char) : Option (Numeral × List Char) := do
  let (negative, cs) := match cs with
    | '-' :: cs => (true, cs)
    | cs => (false, cs)
  let (whole, cs) ← readWhole cs
  let (fraction, cs) ← readFraction cs
  let (exponent, cs) ← readExponent cs
  return (⟨negative, whole, fraction, exponent⟩, cs)

/-! Values -/

/-- An object, unless one of its keys spells no text. -/
def Value.ofFields (fields : List (Option String × Value)) : Value :=
  match fields.mapM fun (key, value) => key.map (·, value) with
  | some fields => .object fields
  | none => .garbled

mutual

def readValue : Nat → List Char → Option (Value × List Char)
  | 0, _ => none
  | fuel + 1, cs =>
    match skipBlanks cs with
    | '"' :: cs =>
      match readString cs with
      | some (some s, cs) => some (.string s, cs)
      | some (none, cs) => some (.garbled, cs)
      | none => none
    | '[' :: cs =>
      match skipBlanks cs with
      | ']' :: cs => some (.array [], cs)
      | cs => readItems fuel [] cs
    | '\x7b' :: cs =>
      match skipBlanks cs with
      | '\x7d' :: cs => some (.object [], cs)
      | cs => readFields fuel [] cs
    | 'n' :: 'u' :: 'l' :: 'l' :: cs => some (.null, cs)
    | 't' :: 'r' :: 'u' :: 'e' :: cs => some (.bool true, cs)
    | 'f' :: 'a' :: 'l' :: 's' :: 'e' :: cs => some (.bool false, cs)
    | cs => (readNumeral cs).map fun (n, cs) => (.number n, cs)

/-- Reads the items of an array up to its bracket, after those in `items`, of
which the last comes first. -/
def readItems : Nat → List Value → List Char → Option (Value × List Char)
  | 0, _, _ => none
  | fuel + 1, items, cs =>
    match readValue fuel cs with
    | none => none
    | some (v, cs) =>
      match skipBlanks cs with
      | ',' :: cs => readItems fuel (v :: items) cs
      | ']' :: cs => some (.array (v :: items).reverse, cs)
      | _ => none

/-- Reads the fields of an object up to its brace, after those in `fields`, of
which the last comes first. -/
def readFields : Nat → List (Option String × Value) → List Char → Option (Value × List Char)
  | 0, _, _ => none
  | fuel + 1, fields, cs =>
    match skipBlanks cs with
    | '"' :: cs =>
      match readString cs with
      | none => none
      | some (key, cs) =>
        match skipBlanks cs with
        | ':' :: cs =>
          match readValue fuel cs with
          | none => none
          | some (v, cs) =>
            match skipBlanks cs with
            | ',' :: cs => readFields fuel ((key, v) :: fields) cs
            | '\x7d' :: cs => some (.ofFields ((key, v) :: fields).reverse, cs)
            | _ => none
        | _ => none
    | _ => none

end

/-- The value of a text. No step takes more than two units of fuel for a character. -/
def parse? (text : String) : Option Value :=
  let cs := text.toList
  match readValue (2 * cs.length + 2) cs with
  | some (v, cs) => if skipBlanks cs = [] then some v else none
  | none => none

end ExprCheck.Json
