import ExprCheck.Limits
import ExprCheck.Text.Characters
import ExprCheck.Time.Date
import ExprCheck.Toml.Item

/-!
TOML values that are neither quoted nor nested. Each is one word, but for a
blank that may divide a date from a time.
-/

namespace ExprCheck.Toml

def isWordChar (c : Char) : Bool :=
  c.isAlphanum || c == '_' || c == '+' || c == '-' || c == '.' || c == ':'

/-! Numbers -/

/-- Whether every underscore stands between digits; `afterDigit` tells whether one
could stand here. -/
def isSpaced (isDigit : Char → Bool) : (afterDigit : Bool) → List Char → Bool
  | afterDigit, [] => afterDigit
  | afterDigit, c :: cs =>
    if isDigit c then isSpaced isDigit true cs
    else if afterDigit && c == '_' then isSpaced isDigit false cs
    else false

/-- The digits of a run in which single underscores stand between digits. -/
def spacedDigits? (isDigit : Char → Bool) (cs : List Char) : Option (List Char) :=
  if isSpaced isDigit false cs then some (cs.filter (· ≠ '_')) else none

/-- The digits of a decimal number: a zero in front stands alone. -/
def decimalDigits? (cs : List Char) : Option (List Char) :=
  (spacedDigits? Char.isDigit cs).filter fun digits => digits.head? ≠ some '0' ∨ digits.length = 1

def isDigitOf (base : Nat) (c : Char) : Bool :=
  (Text.hexValue? c).any (· < base)

/-- A number that is too great for 64 bits is not told exactly. -/
def radixNumber? (base : Nat) (cs : List Char) : Option Int :=
  (spacedDigits? (isDigitOf base) cs).map fun digits =>
    Text.cappedNumber base Number.wordBound digits

/-- Whether a sign is a minus, and what follows it. -/
def splitSign : List Char → Bool × List Char
  | '-' :: cs => (true, cs)
  | '+' :: cs => (false, cs)
  | cs => (false, cs)

/-- A number that is too great for 64 bits is not told exactly. -/
def decimalNumber? (cs : List Char) : Option Int :=
  let (negative, cs) := splitSign cs
  (decimalDigits? cs).map fun digits =>
    let n : Int := Text.cappedDecimal Number.wordBound digits
    if negative then -n else n

/-- An integer of 64 bits. -/
def integer? (word : List Char) : Option Int :=
  let n := match word with
    | '0' :: 'x' :: cs => radixNumber? 16 cs
    | '0' :: 'o' :: cs => radixNumber? 8 cs
    | '0' :: 'b' :: cs => radixNumber? 2 cs
    | cs => decimalNumber? cs
  n.filter fun n => -(Number.signedBound : Int) ≤ n ∧ n < Number.signedBound

/-- Numbers from here on are rounded to infinity in 64 bits. -/
def infiniteFrom : Nat := Nat.pow 2 1024 - Nat.pow 2 970

/-- How many digits `infiniteFrom` has. -/
def infinitePlaces : Nat := 309

/-- Whether a decimal is rounded to infinity in 64 bits: `digits` without a
point, times the power of ten. What stands behind the point does not matter. -/
def overflows (digits : List Char) (exponent : Int) : Bool :=
  let digits := digits.dropWhile (· == '0')
  let places := digits.length + exponent
  if digits.isEmpty ∨ places < infinitePlaces then false
  else if infinitePlaces < places then true
  else
    let whole := digits.take infinitePlaces
    infiniteFrom
      ≤ Text.decimal (whole ++ List.replicate (infinitePlaces - whole.length) '0')

/-- An exponent grows no further once it has reached this. -/
def exponentCap : Nat := 65536

/-- The exponent that follows the digits of a float, if there is one. -/
def exponent? : List Char → Option Int
  | [] => some 0
  | e :: cs =>
    if e = 'e' ∨ e = 'E' then
      let (negative, cs) := splitSign cs
      (spacedDigits? Char.isDigit cs).map fun digits =>
        let n : Int := Text.cappedDecimal exponentCap digits
        if negative then -n else n
    else none

def isNumberChar (c : Char) : Bool :=
  c.isDigit || c == '_'

/-- Whether a word is a float. One that is too great is refused, one that is too
small is not. -/
def isFloat (word : List Char) : Bool :=
  let (negative, cs) := splitSign word
  if cs = ['i', 'n', 'f'] ∨ cs = ['n', 'a', 'n'] then true
  else
    let whole := decimalDigits? (cs.takeWhile isNumberChar)
    let parts := match cs.dropWhile isNumberChar with
      | '.' :: cs =>
        (spacedDigits? Char.isDigit (cs.takeWhile isNumberChar)).bind fun fraction =>
          (exponent? (cs.dropWhile isNumberChar)).map (fraction, ·)
      | [] => none
      | cs => (exponent? cs).map ([], ·)
    match whole, parts with
    | some whole, some (fraction, exponent) =>
      negative || !overflows (whole ++ fraction) (exponent - fraction.length)
    | _, _ => false

/-! Dates and times -/

/-- A number of two digits up to a bound, and what follows it. -/
def twoDigits? (bound : Nat) : List Char → Option (Nat × List Char)
  | a :: b :: cs =>
    if a.isDigit ∧ b.isDigit ∧ Text.decimal [a, b] ≤ bound then some (Text.decimal [a, b], cs)
    else none
  | _ => none

def char? (c : Char) : List Char → Option (List Char)
  | d :: cs => if d = c then some cs else none
  | [] => none

/-- What follows a date. -/
def afterDate? (cs : List Char) : Option (List Char) := do
  let (century, cs) ← twoDigits? 99 cs
  let (rest, cs) ← twoDigits? 99 cs
  let (month, cs) ← twoDigits? 12 (← char? '-' cs)
  let (day, cs) ← twoDigits? 31 (← char? '-' cs)
  let year : Int := 100 * century + rest
  if 1 ≤ month ∧ 1 ≤ day ∧ day ≤ Date.daysInMonth year month then some cs else none

/-- What follows a time of day. -/
def afterTime? (cs : List Char) : Option (List Char) := do
  let (_, cs) ← twoDigits? 23 cs
  let (_, cs) ← twoDigits? 59 (← char? ':' cs)
  let (_, cs) ← twoDigits? 60 (← char? ':' cs)
  match cs with
  | '.' :: cs =>
    if cs.head?.any Char.isDigit then some (cs.dropWhile Char.isDigit) else none
  | cs => some cs

/-- Whether a word is an offset from universal time, or nothing. -/
def isOffset : List Char → Bool
  | [] | ['Z'] | ['z'] => true
  | '+' :: cs | '-' :: cs =>
    (do
      let (_, cs) ← twoDigits? 23 cs
      let (_, cs) ← twoDigits? 59 (← char? ':' cs)
      some cs.isEmpty).getD false
  | _ => false

/-- Whether a word is a time with or without an offset. -/
def isTimeWithOffset (cs : List Char) : Bool :=
  (afterTime? cs).any isOffset

def isDatetime (word : List Char) : Bool :=
  afterTime? word == some []
    || match afterDate? word with
      | some ('T' :: cs) | some ('t' :: cs) => isTimeWithOffset cs
      | some cs => cs.isEmpty
      | none => false

/-! Words -/

def word? (word : List Char) : Option Item :=
  if word = "true".toList then some (.boolean true)
  else if word = "false".toList then some (.boolean false)
  else
    match integer? word with
    | some n => some (.integer n)
    | none =>
      if isFloat word then some .float
      else if isDatetime word then some .datetime
      else none

/-- Whether an hour and a colon follow. -/
def startsTime : List Char → Bool
  | a :: b :: ':' :: _ => a.isDigit && b.isDigit
  | _ => false

/-- Reads a word; after a date also a time behind one blank. -/
def readWord (cs : List Char) : Option (Item × List Char) :=
  let word := cs.takeWhile isWordChar
  let rest := cs.dropWhile isWordChar
  match rest with
  | ' ' :: more =>
    if afterDate? word = some [] ∧ startsTime more then
      if isTimeWithOffset (more.takeWhile isWordChar) then
        some (.datetime, more.dropWhile isWordChar)
      else none
    else (word? word).map (·, rest)
  | rest => (word? word).map (·, rest)

end ExprCheck.Toml
