import ExprCheck.Limits
import ExprCheck.Token

/-!
Whole sequences of tokens: questions about them, and counts of what is in them.
-/

namespace ExprCheck

namespace Token

def categories (ts : List Token) : List Category :=
  ts.map (·.category)

/-- Whether the tokens end with an end marker and have no other. -/
def hasEndMarker (ts : List Token) : Bool :=
  ts.countP isEnd == 1 && ts.getLast?.any isEnd

def invalid (ts : List Token) : List Token :=
  ts.filter (·.category == .invalid)

end Token

/-- Counts of what a scan has found. -/
structure Tally where
  /-- All tokens, the end marker among them. -/
  total : Nat := 0
  integers : Nat := 0
  operators : Nat := 0
  parens : Nat := 0
  invalid : Nat := 0
  blanks : Nat := 0
  /-- Bytes of the longest integer. -/
  longestInteger : Nat := 0
  /-- Integers longer than is usual. -/
  longIntegers : Nat := 0
deriving DecidableEq, Repr, Inhabited

/-- Whether a token is an integer longer than is usual. -/
def Token.isLong (t : Token) : Bool :=
  t.category == .integer && Limits.integerWidth < t.width

namespace Tally

/-- Counts a token under its category. -/
def classify (m : Tally) (t : Token) : Tally :=
  match t.category with
  | .integer =>
    { m with
      integers := m.integers + 1
      longestInteger := max m.longestInteger t.width
      longIntegers := if t.isLong then m.longIntegers + 1 else m.longIntegers }
  | .invalid => { m with invalid := m.invalid + 1 }
  | .plus | .times => { m with operators := m.operators + 1 }
  | .openParen | .closeParen => { m with parens := m.parens + 1 }
  | .endOfInput => m

/-- Counts a token, under its category only if `detailed`. -/
def record (detailed : Bool) (m : Tally) (t : Token) : Tally :=
  let m := { m with total := m.total + 1 }
  if detailed then m.classify t else m

def ofTokens (detailed : Bool) (ts : List Token) (blanks : Nat) : Tally :=
  { ts.foldl (record detailed) {} with blanks := blanks }

/-- The tokens other than the end marker. -/
def significant (m : Tally) : Nat :=
  m.total - 1

def hasInvalid (m : Tally) : Bool :=
  0 < m.invalid

end Tally

end ExprCheck
