/-!
Bounds: of the numbers in machine words, and those that no setting can raise.
-/

namespace ExprCheck.Number

/-- Numbers of 64 bits lie below this. -/
def wordBound : Nat := 18446744073709551616

/-- Numbers of 64 bits with a sign lie below this, and not below its negative. -/
def signedBound : Nat := 9223372036854775808

/-- Numbers of 32 bits lie below this. -/
def halfWordBound : Nat := 4294967296

/-- Numbers of 32 bits with a sign lie below this. -/
def signedHalfBound : Nat := 2147483648

end ExprCheck.Number

namespace ExprCheck.Limits

/-- Bytes of a text that is checked. -/
def inputLength : Nat := 1048576

/-- Parentheses open at once. -/
def depth : Nat := 4096

/-- Bytes of an integer that is not called long. -/
def integerWidth : Nat := 64

/-- Events that a memory keeps. -/
def memory : Nat := 10000

/-- Bytes of an event's message that are kept. -/
def messageLength : Nat := 10000

/-- Expressions in one batch. -/
def batch : Nat := 100000

end ExprCheck.Limits
