/-!
Readings of the clock.
-/

namespace ExprCheck

def nanosPerSecond : Nat := 1000000000

/-- A stretch of time in nanoseconds. -/
structure Duration where
  nanos : Nat := 0
deriving DecidableEq, Repr

namespace Duration

def ofMicros (n : Nat) : Duration := ⟨1000 * n⟩

/-- The seconds: the whole ones, and the rest as a fraction. -/
def seconds (d : Duration) : Float :=
  (d.nanos / nanosPerSecond).toFloat + (d.nanos % nanosPerSecond).toFloat / 1e9

def milliseconds (d : Duration) : Float :=
  d.seconds * 1000.0

end Duration

/-- When something was done, and how long it took. -/
structure Moment where
  /-- Nanoseconds since the start of 1970. -/
  nanos : Int := 0
  elapsed : Duration := {}
deriving DecidableEq, Repr

/-- Whole seconds since the start of 1970. -/
def Moment.seconds (m : Moment) : Int :=
  m.nanos / nanosPerSecond

end ExprCheck
