/-!
How much an event matters, and how much of the events is wanted. A threshold
lets through the levels at or below it.
-/

namespace ExprCheck

inductive Level where
  | error
  | warning
  | info
  | debug
deriving DecidableEq, Repr, Inhabited

namespace Level

def rank : Level → Nat
  | error => 0
  | warning => 1
  | info => 2
  | debug => 3

instance : LE Level where
  le a b := a.rank ≤ b.rank

instance (a b : Level) : Decidable (a ≤ b) :=
  inferInstanceAs (Decidable (a.rank ≤ b.rank))

/-- The level with a rank; beyond the last it stays at `debug`. -/
def ofRank : Nat → Level
  | 0 => error
  | 1 => warning
  | 2 => info
  | _ => debug

/-- The threshold `steps` notches further open. -/
def raisedBy (l : Level) (steps : Nat) : Level :=
  ofRank (l.rank + steps)

/-- The name in events. -/
def name : Level → String
  | error => "ERROR"
  | warning => "WARN"
  | info => "INFO"
  | debug => "DEBUG"

/-- The name in settings. -/
def label : Level → String
  | error => "error"
  | warning => "warning"
  | info => "info"
  | debug => "debug"

def ofLabel? (s : String) : Option Level :=
  [error, warning, info, debug].find? (·.label == s)

/-- Reads a level as people write it: any case, a short form, or its rank. No
letter outside ASCII has one of these names' letters as its lower case. -/
def parse? (s : String) : Option Level :=
  match String.ofList (s.toList.map Char.toLower) with
  | "error" | "0" => some error
  | "warning" | "warn" | "1" => some warning
  | "info" | "2" => some info
  | "debug" | "3" => some debug
  | _ => none

end Level
end ExprCheck
