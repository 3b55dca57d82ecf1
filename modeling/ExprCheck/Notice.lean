import ExprCheck.Grammar.Fault
import ExprCheck.Settings
import ExprCheck.Token.Stream

/-!
What the library says while it works. A notice holds the facts; wording, code
and time are put to it when it becomes an event.
-/

namespace ExprCheck

/-- The rules of the grammar. -/
inductive Production where
  | program
  | expression
  | term
  | factor
deriving DecidableEq, Repr

def Production.name : Production → String
  | program => "program"
  | expression => "expr"
  | term => "term"
  | factor => "fact"

inductive Notice where
  | inputTooLarge (length limit : Nat)
  | checking (bytes : Nat)
  | scanning (bytes : Nat) (detailed : Bool)
  | scanned (token : Token)
  | invalidCharacter (token : Token)
  | longInteger (token : Token)
  | scanComplete (tally : Tally)
  | streamCreated (count : Nat)
  /-- The tokens ran out without an end marker. -/
  | missingEnd
  | entering (production : Production) (lookahead : Token) (depth : Nat)
  | recognized (consumed depth : Nat)
  | stopped (fault : Grammar.Fault) (consumed : Nat)
  | accepted (bytes tokens depth : Nat)
  /-- How long an accepted text of so many tokens took. -/
  | timing (tokens : Nat)
  | rejected (code : Code)
  | emptyBatch (source : String)
  | batchComplete (total accepted rejected : Nat)
  /-- A service made from the settings has been installed. -/
  | serviceReady
  /-- The command line has installed its service. -/
  | loggingReady (structured : Bool) (level : Level)
  | starting (log : LogSettings)
deriving DecidableEq, Repr

/-- The level of a notice's event. -/
def Notice.level : Notice → Level
  | inputTooLarge .. | stopped .. | emptyBatch .. => .error
  | invalidCharacter .. | longInteger .. | missingEnd => .warning
  | scanComplete .. | recognized .. | accepted .. | timing .. | batchComplete ..
  | serviceReady | loggingReady .. | starting .. => .info
  | checking .. | scanning .. | scanned .. | streamCreated .. | entering .. | rejected .. =>
    .debug

end ExprCheck
