/-!
The codes that events and faults carry, and what is known about each.
-/

namespace ExprCheck

inductive Severity where
  | critical
  | high
  | medium
  | low
deriving DecidableEq, Repr

namespace Severity

/-- From the worst on. -/
def rank : Severity → Nat
  | critical => 0
  | high => 1
  | medium => 2
  | low => 3

def name : Severity → String
  | critical => "Critical"
  | high => "High"
  | medium => "Medium"
  | low => "Low"

end Severity

inductive Code where
  | internalError
  | startFailure
  | configurationError
  | configurationLimit
  | inputTooLarge
  | unreadableInput
  | emptyBatch
  | invalidCharacter
  | longInteger
  | missingEnd
  | unexpectedEnd
  | unmatchedParen
  | trailingInput
  | invalidToken
  | unexpectedToken
  | nestingTooDeep
  | loggingReady
  | configurationLoaded
  | scanComplete
  | recognized
  | accepted
  | batchComplete
deriving DecidableEq, Repr

namespace Code

def all : List Code :=
  [internalError, startFailure, configurationError, configurationLimit, inputTooLarge,
   unreadableInput, emptyBatch, invalidCharacter, longInteger, missingEnd, unexpectedEnd,
   unmatchedParen, trailingInput, invalidToken, unexpectedToken, nestingTooDeep,
   loggingReady, configurationLoaded, scanComplete, recognized, accepted, batchComplete]

/-- The code as it is written. -/
def id : Code → String
  | internalError => "ERR001"
  | startFailure => "ERR002"
  | configurationError => "ERR003"
  | configurationLimit => "ERR004"
  | inputTooLarge => "E005"
  | unreadableInput => "E006"
  | emptyBatch => "E007"
  | invalidCharacter => "E020"
  | longInteger => "E021"
  | missingEnd => "E040"
  | unexpectedEnd => "E041"
  | unmatchedParen => "E042"
  | trailingInput => "E043"
  | invalidToken => "E044"
  | unexpectedToken => "E050"
  | nestingTooDeep => "E051"
  | loggingReady => "I001"
  | configurationLoaded => "I002"
  | scanComplete => "I010"
  | recognized => "I020"
  | accepted => "I030"
  | batchComplete => "I031"

def ofId? (s : String) : Option Code :=
  all.find? (·.id == s)

/-- What is known about a code. -/
structure Entry where
  category : String
  severity : Severity
  recoverable : Bool
  description : String
  /-- What the reader can do. -/
  action : String
deriving DecidableEq, Repr

def entry : Code → Entry
  | internalError =>
    ⟨"System", .critical, false, "Internal recognizer error",
      "Report the input that triggered the failure"⟩
  | startFailure =>
    ⟨"System", .critical, false, "Logging or runtime initialization failed",
      "Check that initialization runs once per process"⟩
  | configurationError =>
    ⟨"System", .high, false, "Configuration could not be parsed",
      "Fix the TOML syntax or the offending value"⟩
  | configurationLimit =>
    ⟨"System", .high, false, "Configuration exceeds a compile-time limit",
      "Lower the setting to the documented maximum"⟩
  | inputTooLarge =>
    ⟨"Input", .high, false, "Input exceeds the maximum accepted length",
      "Split the input or raise lexical.max_input_length within limits"⟩
  | unreadableInput =>
    ⟨"Input", .high, false, "Input could not be read",
      "Check the path and file permissions"⟩
  | emptyBatch =>
    ⟨"Input", .low, true, "Batch input contains no expressions",
      "Provide at least one non-empty line"⟩
  | invalidCharacter =>
    ⟨"Lexical", .medium, true, "Character outside the expression alphabet",
      "Use only digits, '+', '*', parentheses and whitespace"⟩
  | longInteger =>
    ⟨"Lexical", .low, true, "Integer literal is unusually long",
      "No action needed; the literal is still recognized"⟩
  | missingEnd =>
    ⟨"Syntax", .medium, true, "Token source ended without an end-of-input marker",
      "Terminate token sequences with an end-of-input token"⟩
  | unexpectedEnd =>
    ⟨"Syntax", .medium, true, "Input ended before the expression was complete",
      "Complete the expression with an operand"⟩
  | unmatchedParen =>
    ⟨"Syntax", .medium, true, "Parentheses are not balanced",
      "Match every '(' with a ')'"⟩
  | trailingInput =>
    ⟨"Syntax", .medium, true, "Tokens remain after a complete expression",
      "Join operands with '+' or '*' or remove the trailing tokens"⟩
  | invalidToken =>
    ⟨"Syntax", .medium, true, "Invalid character where an expression token was required",
      "Remove characters outside the expression alphabet"⟩
  | unexpectedToken =>
    ⟨"Syntax", .medium, true, "Unexpected token",
      "Check operator and operand placement"⟩
  | nestingTooDeep =>
    ⟨"Syntax", .high, true, "Parenthesis nesting exceeds the configured depth",
      "Reduce nesting or raise syntax.max_parse_depth within limits"⟩
  | loggingReady =>
    ⟨"System", .low, true, "Logging system initialized",
      "Continue"⟩
  | configurationLoaded =>
    ⟨"System", .low, true, "Configuration loaded",
      "Continue"⟩
  | scanComplete =>
    ⟨"Lexical", .low, true, "Tokenization completed",
      "Proceed to recognition"⟩
  | recognized =>
    ⟨"Syntax", .low, true, "Recognition completed",
      "Report the verdict"⟩
  | accepted =>
    ⟨"Pipeline", .low, true, "Input accepted",
      "Continue"⟩
  | batchComplete =>
    ⟨"Pipeline", .low, true, "Batch check completed",
      "Review the batch summary"⟩

/-- What is assumed about a code that nobody knows. -/
def Entry.unknown : Entry :=
  ⟨"Unknown", .medium, true, "Unknown error", "No specific action available"⟩

/-- The entry of a written code. -/
def Entry.ofId (s : String) : Entry :=
  ((ofId? s).map entry).getD .unknown

end Code
end ExprCheck
