import ExprCheck.Limits
import ExprCheck.Settings
import ExprCheck.Text.Characters

/-!
Settings from environment variables. A variable whose value cannot be read
counts as one that is not set.
-/

namespace ExprCheck

/-- The value of each variable that is set. -/
abbrev Environment := String → Option String

namespace Environment

def bool? : String → Option Bool
  | "true" => some true
  | "false" => some false
  | _ => none

/-- A number of 64 bits in ASCII digits, with or without a plus in front. -/
def size? (s : String) : Option Nat :=
  let digits := match s.toList with
    | '+' :: digits => digits
    | digits => digits
  if digits ≠ [] ∧ digits.all Char.isDigit then Text.decimalBelow? Number.wordBound digits
  else none

end Environment

/-- The variables that set something. -/
def Environment.names : List String :=
  ["SEL_LEXICAL_DETAILED_METRICS", "SEL_LEXICAL_TRACE_TOKENS", "SEL_LEXICAL_MAX_INPUT_LENGTH",
   "SEL_SYNTAX_MAX_PARSE_DEPTH", "SEL_SYNTAX_TRACE_PRODUCTIONS", "SEL_LOGGING_USE_STRUCTURED",
   "SEL_LOGGING_ENABLE_CONSOLE", "SEL_LOGGING_MIN_LEVEL", "SEL_LOGGING_LOG_PERFORMANCE"]

/-- What the environment sets. -/
def Overrides.ofEnvironment (env : Environment) : Overrides where
  detailed := (env "SEL_LEXICAL_DETAILED_METRICS").bind Environment.bool?
  traceTokens := (env "SEL_LEXICAL_TRACE_TOKENS").bind Environment.bool?
  maxInputLength := (env "SEL_LEXICAL_MAX_INPUT_LENGTH").bind Environment.size?
  maxDepth := (env "SEL_SYNTAX_MAX_PARSE_DEPTH").bind Environment.size?
  traceProductions := (env "SEL_SYNTAX_TRACE_PRODUCTIONS").bind Environment.bool?
  structured := (env "SEL_LOGGING_USE_STRUCTURED").bind Environment.bool?
  console := (env "SEL_LOGGING_ENABLE_CONSOLE").bind Environment.bool?
  level := (env "SEL_LOGGING_MIN_LEVEL").bind Level.parse?
  timing := (env "SEL_LOGGING_LOG_PERFORMANCE").bind Environment.bool?

/-- The settings under given overrides: what they leave open comes from the
environment, and what that leaves open is built in. -/
def Settings.resolve (env : Environment) (overrides : Overrides) : Settings :=
  (overrides.orElse (.ofEnvironment env)).toSettings

end ExprCheck
