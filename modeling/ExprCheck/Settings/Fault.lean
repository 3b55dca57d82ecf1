import ExprCheck.Log.Code
import ExprCheck.Settings
import ExprCheck.Toml.Reader

/-!
What can be wrong with a file, and with settings.
-/

namespace ExprCheck

/-- Why a file or a stream cannot be read as text. -/
inductive ReadFault where
  | notFound
  | isDirectory
  | notDirectory
  | notText
  /-- Another reason, in the system's words. -/
  | other (message : String)
deriving DecidableEq, Repr

def ReadFault.message : ReadFault → String
  | notFound => "No such file or directory (os error 2)"
  | isDirectory => "Is a directory (os error 21)"
  | notDirectory => "Not a directory (os error 20)"
  | notText => "stream did not contain valid UTF-8"
  | other message => message

namespace Settings

inductive Fault where
  /-- The file with the settings cannot be read. -/
  | unreadable (path : String) (cause : ReadFault)
  /-- The document is refused. -/
  | malformed (problem : Toml.Problem)
  /-- A number is too great for a document. -/
  | unwritable
  | limitExceeded (setting : String) (value limit : Nat)
  | invalidValue (setting reason : String)
deriving DecidableEq, Repr

namespace Fault

def message : Fault → String
  | unreadable path cause => s!"Failed to read configuration file '{path}': {cause.message}"
  | malformed problem => s!"Invalid TOML configuration: {problem.message}"
  | unwritable => "Failed to render configuration: number out of range"
  | limitExceeded setting value limit =>
    s!"Setting '{setting}' = {value} exceeds compile-time limit {limit}"
  | invalidValue setting reason => s!"Setting '{setting}' is invalid: {reason}"

def code : Fault → Code
  | unreadable .. => .unreadableInput
  | malformed .. | unwritable | invalidValue .. => .configurationError
  | limitExceeded .. => .configurationLimit

end Fault

/-- Refuses settings that would have to be kept within a limit; of two such the
first is named. -/
def validate (s : Settings) : Except Fault Unit :=
  if Limits.inputLength < s.scanning.maxInputLength then
    .error (.limitExceeded "lexical.max_input_length" s.scanning.maxInputLength
      Limits.inputLength)
  else if Limits.depth < s.grammar.maxDepth then
    .error (.limitExceeded "syntax.max_parse_depth" s.grammar.maxDepth Limits.depth)
  else if s.grammar.maxDepth = 0 then
    .error (.invalidValue "syntax.max_parse_depth" "must be at least 1")
  else .ok ()

end Settings
end ExprCheck
