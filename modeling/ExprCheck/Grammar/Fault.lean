import ExprCheck.Log.Code
import ExprCheck.Source.Excerpt
import ExprCheck.Token

/-!
Why tokens are no program. A fault belongs to the token that recognition could
not pass.
-/

namespace ExprCheck.Grammar

inductive Fault where
  /-- A token that is none of those which may stand in its place. -/
  | unexpected (expected : List Category) (found : Category) (lexeme : Option String)
      (span : Span)
  /-- A parenthesis that would be one too many to be open. -/
  | nestingTooDeep (depth limit : Nat) (span : Span)
deriving DecidableEq, Repr

namespace Fault

def ofToken (expected : List Category) (t : Token) : Fault :=
  .unexpected expected t.category t.lexeme t.span

def span : Fault → Span
  | unexpected _ _ _ span | nestingTooDeep _ _ span => span

def found : Fault → Category
  | unexpected _ found _ _ => found
  | nestingTooDeep .. => .openParen

def expected : Fault → List Category
  | unexpected expected _ _ _ => expected
  | nestingTooDeep .. => []

/-- The code of an unexpected token, by the first rule that fits. -/
def unexpectedCode (expected : List Category) (found : Category) : Code :=
  if found = .invalid then .invalidToken
  else if .closeParen ∈ expected ∨ found = .closeParen ∧ .endOfInput ∈ expected then
    .unmatchedParen
  else if found = .endOfInput then .unexpectedEnd
  else if expected = [] ∨ expected = [.endOfInput] then .trailingInput
  else .unexpectedToken

def code : Fault → Code
  | unexpected expected found _ _ => unexpectedCode expected found
  | nestingTooDeep .. => .nestingTooDeep

/-- The found token in words. Only integers and invalid characters are quoted. -/
def describeFound (found : Category) (lexeme : Option String) : String :=
  match found, lexeme with
  | .integer, some lexeme | .invalid, some lexeme => s!"{found.describe} '{lexeme}'"
  | _, _ => found.describe

def describeExpected : List Category → String
  | [] => "no further tokens"
  | expected => String.intercalate " or " (expected.map (·.describe))

def message : Fault → String
  | unexpected expected found lexeme span =>
    s!"Unexpected {describeFound found lexeme}: expected {describeExpected expected} at {span.text}"
  | nestingTooDeep depth limit span =>
    s!"Parenthesis nesting depth {depth} exceeds limit {limit} at {span.text}"

/-- The message with what the reader can do. -/
def advice (f : Fault) : String :=
  s!"{f.message}. {f.code.entry.action}"

/-- The fault under the line of the source where it stands. -/
def render (f : Fault) (source : String) : String :=
  Excerpt.render source.toList f.span s!"[{f.code.id}] {f.code.entry.description}"
    ++ s!"  = {f.message}\n"

end Fault
end ExprCheck.Grammar
