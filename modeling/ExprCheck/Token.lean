import ExprCheck.Source.Span

/-!
The vocabulary that scanning and recognizing share.
-/

namespace ExprCheck

/-- The lexical classes, in their order. -/
inductive Category where
  | integer
  | plus
  | times
  | openParen
  | closeParen
  | endOfInput
  /-- A character that no other class takes. -/
  | invalid
deriving DecidableEq, Repr, Inhabited

namespace Category

def all : List Category :=
  [integer, plus, times, openParen, closeParen, endOfInput, invalid]

/-- The place of a category in `all`. -/
def index (c : Category) : Nat :=
  all.idxOf c

instance : Ord Category where
  compare c d := compare c.index d.index

/-- The name in log events. -/
def name : Category → String
  | integer => "INT"
  | plus => "PLUS"
  | times => "TIMES"
  | openParen => "OPEN_PAR"
  | closeParen => "CLOSE_PAR"
  | endOfInput => "EOF"
  | invalid => "BAD_TOKEN"

/-- The name in reports. -/
def label : Category → String
  | integer => "Integer"
  | plus => "Plus"
  | times => "Times"
  | openParen => "OpenParen"
  | closeParen => "CloseParen"
  | endOfInput => "EndOfInput"
  | invalid => "Invalid"

def ofLabel? (s : String) : Option Category :=
  all.find? (·.label == s)

/-- The words for a category in messages. -/
def describe : Category → String
  | integer => "integer"
  | plus => "'+'"
  | times => "'*'"
  | openParen => "'('"
  | closeParen => "')'"
  | endOfInput => "end of input"
  | invalid => "invalid character"

def isOperator (c : Category) : Bool :=
  c == plus || c == times

def isParen (c : Category) : Bool :=
  c == openParen || c == closeParen

end Category

/-- A classified piece of text. Only the end marker has no lexeme. -/
structure Token where
  category : Category
  lexeme : Option String
  span : Span
deriving DecidableEq, Repr, Inhabited

namespace Token

/-- The marker that follows the last piece of a text. -/
def endMarker (span : Span) : Token :=
  ⟨.endOfInput, none, span⟩

def isEnd (t : Token) : Bool :=
  t.category == .endOfInput

/-- The length of the lexeme in bytes. -/
def width (t : Token) : Nat :=
  Text.byteLength (t.lexeme.getD "").toList

def text (t : Token) : String :=
  match t.lexeme with
  | some lexeme => s!"[{t.category.name}, \"{lexeme}\"]"
  | none => s!"[{t.category.name}]"

end Token
end ExprCheck
