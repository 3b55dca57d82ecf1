import ExprCheck.Source.Span
import ExprCheck.Text.Lines

/-!
Excerpts: a message, the line that it is about, and carets under the place. The
line is cut out of the source by a table of the offsets at which lines start.
-/

namespace ExprCheck

/-- A source with the byte offsets at which its lines start. -/
structure LineTable where
  source : List Char
  starts : Array Nat
deriving Repr

namespace LineTable

/-- Adds the offset behind each newline of a text that stands at `offset`. -/
def collect (offset : Nat) (starts : Array Nat) : List Char → Array Nat
  | [] => starts
  | c :: cs =>
    collect (offset + c.utf8Size) (if c = '\n' then starts.push (offset + 1) else starts) cs

def ofSource (source : List Char) : LineTable where
  source := source
  starts := collect 0 #[0] source

/-- What stands from the start of a line, counted from 0, up to the newline before
the next start or, behind the last start, up to the end. -/
def stretch? (t : LineTable) (n : Nat) : Option (List Char) := do
  let first ← t.starts[n]?
  let last := (t.starts[n + 1]?.map (· - 1)).getD (Text.byteLength t.source)
  Text.slice? first last t.source

/-- The line with number `n`, counted from 1, without the carriage returns at
its end. -/
def line? (t : LineTable) : Nat → Option (List Char)
  | 0 => none
  | n + 1 => (t.stretch? n).map (Text.trimEnd (fun c => c == '\n' || c == '\r'))

end LineTable

namespace Excerpt

/-- A line of a source, looked up in its table. -/
def line? (source : List Char) (n : Nat) : Option (List Char) :=
  (LineTable.ofSource source).line? n

/-- Carets as wide as the span, at least one, and one if it spans lines. -/
def caretCount (span : Span) : Nat :=
  if span.start.line = span.stop.line then max (span.stop.column - span.start.column) 1 else 1

/-- What stands under the line: blanks up to the first column, then carets. -/
def underline (span : Span) : List Char :=
  List.replicate (span.start.column - 1) ' ' ++ List.replicate (caretCount span) '^'

/-- The excerpt's text; without the line if the source does not have it. -/
def render (source : List Char) (span : Span) (message : String) : String :=
  let heading := s!"error: {message}\n  --> {span.start.text}\n"
  match line? source span.start.line with
  | none => heading
  | some line =>
    let number := toString span.start.line
    let gutter := String.ofList (List.replicate number.length ' ')
    heading ++ s!"{gutter} |\n{number} | {String.ofList line}\n"
      ++ s!"{gutter} | {String.ofList (underline span)}\n"

end Excerpt
end ExprCheck
