import ExprCheck.Text.Bytes

/-!
Places in a text, and the stretches between them.
-/

namespace ExprCheck

/-- The byte offset counts from 0, line and column from 1. -/
structure Position where
  offset : Nat
  line : Nat
  column : Nat
deriving DecidableEq, Repr, Inhabited

namespace Position

def start : Position := ⟨0, 1, 1⟩

/-- The place after `c`. Only a newline starts a line, and a column is one
character wide whatever its bytes. -/
def advance (p : Position) (c : Char) : Position :=
  if c = '\n' then
    { offset := p.offset + 1, line := p.line + 1, column := 1 }
  else
    { p with offset := p.offset + c.utf8Size, column := p.column + 1 }

def advanceOver (p : Position) (cs : List Char) : Position :=
  cs.foldl advance p

/-- By offset, then line, then column. -/
instance : Ord Position where
  compare p q :=
    (compare p.offset q.offset).then
      ((compare p.line q.line).then (compare p.column q.column))

def text (p : Position) : String :=
  s!"{p.line}:{p.column}"

end Position

/-- A stretch of a text, from the place before its first character to the place after
its last. Nothing requires the first place to come first. -/
structure Span where
  start : Position
  stop : Position
deriving DecidableEq, Repr, Inhabited

namespace Span

def emptyAt (p : Position) : Span := ⟨p, p⟩

/-- The span of tokens that stand in no text. -/
def dummy : Span := emptyAt .start

def isEmpty (s : Span) : Bool :=
  s.start.offset == s.stop.offset

/-- The length in bytes, if the span does not run backwards. -/
def length? (s : Span) : Option Nat :=
  if s.start.offset ≤ s.stop.offset then some (s.stop.offset - s.start.offset) else none

/-- The span from the smaller start to the greater stop; of equal offsets the
other span's place is taken. -/
def merge (s t : Span) : Span where
  start := if s.start.offset < t.start.offset then s.start else t.start
  stop := if s.stop.offset > t.stop.offset then s.stop else t.stop

/-- The part of `source` that the span covers, if it fits. -/
def slice? (s : Span) (source : List Char) : Option (List Char) :=
  Text.slice? s.start.offset s.stop.offset source

def text (s : Span) : String :=
  if s.start.line = s.stop.line then
    s!"{s.start.line}:{s.start.column}-{s.stop.column}"
  else
    s!"{s.start.text}-{s.stop.text}"

end Span
end ExprCheck
