import ExprCheck.Text.Characters
import ExprCheck.Token

/-!
Scanning a text into tokens. Every character is taken: blanks are skipped,
digits are gathered into integers, and a character that nothing else takes is
an invalid token of its own. So scanning cannot fail.
-/

namespace ExprCheck

/-- A text part way through scanning. -/
structure Scanner where
  /-- What has not been scanned. -/
  rest : List Char
  position : Position := .start
  /-- How many blanks have been skipped. -/
  blanks : Nat := 0
  /-- Whether the end marker has been given. -/
  finished : Bool := false
deriving DecidableEq, Repr

namespace Scanner

def ofText (text : String) : Scanner where
  rest := text.toList

/-- The category of a token that starts with `c`, which is no blank. -/
def classify (c : Char) : Category :=
  if Text.isDigit c then .integer
  else if c = '+' then .plus
  else if c = '*' then .times
  else if c = '(' then .openParen
  else if c = ')' then .closeParen
  else .invalid

/-- Cuts off the lexeme that starts with `c`: all digits of an integer, and
otherwise one character. -/
def cut (c : Char) (cs : List Char) : List Char × List Char :=
  if Text.isDigit c then (c :: cs.takeWhile Text.isDigit, cs.dropWhile Text.isDigit)
  else ([c], cs)

def skipBlanks (s : Scanner) : Scanner :=
  let gap := s.rest.takeWhile Text.isBlank
  { s with
    rest := s.rest.dropWhile Text.isBlank
    position := s.position.advanceOver gap
    blanks := s.blanks + gap.length }

/-- The next token: after the last one the end marker, and after that none. -/
def next (s : Scanner) : Option Token × Scanner :=
  if s.finished then
    (none, s)
  else
    let s := s.skipBlanks
    match s.rest with
    | [] => (some (.endMarker (.emptyAt s.position)), { s with finished := true })
    | c :: cs =>
      let (lexeme, rest) := cut c cs
      let stop := s.position.advanceOver lexeme
      (some ⟨classify c, some (String.ofList lexeme), ⟨s.position, stop⟩⟩,
        { s with rest := rest, position := stop })

/-- Bounds on the number of tokens to come: at most one for each character
left, and the end marker. -/
def sizeHint (s : Scanner) : Nat × Nat :=
  if s.finished then (0, 0) else (1, s.rest.length + 1)

/-- The tokens of at most `n` calls of `next`, put in front of those in `done`,
and the scanner after them. -/
def collect : Nat → Scanner → List Token → List Token × Scanner
  | 0, s, done => (done.reverse, s)
  | n + 1, s, done =>
    match s.next with
    | (none, s) => (done.reverse, s)
    | (some t, s) => collect n s (t :: done)

/-- All tokens to come. Each but the end marker takes a character, so there are
no more than `sizeHint` allows. -/
def run (s : Scanner) : List Token × Scanner :=
  collect s.sizeHint.2 s []

end Scanner

/-- The tokens of a text, the end marker last. -/
def scan (text : String) : List Token :=
  (Scanner.ofText text).run.1

end ExprCheck
