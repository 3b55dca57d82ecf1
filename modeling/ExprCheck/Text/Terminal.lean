/-!
Texts without what is meant for a terminal. An escape character begins a
sequence that ends as its kind demands; it is left out, and so are all control
characters but white space. White space inside a short sequence only puts it
off: what follows counts as text up to the next control character, where the
sequence goes on.
-/

namespace ExprCheck.Text.Terminal

/-- Which part of a sequence comes next. -/
inductive Phase where
  /-- None: there is no sequence. -/
  | none
  /-- What follows the escape character. -/
  | escape
  /-- The rest of an escape sequence with an intermediate character. -/
  | intermediate
  /-- The rest of a control sequence. -/
  | control
  /-- The parameters of a device control string. -/
  | deviceStart
  /-- More parameters of a device control string. -/
  | deviceParameters
  /-- The rest of what stands before the data of a device control string. -/
  | deviceIntermediate
  /-- The data of a device control string, or a message. -/
  | string
  /-- The rest of a command to the operating system. -/
  | command
deriving DecidableEq, Repr

/-- White space is kept wherever it controls anything. -/
def isSpace (c : Char) : Bool :=
  c == '\t' || c == '\n' || c == '\x0c' || c == '\r'

/-- Control characters are those before the blank, and the one that deletes. -/
def isControl (c : Char) : Bool :=
  c < ' ' || c == '\x7f'

/-- One of the bytes of the character in UTF-8 terminates strings. -/
def endsString (c : Char) : Bool :=
  (String.utf8EncodeChar c).contains 0x9c

namespace Phase

/-- What follows a character that is part of the sequence. Three control characters
do the same everywhere: one begins a sequence, and two break it off. -/
def next (phase : Phase) (c : Char) : Phase :=
  if c = '\x1b' then escape
  else if c = '\x18' ∨ c = '\x1a' then none
  else
    match phase with
    | none => none
    | escape =>
      if c = '[' then control
      else if c = ']' then command
      else if c = 'P' then deviceStart
      else if c = 'X' ∨ c = '^' ∨ c = '_' then string
      else if '0' ≤ c ∧ c ≤ '~' then none
      else if ' ' ≤ c ∧ c ≤ '/' then intermediate
      else escape
    | intermediate => if '0' ≤ c ∧ c ≤ '~' then none else intermediate
    | control => if '@' ≤ c ∧ c ≤ '~' then none else control
    | deviceStart =>
      if '@' ≤ c ∧ c ≤ '~' then string
      else if '0' ≤ c ∧ c ≤ '?' then deviceParameters
      else if ' ' ≤ c ∧ c ≤ '/' then deviceIntermediate
      else deviceStart
    | deviceParameters =>
      if '<' ≤ c ∧ c ≤ '~' then string
      else if ' ' ≤ c ∧ c ≤ '/' then deviceIntermediate
      else deviceParameters
    | deviceIntermediate => if '0' ≤ c ∧ c ≤ '~' then string else deviceIntermediate
    | string => if endsString c then none else string
    | command => if c = '\x07' then none else command

/-- In these phases white space is kept. -/
def isShort : Phase → Bool
  | none | escape | intermediate | control => true
  | deviceStart | deviceParameters | deviceIntermediate | string | command => false

end Phase

structure State where
  phase : Phase := .none
  /-- Whether white space has put the sequence off. -/
  paused : Bool := false
deriving DecidableEq, Repr

namespace State

/-- Whether characters count as text. -/
def inText (s : State) : Bool :=
  s.paused || s.phase == .none

def keeps (s : State) (c : Char) : Bool :=
  if s.inText then isSpace c || !isControl c else s.phase.isShort && isSpace c

/-- The state after a character. One beyond ASCII ends a sequence that was put off. -/
def next (s : State) (c : Char) : State :=
  if s.keeps c then
    if s.inText then if c ≤ '\x7f' then s else {} else { s with paused := true }
  else { phase := s.phase.next c }

end State

/-- What is kept of characters in a state, after those in `kept`, of which the
last comes first. -/
def stripFrom (kept : List Char) (s : State) : List Char → List Char
  | [] => kept.reverse
  | c :: cs => stripFrom (if s.keeps c then c :: kept else kept) (s.next c) cs

/-- Leaves out what is meant for a terminal. -/
def strip (cs : List Char) : List Char :=
  stripFrom [] {} cs

end ExprCheck.Text.Terminal
