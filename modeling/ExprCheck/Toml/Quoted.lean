import ExprCheck.Text.Characters

/-!
TOML strings: with escapes or without, on one line or on several. The readers
are given a bound on the characters they may meet.
-/

namespace ExprCheck.Toml

def isSpace (c : Char) : Bool :=
  c == ' ' || c == '\t'

def skipSpace (cs : List Char) : List Char :=
  cs.dropWhile isSpace

/-- Characters of comments and strings: no control characters but the tab. -/
def isPrintable (c : Char) : Bool :=
  c == '\t' || 0x20 ≤ c.toNat && c.toNat ≠ 0x7F

/-- The quote of strings without escapes. -/
def apostrophe : Char := '\x27'

def skipBlankLines : List Char → List Char
  | '\r' :: '\n' :: cs => skipBlankLines cs
  | c :: cs => if isSpace c || c == '\n' then skipBlankLines cs else c :: cs
  | [] => []

/-- What follows a newline. -/
def afterNewline? : List Char → Option (List Char)
  | '\n' :: cs => some cs
  | '\r' :: '\n' :: cs => some cs
  | _ => none

/-- Reads a number of hexadecimal digits as the number of a character. -/
def readCodePoint (count : Nat) (cs : List Char) : Option (Char × List Char) :=
  let digits := cs.take count
  let n := Text.number 16 digits
  if digits.length = count ∧ digits.all (fun c => (Text.hexValue? c).isSome) ∧ n.isValidChar then
    some (Char.ofNat n, cs.drop count)
  else none

/-- Reads what follows a backslash. -/
def readEscape : List Char → Option (Char × List Char)
  | 'b' :: cs => some ('\x08', cs)
  | 't' :: cs => some ('\t', cs)
  | 'n' :: cs => some ('\n', cs)
  | 'f' :: cs => some ('\x0c', cs)
  | 'r' :: cs => some ('\r', cs)
  | '"' :: cs => some ('"', cs)
  | '\\' :: cs => some ('\\', cs)
  | 'u' :: cs => readCodePoint 4 cs
  | 'U' :: cs => readCodePoint 8 cs
  | _ => none

/-- Reads a string with escapes up to its quote, after the characters in `done`,
of which the last comes first. -/
def readBasic : Nat → List Char → List Char → Option (String × List Char)
  | bound + 1, done, c :: cs =>
    if c = '"' then some (String.ofList done.reverse, cs)
    else if c = '\\' then
      match readEscape cs with
      | some (c, cs) => readBasic bound (c :: done) cs
      | none => none
    else if isPrintable c then readBasic bound (c :: done) cs
    else none
  | _, _, _ => none

/-- Reads a string without escapes up to its quote. -/
def readLiteral (cs : List Char) : Option (String × List Char) :=
  let text := cs.takeWhile fun c => isPrintable c && c != apostrophe
  match cs.drop text.length with
  | c :: cs => if c = apostrophe then some (String.ofList text, cs) else none
  | [] => none

/-- Reads a string of several lines up to three quotes, before which two more may
stand. A backslash at the end of a line joins it to what follows the next blanks;
`escapes` tells whether there are such. -/
def readLines (quote : Char) (escapes : Bool) :
    Nat → List Char → List Char → Option (String × List Char)
  | bound + 1, done, c :: cs =>
    if c = quote then
      let quotes := (c :: cs).takeWhile (· == quote)
      let rest := (c :: cs).drop quotes.length
      if quotes.length < 3 then readLines quote escapes bound (quotes ++ done) rest
      else if quotes.length ≤ 5 then
        some (String.ofList (quotes.drop 3 ++ done).reverse, rest)
      else none
    else if escapes ∧ c = '\\' then
      match afterNewline? (skipSpace cs) with
      | some cs => readLines quote escapes bound done (skipBlankLines cs)
      | none =>
        match readEscape cs with
        | some (c, cs) => readLines quote escapes bound (c :: done) cs
        | none => none
    else
      match afterNewline? (c :: cs) with
      | some cs => readLines quote escapes bound ('\n' :: done) cs
      | none => if isPrintable c then readLines quote escapes bound (c :: done) cs else none
  | _, _, _ => none

/-- Leaves out a newline at the start. -/
def dropNewline (cs : List Char) : List Char :=
  (afterNewline? cs).getD cs

/-- Reads a string that starts with a quote. -/
def readQuoted (bound : Nat) : List Char → Option (String × List Char)
  | '"' :: '"' :: '"' :: cs => readLines '"' true bound [] (dropNewline cs)
  | '"' :: cs => readBasic bound [] cs
  | '\x27' :: '\x27' :: '\x27' :: cs => readLines apostrophe false bound [] (dropNewline cs)
  | '\x27' :: cs => readLiteral cs
  | _ => none

end ExprCheck.Toml
