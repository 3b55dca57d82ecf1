import ExprCheck.Toml.Quoted
import ExprCheck.Toml.Scalar

/-!
Reading TOML documents. The text is cut into sections, and these are put
together as a table.
-/

namespace ExprCheck.Toml

/-- Why a text is refused. -/
inductive Problem where
  /-- It is no TOML. -/
  | malformed
  /-- It defines something twice. -/
  | redefined
  /-- It gives a value of the wrong kind to a key. -/
  | mistyped
deriving DecidableEq, Repr

def Problem.message : Problem → String
  | malformed => "the text is not a TOML document"
  | redefined => "a key or table is defined twice"
  | mistyped => "a value is not of the expected kind"

/-- How deep arrays and tables in braces may be nested. -/
def nesting : Nat := 79

/-- How many names a dotted key may have. -/
def keyLength : Nat := 79

/-! Blanks, comments and line ends -/

/-- What follows a comment. -/
def skipComment (cs : List Char) : List Char :=
  cs.dropWhile isPrintable

/-- What follows the end of a line; the text may end there too. -/
def afterLineEnd? : List Char → Option (List Char)
  | [] => some []
  | cs => afterNewline? cs

/-- What follows a line on which nothing but a comment is left. -/
def afterTrailing? (cs : List Char) : Option (List Char) :=
  match skipSpace cs with
  | '#' :: cs => afterLineEnd? (skipComment cs)
  | cs => afterLineEnd? cs

/-- Skips blanks, newlines, and comments that end with a newline. -/
def skipBreaks : Nat → List Char → List Char
  | 0, cs => cs
  | bound + 1, cs =>
    let cs := skipSpace cs
    let line := match cs with
      | '#' :: cs => skipComment cs
      | cs => cs
    match afterNewline? line with
    | some cs => skipBreaks bound cs
    | none => cs

/-! Keys -/

def isBareChar (c : Char) : Bool :=
  c.isAlphanum || c == '_' || c == '-'

def readName (bound : Nat) : List Char → Option (String × List Char)
  | '"' :: cs => readBasic bound [] cs
  | '\x27' :: cs => readLiteral cs
  | cs =>
    let name := cs.takeWhile isBareChar
    if name = [] then none else some (String.ofList name, cs.dropWhile isBareChar)

/-- Reads a key, the names that lead to it coming after those in `path`, of
which the last comes first. -/
def readKey : Nat → List String → List Char → Option (Key × List Char)
  | 0, _, _ => none
  | bound + 1, path, cs =>
    match readName (bound + 1) (skipSpace cs) with
    | none => none
    | some (name, cs) =>
      match skipSpace cs with
      | '.' :: cs => readKey bound (name :: path) cs
      | cs => if path.length < keyLength then some (⟨path.reverse, name⟩, cs) else none

/-! Values -/

/-- Reads a string or a word. -/
def readScalar (bound : Nat) : List Char → Option (Item × List Char)
  | '"' :: cs => (readQuoted bound ('"' :: cs)).map fun (s, cs) => (.string s, cs)
  | '\x27' :: cs => (readQuoted bound ('\x27' :: cs)).map fun (s, cs) => (.string s, cs)
  | cs => readWord cs

/-- Steps that read a value. -/
abbrev ValueReader := List Char → Option (Item × List Char)

/-- Reads the rest of an array, after the items in `done`, of which the last comes
first. A comma may follow the last item. -/
def readArray (value : ValueReader) : Nat → List Item → ValueReader
  | 0, _, _ => none
  | bound + 1, done, cs =>
    match skipBreaks (bound + 1) cs with
    | ']' :: cs => some (.array done.reverse, cs)
    | cs =>
      match value cs with
      | none => none
      | some (item, cs) =>
        match skipBreaks (bound + 1) cs with
        | ',' :: cs => readArray value bound (item :: done) cs
        | ']' :: cs => some (.array (item :: done).reverse, cs)
        | _ => none

/-- Reads a key, the sign after it and a value. -/
def readPair (value : ValueReader) (bound : Nat) (cs : List Char) :
    Option ((Key × Item) × List Char) :=
  match readKey bound [] cs with
  | some (key, '=' :: cs) => (value (skipSpace cs)).map fun (item, cs) => ((key, item), cs)
  | _ => none

/-- Reads the pairs of a table in braces, after those in `done`, of which the last
comes first. -/
def readPairs (value : ValueReader) : Nat → List (Key × Item) → ValueReader
  | 0, _, _ => none
  | bound + 1, done, cs =>
    match readPair value (bound + 1) cs with
    | none => none
    | some (pair, cs) =>
      match skipSpace cs with
      | ',' :: cs => readPairs value bound (pair :: done) cs
      | '\x7d' :: cs => (fill (pair :: done).reverse []).map fun t => (.inline t, cs)
      | _ => none

/-- Reads a value in which `room` levels of arrays and tables may be nested. -/
def readValue (bound : Nat) : (room : Nat) → ValueReader
  | 0, cs => readScalar bound cs
  | room + 1, cs =>
    match cs with
    | '[' :: cs => readArray (readValue bound room) bound [] cs
    | '\x7b' :: cs =>
      match skipSpace cs with
      | '\x7d' :: cs => some (.inline [], cs)
      | cs => readPairs (readValue bound room) bound [] cs
    | cs => readScalar bound cs

/-! Documents -/

/-- Reads a header's key and the bracket or brackets after it. -/
def readHeading (bound : Nat) : List Char → Option (Heading × List Char)
  | '[' :: '[' :: cs =>
    match readKey bound [] cs with
    | some (key, ']' :: ']' :: cs) => some (.element key, cs)
    | _ => none
  | '[' :: cs =>
    match readKey bound [] cs with
    | some (key, ']' :: cs) => some (.table key, cs)
    | _ => none
  | _ => none

/-- A section whose pairs have been gathered, the last first. -/
def closeSection (heading : Heading) (pairs : List (Key × Item)) : Section :=
  ⟨heading, pairs.reverse⟩

/-- Reads lines, the pairs going to the section that is open, and the sections
after those in `done`, of which the last comes first. -/
def readSections :
    Nat → Heading → List (Key × Item) → List Section → List Char → Option (List Section)
  | 0, _, _, _, _ => none
  | bound + 1, heading, pairs, done, cs =>
    match skipSpace cs with
    | [] => some (closeSection heading pairs :: done).reverse
    | '[' :: cs =>
      match readHeading (bound + 1) ('[' :: cs) with
      | none => none
      | some (next, cs) =>
        match afterTrailing? cs with
        | none => none
        | some cs => readSections bound next [] (closeSection heading pairs :: done) cs
    | c :: cs =>
      if c = '#' ∨ c = '\n' ∨ c = '\r' then
        match afterTrailing? (c :: cs) with
        | none => none
        | some cs => readSections bound heading pairs done cs
      else
        match readPair (readValue (bound + 1) nesting) (bound + 1) (c :: cs) with
        | none => none
        | some (pair, cs) =>
          match afterTrailing? cs with
          | none => none
          | some cs => readSections bound heading (pair :: pairs) done cs

/-- Leaves out a byte order mark. -/
def dropMark : List Char → List Char
  | '\uFEFF' :: cs => cs
  | cs => cs

/-- Reads a document. No line takes more steps than there are characters left. -/
def parse (text : List Char) : Except Problem Table :=
  let cs := dropMark text
  match readSections (cs.length + 1) .document [] [] cs with
  | none => .error .malformed
  | some sections =>
    match assemble sections with
    | none => .error .redefined
    | some t => .ok t

end ExprCheck.Toml
