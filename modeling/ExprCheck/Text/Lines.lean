/-!
Texts as sequences of lines.
-/

namespace ExprCheck.Text

/-- The parts of a text between its newlines: one more than it has newlines. -/
def pieces (cs : List Char) : List (List Char) :=
  cs.foldr
    (fun c parts =>
      match c, parts with
      | '\n', parts => [] :: parts
      | c, [] => [[c]]
      | c, part :: parts => (c :: part) :: parts)
    [[]]

@[simp]
theorem pieces_nil : pieces [] = [[]] := rfl

@[simp]
theorem pieces_newline (cs : List Char) : pieces ('\n' :: cs) = [] :: pieces cs := rfl

/-- Leaves out the characters at the end that satisfy `p`. -/
def trimEnd (p : Char → Bool) (cs : List Char) : List Char :=
  (cs.reverse.dropWhile p).reverse

/-- Leaves out one carriage return at the end. -/
def dropReturn (cs : List Char) : List Char :=
  match cs.reverse with
  | '\r' :: kept => kept.reverse
  | _ => cs

/-- The lines of a text without their terminators `"\n"` and `"\r\n"`. A text
that ends in a terminator has no empty line after it. -/
def lines (cs : List Char) : List (List Char) :=
  let parts := pieces cs
  parts.dropLast.map dropReturn ++ (parts.getLast?.filter (· ≠ [])).toList

/-- A text up to and with its first newline. -/
def firstLine (cs : List Char) : List Char :=
  cs.takeWhile (· ≠ '\n') ++ (cs.dropWhile (· ≠ '\n')).take 1

/-- Sets every line but the first `width` columns in. -/
def indentRest (width : Nat) (cs : List Char) : List Char :=
  cs.foldr
    (fun c rest => if c = '\n' then '\n' :: (List.replicate width ' ' ++ rest) else c :: rest)
    []

end ExprCheck.Text
