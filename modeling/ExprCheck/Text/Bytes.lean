/-!
Texts measured and cut in the bytes of their UTF-8 form.
-/

namespace ExprCheck.Text

def byteLength (cs : List Char) : Nat :=
  cs.foldr (fun c n => c.utf8Size + n) 0

@[simp]
theorem byteLength_nil : byteLength [] = 0 := rfl

@[simp]
theorem byteLength_cons (c : Char) (cs : List Char) :
    byteLength (c :: cs) = c.utf8Size + byteLength cs := rfl

/-- What follows the first `n` bytes, if these are whole characters. -/
def dropBytes? : Nat → List Char → Option (List Char)
  | 0, cs => some cs
  | _ + 1, [] => none
  | n + 1, c :: cs => if c.utf8Size ≤ n + 1 then dropBytes? (n + 1 - c.utf8Size) cs else none

/-- How many leading characters fit into `budget` bytes, added to `count`. -/
def fitting (budget : Nat) : List Char → Nat → Nat
  | [], count => count
  | c :: cs, count =>
    if c.utf8Size ≤ budget then fitting (budget - c.utf8Size) cs (count + 1) else count

/-- The longest beginning that takes at most `budget` bytes. -/
def takeBytes (budget : Nat) (cs : List Char) : List Char :=
  cs.take (fitting budget cs 0)

/-- The first `n` bytes, if these are whole characters. -/
def takeBytes? (n : Nat) (cs : List Char) : Option (List Char) :=
  let kept := takeBytes n cs
  if byteLength kept = n then some kept else none

/-- The bytes from `first` up to `last`, if the text has them and both ends
stand between characters. -/
def slice? (first last : Nat) (cs : List Char) : Option (List Char) :=
  if first ≤ last then (dropBytes? first cs).bind (takeBytes? (last - first)) else none

/-- Whether the first `n` bytes are whole characters. -/
def isBoundary (cs : List Char) (n : Nat) : Bool :=
  (dropBytes? n cs).isSome

/-- The nearest boundary, looking at `n` and then at one byte less after the other. -/
def boundaryBefore (cs : List Char) : Nat → Nat
  | 0 => 0
  | n + 1 => if isBoundary cs (n + 1) then n + 1 else boundaryBefore cs n

/-- Cuts a text of more than `budget` bytes at the last boundary within them and
marks the cut with three dots. -/
def abridge (budget : Nat) (cs : List Char) : List Char :=
  if byteLength cs ≤ budget then cs
  else takeBytes (boundaryBefore cs budget) cs ++ ['.', '.', '.']

end ExprCheck.Text
