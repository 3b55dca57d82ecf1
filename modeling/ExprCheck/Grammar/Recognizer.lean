import ExprCheck.Notice

/-!
Recognizing programs in tokens, by descent and with one token of lookahead:

    program    → expression endOfInput
    expression → term (plus term)*
    term       → factor (times factor)*
    factor     → integer | openParen expression closeParen

A recognizer keeps its state after a fault: the token at fault stays ahead, and
the parentheses that were open stay open.
-/

namespace ExprCheck.Grammar

structure Recognizer where
  /-- The tokens behind the lookahead. -/
  source : List Token
  lookahead : Token
  consumed : Nat := 0
  /-- The parentheses that are open. -/
  depth : Nat := 0
  maxDepthSeen : Nat := 0
  maxDepth : Nat
  trace : Bool
  /-- What has been said, the latest first. -/
  notices : List Notice := []
deriving DecidableEq, Repr

namespace Recognizer

/-- The end marker that stands in for one that is missing. -/
def missingEnd : Token :=
  .endMarker .dummy

def ofTokens (settings : GrammarSettings) (tokens : List Token) : Recognizer where
  source := tokens.tail
  lookahead := tokens.head?.getD missingEnd
  maxDepth := settings.depthLimit
  trace := settings.traceProductions
  notices := if tokens = [] then [.missingEnd] else []

def say (r : Recognizer) (n : Notice) : Recognizer :=
  { r with notices := n :: r.notices }

/-- Hands over what has been said. -/
def takeNotices (r : Recognizer) : List Notice × Recognizer :=
  (r.notices.reverse, { r with notices := [] })

/-- Steps over the lookahead; an end marker stays ahead. -/
def step (r : Recognizer) : Recognizer :=
  let r := { r with consumed := r.consumed + 1 }
  if r.lookahead.isEnd then r
  else
    match r.source with
    | t :: source => { r with lookahead := t, source := source }
    | [] => { r with lookahead := missingEnd }.say .missingEnd

end Recognizer

/-- Steps of recognition: each changes the recognizer, and may stop at a fault. -/
abbrev Recognition := EStateM Fault Recognizer

namespace Recognition

/-- Steps over the lookahead and returns it. -/
def advance : Recognition Token :=
  modifyGet fun r => (r.lookahead, r.step)

/-- Steps over a token of a category; a token of another one is a fault. -/
def expect (c : Category) : Recognition Token := do
  let t := (← get).lookahead
  if t.category = c then advance else throw (.ofToken [c] t)

/-- Says that a production begins, if productions are traced. -/
def enter (production : Production) : Recognition Unit :=
  modify fun r => if r.trace then r.say (.entering production r.lookahead r.depth) else r

/-- Items with separators between them, at most `bound` of them. -/
def separated (separator : Category) (item : Recognition Unit) : Nat → Recognition Unit
  | 0 => pure ()
  | bound + 1 => do
    item
    if (← get).lookahead.category = separator then
      let _ ← advance
      separated separator item bound

def term (bound : Nat) (factor : Recognition Unit) : Recognition Unit := do
  enter .term
  separated .times factor bound

def expression (bound : Nat) (factor : Recognition Unit) : Recognition Unit := do
  enter .expression
  separated .plus (term bound factor) bound

/-- A factor, with `group` for what follows an opening parenthesis at a span. -/
def factorWith (group : Span → Recognition Unit) : Recognition Unit := do
  enter .factor
  let t := (← get).lookahead
  match t.category with
  | .integer => let _ ← advance
  | .openParen =>
    let _ ← advance
    group t.span
  | _ => throw (.ofToken [.integer, .openParen] t)

/-- A factor where `room` more parentheses may be opened. -/
def factor (bound : Nat) : (room : Nat) → Recognition Unit
  | 0 => factorWith fun span => do
    modify fun r => { r with depth := r.depth + 1 }
    let r ← get
    throw (.nestingTooDeep r.depth r.maxDepth span)
  | room + 1 => factorWith fun _ => do
    modify fun r =>
      { r with depth := r.depth + 1, maxDepthSeen := max r.maxDepthSeen (r.depth + 1) }
    expression bound (factor bound room)
    let _ ← expect .closeParen
    modify fun r => { r with depth := r.depth - 1 }

/-- A whole program. No repetition has more items than there are tokens, and
nothing may follow the end marker. -/
def program : Recognition Unit := do
  enter .program
  let r ← get
  let bound := r.source.length + 1
  expression bound (factor bound (r.maxDepth - r.depth))
  let _ ← expect .endOfInput
  let r ← get
  match r.source with
  | [] => pure ()
  | t :: source =>
    set { r with source := source }
    throw (.ofToken [] t)

end Recognition

namespace Recognizer

/-- What recognizing a program comes to, and the recognizer after it. -/
def recognize (r : Recognizer) : Except Fault Unit × Recognizer :=
  match Recognition.program.run r with
  | .ok _ r => (.ok (), r.say (.recognized r.consumed r.maxDepthSeen))
  | .error fault r => (.error fault, r.say (.stopped fault r.consumed))

def expect (r : Recognizer) (c : Category) : Except Fault Token × Recognizer :=
  match (Recognition.expect c).run r with
  | .ok t r => (.ok t, r)
  | .error fault r => (.error fault, r)

end Recognizer

/-- Whether tokens are a program. -/
def recognize (settings : GrammarSettings) (tokens : List Token) : Except Fault Unit :=
  (Recognizer.ofTokens settings tokens).recognize.1

end ExprCheck.Grammar
