import ExprCheck.Grammar.Recognizer
import ExprCheck.Token.Analyzer

/-!
Checking a text: its length, then its tokens, then the program they form.
-/

namespace ExprCheck

/-- Why a text is not accepted. -/
inductive Rejection where
  | fault (f : Grammar.Fault)
  | inputTooLarge (length limit : Nat)
deriving DecidableEq, Repr

namespace Rejection

def message : Rejection → String
  | fault f => s!"Syntax analysis failed: {f.message}"
  | inputTooLarge length limit => s!"Input too large: {length} bytes (max {limit})"

def code : Rejection → Code
  | fault f => f.code
  | inputTooLarge .. => .inputTooLarge

def fault? : Rejection → Option Grammar.Fault
  | fault f => some f
  | inputTooLarge .. => none

def span? (r : Rejection) : Option Span :=
  r.fault?.map (·.span)

end Rejection

/-- What is known of a text that was accepted. -/
structure Acceptance where
  inputLength : Nat
  tally : Tally
  tokenCount : Nat
  tokensConsumed : Nat
  maxDepth : Nat
deriving DecidableEq, Repr

/-- One check of a text. -/
structure Pass where
  outcome : Except Rejection Acceptance
  /-- The tokens that were scanned. -/
  tokenCount : Nat
  notices : List Notice

/-- Checks a text that is not too long. -/
def Pass.ofText (settings : Settings) (text : String) (length : Nat) : Pass :=
  let ((tokens, scanNotices), analyzer) := Analyzer.scan { settings := settings.scanning } text
  let count := tokens.length
  let (result, recognizer) := (Grammar.Recognizer.ofTokens settings.grammar tokens).recognize
  let notices := .checking length :: scanNotices ++ recognizer.notices.reverse
  match result with
  | .ok _ =>
    { outcome := .ok
        { inputLength := length
          tally := analyzer.tally
          tokenCount := count
          tokensConsumed := recognizer.consumed
          maxDepth := recognizer.maxDepthSeen }
      tokenCount := count
      notices := notices
        ++ [.accepted length count recognizer.maxDepthSeen, .timing count] }
  | .error f => { outcome := .error (.fault f), tokenCount := count, notices := notices }

def check (settings : Settings) (text : String) : Pass :=
  let length := Text.byteLength text.toList
  let limit := settings.scanning.inputLimit
  if length ≤ limit then .ofText settings text length
  else
    { outcome := .error (.inputTooLarge length limit)
      tokenCount := 0
      notices := [.inputTooLarge length limit] }

end ExprCheck
