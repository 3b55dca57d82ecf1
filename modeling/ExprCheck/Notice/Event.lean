import ExprCheck.Check
import ExprCheck.Log.Event
import ExprCheck.Moment
import ExprCheck.Notice
import ExprCheck.Number.Layout

/-!
The event that a notice becomes.
-/

namespace ExprCheck

/-- How many tokens were dealt with in a second, as a whole number. -/
def Duration.rate (d : Duration) (tokens : Nat) : String :=
  toString (Number.Binary.ofFloat (tokens.toFloat / max d.seconds 2.220446049250313e-16)).round

namespace Notice

/-- The event without its time. -/
def describe (elapsed : Duration) : Notice → Event
  | inputTooLarge length limit =>
    Event.error Code.inputTooLarge.id (Rejection.inputTooLarge length limit).message
      |>.withContext "input_bytes" (toString length)
      |>.withContext "limit" (toString limit)
  | checking bytes =>
    Event.debug "Checking input"
      |>.withContext "input_bytes" (toString bytes)
  | scanning bytes detailed =>
    Event.debug "Starting lexical analysis"
      |>.withContext "input_bytes" (toString bytes)
      |>.withContext "detailed_metrics" (toString detailed)
  | scanned token =>
    Event.debug "Scanned token"
      |>.withContext "category" token.category.name
      |>.withContext "lexeme" (token.lexeme.getD "")
      |>.withContext "span" token.span.text
  | invalidCharacter token =>
    Event.warningUnder Code.invalidCharacter.id "Character outside the expression alphabet"
      |>.withSpan token.span
      |>.withContext "lexeme" (token.lexeme.getD "")
  | longInteger token =>
    Event.warningUnder Code.longInteger.id "Integer literal is unusually long"
      |>.withSpan token.span
      |>.withContext "digits" (toString token.width)
  | scanComplete tally =>
    Event.success Code.scanComplete.id "Lexical analysis completed"
      |>.withContext "token_count" (toString tally.total)
      |>.withContext "integers" (toString tally.integers)
      |>.withContext "operators" (toString tally.operators)
      |>.withContext "parentheses" (toString tally.parens)
      |>.withContext "invalid" (toString tally.invalid)
      |>.withContext "whitespace_skipped" (toString tally.blanks)
  | streamCreated count =>
    Event.debug "Token stream created"
      |>.withContext "token_count" (toString count)
  | missingEnd =>
    Event.warningUnder Code.missingEnd.id "Token source ended without an end marker"
  | entering production lookahead depth =>
    Event.debug "Entering production"
      |>.withContext "production" production.name
      |>.withContext "lookahead" lookahead.text
      |>.withContext "depth" (toString depth)
  | recognized consumed depth =>
    Event.success Code.recognized.id "Input recognized"
      |>.withContext "tokens_consumed" (toString consumed)
      |>.withContext "max_depth" (toString depth)
  | stopped fault consumed =>
    Event.error fault.code.id fault.message
      |>.withSpan fault.span
      |>.withContext "tokens_consumed" (toString consumed)
  | accepted bytes tokens depth =>
    Event.success Code.accepted.id "Input accepted"
      |>.withContext "input_bytes" (toString bytes)
      |>.withContext "token_count" (toString tokens)
      |>.withContext "max_nesting_depth" (toString depth)
  | timing tokens =>
    Event.success Code.recognized.id "Recognition timing"
      |>.withContext "duration_ms" (Number.plain elapsed.milliseconds)
      |>.withContext "tokens_per_sec" (elapsed.rate tokens)
  | rejected code =>
    Event.debug "Input rejected"
      |>.withContext "code" code.id
      |>.withContext "category" code.entry.category
  | emptyBatch source =>
    Event.error Code.emptyBatch.id "Batch contains no expressions"
      |>.withContext "source" source
  | batchComplete total good bad =>
    Event.success Code.batchComplete.id "Batch check completed"
      |>.withContext "total" (toString total)
      |>.withContext "accepted" (toString good)
      |>.withContext "rejected" (toString bad)
  | serviceReady =>
    Event.success Code.loggingReady.id "Global logging system initialized"
  | loggingReady structured level =>
    Event.success Code.loggingReady.id "Logging initialized"
      |>.withContext "structured" (toString structured)
      |>.withContext "min_level" level.name
  | starting log =>
    Event.info "sel starting"
      |>.withContext "version" "0.1.0"
      |>.withContext "config" log.summary

/-- The event that a notice becomes at a moment. -/
def event (moment : Moment) (n : Notice) : Event :=
  { n.describe moment.elapsed with time := moment.seconds }

end Notice
end ExprCheck
