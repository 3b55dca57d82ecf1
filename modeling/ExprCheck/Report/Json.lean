import ExprCheck.Json.Reader
import ExprCheck.Json.Writer
import ExprCheck.Limits
import ExprCheck.Number.Layout
import ExprCheck.Number.Reading
import ExprCheck.Report

/-!
Reports as JSON. Reading takes what writing gives, and a little more: fields in
any order or as an array, and other fields besides.
-/

namespace ExprCheck

open Json (Value)
open Number (wordBound halfWordBound)

namespace Position

def fieldNames : List String := ["offset", "line", "column"]

def toJson (p : Position) : Value :=
  .object [("offset", .ofNat p.offset), ("line", .ofNat p.line), ("column", .ofNat p.column)]

def ofJson? (v : Value) : Option Position := do
  match ← v.record? fieldNames with
  | [offset, line, column] =>
    return {
      offset := ← (← offset).nat? wordBound
      line := ← (← line).nat? halfWordBound
      column := ← (← column).nat? halfWordBound }
  | _ => none

end Position

namespace Span

def fieldNames : List String := ["start", "end"]

def toJson (s : Span) : Value :=
  .object [("start", s.start.toJson), ("end", s.stop.toJson)]

def ofJson? (v : Value) : Option Span := do
  match ← v.record? fieldNames with
  | [start, stop] =>
    return { start := ← Position.ofJson? (← start), stop := ← Position.ofJson? (← stop) }
  | _ => none

end Span

namespace Category

def toJson (c : Category) : Value :=
  .string c.label

def ofJson? (v : Value) : Option Category :=
  v.name?.bind ofLabel?

end Category

namespace Tally

def fieldNames : List String :=
  ["total_tokens", "integer_tokens", "operator_tokens", "paren_tokens", "invalid_tokens",
   "whitespace_skipped", "longest_integer", "oversized_integers"]

def toJson (m : Tally) : Value :=
  .object
    [("total_tokens", .ofNat m.total), ("integer_tokens", .ofNat m.integers),
     ("operator_tokens", .ofNat m.operators), ("paren_tokens", .ofNat m.parens),
     ("invalid_tokens", .ofNat m.invalid), ("whitespace_skipped", .ofNat m.blanks),
     ("longest_integer", .ofNat m.longestInteger), ("oversized_integers", .ofNat m.longIntegers)]

def ofJson? (v : Value) : Option Tally := do
  match ← v.record? fieldNames with
  | [total, integers, operators, parens, invalid, blanks, longestInteger, longIntegers] =>
    return {
      total := ← (← total).nat? wordBound
      integers := ← (← integers).nat? wordBound
      operators := ← (← operators).nat? wordBound
      parens := ← (← parens).nat? wordBound
      invalid := ← (← invalid).nat? wordBound
      blanks := ← (← blanks).nat? wordBound
      longestInteger := ← (← longestInteger).nat? wordBound
      longIntegers := ← (← longIntegers).nat? wordBound }
  | _ => none

end Tally

namespace Diagnosis

def fieldNames : List String :=
  ["code", "message", "description", "span", "expected", "found"]

def toJson (d : Diagnosis) : Value :=
  .object
    [("code", .string d.code), ("message", .string d.message),
     ("description", .string d.description), ("span", .ofOption Span.toJson d.span),
     ("expected", .array (d.expected.map Category.toJson)),
     ("found", .ofOption Category.toJson d.found)]

def ofJson? (v : Value) : Option Diagnosis := do
  match ← v.record? fieldNames with
  | [code, message, description, span, expected, found] =>
    return {
      code := ← (← code).string?
      message := ← (← message).string?
      description := ← (← description).string?
      span := ← Value.optional Span.ofJson? span
      expected := ← (← expected).list? Category.ofJson?
      found := ← Value.optional Category.ofJson? found }
  | _ => none

end Diagnosis

namespace Report

def fieldNames : List String :=
  ["input", "verdict", "message", "error", "token_count", "lexical_metrics", "duration_ms",
   "checked_at"]

/-- A field that is left out if there is nothing to say. -/
def optionalField (name : String) (f : α → Value) : Option α → List (String × Value)
  | some a => [(name, f a)]
  | none => []

/-- The fields of a report, in their order. -/
def jsonFields (r : Report) : List (String × Value) :=
  [("input", .string r.input), ("verdict", .string r.verdict.label),
   ("message", .string r.message)]
  ++ optionalField "error" Diagnosis.toJson r.error
  ++ [("token_count", .ofNat r.tokenCount)]
  ++ optionalField "lexical_metrics" Tally.toJson r.tally
  ++ [("duration_ms", .number (Number.numeral r.milliseconds)),
      ("checked_at", .string r.checkedAt.text)]

def toJson (r : Report) : Value :=
  .object r.jsonFields

def ofJson? (v : Value) : Option Report := do
  match ← v.record? fieldNames with
  | [input, verdict, message, error, tokenCount, tally, milliseconds, checkedAt] =>
    return {
      input := ← (← input).string?
      verdict := ← (← verdict).name?.bind Verdict.ofLabel?
      message := ← (← message).string?
      error := ← Value.optional Diagnosis.ofJson? error
      tokenCount := ← (← tokenCount).nat? wordBound
      tally := ← Value.optional Tally.ofJson? tally
      milliseconds := ← match ← milliseconds with
        | .number n => Number.float? n
        | _ => none
      checkedAt := ← Instant.parse? (← (← checkedAt).string?).toList }
  | _ => none

/-- Reads a report from its text. -/
def parse? (text : String) : Option Report :=
  (Json.parse? text).bind ofJson?

end Report
end ExprCheck
