import ExprCheck.Report.Json
import ExprCheck.Text.Characters
import ExprCheck.Text.Lines

/-!
Batches: every line of a text that is not blank is checked as a text of its own.
-/

namespace ExprCheck.Batch

/-- Why no line is checked. -/
inductive Fault where
  | empty
  | tooManyLines (lines limit : Nat)
deriving DecidableEq, Repr

def Fault.message : Fault → String
  | empty => "no expressions found"
  | tooManyLines lines limit => s!"{lines} expressions exceed the batch limit of {limit}"

/-- A line that has been checked, with its number from 1. -/
structure Line where
  number : Nat
  text : String
  pass : Pass

/-- The lines that are not blank, with their numbers. -/
def expressions (contents : List Char) : List (Nat × List Char) :=
  ((Text.lines contents).mapIdx fun i line => (i + 1, line)).filter
    fun (_, line) => !line.all Text.isBlank

/-- Checks the lines of a text, unless there are none or too many. -/
def check (settings : Settings) (contents : List Char) : Except Fault (List Line) :=
  let lines := expressions contents
  if lines = [] then .error .empty
  else if Limits.batch < lines.length then .error (.tooManyLines lines.length Limits.batch)
  else .ok (lines.map fun (number, line) =>
    let text := String.ofList line
    ⟨number, text, ExprCheck.check settings text⟩)

def Line.isAccepted (l : Line) : Bool :=
  l.pass.verdict == .accepted

def accepted (lines : List Line) : Nat :=
  lines.countP (·.isAccepted)

def rejected (lines : List Line) : Nat :=
  lines.length - accepted lines

/-- Accepted if every line is. -/
def verdict (lines : List Line) : Verdict :=
  if rejected lines = 0 then .accepted else .rejected

/-- What is said about a batch from a source. -/
def notices (source : String) : Except Fault (List Line) → List Notice
  | .error .empty => [.emptyBatch source]
  | .error (.tooManyLines ..) => []
  | .ok lines =>
    lines.flatMap (·.pass.reportNotices)
      ++ [.batchComplete lines.length (accepted lines) (rejected lines)]

/-- The report on a batch, in which every line's report has its number too. -/
def toJson (moment : Moment) (source : String) (lines : List Line) : Json.Value :=
  .object
    [("source", .string source), ("total", .ofNat lines.length),
     ("accepted", .ofNat (accepted lines)), ("rejected", .ofNat (rejected lines)),
     ("duration_ms", .number (Number.numeral moment.elapsed.milliseconds)),
     ("reports", .array (lines.map fun l =>
       .object (("line", .ofNat l.number) :: (Report.ofPass moment l.text l.pass).jsonFields)))]

end ExprCheck.Batch
