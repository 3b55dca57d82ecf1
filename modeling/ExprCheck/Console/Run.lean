import ExprCheck.Batch
import ExprCheck.Console.Arguments
import ExprCheck.Console.Filter
import ExprCheck.Log.Desk
import ExprCheck.Settings.Document

/-!
What the command line does. All of it is decided before the clock is read; the
time only enters into what is printed.
-/

namespace ExprCheck.Console

/-- What can be read at any time. -/
structure Surroundings where
  environment : Environment
  file : String → Except ReadFault (List Char)

/-- What a run comes to: a status, and what is printed at a moment. -/
structure Answer where
  status : Nat
  outputs : Moment → List Output

def versionText : String := "sel 0.1.0\n"

def helpText : String :=
  String.intercalate "\n"
    ["Command-line driver for the simple expression recognizer",
     "",
     "Usage: sel [OPTIONS] [EXPR]",
     "",
     "Arguments:",
     "  [EXPR]  Expression to check. Read from stdin when omitted",
     "",
     "Options:",
     "  -f, --file <PATH>      Check every non-empty line of a file",
     "      --json             Print JSON reports instead of verdict messages",
     "  -c, --config <PATH>    TOML configuration file",
     "  -v, --verbose...       Raise the log level (repeatable)",
     "      --structured-logs  Emit library log events as JSON lines on stderr",
     "  -h, --help             Print help",
     "  -V, --version          Print version",
     ""]

def usageText (f : UsageFault) : String :=
  s!"error: {f.message}\n\nUsage: sel [OPTIONS] [EXPR]\n\n"
    ++ "For more information, try '--help'.\n"

/-- A run that may have to ask for a line before it can answer. -/
inductive Dialogue where
  | answered (answer : Answer)
  /-- After some outputs, the answer depends on what reading a line comes to. -/
  | asking (before : Moment → List Output) (reply : Except ReadFault (List Char) → Answer)

namespace Answer

/-- The status for a verdict. -/
def statusOf : Verdict → Nat
  | .accepted => 0
  | .rejected => 1

/-- The status if nothing could be checked. -/
def failed : Nat := 2

/-- A run that fails with a message. -/
def failure (message : String) : Answer where
  status := failed
  outputs _ := [.err s!"error: {message}\n"]

/-- An answer after other outputs. -/
def after (before : Moment → List Output) (a : Answer) : Answer :=
  { a with outputs := fun moment => before moment ++ a.outputs moment }

end Answer

/-- The answer of a run, given what reading a line comes to. -/
def Dialogue.conclude (line : Except ReadFault (List Char)) : Dialogue → Answer
  | answered a => a
  | asking before reply => (reply line).after before

/-- The name of a file without the directories before it; a path that does not end
in a name is given whole. -/
def fileName (path : String) : String :=
  match ((path.splitOn "/").filter fun part => part ≠ "" ∧ part ≠ ".").getLast? with
  | none | some ".." => path
  | some name => name

namespace Invocation

/-- The settings of the file that is named, or else of the environment. -/
def settings (i : Invocation) (s : Surroundings) : Except Settings.Fault Settings := do
  let settings ← match i.config with
    | some path => Settings.ofFile s.environment path (s.file path)
    | none => pure (Settings.resolve s.environment {})
  settings.validate
  return settings

/-- The settings for logging after what the command line says about it. -/
def logSettings (i : Invocation) (log : LogSettings) : LogSettings :=
  { log with
    level := log.level.raisedBy i.verbosity
    structured := log.structured || i.structuredLogs }

end Invocation

/-- The desk of a run: events go to the second stream as JSON or as records. -/
def deskOf (env : Environment) (log : LogSettings) : Desk where
  environment := env
  settings := some log
  service := some
    { level := log.level
      outlet := .many log.level <|
        if log.structured then [.structured log.level]
        else if log.console then [.records (recordThreshold env log.level recordTarget)]
        else [] }

/-- What a desk prints of notices. -/
def tell (desk : Desk) (notices : List Notice) (moment : Moment) : List Output :=
  desk.printAll (desk.postAll moment notices).1

/-- What is said at the start. -/
def opening (log : LogSettings) : List Notice :=
  [.loggingReady log.structured log.level, .starting log]

/-- A diagnosis, if more was asked for. -/
def explain (i : Invocation) (report : Report) : List Output :=
  match report.error with
  | some diagnosis => if 0 < i.verbosity then [.err (diagnosis.render report.input)] else []
  | none => []

def printReport (i : Invocation) (report : Report) : List Output :=
  if i.json then [.out (report.toJson.pretty ++ "\n")]
  else .out (report.message ++ "\n") :: explain i report

/-- Checks one text. -/
def single (i : Invocation) (settings : Settings) (desk : Desk) (text : String) : Answer :=
  let pass := check settings text
  { status := Answer.statusOf pass.verdict
    outputs := fun moment =>
      tell desk pass.reportNotices moment ++ printReport i (.ofPass moment text pass) }

/-- Checks a line without the end that it was read with. -/
def singleLine (i : Invocation) (settings : Settings) (desk : Desk) :
    Except ReadFault (List Char) → Answer
  | .error cause => .failure cause.message
  | .ok line =>
    single i settings desk
      (String.ofList (Text.trimEnd (fun c => c == '\r' || c == '\n') line))

def printLine (i : Invocation) (moment : Moment) (l : Batch.Line) : List Output :=
  let report := Report.ofPass moment l.text l.pass
  .out s!"{l.number}: {report.message}\n" :: explain i report

def printBatch (i : Invocation) (path : String) (lines : List Batch.Line) (moment : Moment) :
    List Output :=
  if i.json then [.out ((Batch.toJson moment path lines).pretty ++ "\n")]
  else
    lines.flatMap (printLine i moment)
      ++ [.out (s!"{lines.length} checked, {Batch.accepted lines} accepted, "
        ++ s!"{Batch.rejected lines} rejected ({fileName path})\n")]

/-- Checks the lines of a file. -/
def batch (i : Invocation) (settings : Settings) (desk : Desk) (path : String) :
    Except ReadFault (List Char) → Answer
  | .error cause => .failure s!"cannot read '{path}': {cause.message}"
  | .ok contents =>
    let result := Batch.check settings contents
    let answer := match result with
      | .error f => Answer.failure f.message
      | .ok lines =>
        { status := Answer.statusOf (Batch.verdict lines)
          outputs := printBatch i path lines }
    answer.after (tell desk (Batch.notices path result))

/-- What a command line asks for, up to the point where a line is needed. -/
def plan (i : Invocation) (s : Surroundings) : Dialogue :=
  match i.settings s with
  | .error f => .answered (.failure f.message)
  | .ok settings =>
    let log := i.logSettings settings.log
    let desk := deskOf s.environment log
    let before := tell desk (opening log)
    match i.source with
    | .argument text => .answered ((single i settings desk text).after before)
    | .file path => .answered ((batch i settings desk path (s.file path)).after before)
    | .stdin =>
      .asking (fun moment => before moment ++ [.out "> "]) (singleLine i settings desk)

/-- Carries out what a command line asks for. -/
def perform (i : Invocation) (s : Surroundings) (line : Except ReadFault (List Char)) : Answer :=
  (plan i s).conclude line

/-- The beginning of the run for a command line. -/
def start (args : List String) (s : Surroundings) : Dialogue :=
  match parse args with
  | .ok i => plan i s
  | .error .help => .answered { status := 0, outputs := fun _ => [.out helpText] }
  | .error .version => .answered { status := 0, outputs := fun _ => [.out versionText] }
  | .error (.fault f) =>
    .answered { status := Answer.failed, outputs := fun _ => [.err (usageText f)] }

/-- The answer to a command line, given what reading a line comes to. -/
def run (args : List String) (s : Surroundings) (line : Except ReadFault (List Char)) : Answer :=
  (start args s).conclude line

end ExprCheck.Console
